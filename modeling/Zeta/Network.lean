import Zeta.ClientRun
import Zeta.Relay

/-!
# The network

All clients and relays together, and the datagrams between them.  A datagram that was
ever sent may be delivered to the node at its destination at any time, any number of
times, in any order, or never; outsiders may inject datagrams with any contents.
Commands, registrations and restarts happen whenever they like.

The lists `debited`, `credited` and `signed` are history, and no step reads them.
-/

namespace Zeta

/-- The clients and the relays of a network. -/
structure Network (P : Platform) (ι κ : Type) where
  client : ι → ClientContext P.ed
  relay : κ → RelayContext P.ed

/-- One call of `sign`: the key, and what was signed with it. -/
structure Signing where
  publicKey : List UInt8
  srcId : String
  txt : String
  time : UInt64
  msgId : UInt64
  deriving DecidableEq

/-- The state of all nodes and of the network between them. -/
structure World (ι κ : Type) where
  clients : ι → ClientState
  /-- Where a client's packets come from and are sent to. -/
  addr : ι → SocketAddr
  relays : κ → RelayState
  /-- Every datagram sent so far. -/
  sent : List Datagram
  /-- The payments debited so far, and by whom. -/
  debited : List (ι × Payment)
  /-- The payments credited so far, and to whom. -/
  credited : List (ι × Payment)
  signed : List Signing

/-- What happens in a network. -/
inductive WorldEvent (ι κ : Type) where
  /-- `/pay args` at client `i`. -/
  | pay (i : ι) (now paymentId : UInt64) (args : String)
  /-- A line of text at client `i`. -/
  | say (i : ι) (now msgId : UInt64) (text : String)
  /-- Client `i` registers with its relays. -/
  | register (i : ι) (now : UInt64)
  /-- A datagram is delivered to client `i`. -/
  | clientRecv (i : ι) (now : UInt64) (d : Datagram)
  /-- A datagram is delivered to relay `r`. -/
  | relayRecv (r : κ) (d : Datagram)
  /-- A line on the console of relay `r`. -/
  | console (r : κ) (now msgId : UInt64) (line : String)
  /-- Relay `r` registers with its peers. -/
  | federate (r : κ) (now : UInt64)
  /-- The map of relay `r` changes by itself: peers time out, and its iteration order
  is any order. -/
  | repeer (r : κ) (peers : PeersMap)
  /-- Client `i` ends and is started again, with a new socket. -/
  | restart (i : ι) (addr localAddr : SocketAddr)
  /-- An outsider puts a datagram on the network. -/
  | inject (d : Datagram)

/-- What the nodes find when they are started. -/
structure Boot (ι κ : Type) where
  addr : ι → SocketAddr
  localAddr : ι → SocketAddr
  file : ι → WalletFile
  relays : κ → RelayState

/-- The payment that a `do_pay` debited. -/
def PayExit.payments : PayExit → List Payment
  | .sent p => [p]
  | _ => []

/-- The payment that handling `msg` credited. -/
def ClientExit.payments : ClientExit → Message → List Payment
  | .credited, .payment p => [p]
  | _, _ => []

section Steps
variable {P : Platform} {ι κ : Type} [DecidableEq ι] [DecidableEq κ]

/-- Client `i` goes on to state `s` and hands `sends` to its socket. -/
def World.setClient (w : World ι κ) (i : ι) (s : ClientState) (sends : Sends) : World ι κ :=
  { w with
    clients := Function.update w.clients i s
    sent := w.sent ++ packets (w.addr i) sends }

/-- Relay `r`, at `addr`, goes on to state `s` and hands `sends` to its socket. -/
def World.setRelay (w : World ι κ) (r : κ) (addr : SocketAddr) (s : RelayState)
    (sends : Sends) : World ι κ :=
  { w with
    relays := Function.update w.relays r s
    sent := w.sent ++ packets addr sends }

namespace Network
variable (net : Network P ι κ)

/-- All nodes have just been started; the relays may know anybody. -/
def start (b : Boot ι κ) : World ι κ where
  clients i := startup P (net.client i) (b.localAddr i) (b.file i)
  addr := b.addr
  relays := b.relays
  sent := []
  debited := []
  credited := []
  signed := []

/-- The world after an event. -/
def next (w : World ι κ) : WorldEvent ι κ → World ι κ
  | .pay i now paymentId args =>
    let r := doPay P (net.client i) now paymentId args (w.clients i)
    { w.setClient i r.state r.sends with
      debited := w.debited ++ r.exit.payments.map (fun p => (i, p)) }
  | .say i now msgId text =>
    let r := sendMsg P (net.client i) now msgId text (w.clients i)
    { w.setClient i r.1 r.2 with
      signed := w.signed ++
        [⟨(net.client i).publicKey, (net.client i).peerId, text, now, msgId⟩] }
  | .register i now =>
    w.setClient i (w.clients i) (register P (net.client i) now (w.clients i))
  | .clientRecv i now d =>
    let r := recvLoop P (net.client i) now d.msg (w.clients i)
    { w.setClient i r.state r.sends with
      credited := w.credited ++ (r.exit.payments d.msg).map (fun p => (i, p)) }
  | .relayRecv r d =>
    let h := handleMessage P d.msg d.src (w.relays r)
    w.setRelay r (net.relay r).addr h.state h.sends
  | .console r now msgId line =>
    let h := consoleLine P (net.relay r) now msgId line (w.relays r)
    { w.setRelay r (net.relay r).addr h.1 h.2 with
      signed := w.signed ++
        [⟨(net.relay r).publicKey, (net.relay r).peerId, line, now, msgId⟩] }
  | .federate r now =>
    w.setRelay r (net.relay r).addr (w.relays r) (registerWithPeers P (net.relay r) now)
  | .repeer r peers =>
    w.setRelay r (net.relay r).addr { w.relays r with peers := peers } []
  | .restart i addr localAddr =>
    -- Only the wallet file outlives the process.
    { w with
      clients := Function.update w.clients i
        (startup P (net.client i) localAddr (w.clients i).walletFile)
      addr := Function.update w.addr i addr }
  | .inject d => { w with sent := w.sent ++ [d] }

/-- A datagram is delivered where it was sent to. -/
def Enabled (w : World ι κ) : WorldEvent ι κ → Prop
  | .clientRecv i _ d => d ∈ w.sent ∧ d.dst = w.addr i
  | .relayRecv r d => d ∈ w.sent ∧ d.dst = (net.relay r).addr
  | _ => True

/-- The network as an event system. -/
def system : EventSystem (World ι κ) (WorldEvent ι κ) where
  Enabled := net.Enabled
  next := net.next

instance (w : World ι κ) : (e : WorldEvent ι κ) → Decidable (net.system.Enabled w e)
  | .clientRecv _ _ _ | .relayRecv _ _ => inferInstanceAs (Decidable (_ ∧ _))
  | .pay _ _ _ _ | .say _ _ _ _ | .register _ _ | .console _ _ _ _ | .federate _ _
  | .repeer _ _ | .restart _ _ _ | .inject _ => isTrue trivial

end Network
end Steps
end Zeta
