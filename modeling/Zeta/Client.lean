import Zeta.SeenIds
import Zeta.Identity
import Zeta.AppState
import Mathlib.Data.List.DropRight

/-!
# The client

`client.rs`: what one client does with one datagram (`handleMsg`), one `/pay`
command (`doPay`), one line of text (`sendMsg`) and one start of the program
(`startup`).

Each function returns the state it leaves, the messages it hands to the socket
in order, and the exit it took, which the source shows only on its console.  The
receive task runs `handle_msg` to completion before it reads the next datagram,
and every access to the wallet is one critical section together with the save
that follows it, so a handler is one step here.  Send errors are discarded by
the source (`let _ =`); what the network does with a message is not decided here.
-/

namespace Zeta

/-- What the program runs on: the build profile and the libraries it calls. -/
structure Platform where
  build : Build
  ed : Ed25519
  json : WalletJson

/-- The constants of a running client: its `ClientContext` and its keys.  The
Bitcoin address is derived from a key file at startup. -/
structure ClientContext (E : Ed25519) where
  peerId : String
  signingKey : E.SigningKey
  myBtc : String
  relayAddrs : List SocketAddr

namespace ClientContext
variable {E : Ed25519} (ctx : ClientContext E)

/-- `signing_key.verifying_key().to_bytes().to_vec()`. -/
def publicKey : List UInt8 := (E.toBytes (E.verifyingKey ctx.signingKey)).toList

/-- `my_fp`. -/
def myFp : String := fingerprint ctx.publicKey

/-- The test "am I the recipient?": the id is one of this client's three. -/
def IsMe (id : String) : Prop := id = ctx.peerId ∨ id = ctx.myFp ∨ id = ctx.myBtc

instance (id : String) : Decidable (ctx.IsMe id) :=
  inferInstanceAs (Decidable (_ ∨ _ ∨ _))

theorem not_isMe_iff {id : String} :
    (id ≠ ctx.peerId ∧ id ≠ ctx.myFp ∧ id ≠ ctx.myBtc) ↔ ¬ ctx.IsMe id := by
  unfold IsMe
  tauto

theorem isMe_peerId : ctx.IsMe ctx.peerId := Or.inl rfl

end ClientContext

/-- The mutable state of a client process and its wallet file. -/
structure ClientState where
  /-- `socket.local_addr()`. -/
  localAddr : SocketAddr
  app : AppState
  seen : SeenIds
  walletFile : WalletFile
  /-- The receive task is running; a panic ends it, and nothing restarts it. -/
  receiving : Bool

/-- The balance as a number. -/
def ClientState.balance (s : ClientState) : Nat := s.app.wallet.balance.toNat

/-- Messages handed to the socket, with their next hop. -/
abbrev Sends := List (SocketAddr × Message)

/-- The datagrams that a node whose packets come from `src` puts on the network. -/
def packets (src : SocketAddr) (sends : Sends) : List Datagram :=
  sends.map (fun x => ⟨src, x.1, x.2⟩)

/-- `send_to_relays`. -/
def sendToRelays (msg : Message) (relays : List SocketAddr) : Sends :=
  relays.map (fun addr => (addr, msg))

/-- Where `handle_msg` returned. -/
inductive ClientExit where
  /-- `is_new` answered `false`. -/
  | duplicate
  | invalidSignature
  /-- A `Classic` was pushed to the feed. -/
  | displayed
  /-- The recipient test failed. -/
  | notForMe
  | credited
  /-- `credit` overflowed in a debug build: the receive task is gone. -/
  | panicked
  /-- A `PaymentAck` was pushed to the feed. -/
  | acknowledged
  /-- `_ => {}` -/
  | ignored
  deriving DecidableEq

/-- The result of one `handle_msg`. -/
structure Handled where
  exit : ClientExit
  state : ClientState
  sends : Sends

/-- The cache key of a payment: `payment_id ^ 0xFFFF_FFFF_0000_0000`. -/
def paymentKey (paymentId : UInt64) : UInt64 := paymentId ^^^ 0xFFFF_FFFF_0000_0000

/-- The cache key of an acknowledgement: `payment_id ^ 0xFFFF_0000_FFFF_0000`. -/
def ackKey (paymentId : UInt64) : UInt64 := paymentId ^^^ 0xFFFF_0000_FFFF_0000

section Handlers
variable (P : Platform) (ctx : ClientContext P.ed) (now : UInt64)

/-- `handle_msg`, on a `Classic`. -/
def handleClassic (m : Classic) (s : ClientState) : Handled :=
  -- The id is cached whether or not the signature turns out to be valid.
  let seen := s.seen.isNew m.msgId
  let s := { s with seen := seen.2 }
  if seen.1 = false then ⟨.duplicate, s, []⟩
  else if verify P.ed m.publicKey m.srcId m.txt m.time m.msgId m.signature = false then
    ⟨.invalidSignature, s, []⟩
  else
    let entry : ChatMessage :=
      { fromId := m.srcId, fingerprint := fingerprint m.publicKey, text := m.txt,
        timestamp := m.time, msgType := "message" }
    ⟨.displayed, { s with app := s.app.pushMessage entry }, []⟩

/-- `handle_msg`, on a `Payment`: the recipient test, the duplicate test, then
credit, save, feed and acknowledgement. -/
def handlePayment (p : Payment) (s : ClientState) : Handled :=
  if p.dstId ≠ ctx.peerId ∧ p.dstId ≠ ctx.myFp ∧ p.dstId ≠ ctx.myBtc then ⟨.notForMe, s, []⟩
  else
    let seen := s.seen.isNew (paymentKey p.paymentId)
    let s := { s with seen := seen.2 }
    if seen.1 = false then ⟨.duplicate, s, []⟩
    else
      match credit P.build s.app.wallet p.amount with
      -- The key stays cached: the panic comes after `is_new`.
      | none => ⟨.panicked, { s with receiving := false }, []⟩
      | some wallet =>
        let app := { s.app with wallet := wallet }
        let entry : ChatMessage :=
          { fromId := p.srcId, fingerprint := "", text := toString p.amount.toNat,
            timestamp := now, msgType := "payment_received" }
        let ack : PaymentAck :=
          { paymentId := p.paymentId, fromId := ctx.peerId, toId := p.srcId }
        ⟨.credited,
          { s with
            app := (app.pushMessage entry).broadcastWalletUpdate
            walletFile := saveWallet P.json wallet },
          sendToRelays (.paymentAck ack) ctx.relayAddrs⟩

/-- `handle_msg`, on a `PaymentAck`. -/
def handlePaymentAck (a : PaymentAck) (s : ClientState) : Handled :=
  if a.toId ≠ ctx.peerId ∧ a.toId ≠ ctx.myFp ∧ a.toId ≠ ctx.myBtc then ⟨.notForMe, s, []⟩
  else
    let seen := s.seen.isNew (ackKey a.paymentId)
    let s := { s with seen := seen.2 }
    if seen.1 = false then ⟨.duplicate, s, []⟩
    else
      let entry : ChatMessage :=
        { fromId := a.fromId, fingerprint := "", text := "", timestamp := now,
          msgType := "payment_ack" }
      ⟨.acknowledged, { s with app := s.app.pushMessage entry }, []⟩

/-- `handle_msg`. -/
def handleMsg (msg : Message) (s : ClientState) : Handled :=
  match msg with
  | .classic m => handleClassic P m s
  | .payment p => handlePayment P ctx now p s
  | .paymentAck a => handlePaymentAck P ctx now a s
  | _ => ⟨.ignored, s, []⟩

/-- One turn of `recv_loop`: a client whose receive task has panicked reads
nothing any more. -/
def recvLoop (msg : Message) (s : ClientState) : Handled :=
  if s.receiving then handleMsg P ctx now msg s else ⟨.ignored, s, []⟩

/-- `main_client` up to its loop: wallet loaded, feed and cache empty. -/
def startup (localAddr : SocketAddr) (file : WalletFile) : ClientState :=
  let loaded := loadOrCreateWallet P.json file ctx.myBtc
  { localAddr
    app := { messages := [], wallet := loaded.1, events := [] }
    seen := SeenIds.new 10000
    walletFile := loaded.2
    receiving := true }

/-- `register`, and each beat of `spawn_heartbeat`. -/
def register (s : ClientState) : Sends :=
  ctx.relayAddrs.map (fun relay =>
    (relay, .register
      { srcAddr := s.localAddr, srcId := ctx.peerId, dstAddr := relay, dstId := "relay",
        time := now, btcAddress := some ctx.myBtc }))

/-- The `Classic` that `send_msg` builds and signs. -/
def classicOf (msgId : UInt64) (text : String) (s : ClientState) : Classic where
  srcAddr := s.localAddr
  srcId := ctx.peerId
  dstAddr := ctx.relayAddrs.head?.getD .unspecified
  dstId := "all"
  txt := text
  time := now
  msgId := msgId
  ttl := 16
  publicKey := ctx.publicKey
  signature := sign P.ed ctx.signingKey ctx.peerId text now msgId

/-- `send_msg`; `msgId` is the random id it draws. -/
def sendMsg (msgId : UInt64) (text : String) (s : ClientState) : ClientState × Sends :=
  let entry : ChatMessage :=
    { fromId := ctx.peerId ++ " (vous)", fingerprint := fingerprint ctx.publicKey,
      text := text, timestamp := now, msgType := "message" }
  -- The client does not enter the id of its own text into its cache.
  ({ s with app := s.app.pushMessage entry },
    sendToRelays (.classic (classicOf P ctx now msgId text s)) ctx.relayAddrs)

end Handlers

/-! ## The `/pay` command -/

/-- `char::is_whitespace`: the Unicode property `White_Space`. -/
def isWhitespace (c : Char) : Bool :=
  let n := c.toNat
  (9 ≤ n && n ≤ 13) || n = 0x20 || n = 0x85 || n = 0xA0 || n = 0x1680 ||
    (0x2000 ≤ n && n ≤ 0x200A) || n = 0x2028 || n = 0x2029 || n = 0x202F ||
    n = 0x205F || n = 0x3000

/-- `str::trim`. -/
def trim (s : List Char) : List Char := (s.dropWhile isWhitespace).rdropWhile isWhitespace

/-- `args.splitn(2, ' ')`, when it yields two parts. -/
def splitSpace (args : List Char) : Option (List Char × List Char) :=
  match args.dropWhile (· ≠ ' ') with
  | [] => none
  | _ :: rest => some (args.takeWhile (· ≠ ' '), rest)

/-- The digit loop of `str::parse::<u64>`, which fails on a character that is no
digit and on overflow. -/
def parseDigits : Nat → List Char → Option Nat
  | acc, [] => some acc
  | acc, c :: cs =>
    if c.isDigit then
      let acc := acc * 10 + (c.toNat - 48)
      if acc < 2 ^ 64 then parseDigits acc cs else none
    else none

/-- `str::parse::<u64>`: at least one digit, after at most one `+`. -/
def parseU64 (s : List Char) : Option UInt64 :=
  let digits := match s with
    | '+' :: rest => rest
    | _ => s
  if digits = [] then none else (parseDigits 0 digits).map UInt64.ofNat

/-- Where `do_pay` returned. -/
inductive PayExit where
  | usage
  | invalidAmount
  | insufficientBalance
  | sent (p : Payment)
  deriving DecidableEq

/-- The result of one `do_pay`. -/
structure Paid where
  exit : PayExit
  state : ClientState
  sends : Sends

section Pay
variable (P : Platform) (ctx : ClientContext P.ed) (now : UInt64)

/-- `do_pay` once its arguments are read; `paymentId` is the random id it draws
after the debit. -/
def pay (paymentId : UInt64) (dst : String) (amount : UInt64) (s : ClientState) : Paid :=
  let debited := debit s.app.wallet amount
  if debited.1 = false then ⟨.insufficientBalance, s, []⟩
  else
    let app := { s.app with wallet := debited.2 }
    let p : Payment := { srcId := ctx.peerId, dstId := dst, amount, paymentId }
    let entry : ChatMessage :=
      { fromId := ctx.peerId ++ " (vous)", fingerprint := "",
        text := toString amount.toNat ++ " → " ++ dst, timestamp := now,
        msgType := "payment_sent" }
    ⟨.sent p,
      { s with
        app := (app.pushMessage entry).broadcastWalletUpdate
        walletFile := saveWallet P.json debited.2 },
      sendToRelays (.payment p) ctx.relayAddrs⟩

/-- `do_pay`. -/
def doPay (paymentId : UInt64) (args : String) (s : ClientState) : Paid :=
  match splitSpace args.toList with
  | none => ⟨.usage, s, []⟩
  | some (dst, amount) =>
    match parseU64 (trim amount) with
    | none => ⟨.invalidAmount, s, []⟩
    | some n =>
      if n > 0 then pay P ctx now paymentId (String.ofList (trim dst)) n s
      else ⟨.invalidAmount, s, []⟩

end Pay
end Zeta
