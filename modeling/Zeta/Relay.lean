import Zeta.Client
import Mathlib.Data.List.AList

/-!
# The relay

`relay.rs`: the map of registered peers and what one relay does with one datagram
(`handleMessage`) or one line typed on its console (`consoleLine`).

A `HashMap` is an association list without repeated keys; the order of its
entries is the iteration order, of which Rust promises nothing.  A result that
holds for every `PeersMap` holds for every order.
-/

namespace Zeta

/-- `PeerInfo`: the peer's id, the time it last registered, its Bitcoin address. -/
structure PeerInfo where
  peerId : String
  lastSeen : UInt64
  btcAddress : Option String
  deriving DecidableEq

/-- `HashMap<SocketAddr, PeerInfo>`. -/
abbrev PeersMap := AList (fun _ : SocketAddr => PeerInfo)

/-- `find_peer`: the first entry whose id or Bitcoin address is `id`. -/
def findPeer (peers : PeersMap) (id : String) : Option SocketAddr :=
  (peers.entries.find? (fun e => e.2.peerId = id ∨ e.2.btcAddress = some id)).map Sigma.fst

/-- The addresses `broadcast` sends to. -/
def broadcastTo (peers : PeersMap) (exclude : SocketAddr) : List SocketAddr :=
  peers.keys.filter (· ≠ exclude)

/-- `broadcast`. -/
def broadcast (peers : PeersMap) (exclude : SocketAddr) (msg : Message) : Sends :=
  (broadcastTo peers exclude).map (fun addr => (addr, msg))

/-- The state of a relay process. -/
structure RelayState where
  peers : PeersMap
  seen : SeenIds

/-- The constants of a running relay.  `addr` is the address its packets come from
and are sent to; the relay itself only knows that it listens on port 12345. -/
structure RelayContext (E : Ed25519) where
  peerId : String
  signingKey : E.SigningKey
  addr : SocketAddr
  peerRelays : List SocketAddr

/-- `relay_id`, under which a relay registers with its peers. -/
def RelayContext.relayId {E : Ed25519} (ctx : RelayContext E) : String := "relay:" ++ ctx.peerId

/-- `public_key` of `main_relay`. -/
def RelayContext.publicKey {E : Ed25519} (ctx : RelayContext E) : List UInt8 :=
  (E.toBytes (E.verifyingKey ctx.signingKey)).toList

/-- What `handle_message` did. -/
inductive RelayExit where
  | registered
  /-- `is_new` answered `false`. -/
  | duplicate
  | invalidSignature
  /-- A valid `Classic` with `ttl = 0`. -/
  | expired
  | unicast
  | broadcast
  /-- `AskForAddr` about a known peer. -/
  | answered
  | ignored
  deriving DecidableEq

/-- The result of one `handle_message`. -/
structure Relayed where
  exit : RelayExit
  state : RelayState
  sends : Sends

/-- `main_relay` up to its loops: nobody registered, cache empty. -/
def relayStartup : RelayState where
  peers := ∅
  seen := SeenIds.new 10000

section Handlers
variable (P : Platform)

/-- `handle_message`, on a `Register`. -/
def relayRegister (r : Register) (sender : SocketAddr) (s : RelayState) : Relayed :=
  -- The map is keyed by where the datagram came from, not by the address written in it.
  let info : PeerInfo :=
    { peerId := r.srcId, lastSeen := r.time, btcAddress := r.btcAddress }
  ⟨.registered, { s with peers := s.peers.insert sender info }, []⟩

/-- `handle_message`, on a `Classic`. -/
def relayClassic (m : Classic) (sender : SocketAddr) (s : RelayState) : Relayed :=
  let seen := s.seen.isNew m.msgId
  let s := { s with seen := seen.2 }
  if seen.1 = false then ⟨.duplicate, s, []⟩
  else if verify P.ed m.publicKey m.srcId m.txt m.time m.msgId m.signature = false then
    ⟨.invalidSignature, s, []⟩
  else if m.ttl > 0 then
    let fwd := { m with ttl := m.ttl - 1 }
    ⟨.broadcast, s, broadcast s.peers sender (.classic fwd)⟩
  else ⟨.expired, s, []⟩

/-- `handle_message`, on a `Payment` or a `PaymentAck`: to the peer known under
the destination id if there is one, else to everyone but the sender. -/
def relayTo (dstId : String) (msg : Message) (sender : SocketAddr) (s : RelayState) : Relayed :=
  match findPeer s.peers dstId with
  -- Neither a cache nor a hop limit, and the target may be the sender itself.
  | some addr => ⟨.unicast, s, [(addr, msg)]⟩
  | none => ⟨.broadcast, s, broadcast s.peers sender msg⟩

/-- `handle_message`, on an `AskForAddr`: the answer goes to the address written
in the request. -/
def relayAskForAddr (a : AskForAddr) (s : RelayState) : Relayed :=
  match s.peers.entries.find? (fun e => e.2.peerId = a.peerId) with
  | some e => ⟨.answered, s, [(a.srcAddr, .peerInfo e.1 a.peerId)]⟩
  | none => ⟨.ignored, s, []⟩

/-- `handle_message`. -/
def handleMessage (msg : Message) (sender : SocketAddr) (s : RelayState) : Relayed :=
  match msg with
  | .register r => relayRegister r sender s
  | .classic m => relayClassic P m sender s
  | .payment p => relayTo p.dstId msg sender s
  | .paymentAck a => relayTo a.toId msg sender s
  | .askForAddr a => relayAskForAddr a s
  | _ => ⟨.ignored, s, []⟩

/-- The `Classic` a relay builds from a line on its console. -/
def consoleClassic (ctx : RelayContext P.ed) (now msgId : UInt64) (line : String) :
    Classic where
  srcAddr := .v4 0 12345
  srcId := ctx.peerId
  dstAddr := .unspecified
  dstId := "all"
  txt := line
  time := now
  msgId := msgId
  ttl := 16
  publicKey := ctx.publicKey
  signature := sign P.ed ctx.signingKey ctx.peerId line now msgId

/-- The body of the console loop of `main_relay`. -/
def consoleLine (ctx : RelayContext P.ed) (now msgId : UInt64) (line : String)
    (s : RelayState) : RelayState × Sends :=
  -- The answer of `is_new` is ignored.
  ({ s with seen := (s.seen.isNew msgId).2 },
    broadcast s.peers .unspecified (.classic (consoleClassic P ctx now msgId line)))

/-- `register_with_peers`, and each beat of `spawn_heartbeat`. -/
def registerWithPeers (ctx : RelayContext P.ed) (now : UInt64) : Sends :=
  ctx.peerRelays.map (fun addr =>
    (addr, .register
      { srcAddr := .v4 0 12345, srcId := ctx.relayId, dstAddr := addr, dstId := "relay",
        time := now, btcAddress := none }))

end Handlers

/-! ## What one relay step does -/

variable {P : Platform} {sender : SocketAddr} {s : RelayState}

/-- The message a relay forwards for `m`: the same with one hop less. -/
def Classic.forwarded (m : Classic) : Classic := { m with ttl := m.ttl - 1 }

theorem relayClassic_duplicate {m : Classic} (h : m.msgId ∈ s.seen.set) :
    relayClassic P m sender s = ⟨.duplicate, s, []⟩ := by
  simp [relayClassic, SeenIds.isNew_of_mem h]

theorem relayClassic_invalid {m : Classic} (h : m.msgId ∉ s.seen.set)
    (hv : verify P.ed m.publicKey m.srcId m.txt m.time m.msgId m.signature = false) :
    relayClassic P m sender s =
      ⟨.invalidSignature, { s with seen := (s.seen.isNew m.msgId).2 }, []⟩ := by
  simp [relayClassic, h, hv]

theorem relayClassic_expired {m : Classic} (h : m.msgId ∉ s.seen.set)
    (hv : verify P.ed m.publicKey m.srcId m.txt m.time m.msgId m.signature = true)
    (ht : ¬ m.ttl > 0) :
    relayClassic P m sender s = ⟨.expired, { s with seen := (s.seen.isNew m.msgId).2 }, []⟩ := by
  simp only [relayClassic, SeenIds.isNew_fst, h, hv, ht, not_false_eq_true, decide_true,
    Bool.true_eq_false, if_false]

theorem relayClassic_broadcast {m : Classic} (h : m.msgId ∉ s.seen.set)
    (hv : verify P.ed m.publicKey m.srcId m.txt m.time m.msgId m.signature = true)
    (ht : m.ttl > 0) :
    relayClassic P m sender s =
      ⟨.broadcast, { s with seen := (s.seen.isNew m.msgId).2 },
        broadcast s.peers sender (.classic m.forwarded)⟩ := by
  simp only [relayClassic, SeenIds.isNew_fst, h, hv, ht, not_false_eq_true, decide_true,
    Bool.true_eq_false, if_false, if_true, Classic.forwarded]

/-- **A relay broadcasts a `Classic` only if it is new, verifies and has hops
left; otherwise it sends nothing.** -/
theorem relayClassic_cases (P : Platform) (m : Classic) (sender : SocketAddr)
    (s : RelayState) :
    (m.msgId ∉ s.seen.set ∧
      verify P.ed m.publicKey m.srcId m.txt m.time m.msgId m.signature = true ∧ m.ttl > 0 ∧
      (relayClassic P m sender s).exit = .broadcast ∧
      (relayClassic P m sender s).sends = broadcast s.peers sender (.classic m.forwarded)) ∨
    ((relayClassic P m sender s).exit ≠ .broadcast ∧ (relayClassic P m sender s).sends = []) := by
  by_cases h : m.msgId ∈ s.seen.set
  · exact Or.inr (by simp [relayClassic_duplicate h])
  · cases hv : verify P.ed m.publicKey m.srcId m.txt m.time m.msgId m.signature with
    | false => exact Or.inr (by simp [relayClassic_invalid h hv])
    | true =>
      by_cases ht : m.ttl > 0
      · exact Or.inl ⟨h, rfl, ht, by rw [relayClassic_broadcast h hv ht],
          by rw [relayClassic_broadcast h hv ht]⟩
      · exact Or.inr (by rw [relayClassic_expired h hv ht]; simp)

@[simp] theorem relayClassic_seen (m : Classic) :
    (relayClassic P m sender s).state.seen = (s.seen.isNew m.msgId).2 := by
  simp only [relayClassic]
  split
  · rfl
  · split
    · rfl
    · split <;> rfl

@[simp] theorem relayClassic_peers (m : Classic) :
    (relayClassic P m sender s).state.peers = s.peers := by
  simp only [relayClassic]
  split
  · rfl
  · split
    · rfl
    · split <;> rfl

@[simp] theorem relayTo_state (dstId : String) (msg : Message) :
    (relayTo dstId msg sender s).state = s := by
  unfold relayTo
  cases findPeer s.peers dstId <;> rfl

theorem mem_broadcast {peers : PeersMap} {exclude : SocketAddr} {msg : Message}
    {x : SocketAddr × Message} (h : x ∈ broadcast peers exclude msg) :
    x.1 ∈ peers.keys ∧ x.1 ≠ exclude ∧ x.2 = msg := by
  obtain ⟨addr, haddr, rfl⟩ := List.mem_map.mp h
  obtain ⟨hkey, hne⟩ := List.mem_filter.mp haddr
  exact ⟨hkey, of_decide_eq_true hne, rfl⟩

/-- A relay forwards a payment or an acknowledgement as it is. -/
theorem mem_relayTo {dstId : String} {msg : Message} {x : SocketAddr × Message}
    (h : x ∈ (relayTo dstId msg sender s).sends) : x.2 = msg := by
  unfold relayTo at h
  cases hf : findPeer s.peers dstId with
  | none =>
    rw [hf] at h
    exact (mem_broadcast h).2.2
  | some addr =>
    rw [hf] at h
    rw [List.mem_singleton.mp h]

/-- **What a relay may send**, having received `msg`: `msg` itself if it is a
payment or an acknowledgement, a verified `Classic` with one hop less, or the
answer to a question. -/
theorem mem_handleMessage_sends {msg : Message} {x : SocketAddr × Message}
    (h : x ∈ (handleMessage P msg sender s).sends) :
    (∃ p, msg = .payment p ∧ x.2 = msg) ∨
    (∃ a, msg = .paymentAck a ∧ x.2 = msg) ∨
    (∃ m, msg = .classic m ∧ x.2 = .classic m.forwarded ∧
      verify P.ed m.publicKey m.srcId m.txt m.time m.msgId m.signature = true) ∨
    (∃ addr id, x.2 = .peerInfo addr id) := by
  cases msg with
  | register r => cases h
  | connect c => cases h
  | peerInfo _ _ => cases h
  | payment p => exact Or.inl ⟨p, rfl, mem_relayTo h⟩
  | paymentAck a => exact Or.inr (Or.inl ⟨a, rfl, mem_relayTo h⟩)
  | classic m =>
    refine Or.inr (Or.inr (Or.inl ⟨m, rfl, ?_⟩))
    rcases relayClassic_cases P m sender s with
      ⟨-, hv, -, -, hsends⟩ | ⟨-, hsends⟩
    · rw [handleMessage, hsends] at h
      exact ⟨(mem_broadcast h).2.2, hv⟩
    · rw [handleMessage, hsends] at h
      cases h
  | askForAddr a =>
    refine Or.inr (Or.inr (Or.inr ?_))
    simp only [handleMessage, relayAskForAddr] at h
    split at h
    · rw [List.mem_singleton.mp h]
      exact ⟨_, _, rfl⟩
    · cases h

end Zeta
