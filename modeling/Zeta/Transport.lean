import Zeta.Wire
import Zeta.Conservation

/-!
# The network in bytes

What is really on the network are UDP packets with bytes in them.  A node serialises each
message it sends (`transmit`); the receive loops deserialise what arrives, and go on to the
next packet where that fails.  Outsiders may inject any bytes.

The network of packets is simulated by the network of messages (`wire_simulates`): seen from
the nodes, bytes that are no message never arrive, and all others could have been sent as
the message they are read as.  Nothing is added: the nodes do what they do in bytes, and what
outsiders inject there are the messages in the packets that they inject here.  So what holds
in every run of the network of messages holds in every run of the network of packets, among
them the conservation of money.
-/

namespace Zeta

/-- A UDP packet. -/
structure Packet where
  src : SocketAddr
  dst : SocketAddr
  payload : List UInt8
  deriving DecidableEq

/-- The largest payload of a UDP packet over IPv4.  The sockets are bound to `0.0.0.0`, and
`send_to` fails on anything longer. -/
def maxPayload : ℕ := 65507

/-- The size of the buffer of both receive loops. -/
def bufferSize : ℕ := 65535

/-- What a receive loop makes of a packet: `recv_from` cuts off what does not fit the
buffer, and the rest is deserialised. -/
def Packet.read (B : Bincode) (p : Packet) : Option Message :=
  deserialize B (p.payload.take bufferSize)

/-- The packet could be this datagram: it goes the same way, and is read as what the wire leaves
of the message. -/
def Packet.CouldBe (B : Bincode) (p : Packet) (d : Datagram) : Prop :=
  d.src = p.src ∧ d.dst = p.dst ∧ p.read B = some d.msg.onWire

/-- What the wire leaves of a datagram. -/
def Datagram.onWire (d : Datagram) : Datagram := { d with msg := d.msg.onWire }

/-- `UdpSocketExt::send_msg`, on each of these messages.  An error is discarded. -/
def transmit (B : Bincode) (out : List Datagram) : List Packet :=
  (out.filter (fun d => (serialize B d.msg).length ≤ maxPayload)).map
    (fun d => ⟨d.src, d.dst, serialize B d.msg⟩)

/-- The nodes, and the packets sent so far.  No message is on its way in `nodes`. -/
structure WireWorld (ι κ : Type) where
  nodes : World ι κ
  wire : List Packet

/-- What happens in a network of packets. -/
inductive WireEvent (ι κ : Type) where
  /-- What a node does without receiving anything. -/
  | act (e : WorldEvent ι κ)
  /-- A packet is delivered to client `i`. -/
  | clientRecv (i : ι) (now : UInt64) (p : Packet)
  /-- A packet is delivered to relay `r`. -/
  | relayRecv (r : κ) (p : Packet)
  /-- An outsider puts a packet on the network. -/
  | inject (p : Packet)

/-- The event neither delivers nor injects anything. -/
def WorldEvent.IsLocal {ι κ : Type} : WorldEvent ι κ → Prop
  | .clientRecv _ _ _ | .relayRecv _ _ | .inject _ => False
  | _ => True

instance {ι κ : Type} : (e : WorldEvent ι κ) → Decidable e.IsLocal
  | .clientRecv _ _ _ | .relayRecv _ _ | .inject _ => isFalse id
  | .pay _ _ _ _ | .say _ _ _ _ | .register _ _ | .console _ _ _ _ | .federate _ _ | .repeer _ _
  | .restart _ _ _ => isTrue trivial

namespace Network
variable {P : Platform} {ι κ : Type} [DecidableEq ι] [DecidableEq κ] (net : Network P ι κ)
  (B : Bincode)

/-- The nodes do this, and what they send is serialised. -/
def perform (s : WireWorld ι κ) (e : WorldEvent ι κ) : WireWorld ι κ where
  nodes := { net.next s.nodes e with sent := [] }
  wire := s.wire ++ transmit B (net.emits s.nodes e)

/-- The network of packets. -/
def wireSystem : EventSystem (WireWorld ι κ) (WireEvent ι κ) where
  Enabled s
    | .act e => e.IsLocal
    | .clientRecv i _ p => p ∈ s.wire ∧ p.dst = s.nodes.addr i
    | .relayRecv r p => p ∈ s.wire ∧ p.dst = (net.relay r).addr
    | .inject _ => True
  next s
    | .act e => net.perform B s e
    | .clientRecv i now p =>
      match p.read B with
      | none => s
      | some msg => net.perform B s (.clientRecv i now ⟨p.src, p.dst, msg⟩)
    | .relayRecv r p =>
      match p.read B with
      | none => s
      | some msg => net.perform B s (.relayRecv r ⟨p.src, p.dst, msg⟩)
    | .inject p => { s with wire := s.wire ++ [p] }

instance (s : WireWorld ι κ) : (e : WireEvent ι κ) →
    Decidable ((net.wireSystem B).Enabled s e)
  | .act e => inferInstanceAs (Decidable e.IsLocal)
  | .clientRecv _ _ _ | .relayRecv _ _ => inferInstanceAs (Decidable (_ ∧ _))
  | .inject _ => isTrue trivial

/-- All nodes have just been started. -/
def wireStart (b : Boot ι κ) : WireWorld ι κ where
  nodes := net.start b
  wire := []

end Network

/-! ## Reading what was transmitted -/

section Reading
variable {B : Bincode}

theorem couldBe_onWire {p : Packet} {d : Datagram} : p.CouldBe B d.onWire ↔ p.CouldBe B d := by
  simp [Packet.CouldBe, Datagram.onWire]

/-- A message that fits is read as what the wire leaves of it. -/
theorem couldBe_serialize {d : Datagram} (h : (serialize B d.msg).length ≤ maxPayload) :
    Packet.CouldBe B ⟨d.src, d.dst, serialize B d.msg⟩ d := by
  have hlen : (serialize B d.msg).length ≤ 65507 := h
  have htake : (serialize B d.msg).take 65535 = serialize B d.msg :=
    List.take_of_length_le (by omega)
  refine ⟨rfl, rfl, ?_⟩
  show deserialize B ((serialize B d.msg).take 65535) = some d.msg.onWire
  rw [htake, ← List.append_nil (serialize B d.msg)]
  exact deserialize_serialize (by unfold wireLimit; omega) []

/-- A packet that a node sent could be the datagram that it sent. -/
theorem couldBe_of_mem_transmit {out : List Datagram} {p : Packet} (h : p ∈ transmit B out) :
    ∃ d ∈ out, p.CouldBe B d := by
  obtain ⟨d, hd, rfl⟩ := List.mem_map.mp h
  obtain ⟨hd, hlen⟩ := List.mem_filter.mp hd
  exact ⟨d, hd, couldBe_serialize (of_decide_eq_true hlen)⟩

/-- A datagram that fits is sent as such a packet. -/
theorem mem_transmit {out : List Datagram} {d : Datagram} (hd : d ∈ out)
    (h : (serialize B d.msg).length ≤ maxPayload) :
    ⟨d.src, d.dst, serialize B d.msg⟩ ∈ transmit B out :=
  List.mem_map_of_mem (List.mem_filter.mpr ⟨hd, decide_eq_true h⟩)

/-- What the wire leaves of a message is written as the message. -/
theorem serialize_onWire {msg : Message} (h : (serialize B msg).length ≤ maxPayload) :
    serialize B msg.onWire = serialize B msg := by
  have hlen : (serialize B msg).length ≤ 65507 := h
  exact (Message.codec B).encode_canon (by show (serialize B msg).length < 2 ^ 64; omega)

/-- **Sending the same, or what the wire leaves of it**: the packets are those of the
datagrams, up to what the wire makes of them. -/
theorem transmit_couldBe {out out' : List Datagram}
    (h : out' = out ∨ out' = out.map Datagram.onWire) :
    (∀ p ∈ transmit B out', ∃ d ∈ out, p.CouldBe B d) ∧
      ∀ d ∈ out, (serialize B d.msg).length ≤ maxPayload →
        ∃ p ∈ transmit B out', p.CouldBe B d := by
  rcases h with rfl | rfl
  · exact ⟨fun p hp => couldBe_of_mem_transmit hp,
      fun d hd hlen => ⟨_, mem_transmit hd hlen, couldBe_serialize hlen⟩⟩
  · refine ⟨fun p hp => ?_, fun d hd hlen => ?_⟩
    · obtain ⟨d', hd', hp⟩ := couldBe_of_mem_transmit hp
      obtain ⟨d, hd, rfl⟩ := List.mem_map.mp hd'
      exact ⟨d, hd, couldBe_onWire.mp hp⟩
    · have hlen' : (serialize B d.onWire.msg).length ≤ maxPayload := by
        rwa [Datagram.onWire, serialize_onWire hlen]
      exact ⟨_, mem_transmit (List.mem_map_of_mem hd) hlen',
        couldBe_onWire.mp (couldBe_serialize hlen')⟩

/-- What is read has lost nothing. -/
theorem onWire_of_read {p : Packet} {msg : Message} (h : p.read B = some msg) :
    msg.onWire = msg := by
  obtain ⟨⟨msg', rest⟩, hdec, hmsg⟩ := Option.map_eq_some_iff.mp h
  subst hmsg
  refine (Message.codec B).canon_of_decode hdec ?_
  have hlen : (p.payload.take 65535).length ≤ 65535 := List.length_take_le _ _
  show (p.payload.take 65535).length < 2 ^ 64
  omega

end Reading

/-! ## What the addresses in a message matter -/

section Addresses
variable {P : Platform}

/-- No client reads the addresses in a message. -/
theorem recvLoop_onWire (ctx : ClientContext P.ed) (now : UInt64) (msg : Message)
    (s : ClientState) : recvLoop P ctx now msg.onWire s = recvLoop P ctx now msg s := by
  cases msg <;> rfl

theorem clientExit_payments_onWire (exit : ClientExit) (msg : Message) :
    exit.payments msg.onWire = exit.payments msg := by
  cases exit <;> cases msg <;> rfl

theorem evictedBy_onWire (ctx : ClientContext P.ed) (msg : Message) (s : ClientState) :
    evictedBy ctx msg.onWire s = evictedBy ctx msg s := by
  cases msg <;> rfl

/-- The message is a question for an address that the wire would change. -/
def AsksForLost (msg : Message) : Prop := ∃ a, msg = .askForAddr a ∧ msg.onWire ≠ msg

/-- **A relay reads no address but that of a question**: it does the same with what is left
of a message, and sends the same, or what is left of it. -/
theorem handleMessage_onWire {msg : Message} (h : ¬ AsksForLost msg) (sender : SocketAddr)
    (s : RelayState) :
    let out := handleMessage P msg sender s
    let out' := handleMessage P msg.onWire sender s
    out'.state = out.state ∧
      (out'.sends = out.sends ∨ out'.sends = out.sends.map (fun x => (x.1, x.2.onWire))) := by
  intro out out'
  cases msg with
  | register _ | connect _ | peerInfo _ _ | payment _ | paymentAck _ => exact ⟨rfl, Or.inl rfl⟩
  | askForAddr a =>
    have hkept : (Message.askForAddr a).onWire = .askForAddr a :=
      Classical.not_not.mp (fun hlost => h ⟨a, rfl, hlost⟩)
    have hsame : out' = out := congrArg (fun msg => handleMessage P msg sender s) hkept
    rw [hsame]
    exact ⟨rfl, Or.inl rfl⟩
  | classic m =>
    have hout' : out' = relayClassic P m.onWire sender s := rfl
    have hout : out = relayClassic P m sender s := rfl
    by_cases hold : m.msgId ∈ s.seen.set
    · rw [hout', hout, relayClassic_duplicate hold, relayClassic_duplicate (m := m.onWire) hold]
      exact ⟨rfl, Or.inl rfl⟩
    · cases hv : verify P.ed m.publicKey m.srcId m.txt m.time m.msgId m.signature with
      | false =>
        rw [hout', hout, relayClassic_invalid hold hv,
          relayClassic_invalid (m := m.onWire) hold hv]
        exact ⟨rfl, Or.inl rfl⟩
      | true =>
        by_cases ht : m.ttl > 0
        · rw [hout', hout, relayClassic_broadcast hold hv ht,
            relayClassic_broadcast (m := m.onWire) hold hv ht]
          refine ⟨rfl, Or.inr ?_⟩
          simp [broadcast, Message.onWire, Classic.onWire, Classic.forwarded]
        · rw [hout', hout, relayClassic_expired hold hv ht,
            relayClassic_expired (m := m.onWire) hold hv ht]
          exact ⟨rfl, Or.inl rfl⟩

end Addresses

/-! ## The simulation -/

namespace Network
variable {P : Platform} {ι κ : Type} [DecidableEq ι] [DecidableEq κ] {net : Network P ι κ}
  {B : Bincode}

/-- **The network of packets as seen in messages**: the nodes are the same, every packet that
is read as a message could be one on its way, every message on its way that fits could be such
a packet, and no question for an address has one that the wire would change. -/
structure Carries (B : Bincode) (s : WireWorld ι κ) (w : World ι κ) : Prop where
  nodes : s.nodes = { w with sent := [] }
  sent : ∀ p ∈ s.wire, ∀ msg, p.read B = some msg → ∃ d ∈ w.sent, p.CouldBe B d
  wire : ∀ d ∈ w.sent, (serialize B d.msg).length ≤ maxPayload → ∃ p ∈ s.wire, p.CouldBe B d
  asked : ∀ d ∈ w.sent, ¬ AsksForLost d.msg

/-- A condition on what the nodes do, on the steps of the network of packets: a packet that
is no message is ignored. -/
def InMessages (B : Bincode) (ok : World ι κ → WorldEvent ι κ → Prop) (s : WireWorld ι κ) :
    WireEvent ι κ → Prop
  | .act e => ok s.nodes e
  | .clientRecv i now p =>
    ∀ msg, p.read B = some msg → ok s.nodes (.clientRecv i now ⟨p.src, p.dst, msg⟩)
  | .relayRecv r p => ∀ msg, p.read B = some msg → ok s.nodes (.relayRecv r ⟨p.src, p.dst, msg⟩)
  | .inject p => ∀ msg, p.read B = some msg → ok s.nodes (.inject ⟨p.src, p.dst, msg⟩)

/-- A packet is seen as an event with a datagram that it could be, and is not seen if it is no
message. -/
def Packet.SeenAs {δ : Type} (B : Bincode) (p : Packet) (event : Datagram → δ) : Option δ → Prop
  | none => p.read B = none
  | some a => ∃ d, a = event d ∧ p.CouldBe B d

/-- **What an event is seen as in messages**: the nodes do the same. -/
def SeenAs (B : Bincode) : WireEvent ι κ → Option (WorldEvent ι κ) → Prop
  | .act e, a => a = some e
  | .clientRecv i now p, a => Packet.SeenAs B p (.clientRecv i now) a
  | .relayRecv r p, a => Packet.SeenAs B p (.relayRecv r) a
  | .inject p, a => Packet.SeenAs B p .inject a

/-- The condition depends neither on what is on its way nor on the addresses in a message. -/
structure Blind (ok : World ι κ → WorldEvent ι κ → Prop) : Prop where
  sent : ∀ w l e, ok { w with sent := l } e → ok w e
  clientRecv : ∀ w i now src dst msg, ok w (.clientRecv i now ⟨src, dst, msg.onWire⟩) →
    ok w (.clientRecv i now ⟨src, dst, msg⟩)
  relayRecv : ∀ w r src dst msg, ok w (.relayRecv r ⟨src, dst, msg.onWire⟩) →
    ok w (.relayRecv r ⟨src, dst, msg⟩)

omit [DecidableEq ι] [DecidableEq κ] in
/-- What is on its way has no part in what the nodes do. -/
theorem emits_sent (w : World ι κ) (l : List Datagram) (e : WorldEvent ι κ) :
    net.emits { w with sent := l } e = net.emits w e := by
  cases e <;> rfl

theorem next_sent (w : World ι κ) (l : List Datagram) (e : WorldEvent ι κ) :
    { net.next { w with sent := l } e with sent := [] } =
      { net.next w e with sent := ([] : List Datagram) } := by
  cases e <;> rfl

/-- **The same step on both sides.**  If the nodes do `e'` in bytes and `e` in messages, to
the same effect, and send the same up to what the wire makes of it, the two remain
related. -/
theorem carries_perform {s : WireWorld ι κ} {w : World ι κ} {e e' : WorldEvent ι κ}
    (h : Carries B s w) (hen : net.Enabled w e)
    (hnodes : { net.next w e' with sent := [] } =
      ({ net.next w e with sent := [] } : World ι κ))
    (hemits : net.emits w e' = net.emits w e ∨
      net.emits w e' = (net.emits w e).map Datagram.onWire)
    (hlocal : ∀ d, e ≠ .inject d) :
    Carries B (net.perform B s e') (net.next w e) := by
  obtain ⟨hback, hforth⟩ := transmit_couldBe (B := B) hemits
  have hwire : (net.perform B s e').wire = s.wire ++ transmit B (net.emits w e') := by
    rw [perform, h.nodes, emits_sent]
  refine ⟨?_, ?_, ?_, ?_⟩
  · show { net.next s.nodes e' with sent := [] } = _
    rw [h.nodes, next_sent, hnodes]
  · intro p hp msg hread
    rw [hwire] at hp
    rw [sent_eq_append_emits]
    rcases List.mem_append.mp hp with hold | hnew
    · obtain ⟨d, hd, hpd⟩ := h.sent p hold msg hread
      exact ⟨d, List.mem_append_left _ hd, hpd⟩
    · obtain ⟨d, hd, hpd⟩ := hback p hnew
      exact ⟨d, List.mem_append_right _ hd, hpd⟩
  · intro d hd hlen
    rw [sent_eq_append_emits] at hd
    rw [hwire]
    rcases List.mem_append.mp hd with hold | hnew
    · obtain ⟨p, hp, hpd⟩ := h.wire d hold hlen
      exact ⟨p, List.mem_append_left _ hp, hpd⟩
    · obtain ⟨p, hp, hpd⟩ := hforth d hnew hlen
      exact ⟨p, List.mem_append_right _ hp, hpd⟩
  · intro d hd
    rcases sent_origin hen hd with hold | hinject | horigin
    · exact h.asked d hold
    · exact absurd hinject (hlocal d)
    · rintro ⟨a, ha, hlost⟩
      -- No node asks for an address by itself.
      rw [ha] at horigin
      cases horigin with
      | relayed hold hmsg => exact h.asked _ hold ⟨a, hmsg, by rw [hmsg, ← ha]; exact hlost⟩

/-- A delivery to a client, in bytes and in messages. -/
theorem carries_clientRecv {s : WireWorld ι κ} {w : World ι κ} (h : Carries B s w) {i : ι}
    {now : UInt64} {src dst : SocketAddr} {msg : Message} (hd : ⟨src, dst, msg⟩ ∈ w.sent)
    (haddr : dst = w.addr i) :
    Carries B (net.perform B s (.clientRecv i now ⟨src, dst, msg.onWire⟩))
      (net.next w (.clientRecv i now ⟨src, dst, msg⟩)) := by
  apply carries_perform h (e := .clientRecv i now ⟨src, dst, msg⟩) ⟨hd, haddr⟩
  · simp only [next, recvLoop_onWire, clientExit_payments_onWire]
  · exact Or.inl (by rw [emits, recvLoop_onWire, emits])
  · intro d heq
    cases heq

/-- A delivery to a relay, in bytes and in messages. -/
theorem carries_relayRecv {s : WireWorld ι κ} {w : World ι κ} (h : Carries B s w) {r : κ}
    {src dst : SocketAddr} {msg : Message} (hd : ⟨src, dst, msg⟩ ∈ w.sent)
    (haddr : dst = (net.relay r).addr) :
    Carries B (net.perform B s (.relayRecv r ⟨src, dst, msg.onWire⟩))
      (net.next w (.relayRecv r ⟨src, dst, msg⟩)) := by
  obtain ⟨hstate, hsends⟩ := handleMessage_onWire (P := P) (h.asked _ hd) src (w.relays r)
  apply carries_perform h (e := .relayRecv r ⟨src, dst, msg⟩) ⟨hd, haddr⟩
  · simp only [next, World.setRelay, hstate]
  · rcases hsends with hsame | hleft
    · exact Or.inl (congrArg (packets (net.relay r).addr) hsame)
    · refine Or.inr ((congrArg (packets (net.relay r).addr) hleft).trans ?_)
      simp [packets, emits, Datagram.onWire]
  · intro d heq
    cases heq

omit [DecidableEq ι] [DecidableEq κ] in
/-- An injection, in bytes and in messages. -/
theorem carries_inject {s : WireWorld ι κ} {w : World ι κ} (h : Carries B s w) {p : Packet}
    {msg : Message} (hread : p.read B = some msg) :
    p.CouldBe B ⟨p.src, p.dst, msg⟩ ∧
      Carries B { s with wire := s.wire ++ [p] }
        { w with sent := w.sent ++ [⟨p.src, p.dst, msg⟩] } := by
  have hcanon := onWire_of_read hread
  have hpd : p.CouldBe B ⟨p.src, p.dst, msg⟩ := ⟨rfl, rfl, hread.trans (congrArg some hcanon.symm)⟩
  refine ⟨hpd, h.nodes, ?_, ?_, ?_⟩
  · intro q hq msg' hq'
    rcases List.mem_append.mp hq with hold | hnew
    · obtain ⟨d, hd, hqd⟩ := h.sent q hold msg' hq'
      exact ⟨d, List.mem_append_left _ hd, hqd⟩
    · rw [List.mem_singleton.mp hnew]
      exact ⟨_, List.mem_append_right _ (List.mem_singleton_self _), hpd⟩
  · intro d hd hlen
    rcases List.mem_append.mp hd with hold | hnew
    · obtain ⟨q, hq, hqd⟩ := h.wire d hold hlen
      exact ⟨q, List.mem_append_left _ hq, hqd⟩
    · rw [List.mem_singleton.mp hnew]
      exact ⟨p, List.mem_append_right _ (List.mem_singleton_self _), hpd⟩
  · intro d hd
    rcases List.mem_append.mp hd with hold | hnew
    · exact h.asked d hold
    · rw [List.mem_singleton.mp hnew]
      rintro ⟨-, -, hlost⟩
      exact hlost hcanon

omit [DecidableEq ι] [DecidableEq κ] in
/-- Bytes that are no message are not seen. -/
theorem carries_junk {s : WireWorld ι κ} {w : World ι κ} (h : Carries B s w) {p : Packet}
    (hread : p.read B = none) : Carries B { s with wire := s.wire ++ [p] } w := by
  refine ⟨h.nodes, ?_, ?_, h.asked⟩
  · intro q hq msg hq'
    rcases List.mem_append.mp hq with hold | hnew
    · exact h.sent q hold msg hq'
    · rw [List.mem_singleton.mp hnew, hread] at hq'
      cases hq'
  · intro d hd hlen
    obtain ⟨q, hq, hqd⟩ := h.wire d hd hlen
    exact ⟨q, List.mem_append_left _ hq, hqd⟩

omit [DecidableEq ι] [DecidableEq κ] in
theorem enabled_of_isLocal {w : World ι κ} {e : WorldEvent ι κ} (h : e.IsLocal) :
    net.Enabled w e := by
  cases e with
  | clientRecv _ _ _ | relayRecv _ _ | inject _ => cases h
  | pay _ _ _ _ | say _ _ _ _ | register _ _ | console _ _ _ _ | federate _ _ | repeer _ _
  | restart _ _ _ => trivial

/-- **The network of messages simulates the network of packets.** -/
theorem wire_simulates {ok : World ι κ → WorldEvent ι κ → Prop} (hok : Blind ok) :
    EventSystem.Simulates (net.wireSystem B) net.system (Carries B) (InMessages B ok) ok
      (SeenAs B) := by
  intro s w e h hen hoke
  cases e with
  | act e =>
    have hok' : ok w e := by
      rw [InMessages, h.nodes] at hoke
      exact hok.sent w [] e hoke
    have hen' : net.Enabled w e := enabled_of_isLocal hen
    refine Or.inr ⟨e, hen', hok', rfl, carries_perform h hen' rfl (Or.inl rfl) ?_⟩
    rintro d rfl
    cases hen
  | clientRecv i now p =>
    cases hread : p.read B with
    | none =>
      refine Or.inl ⟨hread, ?_⟩
      simp only [wireSystem, hread]
      exact h
    | some msg =>
      obtain ⟨⟨src, dst, msg₀⟩, hd, rfl, rfl, hmsg⟩ := h.sent p hen.1 msg hread
      obtain rfl : msg = msg₀.onWire := Option.some.inj (hread.symm.trans hmsg)
      have haddr : p.dst = w.addr i := by
        rw [hen.2, h.nodes]
      have hok' := hoke _ hread
      rw [h.nodes] at hok'
      refine Or.inr ⟨.clientRecv i now ⟨p.src, p.dst, msg₀⟩, ⟨hd, haddr⟩,
        hok.sent w [] _ (hok.clientRecv _ _ _ _ _ _ hok'), ⟨_, rfl, rfl, rfl, hread⟩, ?_⟩
      simp only [wireSystem, hread]
      exact carries_clientRecv h hd haddr
  | relayRecv r p =>
    cases hread : p.read B with
    | none =>
      refine Or.inl ⟨hread, ?_⟩
      simp only [wireSystem, hread]
      exact h
    | some msg =>
      obtain ⟨⟨src, dst, msg₀⟩, hd, rfl, rfl, hmsg⟩ := h.sent p hen.1 msg hread
      obtain rfl : msg = msg₀.onWire := Option.some.inj (hread.symm.trans hmsg)
      have hok' := hoke _ hread
      rw [h.nodes] at hok'
      refine Or.inr ⟨.relayRecv r ⟨p.src, p.dst, msg₀⟩, ⟨hd, hen.2⟩,
        hok.sent w [] _ (hok.relayRecv _ _ _ _ _ hok'), ⟨_, rfl, rfl, rfl, hread⟩, ?_⟩
      simp only [wireSystem, hread]
      exact carries_relayRecv h hd hen.2
  | inject p =>
    cases hread : p.read B with
    | none => exact Or.inl ⟨hread, carries_junk h hread⟩
    | some msg =>
      have hok' := hoke _ hread
      rw [h.nodes] at hok'
      obtain ⟨hpd, hcarries⟩ := carries_inject h hread
      exact Or.inr ⟨.inject ⟨p.src, p.dst, msg⟩, trivial, hok.sent w [] _ hok', ⟨_, rfl, hpd⟩,
        hcarries⟩

omit [DecidableEq ι] [DecidableEq κ] in
theorem carries_start (b : Boot ι κ) : Carries B (net.wireStart b) (net.start b) :=
  ⟨rfl, nofun, nofun, nofun⟩

omit [DecidableEq ι] [DecidableEq κ] in
theorem blind_true : Blind (fun (_ : World ι κ) _ => True) :=
  ⟨fun _ _ _ _ => trivial, fun _ _ _ _ _ _ _ => trivial, fun _ _ _ _ _ _ => trivial⟩

omit [DecidableEq ι] [DecidableEq κ] in
theorem blind_honest : Blind (Honest net) where
  sent w l e h := by cases e <;> exact h
  clientRecv w i now src dst msg h := by
    intro hrun
    rw [← evictedBy_onWire]
    exact h hrun
  relayRecv _ _ _ _ _ _ := trivial

/-! ## Runs -/

/-- **Every run over packets is a run over messages.**  Whatever bytes are injected, and
however packets are lost, duplicated and reordered: leave out the packets that are no message,
and read all others as the messages they could have been.  What is left is, event by event, a
run of the network of messages.  It leads all nodes to the same states with the same payments
and texts, every packet that a receive loop would still accept is a message on its way in it,
and every message on its way that fits into a packet is such a packet. -/
theorem exists_message_run (net : Network P ι κ) (B : Bincode) (b : Boot ι κ)
    (es : List (WireEvent ι κ))
    (hrun : (net.wireSystem B).Always (fun _ _ => True) (net.wireStart b) es) :
    ∃ as, net.system.Always (fun _ _ => True) (net.start b) as ∧
      EventSystem.SeenIn (SeenAs B) as es ∧
      Carries B ((net.wireSystem B).run (net.wireStart b) es) (net.system.run (net.start b) as) :=
  (wire_simulates blind_true).exists_run (carries_start b)
    (hrun.imp (fun _ e _ _ => by cases e <;> simp [InMessages]))

/-- **Satoshis are conserved over packets.**  While nobody injects a packet that is read as
a message, restarts a client or makes a cache forget an id, the balances and the payments
debited but not credited always add up to what the clients started with. -/
theorem wire_sats_conserved [Fintype ι] (net : Network P ι κ) (B : Bincode) (b : Boot ι κ)
    (es : List (WireEvent ι κ))
    (hnames : ∀ i j id, (net.client i).IsMe id → (net.client j).IsMe id → i = j)
    (htotal : ∑ i, ((net.start b).clients i).balance < 2 ^ 64)
    (hrun : (net.wireSystem B).Always (InMessages B (Honest net)) (net.wireStart b) es) :
    let w := ((net.wireSystem B).run (net.wireStart b) es).nodes
    ∑ i, (w.clients i).balance + ((w.debits - w.credits).map Payment.sats).sum =
        ∑ i, ((net.start b).clients i).balance ∧ w.credits ≤ w.debits := by
  intro w
  obtain ⟨as, has, -, hcarries⟩ :=
    (wire_simulates blind_honest).exists_run (carries_start b) hrun
  obtain ⟨hkept, hbooks⟩ := kept_run b hnames htotal has
  have hw : w = { net.system.run (net.start b) as with sent := [] } := hcarries.nodes
  rw [hw]
  exact ⟨hbooks, hkept.credits_le⟩

/-! ## A run between alice and bob -/

/-- A packet without contents reaches the relay, then alice's payment to bob does. -/
def packetRun : List (WireEvent (Fin 2) (Fin 1)) :=
  let payer : Fin 2 := ⟨0, Nat.two_pos⟩
  let hub : Fin 1 := ⟨0, Nat.one_pos⟩
  let relay : SocketAddr := .v4 0x0A000001 12345
  let noise : Packet := ⟨.v4 3 40000, relay, []⟩
  [.inject noise, .relayRecv hub noise, .act (.pay payer 0 7 "bob 5"),
    .relayRecv hub ⟨.v4 1 40000, relay, serialize Bincode.fixint (.payment fiveForBob)⟩]

theorem packetRun_honest :
    (aliceAndBob.wireSystem Bincode.fixint).Always
      (InMessages Bincode.fixint (Honest aliceAndBob)) (aliceAndBob.wireStart aliceAndBobBoot)
      packetRun := by
  have hnoise : Packet.read Bincode.fixint ⟨.v4 3 40000, .v4 0x0A000001 12345, []⟩ = none := by
    decide
  refine ⟨trivial, ?_, ?_⟩
  · intro msg hread
    rw [hnoise] at hread
    cases hread
  · refine ⟨by decide, fun _ _ => trivial, trivial, trivial, ?_, fun _ _ => trivial, trivial⟩
    decide +kernel

theorem packetRun_in_messages :
    ∃ as, aliceAndBob.system.Always (fun _ _ => True) (aliceAndBob.start aliceAndBobBoot) as ∧
      EventSystem.SeenIn (SeenAs Bincode.fixint) as packetRun ∧
      Carries Bincode.fixint
        ((aliceAndBob.wireSystem Bincode.fixint).run (aliceAndBob.wireStart aliceAndBobBoot)
          packetRun)
        (aliceAndBob.system.run (aliceAndBob.start aliceAndBobBoot) as) :=
  exists_message_run aliceAndBob Bincode.fixint aliceAndBobBoot packetRun
    (packetRun_honest.imp (fun _ _ _ _ => trivial))

theorem packetRun_conserved :
    let start := aliceAndBob.start aliceAndBobBoot
    let w := ((aliceAndBob.wireSystem Bincode.fixint).run
      (aliceAndBob.wireStart aliceAndBobBoot) packetRun).nodes
    ∑ i, (w.clients i).balance + ((w.debits - w.credits).map Payment.sats).sum =
        ∑ i, (start.clients i).balance ∧ w.credits ≤ w.debits :=
  wire_sats_conserved aliceAndBob Bincode.fixint aliceAndBobBoot packetRun aliceAndBob_names
    (by decide +kernel) packetRun_honest

end Network
end Zeta
