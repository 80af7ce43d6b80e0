import Zeta.Bincode

/-!
# Messages on the wire

`Message` derives `Serialize` and `Deserialize`: a message is written as the index of its
variant and then its fields, in the order in which `main.rs` declares them.  `serialize` is
what `UdpSocketExt::send_msg` puts into a datagram, `deserialize` is what the receive loops
of clients and relays make of one.  The derived implementations are the codecs of this
module; what the fields' types are written as is up to the library.
-/

namespace Zeta

/-! ## What is left of a message -/

namespace Register

/-- What is left of a `Register` that was sent. -/
def onWire (r : Register) : Register :=
  { r with srcAddr := r.srcAddr.onWire, dstAddr := r.dstAddr.onWire }

/-- The fields of `Message::Register`. -/
def codec (B : Bincode) : Codec UInt8 wireLimit onWire :=
  (B.socketAddr.pair <| B.string.pair <| B.socketAddr.pair <| B.string.pair <|
      B.u64.pair B.optionString).embed
    (fun r => (r.srcAddr, r.srcId, r.dstAddr, r.dstId, r.time, r.btcAddress))
    (fun (srcAddr, srcId, dstAddr, dstId, time, btcAddress) =>
      some { srcAddr, srcId, dstAddr, dstId, time, btcAddress })
    (fun _ => rfl) (fun _ _ h => by cases h; rfl)

end Register

namespace Connect

/-- What is left of a `Connect` that was sent. -/
def onWire (c : Connect) : Connect := { c with srcAddr := c.srcAddr.onWire }

/-- The fields of `Message::Connect`. -/
def codec (B : Bincode) : Codec UInt8 wireLimit onWire :=
  (B.socketAddr.pair <| B.string.pair <| B.string.pair B.u64).embed
    (fun c => (c.srcAddr, c.srcId, c.dstId, c.time))
    (fun (srcAddr, srcId, dstId, time) => some { srcAddr, srcId, dstId, time })
    (fun _ => rfl) (fun _ _ h => by cases h; rfl)

end Connect

namespace AskForAddr

/-- What is left of an `AskForAddr` that was sent. -/
def onWire (a : AskForAddr) : AskForAddr := { a with srcAddr := a.srcAddr.onWire }

/-- The fields of `Message::AskForAddr`. -/
def codec (B : Bincode) : Codec UInt8 wireLimit onWire :=
  (B.socketAddr.pair <| B.string.pair <| B.string.pair B.u64).embed
    (fun a => (a.srcAddr, a.srcId, a.peerId, a.time))
    (fun (srcAddr, srcId, peerId, time) => some { srcAddr, srcId, peerId, time })
    (fun _ => rfl) (fun _ _ h => by cases h; rfl)

end AskForAddr

namespace Classic

/-- What is left of a `Classic` that was sent. -/
def onWire (m : Classic) : Classic :=
  { m with srcAddr := m.srcAddr.onWire, dstAddr := m.dstAddr.onWire }

/-- The fields of `Message::Classic`. -/
def codec (B : Bincode) : Codec UInt8 wireLimit onWire :=
  (B.socketAddr.pair <| B.string.pair <| B.socketAddr.pair <| B.string.pair <| B.string.pair <|
      B.u64.pair <| B.u64.pair <| B.u8.pair <| B.bytes.pair B.bytes).embed
    (fun m => (m.srcAddr, m.srcId, m.dstAddr, m.dstId, m.txt, m.time, m.msgId, m.ttl,
      m.publicKey, m.signature))
    (fun (srcAddr, srcId, dstAddr, dstId, txt, time, msgId, ttl, publicKey, signature) =>
      some { srcAddr, srcId, dstAddr, dstId, txt, time, msgId, ttl, publicKey, signature })
    (fun _ => rfl) (fun _ _ h => by cases h; rfl)

end Classic

/-- The fields of `Message::Payment`. -/
def Payment.codec (B : Bincode) : Codec UInt8 wireLimit (id : Payment → Payment) :=
  (B.string.pair <| B.string.pair <| B.u64.pair B.u64).embed
    (fun p => (p.srcId, p.dstId, p.amount, p.paymentId))
    (fun (srcId, dstId, amount, paymentId) => some { srcId, dstId, amount, paymentId })
    (fun _ => rfl) (fun _ _ h => by cases h; rfl)

/-- The fields of `Message::PaymentAck`. -/
def PaymentAck.codec (B : Bincode) : Codec UInt8 wireLimit (id : PaymentAck → PaymentAck) :=
  (B.u64.pair <| B.string.pair B.string).embed
    (fun a => (a.paymentId, a.fromId, a.toId))
    (fun (paymentId, fromId, toId) => some { paymentId, fromId, toId })
    (fun _ => rfl) (fun _ _ h => by cases h; rfl)

/-! ## The enum -/

/-- The variants of `Message`, in the order of their declaration. -/
inductive MessageKind where
  | register
  | connect
  | askForAddr
  | peerInfo
  | classic
  | payment
  | paymentAck
  deriving DecidableEq

namespace MessageKind

/-- The fields of a variant. -/
def Fields : MessageKind → Type
  | register => Register
  | connect => Connect
  | askForAddr => AskForAddr
  | peerInfo => SocketAddr × String
  | classic => Classic
  | payment => Payment
  | paymentAck => PaymentAck

/-- What is left of the fields of a variant that was sent. -/
def onWire : (kind : MessageKind) → kind.Fields → kind.Fields
  | register => Register.onWire
  | connect => Connect.onWire
  | askForAddr => AskForAddr.onWire
  | peerInfo => Prod.map SocketAddr.onWire id
  | classic => Classic.onWire
  | payment => id
  | paymentAck => id

/-- The index under which the variant is written. -/
def index : MessageKind → UInt32
  | register => 0
  | connect => 1
  | askForAddr => 2
  | peerInfo => 3
  | classic => 4
  | payment => 5
  | paymentAck => 6

/-- The variant of this index, if there is one. -/
def ofIndex (i : UInt32) : Option MessageKind :=
  [register, connect, askForAddr, peerInfo, classic, payment, paymentAck].find? (·.index = i)

theorem ofIndex_eq_some_iff (i : UInt32) (kind : MessageKind) :
    ofIndex i = some kind ↔ kind.index = i := by
  constructor
  · intro h
    unfold ofIndex at h
    have hfound := List.find?_some h
    exact of_decide_eq_true hfound
  · rintro rfl
    cases kind <;> decide

/-- The fields of a variant, one after the other. -/
def codec (B : Bincode) : (kind : MessageKind) → Codec UInt8 wireLimit kind.onWire
  | register => Register.codec B
  | connect => Connect.codec B
  | askForAddr => AskForAddr.codec B
  | peerInfo => B.socketAddr.pair B.string
  | classic => Classic.codec B
  | payment => Payment.codec B
  | paymentAck => PaymentAck.codec B

end MessageKind

namespace Message

/-- A message as its variant and the fields. -/
def split : Message → Sigma MessageKind.Fields
  | .register r => ⟨.register, r⟩
  | .connect c => ⟨.connect, c⟩
  | .askForAddr a => ⟨.askForAddr, a⟩
  | .peerInfo peerAddr peerId => ⟨.peerInfo, (peerAddr, peerId)⟩
  | .classic m => ⟨.classic, m⟩
  | .payment p => ⟨.payment, p⟩
  | .paymentAck a => ⟨.paymentAck, a⟩

/-- The message of a variant with these fields. -/
def join : Sigma MessageKind.Fields → Message
  | ⟨.register, r⟩ => .register r
  | ⟨.connect, c⟩ => .connect c
  | ⟨.askForAddr, a⟩ => .askForAddr a
  | ⟨.peerInfo, x⟩ => .peerInfo x.1 x.2
  | ⟨.classic, m⟩ => .classic m
  | ⟨.payment, p⟩ => .payment p
  | ⟨.paymentAck, a⟩ => .paymentAck a

@[simp] theorem split_join (x : Sigma MessageKind.Fields) : (join x).split = x := by
  obtain ⟨kind, fields⟩ := x
  cases kind <;> rfl

/-- What is left of a message that was sent. -/
def onWire : Message → Message
  | .register r => .register r.onWire
  | .connect c => .connect c.onWire
  | .askForAddr a => .askForAddr a.onWire
  | .peerInfo peerAddr peerId => .peerInfo peerAddr.onWire peerId
  | .classic m => .classic m.onWire
  | .payment p => .payment p
  | .paymentAck a => .paymentAck a

/-- `Message` as the derived implementations write and read it. -/
def codec (B : Bincode) : Codec UInt8 wireLimit onWire :=
  (Codec.tagged B.variant MessageKind.index MessageKind.ofIndex MessageKind.ofIndex_eq_some_iff
      (MessageKind.codec B)).embed
    split (fun x => some (join x))
    (fun msg => by cases msg <;> rfl)
    (fun x _ h => by rw [← Option.some.inj h, split_join])

end Message

section Format
variable (B : Bincode)

/-- `bincode::serialize`. -/
def serialize (msg : Message) : List UInt8 := (Message.codec B).encode msg

/-- `bincode::deserialize`: what follows the message is ignored. -/
def deserialize (bytes : List UInt8) : Option Message :=
  ((Message.codec B).decode bytes).map Prod.fst

/-- The variant, and the fields in the order of their declaration. -/
example (p : Payment) : serialize B (.payment p) =
    B.variant.encode 5 ++ (B.string.encode p.srcId ++ (B.string.encode p.dstId ++
      (B.u64.encode p.amount ++ B.u64.encode p.paymentId))) := rfl

/-- Addresses lose their flow label and scope once. -/
@[simp] theorem SocketAddr.onWire_onWire (a : SocketAddr) : a.onWire.onWire = a.onWire := by
  cases a <;> rfl

@[simp] theorem Message.onWire_onWire (msg : Message) : msg.onWire.onWire = msg.onWire := by
  cases msg <;> simp [onWire, Register.onWire, Connect.onWire, AskForAddr.onWire, Classic.onWire]

variable {B}

/-- **Messages survive the wire.**  A datagram that begins with a message is read as that
message, whatever follows it, except that IPv6 addresses lose their flow label and scope. -/
theorem deserialize_serialize {msg : Message} (h : (serialize B msg).length < wireLimit)
    (junk : List UInt8) : deserialize B (serialize B msg ++ junk) = some msg.onWire := by
  rw [deserialize, serialize, (Message.codec B).decode_encode msg junk h]
  rfl

end Format

/-- **The wire format.**  A datagram that begins with a message is read as that message,
whatever follows it; nothing else is accepted; and a message that is cut short anywhere is
dropped. -/
theorem wire_format (B : Bincode) (bytes : List UInt8) (h : bytes.length < wireLimit) :
    (∀ msg, serialize B msg <+: bytes → deserialize B bytes = some msg.onWire) ∧
      (∀ msg, deserialize B bytes = some msg → msg.onWire = msg ∧ serialize B msg <+: bytes) ∧
      ∀ msg cut, bytes = serialize B msg → cut <+: bytes → cut ≠ bytes →
        deserialize B cut = none := by
  refine ⟨?_, ?_, ?_⟩
  · rintro msg ⟨junk, rfl⟩
    rw [List.length_append] at h
    exact deserialize_serialize (by omega) junk
  · intro msg hdec
    obtain ⟨⟨msg', rest⟩, hdec, hmsg⟩ := Option.map_eq_some_iff.mp hdec
    obtain ⟨hcanon, hbytes⟩ := ((Message.codec B).decode_eq_some_iff h).mp hdec
    subst hmsg
    exact ⟨hcanon, rest, hbytes.symm⟩
  · rintro msg cut rfl hpre hcut
    rw [deserialize, (Message.codec B).decode_eq_none_of_cut h hpre hcut]
    rfl

/-- A payment in the documented format, read with a byte behind it. -/
theorem wire_format_payment :
    let bytes := serialize Bincode.fixint (.payment ⟨"alice", "bob", 5, 7⟩) ++ [0]
    bytes = [5, 0, 0, 0, 5, 0, 0, 0, 0, 0, 0, 0, 97, 108, 105, 99, 101, 3, 0, 0, 0, 0, 0, 0, 0,
        98, 111, 98, 5, 0, 0, 0, 0, 0, 0, 0, 7, 0, 0, 0, 0, 0, 0, 0, 0] ∧
      deserialize Bincode.fixint bytes = some (.payment ⟨"alice", "bob", 5, 7⟩) := by
  intro bytes
  have hlen : bytes.length < wireLimit := by decide
  exact ⟨by decide, (wire_format Bincode.fixint bytes hlen).1 _ (List.prefix_append _ _)⟩

end Zeta
