import Mathlib.Algebra.Group.Nat.Defs
import Mathlib.Data.List.Basic

/-!
# The datagrams of the protocol

`Message` of `main.rs`, one record per variant.  Everything that travels between
clients and relays is one of these, serialised and sent as a single UDP datagram
by `UdpSocketExt::send_msg`.

A Rust `String` is a Lean `String` (both are sequences of Unicode scalar values
stored in UTF-8), a `Vec<u8>` is a `List UInt8`, and the fixed-width integers are
Lean's own, whose arithmetic wraps as a release build does.
-/

namespace Zeta

/-- `std::net::SocketAddr`: an address and a port.  Equality of the V6 form takes
the flow label and the scope into account, as in Rust. -/
inductive SocketAddr where
  | v4 (ip : BitVec 32) (port : UInt16)
  | v6 (ip : BitVec 128) (port : UInt16) (flowinfo : UInt32) (scopeId : UInt32)
  deriving DecidableEq

/-- `"0.0.0.0:0"`, the address no datagram is addressed to. -/
def SocketAddr.unspecified : SocketAddr := .v4 0 0

/-- `Message::Register`: "here are my address and my id". -/
structure Register where
  srcAddr : SocketAddr
  srcId : String
  dstAddr : SocketAddr
  dstId : String
  time : UInt64
  /-- `None` for the relays. -/
  btcAddress : Option String
  deriving DecidableEq

/-- `Message::Connect`. -/
structure Connect where
  srcAddr : SocketAddr
  srcId : String
  dstId : String
  time : UInt64
  deriving DecidableEq

/-- `Message::AskForAddr`. -/
structure AskForAddr where
  srcAddr : SocketAddr
  srcId : String
  peerId : String
  time : UInt64
  deriving DecidableEq

/-- `Message::Classic`: a signed text, flooded with a hop limit. -/
structure Classic where
  srcAddr : SocketAddr
  srcId : String
  dstAddr : SocketAddr
  dstId : String
  txt : String
  time : UInt64
  msgId : UInt64
  ttl : UInt8
  publicKey : List UInt8
  signature : List UInt8
  deriving DecidableEq

/-- `Message::Payment`. -/
structure Payment where
  srcId : String
  dstId : String
  amount : UInt64
  paymentId : UInt64
  deriving DecidableEq

/-- `Message::PaymentAck`. -/
structure PaymentAck where
  paymentId : UInt64
  /-- Who confirms: the recipient of the payment. -/
  fromId : String
  /-- Who sent the payment. -/
  toId : String
  deriving DecidableEq

/-- `Message`. -/
inductive Message where
  | register (r : Register)
  | connect (c : Connect)
  | askForAddr (a : AskForAddr)
  | peerInfo (peerAddr : SocketAddr) (peerId : String)
  | classic (m : Classic)
  | payment (p : Payment)
  | paymentAck (a : PaymentAck)
  deriving DecidableEq

/-- A message on its way: where its UDP packet comes from and where it goes. -/
structure Datagram where
  src : SocketAddr
  dst : SocketAddr
  msg : Message
  deriving DecidableEq

end Zeta
