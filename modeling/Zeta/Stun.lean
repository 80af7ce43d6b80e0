import Zeta.Message
import Zeta.Program

/-!
# Detecting the type of a NAT

`nat_detect` asks a STUN server where its datagrams come from, and then, up to three times
more, whether an answer from elsewhere gets through.  Each of these tests is a call of
`single_send`, which sends a request at most twice and waits a second for an answer each
time.  Both are programs: `natDetect` makes calls of `single_send`, and `singleSend` makes
calls of the socket.  What the network does with the datagrams is not said here.

The library that encodes STUN messages is a parameter (`StunCodec`).
-/

namespace Zeta

/-- `IpAddr`. -/
inductive IpAddr where
  | v4 (octets : BitVec 32)
  | v6 (octets : BitVec 128)
  deriving DecidableEq

/-- An IP address and a port, as an attribute of a STUN message holds them. -/
structure Endpoint where
  ip : IpAddr
  port : UInt16
  deriving DecidableEq

/-- `SocketAddr::new`. -/
def Endpoint.address : Endpoint → SocketAddr
  | ⟨.v4 octets, port⟩ => .v4 octets port
  | ⟨.v6 octets, port⟩ => .v6 octets port 0 0

/-- The IP address and the port of a socket address. -/
def SocketAddr.endpoint : SocketAddr → Endpoint
  | .v4 octets port => ⟨.v4 octets, port⟩
  | .v6 octets port _ _ => ⟨.v6 octets, port⟩

@[simp] theorem endpoint_address (e : Endpoint) : e.address.endpoint = e := by
  obtain ⟨_ | _, _⟩ := e <;> rfl

/-- `empty_address`. -/
def emptyAddress : SocketAddr := .unspecified

/-- `NatType`, with its documentation. -/
inductive NatType where
  /-- UDP is always blocked. -/
  | udpBlocked
  /-- No NAT, public IP, no firewall. -/
  | openInternet
  /-- No NAT, public IP, but symmetric UDP firewall. -/
  | symmetricUdpFirewall
  /-- All requests from the same internal IP address and port are mapped to the same external
  IP address and port.  Any external host can send a packet to the internal host, by sending
  it to the mapped external address. -/
  | fullCone
  /-- Mapped as for a full cone, but an external host with IP address X can send a packet to
  the internal host only if the internal host had previously sent a packet to X. -/
  | restrictedCone
  /-- Like a restricted cone, but the restriction includes port numbers. -/
  | portRestrictedCone
  /-- Requests from the same internal IP address and port are mapped to the same external IP
  address and port if they go to the same destination, and to different ones if they do not.
  Only the external host that receives a packet can send one back. -/
  | symmetric
  /-- Unknown. -/
  | unknown
  deriving DecidableEq

/-- `NatType::weight`. -/
def NatType.weight : NatType → ℕ
  | .udpBlocked => 1
  | .openInternet => 7
  | .symmetricUdpFirewall => 2
  | .fullCone => 6
  | .restrictedCone => 5
  | .portRestrictedCone => 4
  | .symmetric => 3
  | .unknown => 0

/-! ## STUN messages -/

/-- `MessageClass`. -/
inductive MessageClass where
  | request
  | indication
  | successResponse
  | errorResponse
  deriving DecidableEq

/-- `ChangeRequest`: whether the answer is to come from the other IP address, and from the
other port. -/
structure ChangeRequest where
  ip : Bool
  port : Bool

/-- `TransactionId`. -/
abbrev TransactionId : Type := Vector UInt8 12

/-- `Message`, with those of its attributes that are set or read here. -/
structure StunMessage where
  messageClass : MessageClass
  method : BitVec 12
  transactionId : TransactionId
  mappedAddress : Option Endpoint
  changedAddress : Option Endpoint
  changeRequest : Option ChangeRequest

/-- `methods::BINDING`. -/
def bindingMethod : BitVec 12 := 1

/-- The attributes that a decoder knows: those of `rfc5389::Attribute`, `MappedAddress` alone,
or those of RFC 3489, which a server knows. -/
inductive AttributeSet where
  | rfc5389
  | mappedAddress
  | rfc3489

/-- What `get_attribute` finds in a message when the other attributes are not known. -/
def StunMessage.restrict (m : StunMessage) : AttributeSet → StunMessage
  | .rfc5389 => { m with changeRequest := none }
  | .mappedAddress => { m with changedAddress := none, changeRequest := none }
  | .rfc3489 => m

/-- `MessageEncoder` and `MessageDecoder`.  Decoding fails where the library's gives an error
or a broken message. -/
structure StunCodec where
  /-- What a datagram leaves in a buffer of 512 bytes. -/
  Bytes : Type
  encode : StunMessage → Option Bytes
  decode : AttributeSet → Bytes → Option StunMessage
  decode_encode : ∀ m, ∃ bytes, encode m = some bytes ∧
    ∀ attributes, decode attributes bytes = some (m.restrict attributes)

/-- A library for examples: its datagrams are the messages themselves. -/
def sampleCodec : StunCodec where
  Bytes := StunMessage
  encode := some
  decode attributes m := some (m.restrict attributes)
  decode_encode m := ⟨m, rfl, fun _ => rfl⟩

/-- `build_request_bind_message`. -/
def buildRequestBindMessage (transactionId : TransactionId) : StunMessage where
  messageClass := .request
  method := bindingMethod
  transactionId := transactionId
  mappedAddress := none
  changedAddress := none
  changeRequest := none

/-- `build_request_bind_message_with_attribute`. -/
def buildRequestBindMessageWithAttribute (transactionId : TransactionId) (a : ChangeRequest) :
    StunMessage :=
  { buildRequestBindMessage transactionId with changeRequest := some a }

/-! ## One request -/

/-- Where a request is sent: to a server by its name, or to an address. -/
inductive Destination where
  | named (server : String)
  | address (addr : SocketAddr)

/-- The tests, as `nat_detect` calls them. -/
inductive Test where
  | test1
  | test2
  | test12
  | test3
  deriving DecidableEq

/-- The arguments of `single_send`, the attributes it decodes, and the test it is for. -/
structure Probe where
  test : Test
  stunServer : Destination
  message : StunMessage
  attributes : AttributeSet

/-- `single_send` gives a message or an error. -/
@[reducible] def Probe.Answer (_ : Probe) : Type := Option StunMessage

/-- What a program does with its socket. -/
inductive SocketCall (bytes : Type) where
  | sendTo (destination : Destination) (data : bytes)
  | recvFrom

/-- A datagram is sent, or it is not; a datagram is received, or none is within a second. -/
@[reducible] def SocketCall.Answer {bytes : Type} : SocketCall bytes → Type
  | .sendTo _ _ => Bool
  | .recvFrom => Option bytes

/-- `STUN_RETRY_COUNT`. -/
def stunRetryCount : ℕ := 2

section SingleSend
variable (codec : StunCodec)

/-- What `single_send` does with the bytes it received. -/
inductive Received where
  | accepted (m : StunMessage)
  | refused
  | ignored

/-- An error ends `single_send`, and a message with another transaction id does not. -/
def Probe.received (p : Probe) (data : codec.Bytes) : Received :=
  match codec.decode p.attributes data with
  | some m =>
    if m.messageClass = .errorResponse then .refused
    else if p.message.transactionId = m.transactionId then .accepted m
    else .ignored
  | none => .ignored

/-- How `single_send` goes on when a datagram was received, or none: it may try `again`. -/
def Probe.onReceive (p : Probe)
    (again : Program (SocketCall codec.Bytes) SocketCall.Answer (Option StunMessage)) :
    Option codec.Bytes → Program (SocketCall codec.Bytes) SocketCall.Answer (Option StunMessage)
  | none => again
  | some data =>
    match p.received codec data with
    | .accepted m => .done (some m)
    | .refused => .done none
    | .ignored => again

/-- The loop of `single_send`. -/
def Probe.attempts (p : Probe) (bytes : codec.Bytes) :
    ℕ → Program (SocketCall codec.Bytes) SocketCall.Answer (Option StunMessage)
  | 0 => .done none
  | n + 1 =>
    .call (.sendTo p.stunServer bytes) fun sent =>
      if sent then .call .recvFrom (p.onReceive codec (p.attempts bytes n))
      else p.attempts bytes n

/-- `single_send`. -/
def singleSend (p : Probe) :
    Program (SocketCall codec.Bytes) SocketCall.Answer (Option StunMessage) :=
  match codec.encode p.message with
  | none => .done none
  | some bytes => p.attempts codec bytes stunRetryCount

end SingleSend

/-! ## The decision tree -/

/-- `TransactionId::new([3; 12])`, which all requests carry. -/
def transactionId : TransactionId := Vector.replicate 12 3

/-- "Where do I come from?" -/
def test1 (stunServer : String) : Probe where
  test := .test1
  stunServer := .named stunServer
  message := buildRequestBindMessage transactionId
  attributes := .rfc5389

/-- "Answer me from the other IP address and the other port." -/
def test2 (stunServer : String) : Probe where
  test := .test2
  stunServer := .named stunServer
  message := buildRequestBindMessageWithAttribute transactionId ⟨true, true⟩
  attributes := .mappedAddress

/-- "Where do I come from?", to the other address of the server. -/
def test12 (changedAddress : Endpoint) : Probe where
  test := .test12
  stunServer := .address changedAddress.address
  message := buildRequestBindMessage transactionId
  attributes := .rfc5389

/-- "Answer me from the other port", to the other address of the server. -/
def test3 (changedAddress : Endpoint) : Probe where
  test := .test3
  stunServer := .address changedAddress.address
  message := buildRequestBindMessageWithAttribute transactionId ⟨false, true⟩
  attributes := .rfc5389

/-- `nat_detect`, from the IP address of the socket that it binds, if it can. -/
def natDetect (socket : Option IpAddr) (stunServer : String) :
    Program Probe Probe.Answer (Option (String × SocketAddr × NatType)) :=
  match socket with
  | none => .done none
  | some localIp =>
    .call (test1 stunServer) fun
    | none => .done (some (stunServer, emptyAddress, .udpBlocked))
    | some test1Response =>
      match test1Response.mappedAddress with
      | none => .done none
      | some mapped =>
        let publicAddress := mapped.address
        match test1Response.changedAddress with
        | none => .done none
        | some changed =>
          if localIp = mapped.ip then
            .call (test2 stunServer) fun
            | none => .done (some (stunServer, publicAddress, .openInternet))
            | some _ => .done (some (stunServer, publicAddress, .symmetricUdpFirewall))
          else
            .call (test2 stunServer) fun
            | some _ => .done (some (stunServer, publicAddress, .fullCone))
            | none =>
              .call (test12 changed) fun
              | none => .done (some (stunServer, publicAddress, .unknown))
              | some test12Response =>
                match test12Response.mappedAddress with
                | none => .done none
                | some mapped' =>
                  if mapped ≠ mapped' then
                    .done (some (stunServer, publicAddress, .symmetric))
                  else
                    .call (test3 changed) fun
                    | none => .done (some (stunServer, publicAddress, .portRestrictedCone))
                    | some _ => .done (some (stunServer, publicAddress, .restrictedCone))

end Zeta
