import Zeta.Stun

/-!
# Which type the detection finds

The network between a host and a STUN server, when no datagram is lost: the host has a public
address, perhaps behind a symmetric firewall, or it is behind a NAT, which maps its address
for each destination to an external one and lets datagrams through to that by what was sent
from it before.  To each such network the documentation of `NatType` assigns a type.

Behind a NAT that changes the IP address `nat_detect` finds this type, with two exceptions:
it takes a NAT that lets everybody in for a full cone, without a look at the mapping, and it
does not see that the mapping depends on the destination if the two addresses of the server
have the same.  Where the host is reached under its own IP address the two results of test 2
are exchanged, and it never does (`detect_documented_iff`).
-/

namespace Zeta

/-- From whom a NAT lets datagrams through to an external address. -/
inductive Filtering where
  | unfiltered
  | byAddress
  | byAddressAndPort
  deriving DecidableEq

/-- A destination that datagrams were sent to admits those from the source. -/
def Filtering.admits (destination source : Endpoint) : Filtering → Bool
  | .unfiltered => true
  | .byAddress => source.ip = destination.ip
  | .byAddressAndPort => source = destination

/-- The external address of the host: always the same, or one that depends on where it sends
to. -/
inductive Mapping where
  | endpointIndependent (mapped : Endpoint)
  | destinationDependent (mapped : Endpoint → Endpoint)
      (depends : ∃ d d', mapped d ≠ mapped d')

/-- The external address for a destination. -/
def Mapping.external : Mapping → Endpoint → Endpoint
  | .endpointIndependent mapped, _ => mapped
  | .destinationDependent mapped _, d => mapped d

/-- A host without NAT, with or without a symmetric firewall, or behind a NAT. -/
inductive NetworkModel where
  | direct (host : Endpoint) (firewall : Bool)
  | nat (host : Endpoint) (mapping : Mapping) (filtering : Filtering)

namespace NetworkModel

/-- The address of the socket. -/
def host : NetworkModel → Endpoint
  | direct host _ => host
  | nat host _ _ => host

/-- Where a datagram of the host comes from, as its destination sees it. -/
def external : NetworkModel → Endpoint → Endpoint
  | direct host _, _ => host
  | nat _ mapping _, d => mapping.external d

/-- A datagram reaches the host, which has sent to `contacted`. -/
def delivers (contacted : List Endpoint) (source destination : Endpoint) :
    NetworkModel → Bool
  | direct host firewall => destination = host && (!firewall || contacted.contains source)
  | nat _ mapping filtering =>
    contacted.any fun d => mapping.external d = destination && filtering.admits d source

/-- **What the documentation says.**  No description fits a mapping that depends on the
destination when everybody is let through. -/
def documentedType : NetworkModel → NatType
  | direct _ false => .openInternet
  | direct _ true => .symmetricUdpFirewall
  | nat _ (.endpointIndependent _) .unfiltered => .fullCone
  | nat _ (.endpointIndependent _) .byAddress => .restrictedCone
  | nat _ (.endpointIndependent _) .byAddressAndPort => .portRestrictedCone
  | nat _ (.destinationDependent _ _) .unfiltered => .unknown
  | nat _ (.destinationDependent _ _) _ => .symmetric

end NetworkModel

/-- A STUN server with two IP addresses and two ports. -/
structure StunServer where
  ip : IpAddr
  otherIp : IpAddr
  port : UInt16
  otherPort : UInt16
  ip_ne : otherIp ≠ ip
  port_ne : otherPort ≠ port

namespace StunServer
variable (server : StunServer)

/-- The address that the name of the server stands for. -/
def primary : Endpoint := ⟨server.ip, server.port⟩

/-- The address that differs in both. -/
def alternate : Endpoint := ⟨server.otherIp, server.otherPort⟩

/-- The server receives datagrams to the address. -/
def Owns (e : Endpoint) : Prop :=
  (e.ip = server.ip ∨ e.ip = server.otherIp) ∧ (e.port = server.port ∨ e.port = server.otherPort)

instance (e : Endpoint) : Decidable (server.Owns e) := inferInstanceAs (Decidable (_ ∧ _))

/-- The CHANGED-ADDRESS of an answer to a request that was received at `e`. -/
def changed (e : Endpoint) : Endpoint where
  ip := if e.ip = server.ip then server.otherIp else server.ip
  port := if e.port = server.port then server.otherPort else server.port

/-- Where the answer comes from: the server honours CHANGE-REQUEST. -/
def responseSource (e : Endpoint) (request : StunMessage) : Endpoint :=
  match request.changeRequest with
  | none => e
  | some change =>
    { ip := if change.ip then (server.changed e).ip else e.ip
      port := if change.port then (server.changed e).port else e.port }

/-- The answer to a request that came from `source`. -/
def response (e source : Endpoint) (request : StunMessage) : StunMessage where
  messageClass := .successResponse
  method := request.method
  transactionId := request.transactionId
  mappedAddress := some source
  changedAddress := some (server.changed e)
  changeRequest := none

/-- Where a request goes. -/
def resolve : Destination → Endpoint
  | .named _ => server.primary
  | .address addr => addr.endpoint

end StunServer

/-- The state of the network: where the host has sent to, and what has reached its socket. -/
structure Link (bytes : Type) where
  contacted : List Endpoint
  inbox : List bytes

section Detection
variable (codec : StunCodec) (server : StunServer) (model : NetworkModel)

/-- What comes back for a datagram sent to `e`. -/
def returned (contacted : List Endpoint) (e : Endpoint) (data : codec.Bytes) :
    List codec.Bytes :=
  match codec.decode .rfc3489 data with
  | none => []
  | some request =>
    if server.Owns e ∧ request.messageClass = .request ∧ request.method = bindingMethod ∧
        model.delivers contacted (server.responseSource e request) (model.external e) then
      (codec.encode (server.response e (model.external e) request)).toList
    else []

/-- The network without loss: a datagram is sent, and what comes back for it is there before
the next one is waited for. -/
def answerCall : (c : SocketCall codec.Bytes) → Link codec.Bytes → c.Answer × Link codec.Bytes
  | .sendTo destination data, link =>
    let contacted := link.contacted.insert (server.resolve destination)
    (true, ⟨contacted,
      link.inbox ++ returned codec server model contacted (server.resolve destination) data⟩)
  | .recvFrom, ⟨contacted, []⟩ => (none, ⟨contacted, []⟩)
  | .recvFrom, ⟨contacted, data :: inbox⟩ => (some data, ⟨contacted, inbox⟩)

/-- `nat_detect`, run by a host that has not sent anything before. -/
def detect (stunServer : String) : Option (String × SocketAddr × NatType) :=
  (((natDetect (some model.host.ip) stunServer).expand (singleSend codec)).run
    (answerCall codec server model) ⟨[], []⟩).1

end Detection

/-- **The detection is right**: it ends with the documented type. -/
def DetectsDocumented (codec : StunCodec) (server : StunServer) (model : NetworkModel)
    (stunServer : String) : Prop :=
  ∃ address, detect codec server model stunServer =
    some (stunServer, address, model.documentedType)

/-- The host is behind a NAT that changes its IP address.  If its mapping depends on the
destination, it is different for the two addresses of the server, and not everybody is let
in. -/
def NetworkModel.Recognised (server : StunServer) : NetworkModel → Prop
  | .direct _ _ => False
  | .nat host (.endpointIndependent mapped) _ => mapped.ip ≠ host.ip
  | .nat host (.destinationDependent mapped _) filtering =>
    (mapped server.primary).ip ≠ host.ip ∧ mapped server.primary ≠ mapped server.alternate ∧
      filtering ≠ .unfiltered

variable {codec : StunCodec} {server : StunServer} {model : NetworkModel}

/-! ## One test -/

/-- The answer that `single_send` gets, if it gets one. -/
def NetworkModel.answer (server : StunServer) (contacted : List Endpoint) (p : Probe)
    (model : NetworkModel) : Option StunMessage :=
  let e := server.resolve p.stunServer
  if model.delivers contacted (server.responseSource e p.message) (model.external e) then
    some ((server.response e (model.external e) p.message).restrict p.attributes)
  else none

/-- An attempt for which nothing comes back. -/
theorem run_attempts_of_nil {p : Probe} {data : codec.Bytes} {n : ℕ} {contacted : List Endpoint}
    (h : returned codec server model (contacted.insert (server.resolve p.stunServer))
      (server.resolve p.stunServer) data = []) :
    (p.attempts codec data (n + 1)).run (answerCall codec server model) ⟨contacted, []⟩ =
      (p.attempts codec data n).run (answerCall codec server model)
        ⟨contacted.insert (server.resolve p.stunServer), []⟩ := by
  simp only [Probe.attempts, Program.run_call, answerCall, h, List.append_nil, if_true,
    Probe.onReceive]

/-- An attempt for which an answer comes back. -/
theorem run_attempts_of_accepted {p : Probe} {data back : codec.Bytes} {m : StunMessage} {n : ℕ}
    {contacted : List Endpoint}
    (h : returned codec server model (contacted.insert (server.resolve p.stunServer))
      (server.resolve p.stunServer) data = [back])
    (hback : p.received codec back = .accepted m) :
    (p.attempts codec data (n + 1)).run (answerCall codec server model) ⟨contacted, []⟩ =
      (some m, ⟨contacted.insert (server.resolve p.stunServer), []⟩) := by
  simp only [Probe.attempts, Program.run_call, answerCall, h, List.nil_append, if_true,
    Probe.onReceive, hback, Program.run_done]

/-- **One test**: two attempts without an answer, or one with it. -/
theorem run_singleSend {p : Probe} {e : Endpoint} {contacted contacted' : List Endpoint}
    (he : server.resolve p.stunServer = e) (howns : server.Owns e)
    (hinsert : contacted.insert e = contacted') (hclass : p.message.messageClass = .request)
    (hmethod : p.message.method = bindingMethod) :
    (singleSend codec p).run (answerCall codec server model) ⟨contacted, []⟩ =
      (model.answer server contacted' p, ⟨contacted', []⟩) := by
  obtain ⟨request, hencode, hdecode⟩ := codec.decode_encode p.message
  obtain ⟨back, hencodeBack, hdecodeBack⟩ := codec.decode_encode
    (server.response e (model.external e) p.message)
  subst he hinsert
  have htwice : (contacted.insert (server.resolve p.stunServer)).insert
      (server.resolve p.stunServer) = contacted.insert (server.resolve p.stunServer) :=
    List.insert_of_mem List.mem_insert_self
  rw [singleSend, hencode, NetworkModel.answer]
  cases hdelivers : model.delivers (contacted.insert (server.resolve p.stunServer))
      (server.responseSource (server.resolve p.stunServer) p.message)
      (model.external (server.resolve p.stunServer)) with
  | false =>
    have hnil : returned codec server model (contacted.insert (server.resolve p.stunServer))
        (server.resolve p.stunServer) request = [] := by
      simp [returned, hdecode, StunMessage.restrict, hdelivers]
    show (p.attempts codec request 2).run _ _ = _
    rw [run_attempts_of_nil hnil, run_attempts_of_nil (by rw [htwice, hnil]), htwice]
    rfl
  | true =>
    have hback : returned codec server model (contacted.insert (server.resolve p.stunServer))
        (server.resolve p.stunServer) request = [back] := by
      simp [returned, hdecode, StunMessage.restrict, hdelivers, howns, hclass, hmethod,
        hencodeBack]
    have haccepted : p.received codec back = .accepted ((server.response
        (server.resolve p.stunServer) (model.external (server.resolve p.stunServer))
        p.message).restrict p.attributes) := by
      rw [Probe.received, hdecodeBack]
      cases p.attributes <;> simp [StunMessage.restrict, StunServer.response]
    exact run_attempts_of_accepted hback haccepted

/-- An answer from where a request was sent gets through. -/
theorem delivers_reply {contacted : List Endpoint} {e : Endpoint} (he : e ∈ contacted) :
    model.delivers contacted e (model.external e) = true := by
  cases model with
  | direct host firewall => simp [NetworkModel.delivers, NetworkModel.external, he]
  | nat host mapping filtering =>
    simp only [NetworkModel.delivers, NetworkModel.external, List.any_eq_true]
    refine ⟨e, he, ?_⟩
    cases filtering <;> simp [Filtering.admits]

/-! ## The four tests -/

namespace StunServer

theorem owns_primary (server : StunServer) : server.Owns server.primary :=
  ⟨Or.inl rfl, Or.inl rfl⟩

theorem owns_alternate (server : StunServer) : server.Owns server.alternate :=
  ⟨Or.inr rfl, Or.inr rfl⟩

theorem changed_primary (server : StunServer) :
    server.changed server.primary = server.alternate := by
  simp [changed, primary, alternate]

theorem changed_alternate (server : StunServer) :
    server.changed server.alternate = server.primary := by
  simp [changed, primary, alternate, server.ip_ne, server.port_ne]

end StunServer

/-- Test 1 is answered, with the external address and that of the alternate server. -/
theorem answer_test1 (server : StunServer) (model : NetworkModel) (name : String)
    {contacted : List Endpoint} (h : server.primary ∈ contacted) :
    ∃ m, model.answer server contacted (test1 name) = some m ∧
      m.mappedAddress = some (model.external server.primary) ∧
      m.changedAddress = some server.alternate := by
  refine ⟨_, if_pos (delivers_reply h), rfl, ?_⟩
  exact congrArg some server.changed_primary

theorem isSome_answer {contacted : List Endpoint} {p : Probe} :
    (model.answer server contacted p).isSome =
      model.delivers contacted
        (server.responseSource (server.resolve p.stunServer) p.message)
        (model.external (server.resolve p.stunServer)) := by
  rw [NetworkModel.answer]
  split <;> simp [*]

/-- Test 2 is answered if the alternate server gets through before it is contacted. -/
theorem isSome_answer_test2 (name : String) {contacted : List Endpoint} :
    (model.answer server contacted (test2 name)).isSome =
      model.delivers contacted server.alternate (model.external server.primary) := by
  have hsource : server.responseSource server.primary (test2 name).message = server.alternate :=
    server.changed_primary
  rw [isSome_answer, ← hsource]
  rfl

/-- Test 1(2) is answered, with the external address for the alternate server. -/
theorem answer_test12 (server : StunServer) (model : NetworkModel) {contacted : List Endpoint}
    (h : server.alternate ∈ contacted) :
    ∃ m, model.answer server contacted (test12 server.alternate) = some m ∧
      m.mappedAddress = some (model.external server.alternate) := by
  have hresolve : server.resolve (test12 server.alternate).stunServer = server.alternate :=
    endpoint_address server.alternate
  refine ⟨_, if_pos ?_, ?_⟩
  · rw [hresolve]
    exact delivers_reply h
  · rw [hresolve]
    rfl

/-- Test 3 is answered if the alternate server gets through from its other port. -/
theorem isSome_answer_test3 {contacted : List Endpoint} :
    (model.answer server contacted (test3 server.alternate)).isSome =
      model.delivers contacted ⟨server.otherIp, server.port⟩ (model.external server.alternate) := by
  have hresolve : server.resolve (test3 server.alternate).stunServer = server.alternate :=
    endpoint_address server.alternate
  have hsource : server.responseSource server.alternate (test3 server.alternate).message =
      ⟨server.otherIp, server.port⟩ := by
    show (⟨server.otherIp, (server.changed server.alternate).port⟩ : Endpoint) = _
    rw [StunServer.changed_alternate]
    rfl
  rw [isSome_answer, hresolve, hsource]

/-! ## The run of the tests -/

section Runs
variable (codec server model) (name : String)

theorem run_test1 :
    (singleSend codec (test1 name)).run (answerCall codec server model) ⟨[], []⟩ =
      (model.answer server [server.primary] (test1 name), ⟨[server.primary], []⟩) :=
  run_singleSend rfl server.owns_primary rfl rfl rfl

theorem run_test2 :
    (singleSend codec (test2 name)).run (answerCall codec server model)
        ⟨[server.primary], []⟩ =
      (model.answer server [server.primary] (test2 name), ⟨[server.primary], []⟩) :=
  run_singleSend rfl server.owns_primary (List.insert_of_mem List.mem_cons_self) rfl rfl

/-- After test 1(2) the host has contacted both addresses. -/
theorem run_test12 :
    (singleSend codec (test12 server.alternate)).run (answerCall codec server model)
        ⟨[server.primary], []⟩ =
      (model.answer server [server.alternate, server.primary] (test12 server.alternate),
        ⟨[server.alternate, server.primary], []⟩) := by
  have hnew : server.alternate ∉ [server.primary] := fun h =>
    server.ip_ne (congrArg Endpoint.ip (List.mem_singleton.mp h))
  exact run_singleSend (endpoint_address server.alternate) server.owns_alternate
    (List.insert_of_not_mem hnew) rfl rfl

theorem run_test3 :
    (singleSend codec (test3 server.alternate)).run (answerCall codec server model)
        ⟨[server.alternate, server.primary], []⟩ =
      (model.answer server [server.alternate, server.primary] (test3 server.alternate),
        ⟨[server.alternate, server.primary], []⟩) :=
  run_singleSend (endpoint_address server.alternate) server.owns_alternate
    (List.insert_of_mem List.mem_cons_self) rfl rfl

end Runs

/-! ## The decision tree -/

/-- The type that the answers to the four tests lead to. -/
def NetworkModel.detected (server : StunServer) (model : NetworkModel) : NatType :=
  let answered := model.delivers [server.primary] server.alternate
    (model.external server.primary)
  if model.host.ip = (model.external server.primary).ip then
    if answered then .symmetricUdpFirewall else .openInternet
  else if answered then .fullCone
  else if model.external server.primary ≠ model.external server.alternate then .symmetric
  else if model.delivers [server.alternate, server.primary] ⟨server.otherIp, server.port⟩
      (model.external server.alternate) then .restrictedCone
  else .portRestrictedCone

/-- **The run of `nat_detect`.**  It ends with the external address for the server, and with
the type that the answers lead to. -/
theorem detect_eq (codec : StunCodec) (server : StunServer) (model : NetworkModel)
    (name : String) :
    detect codec server model name =
      some (name, (model.external server.primary).address, model.detected server) := by
  obtain ⟨m, hm, hmapped, hchanged⟩ :=
    answer_test1 server model name (List.mem_singleton_self server.primary)
  have hcontacted : server.alternate ∈ [server.alternate, server.primary] := List.mem_cons_self
  obtain ⟨m', hm', hmapped'⟩ := answer_test12 server model hcontacted
  rw [detect, Program.run_expand, natDetect, Program.run_call, run_test1]
  simp only [hm, hmapped, hchanged]
  rw [NetworkModel.detected, ← isSome_answer_test2 name, ← isSome_answer_test3]
  by_cases hip : model.host.ip = (model.external server.primary).ip
  · rw [if_pos hip, if_pos hip, Program.run_call, run_test2]
    cases model.answer server [server.primary] (test2 name) <;> rfl
  · rw [if_neg hip, if_neg hip, Program.run_call, run_test2]
    cases model.answer server [server.primary] (test2 name) with
    | some _ => rfl
    | none =>
      simp only [Program.run_call, run_test12, hm', hmapped']
      split
      · simp
      · simp only [Program.run_call, run_test3]
        cases model.answer server [server.alternate, server.primary] (test3 server.alternate) <;>
          simp

/-! ## Which type it is -/

/-- Who has not been contacted gets through to a NAT that lets everybody in. -/
theorem admits_alternate (server : StunServer) (filtering : Filtering) :
    filtering.admits server.primary server.alternate = decide (filtering = .unfiltered) := by
  cases filtering with
  | unfiltered => rfl
  | byAddress => simp [Filtering.admits, StunServer.primary, StunServer.alternate, server.ip_ne]
  | byAddressAndPort =>
    simp [Filtering.admits, StunServer.primary, StunServer.alternate, server.ip_ne]

/-- The other port of a contacted address gets through where ports do not matter. -/
theorem admits_otherPort (server : StunServer) (filtering : Filtering) :
    ([server.alternate, server.primary].any fun d =>
        filtering.admits d ⟨server.otherIp, server.port⟩) =
      decide (filtering ≠ .byAddressAndPort) := by
  cases filtering with
  | unfiltered => rfl
  | byAddress => simp [Filtering.admits, StunServer.alternate]
  | byAddressAndPort =>
    simp [Filtering.admits, StunServer.primary, StunServer.alternate, server.ip_ne,
      server.port_ne.symm]

/-- Without a NAT the types of the open internet and of the firewall are exchanged. -/
theorem detected_direct (server : StunServer) (host : Endpoint) (firewall : Bool) :
    (NetworkModel.direct host firewall).detected server =
      if firewall then .openInternet else .symmetricUdpFirewall := by
  have hne : server.alternate ≠ server.primary := fun h => server.ip_ne (congrArg Endpoint.ip h)
  cases firewall <;>
    simp [NetworkModel.detected, NetworkModel.host, NetworkModel.external,
      NetworkModel.delivers, hne]

/-- So they are for a NAT that keeps the IP address of the host. -/
theorem detected_of_same_ip {host : Endpoint} {mapping : Mapping} {filtering : Filtering}
    (h : host.ip = (mapping.external server.primary).ip) :
    (NetworkModel.nat host mapping filtering).detected server =
      if filtering = .unfiltered then .symmetricUdpFirewall else .openInternet := by
  simp [NetworkModel.detected, NetworkModel.host, NetworkModel.external, NetworkModel.delivers,
    admits_alternate, h]

/-- A NAT that changes the IP address and keeps the mapping. -/
theorem detected_endpointIndependent {host mapped : Endpoint} {filtering : Filtering}
    (h : host.ip ≠ mapped.ip) :
    (NetworkModel.nat host (.endpointIndependent mapped) filtering).detected server =
      (NetworkModel.nat host (.endpointIndependent mapped) filtering).documentedType := by
  have hport := admits_otherPort server filtering
  have hdetected : (NetworkModel.nat host (.endpointIndependent mapped) filtering).detected
      server = if filtering = .unfiltered then .fullCone
        else if filtering ≠ .byAddressAndPort then .restrictedCone else .portRestrictedCone := by
    simp only [NetworkModel.detected, NetworkModel.host, NetworkModel.external,
      Mapping.external, NetworkModel.delivers, decide_true, Bool.true_and, hport]
    simp [admits_alternate, h]
  rw [hdetected]
  cases filtering <;> rfl

/-- A NAT that changes the IP address is found to be symmetric if it maps the two addresses of
the server differently and does not let everybody in. -/
theorem detected_eq_symmetric_iff {host : Endpoint} {mapping : Mapping} {filtering : Filtering}
    (h : host.ip ≠ (mapping.external server.primary).ip) :
    (NetworkModel.nat host mapping filtering).detected server = .symmetric ↔
      mapping.external server.primary ≠ mapping.external server.alternate ∧
        filtering ≠ .unfiltered := by
  have hanswered : (NetworkModel.nat host mapping filtering).delivers [server.primary]
      server.alternate (mapping.external server.primary) =
        decide (filtering = .unfiltered) := by
    simp [NetworkModel.delivers, admits_alternate]
  have hcone : ∀ (c : Prop) [Decidable c],
      (if c then NatType.restrictedCone else .portRestrictedCone) ≠ .symmetric := by
    intro c _
    by_cases hc : c <;> simp [hc]
  simp only [NetworkModel.detected, NetworkModel.host, NetworkModel.external, if_neg h, hanswered]
  by_cases hunfiltered : filtering = .unfiltered
  · simp [hunfiltered]
  · by_cases hmapped : mapping.external server.primary = mapping.external server.alternate
    · simp only [hunfiltered, hmapped, decide_false, Bool.false_eq_true, if_false, ne_eq,
        not_true_eq_false, false_and, iff_false]
      exact hcone _
    · simp [hunfiltered, hmapped]

/-- A NAT that changes the IP address and lets everybody in is found to be a full cone. -/
theorem detected_unfiltered {host : Endpoint} {mapping : Mapping}
    (h : host.ip ≠ (mapping.external server.primary).ip) :
    (NetworkModel.nat host mapping .unfiltered).detected server = .fullCone := by
  simp [NetworkModel.detected, NetworkModel.host, NetworkModel.external, NetworkModel.delivers,
    admits_alternate, h]

/-- **The documented type is detected if and only if the host is behind a NAT that changes
its IP address, and that does not let everybody in or map the server's two addresses alike when
its mapping depends on the destination.**  For every network, every server with two addresses
and two ports, every library that decodes what it encodes, and when no datagram is lost. -/
theorem detect_documented_iff (codec : StunCodec) (server : StunServer) (model : NetworkModel)
    (name : String) :
    DetectsDocumented codec server model name ↔ model.Recognised server := by
  have hdetects : DetectsDocumented codec server model name ↔
      model.detected server = model.documentedType := by
    simp [DetectsDocumented, detect_eq]
  rw [hdetects]
  cases model with
  | direct host firewall =>
    rw [detected_direct]
    cases firewall <;> simp [NetworkModel.documentedType, NetworkModel.Recognised]
  | nat host mapping filtering =>
    by_cases hip : host.ip = (mapping.external server.primary).ip
    · rw [detected_of_same_ip hip]
      cases mapping <;> cases filtering <;>
        simp_all [NetworkModel.documentedType, NetworkModel.Recognised, Mapping.external]
    · cases mapping with
      | endpointIndependent mapped =>
        have hip : host.ip ≠ mapped.ip := hip
        rw [detected_endpointIndependent hip]
        exact iff_of_true rfl hip.symm
      | destinationDependent mapped depends =>
        have hrecognised : (NetworkModel.nat host (.destinationDependent mapped depends)
            filtering).Recognised server ↔ mapped server.primary ≠ mapped server.alternate ∧
              filtering ≠ .unfiltered := and_iff_right (Ne.symm hip)
        cases filtering with
        | byAddress | byAddressAndPort =>
          rw [hrecognised]
          exact detected_eq_symmetric_iff hip
        | unfiltered =>
          rw [hrecognised, detected_unfiltered hip]
          exact iff_of_false nofun fun h => h.2 rfl

/-- A server with two addresses and two ports. -/
def sampleStunServer : StunServer where
  ip := .v4 0x0A000001
  otherIp := .v4 0x0A000002
  port := 3478
  otherPort := 3479
  ip_ne := by decide
  port_ne := by decide

/-- **The open internet is taken for a symmetric firewall.** -/
theorem open_internet_taken_for_firewall :
    ¬ ∀ (codec : StunCodec) (server : StunServer) (model : NetworkModel) (name : String),
      DetectsDocumented codec server model name := by
  intro h
  obtain ⟨address, hdetect⟩ :=
    h sampleCodec sampleStunServer (.direct ⟨.v4 0x01020304, 40000⟩ false) "stun.example"
  have hrun : detect sampleCodec sampleStunServer
      (.direct ⟨.v4 0x01020304, 40000⟩ false) "stun.example" =
        some ("stun.example", .v4 0x01020304 40000, .symmetricUdpFirewall) := by
    decide +kernel
  rw [hrun] at hdetect
  cases hdetect

end Zeta
