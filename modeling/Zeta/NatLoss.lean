import Zeta.NatModel
import Zeta.NatVerdict

/-!
# Detecting a NAT while datagrams are lost

The network of `NatModel` loses nothing.  Here every request has a fate: it may not be sent,
it may be lost on this side of the NAT or beyond it, or its answer may.  `single_send` tries
twice, so a loss alone changes nothing (`detect_of_lone_losses`).  Two in a row cost a test
its answer, and `nat_detect` then goes down another branch of its tree, to a type that no
answer contradicts.  Behind a NAT this type never has a greater weight than the documented
one, which is why `nat_detect_with_servers` may take the maximum over many servers: one of
them that was asked without such losses decides (`verdict_of_lossy_servers`).

Delays stay out of this: a late answer is taken for that to another test (`Probes`).
-/

namespace Zeta

/-- What becomes of a request and of the answer to it. -/
inductive Fate where
  /-- `send_to` fails, or takes more than a second. -/
  | unsent
  /-- The request is lost before it reaches the NAT. -/
  | lostInside
  /-- The request is lost beyond the NAT, or the answer is. -/
  | lostOutside
  | carried
  deriving DecidableEq

/-- The network, and how many requests were sent, or were to be. -/
structure LossyLink (bytes : Type) where
  link : Link bytes
  requests : ℕ

/-- Of two requests in a row one is carried, and so is the answer to it. -/
def LoneLosses (fates : ℕ → Fate) : Prop :=
  ∀ k, fates k = .carried ∨ fates (k + 1) = .carried

section Detection
variable (codec : StunCodec) (server : StunServer) (model : NetworkModel) (fates : ℕ → Fate)

/-- A request with the given fate is sent. -/
def sendOver (destination : Destination) (data : codec.Bytes) (link : Link codec.Bytes) :
    Fate → Bool × Link codec.Bytes
  | .unsent => (false, link)
  | .lostInside => (true, link)
  | .lostOutside =>
    (true, { link with contacted := link.contacted.insert (server.resolve destination) })
  | .carried => answerCall codec server model (.sendTo destination data) link

/-- The network with losses. -/
def answerOver : (c : SocketCall codec.Bytes) → LossyLink codec.Bytes →
    c.Answer × LossyLink codec.Bytes
  | .sendTo destination data, s =>
    let r := sendOver codec server model destination data s.link (fates s.requests)
    (r.1, ⟨r.2, s.requests + 1⟩)
  | .recvFrom, s =>
    let r := answerCall codec server model .recvFrom s.link
    (r.1, ⟨r.2, s.requests⟩)

/-- `nat_detect` over this network, from the IP address of the socket, if it could be bound. -/
def detectOver (socket : Option IpAddr) (stunServer : String) :
    Option (String × SocketAddr × NatType) :=
  (((natDetect socket stunServer).expand (singleSend codec)).run
    (answerOver codec server model fates) ⟨⟨[], []⟩, 0⟩).1

end Detection

variable {codec : StunCodec} {server : StunServer} {model : NetworkModel} {fates : ℕ → Fate}

/-! ## One test -/

variable (model) in
/-- What comes back for a request that is carried, if the network answers it at all. -/
theorem returned_eq {p : Probe} {e : Endpoint} (contacted : List Endpoint) {data : codec.Bytes}
    (he : server.resolve p.stunServer = e) (howns : server.Owns e)
    (hclass : p.message.messageClass = .request) (hmethod : p.message.method = bindingMethod)
    (hdecode : ∀ attributes, codec.decode attributes data = some (p.message.restrict attributes)) :
    match model.answer server contacted p with
    | none => returned codec server model contacted e data = []
    | some m => ∃ back, returned codec server model contacted e data = [back] ∧
        p.received codec back = .accepted m := by
  subst he
  obtain ⟨back, hencodeBack, hdecodeBack⟩ := codec.decode_encode
    (server.response (server.resolve p.stunServer)
      (model.external (server.resolve p.stunServer)) p.message)
  rw [NetworkModel.answer]
  cases hdelivers : model.delivers contacted
      (server.responseSource (server.resolve p.stunServer) p.message)
      (model.external (server.resolve p.stunServer)) with
  | false => simp [returned, hdecode, StunMessage.restrict, hdelivers]
  | true =>
    refine ⟨back, ?_, ?_⟩
    · simp [returned, hdecode, StunMessage.restrict, hdelivers, howns, hclass, hmethod,
        hencodeBack]
    · rw [Probe.received, hdecodeBack]
      cases p.attributes <;> simp [StunMessage.restrict, StunServer.response]

/-- The test has ended as it does without losses. -/
def AsWithoutLoss (answer : Option StunMessage) (after : List Endpoint)
    (r : Option StunMessage × LossyLink codec.Bytes) : Prop :=
  r.1 = answer ∧ r.2.link.contacted = after

/-- **How a test may end**: with the answer that it gets without losses, or with none. -/
structure Ends (answer : Option StunMessage) (before after : List Endpoint)
    (r : Option StunMessage × LossyLink codec.Bytes) : Prop where
  inbox : r.2.link.inbox = []
  contacted : r.2.link.contacted = before ∨ r.2.link.contacted = after
  result : r.1 = none ∨ AsWithoutLoss answer after r

variable (fates) in
/-- Attempts from now on, of which one may be carried. -/
theorem ends_attempts {p : Probe} {data : codec.Bytes} {answer : Option StunMessage}
    {after : List Endpoint} (hafter : after.insert (server.resolve p.stunServer) = after)
    (hback : match answer with
      | none => returned codec server model after (server.resolve p.stunServer) data = []
      | some m => ∃ back,
        returned codec server model after (server.resolve p.stunServer) data = [back] ∧
          p.received codec back = .accepted m)
    (n k : ℕ) {before : List Endpoint}
    (hbefore : before.insert (server.resolve p.stunServer) = after) :
    let r := (p.attempts codec data n).run (answerOver codec server model fates)
      ⟨⟨before, []⟩, k⟩
    Ends answer before after r ∧
      ((∃ j < n, fates (k + j) = .carried) → AsWithoutLoss answer after r) := by
  induction n generalizing k before with
  | zero => exact ⟨⟨rfl, Or.inl rfl, Or.inl rfl⟩, fun ⟨j, hj, _⟩ => absurd hj j.not_lt_zero⟩
  | succ n ih =>
    -- An attempt that gets no answer leaves the rest to the others.
    have hrest : ∀ {c : List Endpoint}, c = before ∨ c = after →
        (fates k = .carried → c = after ∧ answer = none) →
        (p.attempts codec data (n + 1)).run (answerOver codec server model fates)
            ⟨⟨before, []⟩, k⟩ =
          (p.attempts codec data n).run (answerOver codec server model fates)
            ⟨⟨c, []⟩, k + 1⟩ →
        let r := (p.attempts codec data (n + 1)).run (answerOver codec server model fates)
          ⟨⟨before, []⟩, k⟩
        Ends answer before after r ∧
          ((∃ j < n + 1, fates (k + j) = .carried) → AsWithoutLoss answer after r) := by
      intro c hc hcarried hrun
      have hinsert : c.insert (server.resolve p.stunServer) = after := by
        rcases hc with rfl | rfl
        · exact hbefore
        · exact hafter
      obtain ⟨hends, hone⟩ := ih (k + 1) hinsert
      rw [← hrun] at hends hone
      refine ⟨⟨hends.inbox, ?_, hends.result⟩, ?_⟩
      · rcases hends.contacted with h | h
        · rw [h]
          exact hc
        · exact Or.inr h
      · rintro ⟨j, hj, hfate⟩
        cases j with
        | zero =>
          obtain ⟨rfl, hnone⟩ := hcarried hfate
          refine ⟨?_, hends.contacted.elim id id⟩
          rcases hends.result with h | h
          · rw [h, hnone]
          · exact h.1
        | succ j => exact hone ⟨j, Nat.lt_of_succ_lt_succ hj, by rwa [Nat.succ_add_eq_add_succ]⟩
    cases hfate : fates k with
    | unsent =>
      refine hrest (Or.inl rfl) (fun h => by rw [hfate] at h; cases h) ?_
      simp [Probe.attempts, answerOver, sendOver, hfate]
    | lostInside =>
      refine hrest (Or.inl rfl) (fun h => by rw [hfate] at h; cases h) ?_
      simp [Probe.attempts, answerOver, sendOver, hfate, answerCall, Probe.onReceive]
    | lostOutside =>
      refine hrest (Or.inr hbefore) (fun h => by rw [hfate] at h; cases h) ?_
      simp [Probe.attempts, answerOver, sendOver, hfate, answerCall, Probe.onReceive]
    | carried =>
      cases answer with
      | none =>
        refine hrest (Or.inr rfl) (fun _ => ⟨rfl, rfl⟩) ?_
        simp only at hback
        simp [Probe.attempts, answerOver, sendOver, hfate, answerCall, Probe.onReceive, hbefore,
          hback]
      | some m =>
        obtain ⟨back, hreturned, haccepted⟩ := hback
        have hrun : (p.attempts codec data (n + 1)).run (answerOver codec server model fates)
            ⟨⟨before, []⟩, k⟩ = (some m, ⟨⟨after, []⟩, k + 1⟩) := by
          simp [Probe.attempts, answerOver, sendOver, hfate, answerCall, Probe.onReceive,
            hbefore, hreturned, haccepted]
        rw [hrun]
        exact ⟨⟨rfl, Or.inr rfl, Or.inr ⟨rfl, rfl⟩⟩, fun _ => ⟨rfl, rfl⟩⟩

section Test
variable (codec server model fates)

/-- A test from a given link. -/
def runOver (p : Probe) (contacted : List Endpoint) (k : ℕ) :
    Option StunMessage × LossyLink codec.Bytes :=
  (singleSend codec p).run (answerOver codec server model fates) ⟨⟨contacted, []⟩, k⟩

/-- It ends as it does without losses, or without an answer, and it does the former when no
two requests in a row are lost. -/
def EndsOver (p : Probe) (before after : List Endpoint) (k : ℕ) : Prop :=
  Ends (model.answer server after p) before after
      (runOver codec server model fates p before k) ∧
    (LoneLosses fates → AsWithoutLoss (model.answer server after p) after
      (runOver codec server model fates p before k))

end Test

/-- **One test.** -/
theorem ends_singleSend {p : Probe} {e : Endpoint} {before after : List Endpoint}
    (he : server.resolve p.stunServer = e) (howns : server.Owns e)
    (hinsert : before.insert e = after) (hclass : p.message.messageClass = .request)
    (hmethod : p.message.method = bindingMethod) (k : ℕ) :
    EndsOver codec server model fates p before after k := by
  obtain ⟨data, hencode, hdecode⟩ := codec.decode_encode p.message
  have hback := returned_eq model after he howns hclass hmethod hdecode
  subst he
  have hafter : after.insert (server.resolve p.stunServer) = after := by
    rw [← hinsert]
    exact List.insert_of_mem List.mem_insert_self
  obtain ⟨hends, hone⟩ := ends_attempts fates hafter hback stunRetryCount k hinsert
  rw [EndsOver, runOver, singleSend, hencode]
  refine ⟨hends, fun hlone => hone ?_⟩
  rcases hlone k with h | h
  · exact ⟨0, Nat.two_pos, h⟩
  · exact ⟨1, Nat.one_lt_two, h⟩

section Runs
variable (codec server model fates) (name : String) (k : ℕ)

theorem ends_test1 :
    EndsOver codec server model fates (test1 name) [] [server.primary] k :=
  ends_singleSend rfl server.owns_primary rfl rfl rfl k

theorem ends_test2 :
    EndsOver codec server model fates (test2 name) [server.primary] [server.primary] k :=
  ends_singleSend rfl server.owns_primary (List.insert_of_mem List.mem_cons_self) rfl rfl k

theorem ends_test12 : EndsOver codec server model fates (test12 server.alternate)
    [server.primary] [server.alternate, server.primary] k := by
  have hnew : server.alternate ∉ [server.primary] := fun h =>
    server.ip_ne (congrArg Endpoint.ip (List.mem_singleton.mp h))
  exact ends_singleSend (p := test12 server.alternate) (endpoint_address server.alternate)
    server.owns_alternate
    (List.insert_of_not_mem hnew) rfl rfl k

theorem ends_test3 : EndsOver codec server model fates (test3 server.alternate)
    [server.alternate, server.primary] [server.alternate, server.primary] k :=
  ends_singleSend (p := test3 server.alternate) (endpoint_address server.alternate)
    server.owns_alternate
    (List.insert_of_mem List.mem_cons_self) rfl rfl k

end Runs

/-! ## The decision tree -/

/-- **The tree of `nat_detect`**, for any handler of its tests: what it ends with, from the
results of the tests that it makes, each in the state that the one before it leaves. -/
theorem run_natDetect {ω : Type} (handle : (p : Probe) → ω → p.Answer × ω) {w : ω}
    {localIp : IpAddr} {name : String} {mapped changed mapped' : Endpoint}
    {r1 r2 r12 r3 : Option StunMessage × ω} (h1 : handle (test1 name) w = r1)
    (hmapped : ∀ m, r1.1 = some m →
      m.mappedAddress = some mapped ∧ m.changedAddress = some changed)
    (h2 : r1.1 ≠ none → handle (test2 name) r1.2 = r2)
    (h12 : handle (test12 changed) r2.2 = r12)
    (hmapped' : ∀ m, r12.1 = some m → m.mappedAddress = some mapped')
    (h3 : r12.1 ≠ none → handle (test3 changed) r12.2 = r3) :
    ((natDetect (some localIp) name).run handle w).1 = some (name,
      if r1.1.isNone then (emptyAddress, .udpBlocked)
      else if localIp = mapped.ip then
        (mapped.address, if r2.1.isSome then .symmetricUdpFirewall else .openInternet)
      else if r2.1.isSome then (mapped.address, .fullCone)
      else if r12.1.isNone then (mapped.address, .unknown)
      else if mapped ≠ mapped' then (mapped.address, .symmetric)
      else if r3.1.isSome then (mapped.address, .restrictedCone)
      else (mapped.address, .portRestrictedCone)) := by
  rw [natDetect, Program.run_call, h1]
  obtain ⟨a1, w1⟩ := r1
  cases a1 with
  | none => rfl
  | some m =>
    obtain ⟨hm, hchanged⟩ := hmapped m rfl
    simp only [hm, hchanged]
    by_cases hip : localIp = mapped.ip
    · rw [if_pos hip, Program.run_call, h2 (Option.some_ne_none m)]
      cases r2.1 <;> simp [hip]
    · rw [if_neg hip, Program.run_call, h2 (Option.some_ne_none m)]
      cases r2.1 with
      | some _ => simp [hip]
      | none =>
        rw [Program.run_call, h12]
        obtain ⟨a12, w12⟩ := r12
        cases a12 with
        | none => simp [hip]
        | some m' =>
          simp only [hmapped' m' rfl]
          split
          · simp [*]
          · rw [Program.run_call, h3 (Option.some_ne_none m')]
            cases r3.1 <;> simp [*]

/-- The address and the type that `nat_detect` ends with, when some tests are left without
the answer that the network has for them. -/
def NetworkModel.verdictOver (server : StunServer) (lost : Test → Bool) (model : NetworkModel) :
    SocketAddr × NatType :=
  let publicAddress := (model.external server.primary).address
  let answered := model.delivers [server.primary] server.alternate
    (model.external server.primary)
  if lost .test1 then (emptyAddress, .udpBlocked)
  else if model.host.ip = (model.external server.primary).ip then
    (publicAddress, if answered && !lost .test2 then .symmetricUdpFirewall else .openInternet)
  else if answered && !lost .test2 then (publicAddress, .fullCone)
  else if lost .test12 then (publicAddress, .unknown)
  else if model.external server.primary ≠ model.external server.alternate then
    (publicAddress, .symmetric)
  else if model.delivers [server.alternate, server.primary] ⟨server.otherIp, server.port⟩
      (model.external server.alternate) && !lost .test3 then (publicAddress, .restrictedCone)
  else (publicAddress, .portRestrictedCone)

/-- When no test is, it is the type that the answers lead to. -/
theorem verdictOver_none (server : StunServer) (model : NetworkModel) :
    model.verdictOver server (fun _ => false) =
      ((model.external server.primary).address, model.detected server) := by
  simp only [NetworkModel.verdictOver, NetworkModel.detected, Bool.not_false, Bool.and_true]
  split_ifs <;> simp_all

/-- A test with an answer, or one that contacts nobody new, leaves the link as it does
without losses. -/
theorem link_of_ends {answer : Option StunMessage} {before after : List Endpoint}
    {r : Option StunMessage × LossyLink codec.Bytes} (h : Ends answer before after r)
    (hafter : r.1 ≠ none ∨ before = after) : r.2 = ⟨⟨after, []⟩, r.2.requests⟩ := by
  have hcontacted : r.2.link.contacted = after := by
    rcases hafter with hsome | rfl
    · exact (h.result.resolve_left hsome).2
    · exact h.contacted.elim id id
  have hinbox := h.inbox
  obtain ⟨result, ⟨contacted, inbox⟩, requests⟩ := r
  simp only at hcontacted hinbox
  rw [hcontacted, hinbox]

/-- The answer to a test is missing: the network has one, and the test ended without. -/
def Missing (answer : Option StunMessage) (r : Option StunMessage × LossyLink codec.Bytes) :
    Bool :=
  r.1.isNone && answer.isSome

theorem isSome_of_ends {answer : Option StunMessage} {before after : List Endpoint}
    {r : Option StunMessage × LossyLink codec.Bytes} (h : Ends answer before after r) :
    r.1.isSome = (answer.isSome && !Missing answer r) := by
  rw [Missing]
  rcases h.result with hnone | ⟨hanswer, -⟩
  · simp [hnone]
  · rw [hanswer]
    cases answer <;> rfl

theorem not_missing {answer : Option StunMessage} {after : List Endpoint}
    {r : Option StunMessage × LossyLink codec.Bytes} (h : AsWithoutLoss answer after r) :
    Missing answer r = false := by
  rw [Missing, h.1]
  cases answer <;> rfl

/-- **The run of `nat_detect` over a network with losses** is that of its decision tree with
some answers missing, and with none when no two requests in a row are lost. -/
theorem exists_lost (codec : StunCodec) (server : StunServer) (model : NetworkModel)
    (fates : ℕ → Fate) (name : String) :
    ∃ lost : Test → Bool,
      detectOver codec server model fates (some model.host.ip) name =
        some (name, model.verdictOver server lost) ∧
      (LoneLosses fates → ∀ t, lost t = false) := by
  obtain ⟨m, hm, hmapped, hchanged⟩ :=
    answer_test1 server model name (List.mem_singleton_self server.primary)
  have hcontacted : server.alternate ∈ [server.alternate, server.primary] := List.mem_cons_self
  obtain ⟨m', hm', hmapped'⟩ := answer_test12 server model hcontacted
  -- The four tests, each from the link that it finds if it is reached.
  obtain ⟨hends1, hlone1⟩ := ends_test1 codec server model fates name 0
  generalize hr1 : runOver codec server model fates (test1 name) [] 0 = r1 at hends1 hlone1
  obtain ⟨hends2, hlone2⟩ := ends_test2 codec server model fates name r1.2.requests
  generalize hr2 : runOver codec server model fates (test2 name) [server.primary]
    r1.2.requests = r2 at hends2 hlone2
  obtain ⟨hends12, hlone12⟩ := ends_test12 codec server model fates r2.2.requests
  generalize hr12 : runOver codec server model fates (test12 server.alternate)
    [server.primary] r2.2.requests = r12 at hends12 hlone12
  obtain ⟨hends3, hlone3⟩ := ends_test3 codec server model fates r12.2.requests
  generalize hr3 : runOver codec server model fates (test3 server.alternate)
    [server.alternate, server.primary] r12.2.requests = r3 at hends3 hlone3
  refine ⟨fun
    | .test1 => Missing (model.answer server [server.primary] (test1 name)) r1
    | .test2 => Missing (model.answer server [server.primary] (test2 name)) r2
    | .test12 => Missing (model.answer server [server.alternate, server.primary]
        (test12 server.alternate)) r12
    | .test3 => Missing (model.answer server [server.alternate, server.primary]
        (test3 server.alternate)) r3, ?_, ?_⟩
  swap
  · intro hlone t
    cases t with
    | test1 => exact not_missing (hlone1 hlone)
    | test2 => exact not_missing (hlone2 hlone)
    | test12 => exact not_missing (hlone12 hlone)
    | test3 => exact not_missing (hlone3 hlone)
  have hmapped1 : ∀ x, r1.1 = some x → x.mappedAddress = some (model.external server.primary) ∧
      x.changedAddress = some server.alternate := by
    intro x hx
    have hanswer := (hends1.result.resolve_left (by simp [hx])).1
    rw [hx, hm] at hanswer
    cases hanswer
    exact ⟨hmapped, hchanged⟩
  have hmapped12 : ∀ x, r12.1 = some x →
      x.mappedAddress = some (model.external server.alternate) := by
    intro x hx
    have hanswer := (hends12.result.resolve_left (by simp [hx])).1
    rw [hx, hm'] at hanswer
    cases hanswer
    exact hmapped'
  have hcall2 (h : r1.1 ≠ none) : (singleSend codec (test2 name)).run
      (answerOver codec server model fates) r1.2 = r2 := by
    rw [link_of_ends hends1 (Or.inl h)]
    exact hr2
  have hcall12 : (singleSend codec (test12 server.alternate)).run
      (answerOver codec server model fates) r2.2 = r12 := by
    rw [link_of_ends hends2 (Or.inr rfl)]
    exact hr12
  have hcall3 (h : r12.1 ≠ none) : (singleSend codec (test3 server.alternate)).run
      (answerOver codec server model fates) r12.2 = r3 := by
    rw [link_of_ends hends12 (Or.inl h)]
    exact hr3
  have hsome2 := isSome_of_ends hends2
  have hsome3 := isSome_of_ends hends3
  rw [isSome_answer_test2] at hsome2
  rw [isSome_answer_test3] at hsome3
  rw [detectOver, Program.run_expand, run_natDetect _ hr1 hmapped1 hcall2 hcall12 hmapped12 hcall3]
  have hmissing1 : Missing (model.answer server [server.primary] (test1 name)) r1 =
      r1.1.isNone := by simp [Missing, hm]
  have hmissing12 : Missing (model.answer server [server.alternate, server.primary]
      (test12 server.alternate)) r12 = r12.1.isNone := by simp [Missing, hm']
  simp only [NetworkModel.verdictOver, ← hsome2, ← hsome3, hmissing1, hmissing12]

/-! ## What losses can do -/

/-- **A loss now and then changes nothing**: when no two requests in a row are lost,
`nat_detect` ends as it does without losses, in every network and for every server. -/
theorem detect_of_lone_losses (codec : StunCodec) (server : StunServer) (model : NetworkModel)
    (fates : ℕ → Fate) (name : String) (h : LoneLosses fates) :
    detectOver codec server model fates (some model.host.ip) name =
      detect codec server model name := by
  obtain ⟨lost, hdetect, hlone⟩ := exists_lost codec server model fates name
  obtain rfl : lost = fun _ => false := funext (hlone h)
  rw [hdetect, verdictOver_none, detect_eq]

/-- A network in which every other request is lost, from the first on. -/
def everyOther (k : ℕ) : Fate := if k % 2 = 0 then .lostInside else .carried

theorem everyOther_lone : LoneLosses everyOther := by
  intro k
  simp only [everyOther]
  by_cases heven : k % 2 = 0
  · exact Or.inr (if_neg (by omega))
  · exact Or.inl (if_neg heven)

/-- A host behind a home NAT. -/
def homeNat : NetworkModel :=
  .nat ⟨.v4 0xC0A80002, 40000⟩ (.endpointIndependent ⟨.v4 0x01020304, 50000⟩) .byAddress

theorem home_detect :
    detectOver sampleCodec sampleStunServer homeNat everyOther (some homeNat.host.ip) "b" =
      detect sampleCodec sampleStunServer homeNat "b" :=
  detect_of_lone_losses sampleCodec sampleStunServer homeNat everyOther "b" everyOther_lone

/-- **Where the IP address is changed, losses never raise the weight** of the type. -/
theorem weight_verdictOver_le (lost : Test → Bool)
    (h : model.host.ip ≠ (model.external server.primary).ip) :
    (model.verdictOver server lost).2.weight ≤ (model.detected server).weight := by
  simp only [NetworkModel.verdictOver, NetworkModel.detected, if_neg h]
  generalize model.delivers [server.primary] server.alternate (model.external server.primary) =
    answered
  generalize model.delivers [server.alternate, server.primary] ⟨server.otherIp, server.port⟩
    (model.external server.alternate) = answered'
  by_cases hsame : model.external server.primary = model.external server.alternate
  · rw [if_neg (not_not_intro hsame), if_neg (not_not_intro hsame)]
    cases answered <;> cases answered' <;> cases lost .test1 <;> cases lost .test2 <;>
      cases lost .test12 <;> cases lost .test3 <;> simp [NatType.weight]
  · rw [if_pos hsame, if_pos hsame]
    cases answered <;> cases lost .test1 <;> cases lost .test2 <;> cases lost .test12 <;>
      simp [NatType.weight]

/-- The address is empty, or the one for the server. -/
theorem address_verdictOver (server : StunServer) (model : NetworkModel) (lost : Test → Bool) :
    (model.verdictOver server lost).1 = emptyAddress ∨
      (model.verdictOver server lost).1 = (model.external server.primary).address := by
  simp only [NetworkModel.verdictOver]
  split_ifs <;> simp

/-- A recognised NAT changes the IP address, and without losses its type is found. -/
theorem detected_of_recognised (h : model.Recognised server) :
    model.host.ip ≠ (model.external server.primary).ip ∧
      model.detected server = model.documentedType := by
  match model, h with
  | .nat host (.endpointIndependent mapped) filtering, h =>
    exact ⟨Ne.symm h, detected_endpointIndependent (Ne.symm h)⟩
  | .nat host (.destinationDependent mapped depends) filtering, ⟨hip, hmapped, hfiltering⟩ =>
    refine ⟨hip.symm, ?_⟩
    have hfound : (NetworkModel.nat host (.destinationDependent mapped depends)
        filtering).detected server = .symmetric :=
      (detected_eq_symmetric_iff hip.symm).mpr ⟨hmapped, hfiltering⟩
    rw [hfound]
    cases filtering with
    | unfiltered => exact absurd rfl hfiltering
    | byAddress | byAddressAndPort => rfl

/-! ## Many servers -/

/-- A task of `nat_detect_with_servers`: the server that it asks, by a name that stands for
one of its addresses, the network between this server and the socket of the task, if it can
bind one, and what becomes of its requests. -/
structure Asked where
  name : String
  server : StunServer
  model : NetworkModel
  bound : Bool
  fates : ℕ → Fate

/-- What the task gives. -/
def Asked.task (codec : StunCodec) (localAddress : SocketAddr) (a : Asked) : Joined :=
  .finished (detectOver codec a.server a.model a.fates
    (if a.bound then some localAddress.endpoint.ip else none) a.name)

/-- The tasks that are spawned. -/
def spawned (codec : StunCodec) (asked : List Asked) (localAddress : SocketAddr) : List Joined :=
  asked.map (Asked.task codec localAddress)

/-- All tasks run on a host behind a NAT of type `n` that changes its IP address, and each server
is one with which it is recognised when nothing is lost. -/
def BehindNat (n : NatType) (localAddress : SocketAddr) (asked : List Asked) : Prop :=
  ∀ a ∈ asked, a.model.host.ip = localAddress.endpoint.ip ∧ a.model.Recognised a.server ∧
    a.model.documentedType = n

/-- The address is that of a socket, as the server of its task sees it. -/
def SeenFrom (asked : List Asked) (p : SocketAddr) : Prop :=
  ∃ a ∈ asked, p = (a.model.external a.server.primary).address

section Servers
variable {localAddress : SocketAddr} {asked : List Asked} {n : NatType}

variable (codec) in
/-- A task that has a socket reports the verdict of its decision tree. -/
theorem verdict_task {a : Asked} (hhost : a.model.host.ip = localAddress.endpoint.ip)
    (hbound : a.bound = true) :
    ∃ lost : Test → Bool,
      (a.task codec localAddress).verdict = some (a.model.verdictOver a.server lost) ∧
      (LoneLosses a.fates → ∀ t, lost t = false) := by
  obtain ⟨lost, hdetect, hlone⟩ := exists_lost codec a.server a.model a.fates a.name
  refine ⟨lost, ?_, hlone⟩
  rw [Asked.task, if_pos hbound, ← hhost, hdetect]
  rfl

/-- What a task reports is a verdict of its decision tree. -/
theorem exists_task_of_mem {v : SocketAddr × NatType} (hnat : BehindNat n localAddress asked)
    (hv : v ∈ verdicts (spawned codec asked localAddress)) :
    ∃ a ∈ asked, ∃ lost, v = a.model.verdictOver a.server lost := by
  obtain ⟨j, hj, hverdict⟩ := List.mem_filterMap.mp hv
  obtain ⟨a, ha, rfl⟩ := List.mem_map.mp hj
  cases hbound : a.bound with
  | false =>
    rw [Asked.task, hbound] at hverdict
    cases hverdict
  | true =>
    obtain ⟨lost, htask, -⟩ := verdict_task codec (hnat a ha).1 hbound
    rw [htask] at hverdict
    exact ⟨a, ha, lost, (Option.some.inj hverdict).symm⟩

/-- The address of the verdict was reported, unless all that were reported are empty. -/
theorem publicAddress_cases (vs : List (SocketAddr × NatType)) :
    ((Collected.start.addAll vs).publicAddress = emptyAddress ∧ ∀ v ∈ vs, v.1 = emptyAddress) ∨
      ∃ v ∈ vs, v.1 = (Collected.start.addAll vs).publicAddress ∧ v.1 ≠ emptyAddress := by
  rcases exists_last_address vs with ⟨pre, p, m, post, rfl, hp, hpost⟩ | hempty
  · right
    refine ⟨(p, m), List.mem_append_right _ List.mem_cons_self, ?_, hp⟩
    rw [publicAddress_append hp hpost]
  · exact Or.inl ⟨publicAddress_of_empty hempty, hempty⟩

/-- **Many servers, many losses.**  A host is behind a NAT that changes its IP address and that
is recognised without losses, and asks any servers, in any order of the keys; any of the
requests may be lost, and some tasks may have no socket.  As long as one has, there is a
verdict; it is never that of a more open NAT, and its address is empty or one that a server
has seen.  One task that never loses two requests in a row is enough for the type to be the
right one. -/
theorem verdict_of_lossy_servers (codec : StunCodec) (order : KeyOrder)
    (localAddress : SocketAddr) (asked : List Asked) (n : NatType)
    (hnat : BehindNat n localAddress asked) (hbound : ∃ a ∈ asked, a.bound = true) :
    ∃ n' p, natDetectWithServers order (some localAddress) (spawned codec asked) =
        some (n', p) ∧
      n'.weight ≤ n.weight ∧ (p = emptyAddress ∨ SeenFrom asked p) ∧
      ((∃ a ∈ asked, a.bound = true ∧ LoneLosses a.fates) → n' = n ∧ SeenFrom asked p) := by
  have hlost : Joined.lost ∉ spawned codec asked localAddress := by
    intro h
    obtain ⟨a, -, ha⟩ := List.mem_map.mp h
    cases ha
  have hmem : ∀ a ∈ asked, ∀ v, (a.task codec localAddress).verdict = some v →
      v ∈ verdicts (spawned codec asked localAddress) := fun a ha v hv =>
    List.mem_filterMap.mpr ⟨_, List.mem_map_of_mem ha, hv⟩
  have hne : verdicts (spawned codec asked localAddress) ≠ [] := by
    obtain ⟨a, ha, hb⟩ := hbound
    obtain ⟨lost, htask, -⟩ := verdict_task codec (hnat a ha).1 hb
    exact List.ne_nil_of_mem (hmem a ha _ htask)
  obtain ⟨n', q, hresult, hq, hheaviest⟩ := natDetectWithServers_eq order hlost hne
  have hle : n'.weight ≤ n.weight := by
    obtain ⟨a, ha, lost, hv⟩ := exists_task_of_mem hnat hq
    obtain ⟨-, hrecognised, hdocumented⟩ := hnat a ha
    obtain ⟨hip, hdetected⟩ := detected_of_recognised hrecognised
    calc n'.weight = (a.model.verdictOver a.server lost).2.weight := by rw [← hv]
      _ ≤ (a.model.detected a.server).weight := weight_verdictOver_le lost hip
      _ = n.weight := by rw [hdetected, hdocumented]
  have hseen : ∀ v ∈ verdicts (spawned codec asked localAddress), v.1 ≠ emptyAddress →
      SeenFrom asked v.1 := by
    intro v hv hp
    obtain ⟨a, ha, lost, rfl⟩ := exists_task_of_mem hnat hv
    exact ⟨a, ha, (address_verdictOver a.server a.model lost).resolve_left hp⟩
  refine ⟨n', _, hresult, hle, ?_, ?_⟩
  · rcases publicAddress_cases (verdicts (spawned codec asked localAddress)) with
      ⟨hpublic, -⟩ | ⟨v, hv, hpublic, hp⟩
    · exact Or.inl hpublic
    · exact Or.inr (hpublic ▸ hseen v hv hp)
  · rintro ⟨a, ha, hb, hlone⟩
    obtain ⟨hhost, hrecognised, hdocumented⟩ := hnat a ha
    obtain ⟨lost, htask, hnone⟩ := verdict_task codec hhost hb
    obtain rfl : lost = fun _ => false := funext (hnone hlone)
    rw [verdictOver_none, (detected_of_recognised hrecognised).2, hdocumented] at htask
    have hv := hmem a ha _ htask
    refine ⟨weight_injective (le_antisymm hle (hheaviest _ hv)), ?_⟩
    rcases publicAddress_cases (verdicts (spawned codec asked localAddress)) with
      ⟨hpublic, hempty⟩ | ⟨v, hv, hpublic, hp⟩
    · exact ⟨a, ha, hpublic.trans (hempty _ hv).symm⟩
    · exact hpublic ▸ hseen v hv hp

/-- The host asks two servers: all answers of one are lost, and every other request to the
other one. -/
def askedFromHome : List Asked :=
  [⟨"a", sampleStunServer, homeNat, true, fun _ => .lostOutside⟩,
    ⟨"b", sampleStunServer, homeNat, true, everyOther⟩]

theorem home_verdict :
    ∃ p, natDetectWithServers sampleKeyOrder (some (.v4 0xC0A80002 0))
        (spawned sampleCodec askedFromHome) = some (.restrictedCone, p) ∧
      SeenFrom askedFromHome p := by
  have hnat : BehindNat .restrictedCone (.v4 0xC0A80002 0) askedFromHome := by
    intro a ha
    have hmodel : a.model = homeNat := by
      simp only [askedFromHome, List.mem_cons, List.not_mem_nil, or_false] at ha
      rcases ha with rfl | rfl <;> rfl
    rw [hmodel]
    refine ⟨rfl, ?_, rfl⟩
    show IpAddr.v4 0x01020304 ≠ .v4 0xC0A80002
    decide
  obtain ⟨n, p, hresult, -, -, hlone⟩ := verdict_of_lossy_servers sampleCodec sampleKeyOrder
    (.v4 0xC0A80002 0) askedFromHome .restrictedCone hnat ⟨_, List.mem_cons_self, rfl⟩
  obtain ⟨rfl, hp⟩ :=
    hlone ⟨_, List.mem_cons_of_mem _ List.mem_cons_self, rfl, everyOther_lone⟩
  exact ⟨p, hresult, hp⟩

end Servers

end Zeta
