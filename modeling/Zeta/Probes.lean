import Zeta.EventSystem
import Zeta.Stun

/-!
# Late answers to the tests

All requests of `nat_detect` leave from one socket and carry one transaction id, and each test
sends a second request when the answer to the first is late.  Datagrams may be delayed, lost,
duplicated and reordered.  `single_send` takes the first datagram that decodes and has the
transaction id, whatever it answers.

A test accepts only answers to its own requests as long as no answer to another test that it
would accept reaches the socket while it runs, or is left there when it sends a request
(`accepts_own_of_punctual`).
-/

namespace Zeta

/-- A request that was sent, and the test it was sent for. -/
structure StunRequest (bytes : Type) where
  test : Test
  destination : Destination
  data : bytes

/-- A response of the server, and the request that it answers. -/
structure StunResponse (bytes : Type) where
  request : StunRequest bytes
  data : bytes

section System
variable (codec : StunCodec)

/-- Where `nat_detect` stands: in which test, and how far. -/
abbrev DetectorPhase : Type :=
  Program.Phase Probe Probe.Answer (SocketCall codec.Bytes) SocketCall.Answer
    (Option (String × SocketAddr × NatType))

/-- The detector, the requests it has sent, the responses of the server to them, and those
that have reached the socket and are to be received. -/
structure ProbingState where
  phase : DetectorPhase codec
  requests : List (StunRequest codec.Bytes)
  responses : List (StunResponse codec.Bytes)
  buffer : List (StunResponse codec.Bytes)

/-- What happens: the detector sends a datagram, or fails to, receives one, or waits in vain;
the server answers a request, as often as it likes; a copy of a response reaches the
socket. -/
inductive ProbingEvent where
  | send (sent : Bool)
  | receive
  | miss
  | answer (request : StunRequest codec.Bytes) (data : codec.Bytes)
  | arrive (response : StunResponse codec.Bytes)

variable {codec}

/-- The detector is about to send. -/
def AboutToSend : DetectorPhase codec → Prop
  | .running _ (.call (.sendTo _ _) _) _ => True
  | _ => False

/-- The detector waits for a datagram. -/
def Awaiting : DetectorPhase codec → Prop
  | .running _ (.call .recvFrom _) _ => True
  | _ => False

variable (codec)

/-- **The detector and the network.**  A request or a response that is never answered or
never arrives is lost. -/
def probing : EventSystem (ProbingState codec) (ProbingEvent codec) where
  Enabled s
    | .send _ => AboutToSend s.phase
    | .receive => Awaiting s.phase ∧ s.buffer ≠ []
    | .miss => Awaiting s.phase
    | .answer request _ => request ∈ s.requests
    | .arrive response => response ∈ s.responses
  next s
    | .send sent =>
      match s.phase with
      | .running p (.call (.sendTo destination data) g) next =>
        { s with
          phase := Program.settle (singleSend codec) p (g sent) next
          requests := if sent then ⟨p.test, destination, data⟩ :: s.requests else s.requests }
      | _ => s
    | .receive =>
      match s.phase, s.buffer with
      | .running p (.call .recvFrom g) next, d :: rest =>
        { s with
          phase := Program.settle (singleSend codec) p (g (some d.data)) next
          buffer := rest }
      | _, _ => s
    | .miss =>
      match s.phase with
      | .running p (.call .recvFrom g) next =>
        { s with phase := Program.settle (singleSend codec) p (g none) next }
      | _ => s
    | .answer request data => { s with responses := ⟨request, data⟩ :: s.responses }
    | .arrive response => { s with buffer := s.buffer ++ [response] }

/-- The start of `nat_detect`. -/
def probingStart (socket : Option IpAddr) (stunServer : String) : ProbingState codec where
  phase := Program.enter (singleSend codec) (natDetect socket stunServer)
  requests := []
  responses := []
  buffer := []

/-- `single_send` would accept the data. -/
def Probe.accepts (p : Probe) (data : codec.Bytes) : Bool :=
  match p.received codec data with
  | .accepted _ => true
  | _ => false

variable {codec}

/-- **A test is answered by its own response**: where `single_send` returns a message, it
has received a response to a request that was sent for the same test. -/
def AcceptsOwn (s : ProbingState codec) : ProbingEvent codec → Prop
  | .receive =>
    ∀ p g next d rest m, s.phase = .running p (.call .recvFrom g) next → s.buffer = d :: rest →
      g (some d.data) = .done (some m) → d.request ∈ s.requests ∧ d.request.test = p.test
  | _ => True

/-- If the running test would accept the response, it is one of its own. -/
def OwnIfAccepted (phase : DetectorPhase codec) (d : StunResponse codec.Bytes) : Prop :=
  match phase with
  | .finished _ => True
  | .running p _ _ => p.accepts codec d.data = true → d.request.test = p.test

/-- No response to another test that the running one would accept is left in the buffer when
it sends a request, or arrives while it runs. -/
def Punctual (s : ProbingState codec) : ProbingEvent codec → Prop
  | .send true => ∀ d ∈ s.buffer, OwnIfAccepted s.phase d
  | .arrive d => OwnIfAccepted s.phase d
  | _ => True

end System

variable {codec : StunCodec} {s : ProbingState codec} {e : ProbingEvent codec}

theorem exists_of_aboutToSend {phase : DetectorPhase codec} (h : AboutToSend phase) :
    ∃ p destination data g next,
      phase = .running p (.call (.sendTo destination data) g) next := by
  match phase, h with
  | .running p (.call (.sendTo destination data) g) next, _ =>
    exact ⟨p, destination, data, g, next, rfl⟩

theorem exists_of_awaiting {phase : DetectorPhase codec} (h : Awaiting phase) :
    ∃ p g next, phase = .running p (.call .recvFrom g) next := by
  match phase, h with
  | .running p (.call .recvFrom g) next, _ => exact ⟨p, g, next, rfl⟩

/-! ## The detector runs `nat_detect` -/

/-- What an event is for the program: the answer to its call, or nothing. -/
def Follows (s s' : ProbingState codec) : ProbingEvent codec → Prop
  | .send sent => ∃ destination data k,
      s.phase.remaining (singleSend codec) = .call (.sendTo destination data) k ∧
        s'.phase.remaining (singleSend codec) = k sent
  | .receive => ∃ k d rest, s.phase.remaining (singleSend codec) = .call .recvFrom k ∧
      s.buffer = d :: rest ∧ s'.phase.remaining (singleSend codec) = k (some d.data)
  | .miss => ∃ k, s.phase.remaining (singleSend codec) = .call .recvFrom k ∧
      s'.phase.remaining (singleSend codec) = k none
  | .answer _ _ | .arrive _ => s'.phase = s.phase

/-- The detector starts with the program that `detect` runs. -/
theorem remaining_probingStart (socket : Option IpAddr) (stunServer : String) :
    (probingStart codec socket stunServer).phase.remaining (singleSend codec) =
      (natDetect socket stunServer).expand (singleSend codec) :=
  Program.remaining_enter _ _

/-- **Its steps are the calls of this program.** -/
theorem follows_next (hen : (probing codec).Enabled s e) :
    Follows s ((probing codec).next s e) e := by
  obtain ⟨phase, requests, responses, buffer⟩ := s
  cases e with
  | send sent =>
    obtain ⟨p, destination, data, g, next, rfl⟩ := exists_of_aboutToSend hen
    exact ⟨destination, data, _, Program.remaining_call _ _ _ _ _, rfl⟩
  | receive =>
    obtain ⟨hawaiting, hbuffer⟩ := hen
    obtain ⟨p, g, next, rfl⟩ := exists_of_awaiting hawaiting
    cases buffer with
    | nil => exact absurd rfl hbuffer
    | cons d rest => exact ⟨_, d, rest, Program.remaining_call _ _ _ _ _, rfl, rfl⟩
  | miss =>
    obtain ⟨p, g, next, rfl⟩ := exists_of_awaiting hen
    exact ⟨_, Program.remaining_call _ _ _ _ _, rfl⟩
  | answer _ _ | arrive _ => rfl

/-! ## What is in the buffer -/

/-- Where `single_send` stands: before an attempt, at its end, or waiting, and then whatever
it would accept of the buffer is its own. -/
def Probe.Clean (buffer : List (StunResponse codec.Bytes)) (p : Probe)
    (inner : Program (SocketCall codec.Bytes) SocketCall.Answer (Option StunMessage)) : Prop :=
  (∃ bytes n, inner = p.attempts codec bytes n) ∨ (∃ r, inner = .done r) ∨
    (∃ bytes n, inner = .call .recvFrom (p.onReceive codec (p.attempts codec bytes n)) ∧
      ∀ d ∈ buffer, p.accepts codec d.data = true → d.request.test = p.test)

/-- All responses answer requests that were sent, and the buffer is clean. -/
structure Tidy (s : ProbingState codec) : Prop where
  responses : ∀ d ∈ s.responses, d.request ∈ s.requests
  buffer : ∀ d ∈ s.buffer, d.request ∈ s.requests
  inner : s.phase.Inner (Probe.Clean s.buffer)

/-- `single_send` begins with an attempt. -/
theorem clean_singleSend (buffer : List (StunResponse codec.Bytes)) (p : Probe) :
    p.Clean buffer (singleSend codec p) := by
  obtain ⟨bytes, hencode, -⟩ := codec.decode_encode p.message
  refine Or.inl ⟨bytes, stunRetryCount, ?_⟩
  rw [singleSend, hencode]

/-- An attempt sends, and then waits or goes on to the next one. -/
theorem clean_of_aboutToSend {buffer : List (StunResponse codec.Bytes)} {p : Probe}
    {destination : Destination} {data : codec.Bytes}
    {g : Bool → Program (SocketCall codec.Bytes) SocketCall.Answer (Option StunMessage)}
    (h : p.Clean buffer (.call (.sendTo destination data) g)) {sent : Bool}
    (hown : sent = true → ∀ d ∈ buffer, p.accepts codec d.data = true → d.request.test = p.test) :
    p.Clean buffer (g sent) := by
  rcases h with ⟨bytes, n, h⟩ | ⟨r, h⟩ | ⟨bytes, n, h, -⟩
  · cases n with
    | zero => cases h
    | succ n =>
      cases h
      cases sent with
      | false => exact Or.inl ⟨data, n, rfl⟩
      | true => exact Or.inr (Or.inr ⟨data, n, rfl, hown rfl⟩)
  · cases h
  · cases h

/-- An attempt has no result yet. -/
theorem attempts_ne_some {p : Probe} {bytes : codec.Bytes} {n : ℕ} {m : StunMessage} :
    p.attempts codec bytes n ≠ .done (some m) := by
  intro h
  cases n <;> cases h

/-- A message that is returned was accepted. -/
theorem accepts_of_onReceive {p : Probe} {bytes data : codec.Bytes} {n : ℕ} {m : StunMessage}
    (h : p.onReceive codec (p.attempts codec bytes n) (some data) = .done (some m)) :
    p.accepts codec data = true := by
  rw [Probe.onReceive] at h
  rw [Probe.accepts]
  cases hreceived : p.received codec data with
  | accepted m => rfl
  | refused =>
    rw [hreceived] at h
    cases h
  | ignored =>
    rw [hreceived] at h
    exact absurd h attempts_ne_some

/-- Waiting ends with a result or with the next attempt, whatever is left in the buffer. -/
theorem clean_of_awaiting {buffer : List (StunResponse codec.Bytes)} {p : Probe}
    {g : Option codec.Bytes →
      Program (SocketCall codec.Bytes) SocketCall.Answer (Option StunMessage)}
    (h : p.Clean buffer (.call .recvFrom g)) :
    (∀ rest x, p.Clean rest (g x)) ∧
      ∀ d ∈ buffer, ∀ m, g (some d.data) = .done (some m) → d.request.test = p.test := by
  rcases h with ⟨bytes, n, h⟩ | ⟨r, h⟩ | ⟨bytes, n, h, hown⟩
  · cases n <;> cases h
  · cases h
  · cases h
    refine ⟨fun rest x => ?_, fun d hd m hg => hown d hd (accepts_of_onReceive hg)⟩
    cases x with
    | none => exact Or.inl ⟨bytes, n, rfl⟩
    | some data =>
      rw [Probe.onReceive]
      cases p.received codec data with
      | accepted m => exact Or.inr (Or.inl ⟨some m, rfl⟩)
      | refused => exact Or.inr (Or.inl ⟨none, rfl⟩)
      | ignored => exact Or.inl ⟨bytes, n, rfl⟩

/-- Another response reaches the socket. -/
theorem clean_concat {buffer : List (StunResponse codec.Bytes)} {p : Probe}
    {inner : Program (SocketCall codec.Bytes) SocketCall.Answer (Option StunMessage)}
    (h : p.Clean buffer inner) {d : StunResponse codec.Bytes}
    (hd : p.accepts codec d.data = true → d.request.test = p.test) :
    p.Clean (buffer ++ [d]) inner := by
  rcases h with h | h | ⟨bytes, n, h, hown⟩
  · exact Or.inl h
  · exact Or.inr (Or.inl h)
  · exact Or.inr (Or.inr ⟨bytes, n, h,
      List.forall_mem_append.mpr ⟨hown, List.forall_mem_singleton.mpr hd⟩⟩)

theorem tidy_probingStart (socket : Option IpAddr) (stunServer : String) :
    Tidy (probingStart codec socket stunServer) where
  responses := by simp [probingStart]
  buffer := by simp [probingStart]
  inner := Program.inner_enter (clean_singleSend _) _

/-- **One step.**  A punctual event leaves the state tidy. -/
theorem tidy_next (h : Tidy s) (hen : (probing codec).Enabled s e) (hpunctual : Punctual s e) :
    Tidy ((probing codec).next s e) := by
  obtain ⟨phase, requests, responses, buffer⟩ := s
  obtain ⟨hresponses, hbuffer, hinner⟩ := h
  cases e with
  | send sent =>
    obtain ⟨p, destination, data, g, next, rfl⟩ := exists_of_aboutToSend hen
    have hmono : ∀ r ∈ requests, r ∈
        (if sent then ⟨p.test, destination, data⟩ :: requests else requests) := by
      intro r hr
      cases sent with
      | false => exact hr
      | true => exact List.mem_cons_of_mem _ hr
    refine ⟨fun d hd => hmono _ (hresponses d hd), fun d hd => hmono _ (hbuffer d hd), ?_⟩
    refine Program.inner_settle (clean_singleSend buffer) next (clean_of_aboutToSend hinner ?_)
    rintro rfl d hd
    exact hpunctual d hd
  | receive =>
    obtain ⟨hawaiting, hne⟩ := hen
    obtain ⟨p, g, next, rfl⟩ := exists_of_awaiting hawaiting
    cases buffer with
    | nil => exact absurd rfl hne
    | cons d rest =>
      refine ⟨hresponses, fun d' hd' => hbuffer d' (List.mem_cons_of_mem d hd'), ?_⟩
      exact Program.inner_settle (clean_singleSend rest) next
        ((clean_of_awaiting hinner).1 rest (some d.data))
  | miss =>
    obtain ⟨p, g, next, rfl⟩ := exists_of_awaiting hen
    refine ⟨hresponses, hbuffer, ?_⟩
    exact Program.inner_settle (clean_singleSend buffer) next
      ((clean_of_awaiting hinner).1 buffer none)
  | answer request data =>
    exact ⟨List.forall_mem_cons.mpr ⟨hen, hresponses⟩, hbuffer, hinner⟩
  | arrive d =>
    have harrived : ∀ d' ∈ buffer ++ [d], d'.request ∈ requests :=
      List.forall_mem_append.mpr ⟨hbuffer, List.forall_mem_singleton.mpr (hresponses d hen)⟩
    refine ⟨hresponses, harrived, ?_⟩
    cases phase with
    | finished a => trivial
    | running p inner next => exact clean_concat hinner hpunctual

/-- In a tidy state a test accepts its own response only. -/
theorem acceptsOwn_of_tidy (h : Tidy s) : AcceptsOwn s e := by
  cases e with
  | receive =>
    intro p g next d rest m hphase hbuffer hg
    have hinner := h.inner
    have hd : d ∈ s.buffer := by
      rw [hbuffer]
      exact List.mem_cons_self
    rw [hphase] at hinner
    exact ⟨h.buffer d hd, (clean_of_awaiting hinner).2 d hd m hg⟩
  | send _ | miss | answer _ _ | arrive _ => trivial

/-- **A test is answered by its own responses in every punctual run.**  However datagrams
are delayed, lost, duplicated and reordered, and whatever the server sends: if no response to
another test that the running one would accept arrives while it runs, or is left in the
buffer when it sends a request, every message that `single_send` returns is from a response
to a request of the same test. -/
theorem accepts_own_of_punctual (codec : StunCodec) (socket : Option IpAddr)
    (stunServer : String) (es : List (ProbingEvent codec))
    (h : (probing codec).Always Punctual (probingStart codec socket stunServer) es) :
    (probing codec).Always AcceptsOwn (probingStart codec socket stunServer) es :=
  EventSystem.always_of_invariant (I := Tidy)
    (fun _ _ htidy hen hpunctual => tidy_next htidy hen hpunctual)
    (fun _ _ htidy _ _ => acceptsOwn_of_tidy htidy) h (tidy_probingStart socket stunServer)

/-! ## A late answer -/

/-- What test 1 sends. -/
def sampleStunRequest : StunRequest sampleCodec.Bytes :=
  ⟨.test1, .named "stun.example", buildRequestBindMessage transactionId⟩

/-- What a server answers. -/
def sampleStunResponse : StunResponse sampleCodec.Bytes where
  request := sampleStunRequest
  data :=
    { buildRequestBindMessage transactionId with
      messageClass := .successResponse
      mappedAddress := some ⟨.v4 0x01020304, 40000⟩
      changedAddress := some ⟨.v4 0x0A000002, 3479⟩ }

/-- Test 1 is answered at once. -/
def answeredAtOnce : List (ProbingEvent sampleCodec) :=
  [.send true, .answer sampleStunRequest sampleStunResponse.data, .arrive sampleStunResponse,
    .receive]

theorem answered_at_once_accepted :
    (probing sampleCodec).Always AcceptsOwn
      (probingStart sampleCodec (some (.v4 0x01020304)) "stun.example") answeredAtOnce :=
  accepts_own_of_punctual sampleCodec (some (.v4 0x01020304)) "stun.example" answeredAtOnce
    ⟨trivial, (by intro d hd; cases hd), List.mem_cons_self, trivial, List.mem_cons_self,
      (fun _ => rfl), ⟨trivial, (List.cons_ne_nil _ _)⟩, trivial, trivial⟩

/-- Both requests of test 1 are answered after it has waited for the first in vain; it
accepts one of the answers, and the other is there when test 2 has sent its request. -/
def answeredTwice : List (ProbingEvent sampleCodec) :=
  [.send true, .miss, .send true, .answer sampleStunRequest sampleStunResponse.data,
    .answer sampleStunRequest sampleStunResponse.data, .arrive sampleStunResponse,
    .arrive sampleStunResponse, .receive, .send true, .receive]

/-- **Test 2 may accept an answer to test 1.** -/
theorem late_answer_accepted :
    ¬ ∀ (codec : StunCodec) (socket : Option IpAddr) (stunServer : String)
      (es : List (ProbingEvent codec)),
      (probing codec).Always (fun _ _ => True) (probingStart codec socket stunServer) es →
        (probing codec).Always AcceptsOwn (probingStart codec socket stunServer) es := by
  intro h
  have hrun : (probing sampleCodec).Always (fun _ _ => True)
      (probingStart sampleCodec (some (.v4 0x01020304)) "stun.example") answeredTwice :=
    ⟨trivial, trivial, trivial, trivial, trivial, trivial, List.mem_cons_self, trivial,
      List.mem_cons_self, trivial, List.mem_cons_self, trivial, List.mem_cons_self, trivial,
      ⟨trivial, List.cons_ne_nil _ _⟩, trivial, trivial, trivial,
      ⟨trivial, List.cons_ne_nil _ _⟩, trivial, trivial⟩
  obtain ⟨-, -, -, -, -, -, -, -, -, -, -, -, -, -, -, -, -, -, -, hlast, -⟩ :=
    h sampleCodec (some (.v4 0x01020304)) "stun.example" answeredTwice hrun
  have htest := (hlast _ _ _ _ _ _ rfl rfl rfl).2
  cases htest

end Zeta
