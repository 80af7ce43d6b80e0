import Zeta.NetworkSteps
import Zeta.ClassicFlood
import Zeta.SamplePlatform

/-!
# The hops of a text

In a network of honest nodes every copy of a text is the original with fewer hops left:
one less for every relay that forwarded it.  The forwarders do not touch what the
signature covers, so it verifies wherever a copy arrives.
-/

namespace Zeta
namespace Network

variable {P : Platform} {ι κ : Type} [DecidableEq ι] [DecidableEq κ]

/-- Nobody but the nodes puts datagrams on the network. -/
def NoOutsiders (_ : World ι κ) : WorldEvent ι κ → Prop
  | .inject _ => False
  | _ => True

instance (w : World ι κ) : (e : WorldEvent ι κ) → Decidable (NoOutsiders w e)
  | .inject _ => isFalse id
  | .pay _ _ _ _ | .say _ _ _ _ | .register _ _ | .clientRecv _ _ _ | .relayRecv _ _
  | .console _ _ _ _ | .federate _ _ | .repeer _ _ | .restart _ _ _ => isTrue trivial

/-- In the run `es` from `w`, the datagram is a copy of the text `m`, which one of the nodes
wrote, and the relays `path` forwarded it, one after the other. -/
inductive CopyOf (net : Network P ι κ) (w : World ι κ) :
    List (WorldEvent ι κ) → Datagram → Classic → List κ → Prop where
  /-- A client sent it with `send_msg`. -/
  | said {es : List (WorldEvent ι κ)} {i : ι} {now msgId : UInt64} {text : String} {d : Datagram}
      (h : d ∈ packets ((net.system.run w es).addr i)
        (sendMsg P (net.client i) now msgId text ((net.system.run w es).clients i)).2) :
      CopyOf net w (es ++ [.say i now msgId text]) d
        (classicOf P (net.client i) now msgId text ((net.system.run w es).clients i)) []
  /-- A relay sent it from its console. -/
  | typed {es : List (WorldEvent ι κ)} {r : κ} {now msgId : UInt64} {line : String} {d : Datagram}
      (h : d ∈ packets (net.relay r).addr
        (consoleLine P (net.relay r) now msgId line ((net.system.run w es).relays r)).2) :
      CopyOf net w (es ++ [.console r now msgId line]) d
        (consoleClassic P (net.relay r) now msgId line) []
  /-- Relay `r` sent it when it received a copy. -/
  | forwarded {es : List (WorldEvent ι κ)} {r : κ} {d d' : Datagram} {m : Classic}
      {path : List κ} (hd : CopyOf net w es d m path)
      (h : d' ∈ packets (net.relay r).addr
        (handleMessage P d.msg d.src ((net.system.run w es).relays r)).sends) :
      CopyOf net w (es ++ [.relayRecv r d]) d' m (path ++ [r])
  | later {es : List (WorldEvent ι κ)} {e : WorldEvent ι κ} {d : Datagram} {m : Classic}
      {path : List κ} (hd : CopyOf net w es d m path) : CopyOf net w (es ++ [e]) d m path

/-- A copy that `path` forwarded: `m` with as many hops less, and a signature that
verifies. -/
structure HopsLess (P : Platform) (m : Classic) (path : List κ) (c : Classic) : Prop where
  same : c = { m with ttl := c.ttl }
  hops : c.ttl.toNat + path.length = 16
  verifies : verify P.ed c.publicKey c.srcId c.txt c.time c.msgId c.signature = true

variable {net : Network P ι κ} {w : World ι κ} {es : List (WorldEvent ι κ)} {d : Datagram}
  {m : Classic} {path : List κ}

omit [DecidableEq κ] in
/-- A relay that forwards a copy takes one hop off, and nothing else. -/
theorem HopsLess.forwarded {c : Classic} {r : κ} {src addr : SocketAddr} {s : RelayState}
    (h : HopsLess P m path c) (hd : d ∈ packets addr (relayClassic P c src s).sends) :
    ∃ c', d.msg = .classic c' ∧ HopsLess P m (path ++ [r]) c' := by
  rcases relayClassic_cases P c src s with ⟨-, -, httl, -, hsends⟩ | ⟨-, hsends⟩
  · rw [hsends] at hd
    have hmsg : d.msg = .classic c.forwarded := (mem_broadcast (mem_packets hd)).2.2
    have hone := Federation.forwarded_ttl httl
    have hhops := h.hops
    refine ⟨c.forwarded, hmsg, ?_, ?_, h.verifies⟩
    · rw [h.same]
      rfl
    · rw [List.length_append, List.length_singleton]
      omega
  · rw [hsends] at hd
    cases hd

/-- **The hop invariant.** -/
theorem hopsLess_of_copyOf (hE : P.ed.Correct) (h : CopyOf net w es d m path) :
    ∃ c, d.msg = .classic c ∧ HopsLess P m path c := by
  induction h with
  | said h => exact ⟨_, msg_of_sendToRelays h, rfl, rfl, verify_classicOf hE _ _ _ _ _⟩
  | typed h =>
    exact ⟨_, (mem_broadcast (mem_packets h)).2.2, rfl, rfl, verify_sign hE _ _ _ _ _⟩
  | forwarded _ h ih =>
    obtain ⟨c, hc, hless⟩ := ih
    rw [hc, handleMessage] at h
    exact hless.forwarded h
  | later _ ih => exact ih

omit [DecidableEq κ] in
/-- No relay refuses the signature of a copy. -/
theorem HopsLess.relay_exit {c : Classic} (h : HopsLess P m path c) (src : SocketAddr)
    (s : RelayState) : (relayClassic P c src s).exit ≠ .invalidSignature := by
  by_cases hseen : c.msgId ∈ s.seen.set
  · rw [relayClassic_duplicate hseen]
    exact RelayExit.noConfusion
  · by_cases httl : c.ttl > 0
    · rw [relayClassic_broadcast hseen h.verifies httl]
      exact RelayExit.noConfusion
    · rw [relayClassic_expired hseen h.verifies httl]
      exact RelayExit.noConfusion

omit [DecidableEq κ] in
/-- No client refuses it either. -/
theorem HopsLess.client_exit {c : Classic} (h : HopsLess P m path c) (s : ClientState) :
    (handleClassic P c s).exit ≠ .invalidSignature := by
  by_cases hseen : c.msgId ∈ s.seen.set
  · rw [handleClassic_duplicate hseen]
    exact ClientExit.noConfusion
  · rw [handleClassic_displayed hseen h.verifies]
    exact ClientExit.noConfusion

/-- **Every text on its way is a copy of one that a node wrote.** -/
theorem exists_copyOf (hes : net.system.Always NoOutsiders w es)
    (hstart : ∀ d ∈ w.sent, ∀ c, d.msg ≠ .classic c) {c : Classic}
    (hd : d ∈ (net.system.run w es).sent) (hc : d.msg = .classic c) :
    ∃ m path, CopyOf net w es d m path := by
  induction es using List.reverseRecOn generalizing d c with
  | nil => exact absurd hc (hstart d hd c)
  | append_singleton es e ih =>
    obtain ⟨hprev, hen, hok⟩ := EventSystem.always_snoc.mp hes
    rw [EventSystem.run_snoc] at hd
    by_cases hold : d ∈ (net.system.run w es).sent
    · obtain ⟨m, path, hcopy⟩ := ih hprev hold hc
      exact ⟨m, path, hcopy.later⟩
    · rcases new_classic hen hd hold hc with
        ⟨i, now, msgId, text, rfl, hnew⟩ | ⟨r, now, msgId, line, rfl, hnew⟩ |
          ⟨r, d₀, c₀, rfl, hd₀, hc₀, hnew⟩ | rfl
      · exact ⟨_, [], .said hnew⟩
      · exact ⟨_, [], .typed hnew⟩
      · obtain ⟨m, path, hcopy⟩ := ih hprev hd₀ hc₀
        exact ⟨m, path ++ [r], hcopy.forwarded (by rw [hc₀]; exact hnew)⟩
      · exact hok.elim

/-- **Every copy of a text is the text with as many hops less as relays forwarded it.**
In every run of a network of honest nodes, with any relays that know any peers, every
`Classic` on its way is a copy of one that `send_msg`, or the console of a relay, made;
and of whatever text it is a copy, and by whichever way it came, it is the same in every
field but `ttl`, which is 16 less the number of relays that forwarded it, and no relay
and no client refuses its signature. -/
theorem hops_of_copies (hE : P.ed.Correct) (net : Network P ι κ) (b : Boot ι κ)
    (es : List (WorldEvent ι κ)) (hes : net.system.Always NoOutsiders (net.start b) es) :
    let w := net.system.run (net.start b) es
    (∀ d ∈ w.sent, ∀ c, d.msg = .classic c → ∃ m path, CopyOf net (net.start b) es d m path) ∧
    ∀ d m path, CopyOf net (net.start b) es d m path →
      ∃ c, d.msg = .classic c ∧ c = { m with ttl := c.ttl } ∧ c.ttl.toNat + path.length = 16 ∧
        verify P.ed c.publicKey c.srcId c.txt c.time c.msgId c.signature = true ∧
        (∀ r, (handleMessage P d.msg d.src (w.relays r)).exit ≠ .invalidSignature) ∧
        ∀ i now, (handleMsg P (net.client i) now d.msg (w.clients i)).exit ≠
          .invalidSignature := by
  intro w
  refine ⟨fun d hd c hc => exists_copyOf hes (fun _ h => absurd h List.not_mem_nil) hd hc, ?_⟩
  intro d m path hcopy
  obtain ⟨c, hc, hless⟩ := hopsLess_of_copyOf hE hcopy
  refine ⟨c, hc, hless.same, hless.hops, hless.verifies, ?_, ?_⟩
  · intro r
    rw [hc]
    exact hless.relay_exit d.src (w.relays r)
  · intro i now
    rw [hc]
    exact hless.client_exit (w.clients i)

/-- In `textRun` alice's text reaches bob with one hop less. -/
theorem textRun_hops :
    checksumScheme.Correct ∧
    aliceAndBob.system.Always NoOutsiders (aliceAndBob.start aliceAndBobBoot) textRun ∧
    let w := aliceAndBob.system.run (aliceAndBob.start aliceAndBobBoot) textRun
    (∀ d ∈ w.sent, ∀ c, d.msg = .classic c →
      ∃ m path, CopyOf aliceAndBob (aliceAndBob.start aliceAndBobBoot) textRun d m path) ∧
    ∀ d m path, CopyOf aliceAndBob (aliceAndBob.start aliceAndBobBoot) textRun d m path →
      ∃ c, d.msg = .classic c ∧ c = { m with ttl := c.ttl } ∧ c.ttl.toNat + path.length = 16 ∧
        verify checksumScheme c.publicKey c.srcId c.txt c.time c.msgId c.signature = true ∧
        (∀ r, (handleMessage samplePlatform d.msg d.src (w.relays r)).exit ≠
          .invalidSignature) ∧
        ∀ i now, (handleMsg samplePlatform (aliceAndBob.client i) now d.msg (w.clients i)).exit ≠
          .invalidSignature :=
  have honest :
      aliceAndBob.system.Always NoOutsiders (aliceAndBob.start aliceAndBobBoot) textRun := by
    decide +kernel
  ⟨checksumScheme_correct, honest,
    hops_of_copies checksumScheme_correct aliceAndBob aliceAndBobBoot textRun honest⟩

end Network
end Zeta
