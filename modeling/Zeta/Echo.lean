import Zeta.NetworkSteps
import Zeta.SamplePlatform

/-!
# The echo of a text

`send_msg` shows a text in the sender's own feed at once, and does not mark its id as seen.
A copy that comes back would be shown again.  Relays leave out the address a copy came
from, and nothing else: a relay at which the sender is registered returns the text to him
whenever another relay's copy reaches it before his own.
-/

namespace Zeta

/-- What is said of a message if it is a `Classic`. -/
instance decidableForallClassic (Q : Classic → Prop) [DecidablePred Q] :
    (msg : Message) → Decidable (∀ m, msg = .classic m → Q m)
  | .classic m =>
    decidable_of_iff (Q m) ⟨fun h _ hm => Message.classic.inj hm ▸ h, fun h => h m rfl⟩
  | .register _ | .connect _ | .askForAddr _ | .peerInfo _ _ | .payment _ | .paymentAck _ =>
    isTrue nofun

/-- The signing of the text that a datagram carries. -/
def Datagram.signing (d : Datagram) : Option Signing :=
  match d.msg with
  | .classic m => some m.signing
  | _ => none

@[simp] theorem Datagram.signing_classic {src dst : SocketAddr} {m : Classic} :
    (⟨src, dst, .classic m⟩ : Datagram).signing = some m.signing := rfl

theorem Datagram.signing_eq_some_iff {d : Datagram} {σ : Signing} :
    d.signing = some σ ↔ ∃ m, d.msg = .classic m ∧ m.signing = σ := by
  obtain ⟨src, dst, msg⟩ := d
  cases msg with
  | classic m => simp
  | register _ | connect _ | askForAddr _ | peerInfo _ _ | payment _ | paymentAck _ =>
    simp [Datagram.signing]

namespace Network

variable {P : Platform} {ι κ : Type} [DecidableEq ι] [DecidableEq κ]

section Feed
variable (net : Network P ι κ) (i : ι)

/-- What client `i` signs when it sends a text. -/
def sayingOf (now msgId : UInt64) (text : String) : Signing where
  publicKey := (net.client i).publicKey
  srcId := (net.client i).peerId
  txt := text
  time := now
  msgId := msgId

/-- The text that client `i` sends in this event. -/
def said : WorldEvent ι κ → Option Signing
  | .say j now msgId text => if j = i then some (net.sayingOf i now msgId text) else none
  | _ => none

/-- The texts that client `i` has sent. -/
def saidBy (es : List (WorldEvent ι κ)) : List Signing := es.filterMap (net.said i)

/-- The event is about the text: client `i` sends it, or receives a copy of it. -/
def Concerns (σ : Signing) : WorldEvent ι κ → Prop
  | .say j now msgId text => j = i ∧ net.sayingOf i now msgId text = σ
  | .clientRecv j _ d => j = i ∧ d.signing = some σ
  | _ => False

instance (σ : Signing) : (e : WorldEvent ι κ) → Decidable (net.Concerns i σ e)
  | .say _ _ _ _ | .clientRecv _ _ _ => inferInstanceAs (Decidable (_ ∧ _))
  | .pay _ _ _ _ | .register _ _ | .relayRecv _ _ | .console _ _ _ _ | .federate _ _
  | .repeer _ _ | .restart _ _ _ | .inject _ => isFalse id

/-- How many entries the event adds to the feed of client `i` for the text. -/
def shows (σ : Signing) (w : World ι κ) (e : WorldEvent ι κ) : ℕ :=
  if net.Concerns i σ e then
    ((net.next w e).clients i).app.events.length - (w.clients i).app.events.length
  else 0

/-- The state of the network, and what happened, the latest event first. -/
abbrev Past (ι κ : Type) : Type := World ι κ × List (WorldEvent ι κ)

/-- Client `i` does not display as received a text that it sent. -/
def NoEcho (s : Past ι κ) : WorldEvent ι κ → Prop
  | .clientRecv j now d => j = i → (∃ σ ∈ net.saidBy i s.2, d.signing = some σ) →
      (recvLoop P (net.client j) now d.msg (s.1.clients j)).exit ≠ .displayed
  | _ => True

/-- Nobody but the nodes puts datagrams on the network, client `i` goes on running, and
nobody signs the same text with the same id in the same second again. -/
def Undisturbed (s : Past ι κ) : WorldEvent ι κ → Prop
  | .inject _ => False
  | .restart j _ _ => j ≠ i
  | .say j now msgId text => net.sayingOf j now msgId text ∉ s.1.signed
  | .console r now msgId line =>
    ⟨(net.relay r).publicKey, (net.relay r).peerId, line, now, msgId⟩ ∉ s.1.signed
  | _ => True

/-- A relay at which client `i` is registered takes the texts of client `i`, while they
have hops left, from nobody but `i`. -/
def FirstHand (s : Past ι κ) : WorldEvent ι κ → Prop
  | .relayRecv r d => ∀ m, d.msg = .classic m → m.signing ∈ net.saidBy i s.2 →
      s.1.addr i ∈ (s.1.relays r).peers.keys → m.msgId ∉ (s.1.relays r).seen.set →
      verify P.ed m.publicKey m.srcId m.txt m.time m.msgId m.signature = true → m.ttl > 0 →
      d.src = s.1.addr i
  | _ => True

instance (s : Past ι κ) : (e : WorldEvent ι κ) → Decidable (net.NoEcho i s e)
  | .clientRecv _ _ _ => inferInstanceAs (Decidable (_ → _ → _))
  | .pay _ _ _ _ | .say _ _ _ _ | .register _ _ | .relayRecv _ _ | .console _ _ _ _
  | .federate _ _ | .repeer _ _ | .restart _ _ _ | .inject _ => isTrue trivial

instance (s : Past ι κ) : (e : WorldEvent ι κ) → Decidable (net.Undisturbed i s e)
  | .inject _ => isFalse id
  | .restart j _ _ => inferInstanceAs (Decidable (j ≠ i))
  | .say _ _ _ _ | .console _ _ _ _ => inferInstanceAs (Decidable (_ ∉ s.1.signed))
  | .pay _ _ _ _ | .register _ _ | .clientRecv _ _ _ | .relayRecv _ _ | .federate _ _
  | .repeer _ _ => isTrue trivial

instance (s : Past ι κ) : (e : WorldEvent ι κ) → Decidable (net.FirstHand i s e)
  | .relayRecv _ d => decidableForallClassic _ d.msg
  | .pay _ _ _ _ | .say _ _ _ _ | .register _ _ | .clientRecv _ _ _ | .console _ _ _ _
  | .federate _ _ | .repeer _ _ | .restart _ _ _ | .inject _ => isTrue trivial

end Feed

variable {net : Network P ι κ} {i : ι} {w : World ι κ} {es : List (WorldEvent ι κ)}
  {e : WorldEvent ι κ} {σ : Signing}

omit [DecidableEq κ] in
theorem mem_saidBy_cons :
    σ ∈ net.saidBy i (e :: es) ↔ net.said i e = some σ ∨ σ ∈ net.saidBy i es := by
  unfold saidBy
  cases h : net.said i e with
  | none => simp [List.filterMap_cons_none h]
  | some σ' => simp [List.filterMap_cons_some h, eq_comm]

omit [DecidableEq κ] in
theorem said_eq_some_iff :
    net.said i e = some σ ↔
      ∃ now msgId text, e = .say i now msgId text ∧ net.sayingOf i now msgId text = σ := by
  cases e with
  | say j now msgId text =>
    by_cases hj : j = i
    · subst hj
      simp [said]
    · simp [said, hj]
  | pay _ _ _ _ | register _ _ | clientRecv _ _ _ | relayRecv _ _ | console _ _ _ _
  | federate _ _ | repeer _ _ | restart _ _ _ | inject _ => simp [said]

/-! ## What is on its way to the sender -/

/-- Every text on its way was signed, those of client `i` among them, and none of these is
on its way to `i`. -/
structure Unechoed (net : Network P ι κ) (i : ι) (a : SocketAddr) (s : Past ι κ) : Prop where
  addr : s.1.addr i = a
  sent : ∀ d ∈ s.1.sent, ∀ m, d.msg = .classic m → m.signing ∈ s.1.signed
  said : ∀ σ ∈ net.saidBy i s.2, σ ∈ s.1.signed
  away : ∀ d ∈ s.1.sent, d.dst = a → ∀ m, d.msg = .classic m → m.signing ∉ net.saidBy i s.2

omit [DecidableEq κ] in
theorem unechoed_start (b : Boot ι κ) : Unechoed net i (b.addr i) (net.start b, []) :=
  ⟨rfl, fun _ hd => absurd hd List.not_mem_nil, fun _ hσ => absurd hσ List.not_mem_nil,
    fun _ hd => absurd hd List.not_mem_nil⟩

theorem addr_next {past : List (WorldEvent ι κ)} (hok : net.Undisturbed i (w, past) e) :
    (net.next w e).addr i = w.addr i := by
  cases e with
  | restart j addr localAddr =>
    have hne : j ≠ i := hok
    exact Function.update_of_ne hne.symm addr w.addr
  | pay _ _ _ _ | say _ _ _ _ | register _ _ | clientRecv _ _ _ | relayRecv _ _
  | console _ _ _ _ | federate _ _ | repeer _ _ | inject _ => rfl

theorem signed_subset_next : w.signed ⊆ (net.next w e).signed := by
  cases e with
  | say _ _ _ _ | console _ _ _ _ => exact List.subset_append_left _ _
  | pay _ _ _ _ | register _ _ | clientRecv _ _ _ | relayRecv _ _ | federate _ _ | repeer _ _
  | restart _ _ _ | inject _ => exact List.Subset.refl _

theorem mem_signed_next_of_said (h : net.said i e = some σ) : σ ∈ (net.next w e).signed := by
  obtain ⟨now, msgId, text, rfl, rfl⟩ := said_eq_some_iff.mp h
  exact List.mem_append_right _ (List.mem_singleton_self _)

/-- **A text that is new on its way was signed just now, or a relay forwarded a copy of it
from somewhere else.** -/
theorem new_text {past : List (WorldEvent ι κ)} {d : Datagram} {m : Classic}
    (hen : net.Enabled w e) (hok : net.Undisturbed i (w, past) e)
    (hd : d ∈ (net.next w e).sent) (hnew : d ∉ w.sent) (hm : d.msg = .classic m) :
    (m.signing ∉ w.signed ∧ m.signing ∈ (net.next w e).signed ∧
      (net.said i e = some m.signing → d.dst ∈ (net.client i).relayAddrs)) ∨
    (∃ r d₀ m₀, e = .relayRecv r d₀ ∧ d₀ ∈ w.sent ∧ d₀.msg = .classic m₀ ∧
      m₀.signing = m.signing ∧ d.dst ∈ (w.relays r).peers.keys ∧ d.dst ≠ d₀.src ∧
      m₀.msgId ∉ (w.relays r).seen.set ∧
      verify P.ed m₀.publicKey m₀.srcId m₀.txt m₀.time m₀.msgId m₀.signature = true ∧
      m₀.ttl > 0) := by
  rcases new_classic hen hd hnew hm with
    ⟨j, now, msgId, text, rfl, hsent⟩ | ⟨r, now, msgId, line, rfl, hsent⟩ |
      ⟨r, d₀, m₀, rfl, hd₀, hm₀, hsent⟩ | rfl
  · have hmsg := msg_of_sendToRelays hsent
    have heq : m.signing = net.sayingOf j now msgId text := by
      rw [hm] at hmsg
      rw [Message.classic.inj hmsg]
      rfl
    rw [heq]
    refine Or.inl ⟨hok, List.mem_append_right _ (List.mem_singleton_self _), fun hsaid => ?_⟩
    obtain ⟨_, _, _, hj, -⟩ := said_eq_some_iff.mp hsaid
    obtain ⟨relay, hrelay, hx⟩ := List.mem_map.mp (mem_packets hsent)
    rw [← (WorldEvent.say.inj hj).1, ← (Prod.mk.inj hx).1]
    exact hrelay
  · have hmsg : d.msg = _ := (mem_broadcast (mem_packets hsent)).2.2
    have heq : m.signing =
        ⟨(net.relay r).publicKey, (net.relay r).peerId, line, now, msgId⟩ := by
      rw [hm] at hmsg
      rw [Message.classic.inj hmsg]
      rfl
    rw [heq]
    exact Or.inl ⟨hok, List.mem_append_right _ (List.mem_singleton_self _), nofun⟩
  · rcases relayClassic_cases P m₀ d₀.src (w.relays r) with ⟨hid, hv, ht, -, hout⟩ | ⟨-, hout⟩
    · rw [hout] at hsent
      obtain ⟨hkey, hsrc, hmsg⟩ := mem_broadcast (mem_packets hsent)
      have hmsg : d.msg = .classic m₀.forwarded := hmsg
      rw [hm] at hmsg
      refine Or.inr ⟨r, d₀, m₀, rfl, hd₀, hm₀, ?_, hkey, hsrc, hid, hv, ht⟩
      rw [Message.classic.inj hmsg]
      rfl
    · rw [hout] at hsent
      cases hsent
  · exact hok.elim

/-- **The invariant is kept.**  If client `i` is not its own relay, and every relay at
which it is registered has its texts from `i` itself, none of them comes back. -/
theorem unechoed_next {a : SocketAddr} {s : Past ι κ} (ha : a ∉ (net.client i).relayAddrs)
    (h : Unechoed net i a s) (hen : net.Enabled s.1 e) (hok : net.Undisturbed i s e)
    (hfirst : net.FirstHand i s e) :
    Unechoed net i a (net.system.withHistory.next s e) := by
  obtain ⟨w, past⟩ := s
  refine ⟨(addr_next hok).trans h.addr, fun d hd m hm => ?_, fun σ hσ => ?_,
    fun d hd hdst m hm hsaid => ?_⟩
  · by_cases hold : d ∈ w.sent
    · exact signed_subset_next (h.sent d hold m hm)
    · rcases new_text hen hok hd hold hm with ⟨-, hsigned, -⟩ | ⟨r, d₀, m₀, -, hd₀, hm₀, heq, -⟩
      · exact hsigned
      · rw [← heq]
        exact signed_subset_next (h.sent d₀ hd₀ m₀ hm₀)
  · rcases mem_saidBy_cons.mp hσ with hnow | hbefore
    · exact mem_signed_next_of_said hnow
    · exact signed_subset_next (h.said σ hbefore)
  · by_cases hold : d ∈ w.sent
    · rcases mem_saidBy_cons.mp hsaid with hnow | hbefore
      · -- The text would have been on its way before it was signed.
        obtain ⟨now, msgId, text, rfl, heq⟩ := said_eq_some_iff.mp hnow
        have hfresh : net.sayingOf i now msgId text ∉ w.signed := hok
        exact hfresh (heq ▸ h.sent d hold m hm)
      · exact h.away d hold hdst m hm hbefore
    · rcases new_text hen hok hd hold hm with
        ⟨hfresh, -, hrelay⟩ | ⟨r, d₀, m₀, rfl, -, hm₀, heq, hkey, hsrc, hid, hv, ht⟩
      · rcases mem_saidBy_cons.mp hsaid with hnow | hbefore
        · exact ha (hdst ▸ hrelay hnow)
        · exact hfresh (h.said _ hbefore)
      · have hbefore := (mem_saidBy_cons.mp hsaid).resolve_left nofun
        have haddr : w.addr i = d.dst := h.addr.trans hdst.symm
        apply hsrc
        rw [← haddr]
        exact (hfirst m₀ hm₀ (heq ▸ hbefore) (haddr ▸ hkey) hid hv ht).symm

omit [DecidableEq κ] in
/-- None of the texts of client `i` is delivered to it. -/
theorem noEcho_of_unechoed {a : SocketAddr} {s : Past ι κ} (h : Unechoed net i a s)
    (hen : net.Enabled s.1 e) : net.NoEcho i s e := by
  cases e with
  | clientRecv j now d =>
    rintro rfl ⟨σ, hσ, hd⟩
    obtain ⟨m, hm, rfl⟩ := Datagram.signing_eq_some_iff.mp hd
    exact absurd hσ (h.away d hen.1 (hen.2.trans h.addr) m hm)
  | pay _ _ _ _ | say _ _ _ _ | register _ _ | relayRecv _ _ | console _ _ _ _
  | federate _ _ | repeer _ _ | restart _ _ _ | inject _ => trivial

/-! ## What the sender sees -/

/-- `send_msg` adds one entry to the feed. -/
theorem shows_said (h : net.said i e = some σ) : net.shows i σ w e = 1 := by
  obtain ⟨now, msgId, text, rfl, rfl⟩ := said_eq_some_iff.mp h
  have hconcerns : net.Concerns i (net.sayingOf i now msgId text) (.say i now msgId text) :=
    ⟨rfl, rfl⟩
  have hlength : ((net.next w (.say i now msgId text)).clients i).app.events.length =
      (w.clients i).app.events.length + 1 := by
    simp [next, World.setClient, sendMsg, AppState.pushMessage]
  rw [shows, if_pos hconcerns, hlength, Nat.add_sub_cancel_left]

/-- No other step adds one for a text that is not on its way to the client. -/
theorem shows_eq_zero {a : SocketAddr} {past : List (WorldEvent ι κ)}
    (h : Unechoed net i a (w, past)) (hen : net.Enabled w e) (hnow : net.said i e ≠ some σ)
    (hσ : σ ∈ net.saidBy i past ∨ σ ∉ w.signed) : net.shows i σ w e = 0 := by
  apply if_neg
  intro hconcerns
  cases e with
  | say j now msgId text =>
    obtain ⟨rfl, rfl⟩ := hconcerns
    exact hnow (said_eq_some_iff.mpr ⟨now, msgId, text, rfl, rfl⟩)
  | clientRecv j now d =>
    obtain ⟨rfl, hd⟩ := hconcerns
    obtain ⟨m, hm, rfl⟩ := Datagram.signing_eq_some_iff.mp hd
    rcases hσ with hsaid | hunsigned
    · exact h.away d hen.1 (hen.2.trans h.addr) m hm hsaid
    · exact hunsigned (h.sent d hen.1 m hm)
  | pay _ _ _ _ | register _ _ | relayRecv _ _ | console _ _ _ _ | federate _ _
  | repeer _ _ | restart _ _ _ | inject _ => exact hconcerns.elim

theorem unechoed_run {b : Boot ι κ} (hi : b.addr i ∉ (net.client i).relayAddrs)
    (hes : net.system.withHistory.Always
      (fun s e => net.Undisturbed i s e ∧ net.FirstHand i s e) (net.start b, []) es) :
    Unechoed net i (b.addr i) (net.system.run (net.start b) es, es.reverse) := by
  have hrun := EventSystem.invariant_run
    (fun s e h hen hok => unechoed_next (e := e) hi h hen hok.1 hok.2) hes (unechoed_start b)
  rw [EventSystem.withHistory_run, List.append_nil] at hrun
  exact hrun

omit [DecidableEq κ] in
@[simp] theorem mem_saidBy_reverse : σ ∈ net.saidBy i es.reverse ↔ σ ∈ net.saidBy i es := by
  simp [saidBy]

omit [DecidableEq κ] in
theorem mem_saidBy_concat :
    σ ∈ net.saidBy i (es ++ [e]) ↔ net.said i e = some σ ∨ σ ∈ net.saidBy i es := by
  rw [← mem_saidBy_reverse, List.reverse_append, List.reverse_singleton, List.singleton_append,
    mem_saidBy_cons, mem_saidBy_reverse]

/-- What the run has shown for each text: one entry if it was sent, none before it was
signed. -/
theorem sum_shows {b : Boot ι κ} (hi : b.addr i ∉ (net.client i).relayAddrs)
    (hes : net.system.withHistory.Always
      (fun s e => net.Undisturbed i s e ∧ net.FirstHand i s e) (net.start b, []) es) :
    (σ ∈ net.saidBy i es → net.system.sumAlong (net.shows i σ) (net.start b) es = 1) ∧
    (σ ∉ (net.system.run (net.start b) es).signed →
      net.system.sumAlong (net.shows i σ) (net.start b) es = 0) := by
  induction es using List.reverseRecOn with
  | nil => exact ⟨fun h => absurd h List.not_mem_nil, fun _ => rfl⟩
  | append_singleton es e ih =>
    obtain ⟨hprev, hen, hok⟩ := EventSystem.always_snoc.mp hes
    have hinv := unechoed_run hi hprev
    obtain ⟨hsaid, hunsigned⟩ := ih hprev
    rw [EventSystem.withHistory_run, List.append_nil] at hen hok
    rw [EventSystem.sumAlong_append, EventSystem.sumAlong_cons, EventSystem.sumAlong_nil,
      Nat.add_zero, EventSystem.run_snoc]
    by_cases hnow : net.said i e = some σ
    · refine ⟨fun _ => ?_, fun h => absurd (mem_signed_next_of_said hnow) h⟩
      obtain ⟨now, msgId, text, rfl, rfl⟩ := said_eq_some_iff.mp hnow
      rw [hunsigned hok.1, shows_said hnow]
    · constructor
      · intro hmem
        have hbefore := (mem_saidBy_concat.mp hmem).resolve_left hnow
        rw [hsaid hbefore,
          shows_eq_zero hinv hen hnow (Or.inl (mem_saidBy_reverse.mpr hbefore))]
      · intro hσ
        have hbefore : σ ∉ (net.system.run (net.start b) es).signed :=
          fun h => hσ (signed_subset_next h)
        rw [hunsigned hbefore, shows_eq_zero hinv hen hnow (Or.inr hbefore)]

/-- **A text is not echoed if every relay has it from its author.**  In every run of honest
nodes, with any relays that know any peers, and for every client that is not its own relay:
if every relay at which the client is registered takes its texts from the client itself,
then each text it sends makes exactly one entry in its feed, and it displays none of them
as received. -/
theorem no_echo (net : Network P ι κ) (i : ι) (b : Boot ι κ)
    (hi : b.addr i ∉ (net.client i).relayAddrs) (es : List (WorldEvent ι κ))
    (hes : net.system.withHistory.Always
      (fun s e => net.Undisturbed i s e ∧ net.FirstHand i s e) (net.start b, []) es) :
    (∀ σ ∈ net.saidBy i es, net.system.sumAlong (net.shows i σ) (net.start b) es = 1) ∧
      net.system.withHistory.Always (net.NoEcho i) (net.start b, []) es :=
  ⟨fun _ hσ => (sum_shows hi hes).1 hσ,
    EventSystem.always_of_invariant
      (fun _ _ h hen hok => unechoed_next hi h hen hok.1 hok.2)
      (fun _ _ h hen _ => noEcho_of_unechoed h hen) hes (unechoed_start b)⟩

/-- **Where a relay has it from another, it comes back**: the relay sends a copy to the
client, who displays it if it is delivered next and its id was not seen. -/
theorem echo_of_not_firstHand {past : List (WorldEvent ι κ)} (now : UInt64)
    (h : ¬ net.FirstHand i (w, past) e) (hrun : (w.clients i).receiving = true) :
    ∃ d σ, d ∈ (net.next w e).sent ∧ d.dst = w.addr i ∧ d.signing = some σ ∧
      σ ∈ net.saidBy i past ∧
      (σ.msgId ∉ (w.clients i).seen.set →
        ¬ net.NoEcho i (net.next w e, past) (.clientRecv i now d)) := by
  cases e with
  | relayRecv r d₀ =>
    simp only [FirstHand, not_forall] at h
    obtain ⟨m, hm, hsaid, hkey, hid, hv, ht, hsrc⟩ := h
    have hout : (handleMessage P d₀.msg d₀.src (w.relays r)).sends =
        broadcast (w.relays r).peers d₀.src (.classic m.forwarded) := by
      rw [hm, handleMessage, relayClassic_broadcast hid hv ht]
    have hbroadcast : (w.addr i, Message.classic m.forwarded) ∈
        broadcast (w.relays r).peers d₀.src (.classic m.forwarded) :=
      List.mem_map.mpr ⟨w.addr i, List.mem_filter.mpr
        ⟨hkey, decide_eq_true (Ne.symm hsrc)⟩, rfl⟩
    refine ⟨⟨(net.relay r).addr, w.addr i, .classic m.forwarded⟩, m.signing, ?_, rfl, rfl, hsaid,
      fun hseen hno => ?_⟩
    · have hsent : (w.addr i, Message.classic m.forwarded) ∈
          (handleMessage P d₀.msg d₀.src (w.relays r)).sends := by
        rw [hout]
        exact hbroadcast
      exact List.mem_append_right _ (List.mem_map_of_mem hsent)
    · refine hno rfl ⟨m.signing, hsaid, rfl⟩ ?_
      have hnew : m.forwarded.msgId ∉ (w.clients i).seen.set := hseen
      show (recvLoop P (net.client i) now (.classic m.forwarded) (w.clients i)).exit = .displayed
      rw [recvLoop_receiving hrun, handleMsg, handleClassic_displayed hnew hv]
  | pay _ _ _ _ | say _ _ _ _ | register _ _ | clientRecv _ _ _ | console _ _ _ _
  | federate _ _ | repeer _ _ | restart _ _ _ | inject _ => exact absurd trivial h

/-! ## A client with two relays -/

/-- Where the first relay listens. -/
def firstAddr : SocketAddr := .v4 0x0A000001 12345

/-- Where the second relay listens. -/
def secondAddr : SocketAddr := .v4 0x0A000002 12345

/-- Where alice's packets come from. -/
def aliceAddr : SocketAddr := .v4 1 40000

/-- The two relays. -/
inductive AliceRelay where
  | first
  | second
  deriving DecidableEq

/-- Alice, who uses both relays, of which the second registers with the first. -/
def twoRelays : Network samplePlatform Unit AliceRelay where
  client _ := { alice with relayAddrs := [firstAddr, secondAddr] }
  relay
    | .first => { sampleRelay with addr := firstAddr }
    | .second => { sampleRelay with addr := secondAddr, peerRelays := [firstAddr] }

/-- All of them are started. -/
def twoRelaysBoot : Boot Unit AliceRelay where
  addr _ := aliceAddr
  localAddr _ := .v4 0 40000
  file _ := none
  relays _ := relayStartup

/-- What alice registers with a relay. -/
def aliceRegister (relay : SocketAddr) : Register where
  srcAddr := .v4 0 40000
  srcId := "alice"
  dstAddr := relay
  dstId := "relay"
  time := 0
  btcAddress := some "1Alice"

/-- What the second relay registers with the first. -/
def relayRegisterFirst : Register where
  srcAddr := .v4 0 12345
  srcId := "relay:relay"
  dstAddr := firstAddr
  dstId := "relay"
  time := 0
  btcAddress := none

/-- Alice registers with both relays, the second registers with the first, and alice sends
a text, which reaches the first relay. -/
def textToFirst : List (WorldEvent Unit AliceRelay) :=
  [.register () 0,
    .relayRecv .first ⟨aliceAddr, firstAddr, .register (aliceRegister firstAddr)⟩,
    .relayRecv .second ⟨aliceAddr, secondAddr, .register (aliceRegister secondAddr)⟩,
    .federate .second 0,
    .relayRecv .first ⟨secondAddr, firstAddr, .register relayRegisterFirst⟩,
    .say () 0 7 "hello",
    .relayRecv .first ⟨aliceAddr, firstAddr, .classic (aliceText 7)⟩]

/-- The second relay has the text from alice too. -/
def textToBoth : List (WorldEvent Unit AliceRelay) :=
  textToFirst ++ [.relayRecv .second ⟨aliceAddr, secondAddr, .classic (aliceText 7)⟩]

/-- When both relays have the text from alice, she is shown it once. -/
theorem textToBoth_no_echo :
    twoRelaysBoot.addr () ∉ (twoRelays.client ()).relayAddrs ∧
    twoRelays.system.withHistory.Always
      (fun s e => twoRelays.Undisturbed () s e ∧ twoRelays.FirstHand () s e)
      (twoRelays.start twoRelaysBoot, []) textToBoth ∧
    (∀ σ ∈ twoRelays.saidBy () textToBoth, twoRelays.system.sumAlong (twoRelays.shows () σ)
      (twoRelays.start twoRelaysBoot) textToBoth = 1) ∧
    twoRelays.system.withHistory.Always (twoRelays.NoEcho ())
      (twoRelays.start twoRelaysBoot, []) textToBoth :=
  have clean : twoRelays.system.withHistory.Always
      (fun s e => twoRelays.Undisturbed () s e ∧ twoRelays.FirstHand () s e)
      (twoRelays.start twoRelaysBoot, []) textToBoth := by
    decide +kernel
  ⟨by decide, clean, no_echo twoRelays () twoRelaysBoot (by decide) textToBoth clean⟩

/-- The copy of the first relay reaches the second, and the copy of this one alice. -/
def echoRun : List (WorldEvent Unit AliceRelay) :=
  textToFirst ++
    [.relayRecv .second ⟨firstAddr, secondAddr, .classic (aliceText 7).forwarded⟩,
      .clientRecv () 0 ⟨secondAddr, aliceAddr, .classic (aliceText 7).forwarded.forwarded⟩]

/-- **Alice is shown her own text as received**: the second relay has it from the first
before it has it from her. -/
theorem own_text_displayed :
    ¬ ∀ es : List (WorldEvent Unit AliceRelay),
      twoRelays.system.withHistory.Always (twoRelays.Undisturbed ())
        (twoRelays.start twoRelaysBoot, []) es →
      (∀ σ ∈ twoRelays.saidBy () es, twoRelays.system.sumAlong (twoRelays.shows () σ)
        (twoRelays.start twoRelaysBoot) es = 1) ∧
      twoRelays.system.withHistory.Always (twoRelays.NoEcho ())
        (twoRelays.start twoRelaysBoot, []) es := by
  intro h
  have hundisturbed : twoRelays.system.withHistory.Always (twoRelays.Undisturbed ())
      (twoRelays.start twoRelaysBoot, []) echoRun := by
    decide +kernel
  have hecho : ¬ twoRelays.system.withHistory.Always (twoRelays.NoEcho ())
      (twoRelays.start twoRelaysBoot, []) echoRun := by
    decide +kernel
  exact hecho (h echoRun hundisturbed).2

end Network
end Zeta
