import Mathlib.Algebra.Order.BigOperators.Group.Multiset

/-!
# Event systems and their runs

A transition system whose steps are driven by events: `Enabled s e` says that the
event `e` can happen in state `s`, and `next s e` is the state it leads to.  A run
from `s` is a list of events; `run s es` is where it ends.

`Always ok s es` says that every event of the run is enabled where it happens and
satisfies `ok` there.  With `ok` an assumption on the environment it singles out
the runs a statement is about; with `ok` a property of steps it is what is
to be shown of a run.

Two rules carry every induction over runs: `invariant_run`, and the accounting
rules, which add up over a run what each step does to a potential.
-/

/-- A transition system driven by events. -/
structure EventSystem (σ ε : Type*) where
  Enabled : σ → ε → Prop
  next : σ → ε → σ

namespace EventSystem

variable {σ ε : Type*} (M : EventSystem σ ε)

/-- The state at the end of a run. -/
def run (s : σ) (es : List ε) : σ := es.foldl M.next s

/-- Every event of the run is enabled, and satisfies `ok`, where it happens. -/
def Always (ok : σ → ε → Prop) : σ → List ε → Prop
  | _, [] => True
  | s, e :: es => M.Enabled s e ∧ ok s e ∧ Always ok (M.next s e) es

/-- What the steps of a run amount to. -/
def sumAlong (f : σ → ε → ℕ) : σ → List ε → ℕ
  | _, [] => 0
  | s, e :: es => f s e + sumAlong f (M.next s e) es

instance decidableAlways (ok : σ → ε → Prop) [∀ s e, Decidable (M.Enabled s e)]
    [∀ s e, Decidable (ok s e)] : ∀ s es, Decidable (M.Always ok s es)
  | _, [] => isTrue trivial
  | s, e :: es =>
    have := decidableAlways ok (M.next s e) es
    inferInstanceAs (Decidable (_ ∧ _ ∧ _))

variable {M} {ok ok' : σ → ε → Prop} {f g : σ → ε → ℕ} {s : σ} {e : ε} {es es' : List ε}

@[simp] theorem run_nil : M.run s [] = s := rfl
@[simp] theorem run_cons : M.run s (e :: es) = M.run (M.next s e) es := rfl

theorem run_append : M.run s (es ++ es') = M.run (M.run s es) es' := List.foldl_append

theorem run_snoc : M.run s (es ++ [e]) = M.next (M.run s es) e := run_append

@[simp] theorem always_nil : M.Always ok s [] := trivial

@[simp] theorem always_cons :
    M.Always ok s (e :: es) ↔ M.Enabled s e ∧ ok s e ∧ M.Always ok (M.next s e) es := Iff.rfl

theorem always_append :
    M.Always ok s (es ++ es') ↔ M.Always ok s es ∧ M.Always ok (M.run s es) es' := by
  induction es generalizing s with
  | nil => simp
  | cons e es ih => simp only [List.cons_append, always_cons, ih, run_cons, and_assoc]

theorem always_snoc :
    M.Always ok s (es ++ [e]) ↔
      M.Always ok s es ∧ M.Enabled (M.run s es) e ∧ ok (M.run s es) e := by
  rw [always_append]
  simp

theorem Always.imp (h : M.Always ok s es)
    (himp : ∀ s e, M.Enabled s e → ok s e → ok' s e) : M.Always ok' s es := by
  induction es generalizing s with
  | nil => trivial
  | cons e es ih =>
    obtain ⟨hen, hok, hrest⟩ := h
    exact ⟨hen, himp s e hen hok, ih hrest⟩

theorem Always.and (h : M.Always ok s es) (h' : M.Always ok' s es) :
    M.Always (fun s e => ok s e ∧ ok' s e) s es := by
  induction es generalizing s with
  | nil => trivial
  | cons e es ih =>
    obtain ⟨hen, hok, hrest⟩ := h
    obtain ⟨-, hok', hrest'⟩ := h'
    exact ⟨hen, ⟨hok, hok'⟩, ih hrest hrest'⟩

/-- What happens in a run is one of its events. -/
theorem always_mem {l : List ε} (hl : es ⊆ l) (h : M.Always ok s es) :
    M.Always (fun _ e => e ∈ l) s es := by
  induction es generalizing s with
  | nil => trivial
  | cons e es ih =>
    obtain ⟨hmem, hrest⟩ := List.cons_subset.mp hl
    exact ⟨h.1, hmem, ih hrest h.2.2⟩

/-- Where every event is enabled, every list of events is a run. -/
theorem always_true (h : ∀ s e, M.Enabled s e) : M.Always (fun _ _ => True) s es := by
  induction es generalizing s with
  | nil => trivial
  | cons e es ih => exact ⟨h s e, trivial, ih⟩

@[simp] theorem sumAlong_nil : M.sumAlong f s [] = 0 := rfl

@[simp] theorem sumAlong_cons :
    M.sumAlong f s (e :: es) = f s e + M.sumAlong f (M.next s e) es := rfl

theorem sumAlong_append :
    M.sumAlong f s (es ++ es') = M.sumAlong f s es + M.sumAlong f (M.run s es) es' := by
  induction es generalizing s with
  | nil => simp
  | cons e es ih => simp only [List.cons_append, sumAlong_cons, ih, run_cons, Nat.add_assoc]

/-- **Invariants.**  What holds at the start and is preserved by every step the
run allows holds at the end. -/
theorem invariant_run {I : σ → Prop}
    (hstep : ∀ s e, I s → M.Enabled s e → ok s e → I (M.next s e))
    (h : M.Always ok s es) (hs : I s) : I (M.run s es) := by
  induction es generalizing s with
  | nil => exact hs
  | cons e es ih =>
    obtain ⟨hen, hok, hrest⟩ := h
    exact ih hrest (hstep s e hs hen hok)

/-- **Progress.**  What an event of the run brings about, and no step undoes, holds at the
end. -/
theorem run_of_mem {I J : σ → Prop}
    (hI : ∀ s e, I s → M.Enabled s e → ok s e → I (M.next s e))
    (hkeep : ∀ s e, I s → M.Enabled s e → ok s e → J s → J (M.next s e))
    (hbring : ∀ s, I s → M.Enabled s e → ok s e → J (M.next s e))
    (hmem : e ∈ es) (h : M.Always ok s es) (hs : I s) : J (M.run s es) := by
  obtain ⟨pre, post, rfl⟩ := List.append_of_mem hmem
  obtain ⟨hpre, hen, hok, hpost⟩ := always_append.mp h
  have hthere : I (M.run s pre) := invariant_run hI hpre hs
  rw [run_append, run_cons]
  have hend := invariant_run (I := fun s => I s ∧ J s)
    (fun s e hboth hen hok => ⟨hI s e hboth.1 hen hok, hkeep s e hboth.1 hen hok hboth.2⟩)
    hpost ⟨hI _ e hthere hen hok, hbring _ hthere hen hok⟩
  exact hend.2

/-- Under an invariant, a property of steps that the invariant yields holds all
along the run. -/
theorem always_of_invariant {I : σ → Prop}
    (hstep : ∀ s e, I s → M.Enabled s e → ok s e → I (M.next s e))
    (hok : ∀ s e, I s → M.Enabled s e → ok s e → ok' s e)
    (h : M.Always ok s es) (hs : I s) : M.Always ok' s es := by
  induction es generalizing s with
  | nil => trivial
  | cons e es ih =>
    obtain ⟨hen, hoke, hrest⟩ := h
    exact ⟨hen, hok s e hs hen hoke, ih hrest (hstep s e hs hen hoke)⟩

/-- Under an invariant, two properties of steps that agree on its states single out
the same runs. -/
theorem always_congr_of_invariant {I : σ → Prop}
    (hstep : ∀ s e, I s → M.Enabled s e → I (M.next s e))
    (hiff : ∀ s e, I s → M.Enabled s e → (ok s e ↔ ok' s e)) (hs : I s) :
    M.Always ok s es ↔ M.Always ok' s es := by
  constructor
  · exact fun h => always_of_invariant (fun s e hI hen _ => hstep s e hI hen)
      (fun s e hI hen hok => (hiff s e hI hen).mp hok) h hs
  · exact fun h => always_of_invariant (fun s e hI hen _ => hstep s e hI hen)
      (fun s e hI hen hok => (hiff s e hI hen).mpr hok) h hs

/-- **What a property costs.**  If, under the invariant `J`, a property `I` of states is
preserved by exactly the steps that satisfy `ok`, then the runs that keep it are the runs
of such steps. -/
theorem always_next_iff {I J : σ → Prop}
    (hJ : ∀ s e, J s → M.Enabled s e → J (M.next s e))
    (hiff : ∀ s e, J s → I s → M.Enabled s e → (I (M.next s e) ↔ ok s e))
    (hsJ : J s) (hs : I s) :
    M.Always (fun s e => I (M.next s e)) s es ↔ M.Always ok s es := by
  induction es generalizing s with
  | nil => exact Iff.rfl
  | cons e es ih =>
    simp only [always_cons]
    apply and_congr_right
    intro hen
    have hnext := hiff s e hsJ hs hen
    constructor
    · rintro ⟨hI, hrest⟩
      exact ⟨hnext.mp hI, (ih (hJ s e hsJ hen) hI).mp hrest⟩
    · rintro ⟨hok, hrest⟩
      have hI := hnext.mpr hok
      exact ⟨hI, (ih (hJ s e hsJ hen) hI).mpr hrest⟩

/-- Such a run ends with both. -/
theorem run_of_next_iff {I J : σ → Prop}
    (hJ : ∀ s e, J s → M.Enabled s e → J (M.next s e))
    (hiff : ∀ s e, J s → I s → M.Enabled s e → (I (M.next s e) ↔ ok s e))
    (hsJ : J s) (hs : I s) (h : M.Always ok s es) : J (M.run s es) ∧ I (M.run s es) :=
  invariant_run (I := fun s => J s ∧ I s)
    (fun s e hboth hen hok => ⟨hJ s e hboth.1 hen, (hiff s e hboth.1 hboth.2 hen).mpr hok⟩)
    h ⟨hsJ, hs⟩

/-- **Accounting, as a bound.**  If no step spends more, `f`, than it earns, `g`,
and takes out of the potential `φ`, neither does a run. -/
theorem sumAlong_le_of_potential {φ : σ → ℕ}
    (hstep : ∀ s e, M.Enabled s e → ok s e → f s e + φ (M.next s e) ≤ φ s + g s e)
    (h : M.Always ok s es) :
    M.sumAlong f s es + φ (M.run s es) ≤ φ s + M.sumAlong g s es := by
  induction es generalizing s with
  | nil => simp
  | cons e es ih =>
    obtain ⟨hen, hok, hrest⟩ := h
    have hhead := hstep s e hen hok
    have htail := ih hrest
    simp only [sumAlong_cons, run_cons]
    omega

/-- **Accounting, as a meter.**  If under an invariant every step adds to `φ` what it amounts
to, `φ` shows what the run amounts to. -/
theorem sumAlong_add_start {I : σ → Prop} {φ : σ → ℕ}
    (hI : ∀ s e, I s → M.Enabled s e → ok s e → I (M.next s e))
    (hstep : ∀ s e, I s → M.Enabled s e → ok s e → f s e + φ s = φ (M.next s e))
    (h : M.Always ok s es) (hs : I s) : M.sumAlong f s es + φ s = φ (M.run s es) := by
  induction es generalizing s with
  | nil => simp
  | cons e es ih =>
    obtain ⟨hen, hok, hrest⟩ := h
    have hhead := hstep s e hs hen hok
    have htail := ih hrest (hI s e hs hen hok)
    simp only [sumAlong_cons, run_cons]
    omega

/-- A run cannot spend more than the potential it starts with. -/
theorem sumAlong_le_start {φ : σ → ℕ}
    (hstep : ∀ s e, M.Enabled s e → ok s e → f s e + φ (M.next s e) ≤ φ s)
    (h : M.Always ok s es) : M.sumAlong f s es ≤ φ s := by
  induction es generalizing s with
  | nil => exact Nat.zero_le _
  | cons e es ih =>
    obtain ⟨hen, hok, hrest⟩ := h
    have hhead := hstep s e hen hok
    have htail := ih hrest
    simp only [sumAlong_cons]
    omega

/-- **Accounting, as a balance.**  Where no step spends more than it may, the books
balance at the end of a run if and only if they do at every step. -/
theorem sumAlong_eq_iff_always_eq {φ : σ → ℕ} (hall : ∀ s e, M.Enabled s e)
    (hstep : ∀ s e, f s e + φ (M.next s e) ≤ φ s + g s e) :
    M.sumAlong f s es + φ (M.run s es) = φ s + M.sumAlong g s es ↔
      M.Always (fun s e => f s e + φ (M.next s e) = φ s + g s e) s es := by
  induction es generalizing s with
  | nil => simp
  | cons e es ih =>
    have hhead := hstep s e
    have htail : M.sumAlong f (M.next s e) es + φ (M.run (M.next s e) es) ≤
        φ (M.next s e) + M.sumAlong g (M.next s e) es :=
      sumAlong_le_of_potential (fun s e _ _ => hstep s e) (always_true hall)
    simp only [sumAlong_cons, run_cons, always_cons, hall s e, true_and, ← ih]
    omega

/-! ## Keeping the history -/

section History
variable (M)

/-- The same system, which remembers what has happened, the latest event first. -/
def withHistory : EventSystem (σ × List ε) ε where
  Enabled s e := M.Enabled s.1 e
  next s e := (M.next s.1 e, e :: s.2)

end History

@[simp] theorem withHistory_enabled {s : σ × List ε} :
    M.withHistory.Enabled s e ↔ M.Enabled s.1 e := Iff.rfl

@[simp] theorem withHistory_next {s : σ × List ε} :
    M.withHistory.next s e = (M.next s.1 e, e :: s.2) := rfl

instance decidableWithHistory [∀ s e, Decidable (M.Enabled s e)] (s : σ × List ε) (e : ε) :
    Decidable (M.withHistory.Enabled s e) := inferInstanceAs (Decidable (M.Enabled s.1 e))

theorem withHistory_run {past : List ε} :
    M.withHistory.run (s, past) es = (M.run s es, es.reverse ++ past) := by
  induction es generalizing s past with
  | nil => rfl
  | cons e es ih =>
    rw [run_cons, withHistory_next, ih, run_cons, List.reverse_cons, List.append_assoc,
      List.singleton_append]

/-! ## What happened -/

section Happened
variable (M)

/-- At some point of the run an event satisfied `Q` where it happened. -/
def Happened (Q : σ → ε → Prop) (s : σ) (es : List ε) : Prop :=
  ∃ pre e post, es = pre ++ e :: post ∧ Q (M.run s pre) e

end Happened

variable {Q Q' : σ → ε → Prop}

@[simp] theorem happened_cons :
    M.Happened Q s (e :: es) ↔ Q s e ∨ M.Happened Q (M.next s e) es := by
  constructor
  · rintro ⟨_ | ⟨e', pre⟩, e'', post, he, hQ⟩
    · obtain ⟨rfl, rfl⟩ := List.cons.inj he
      exact Or.inl hQ
    · obtain ⟨rfl, rfl⟩ := List.cons.inj he
      exact Or.inr ⟨pre, e'', post, rfl, hQ⟩
  · rintro (hQ | ⟨pre, e', post, rfl, hQ⟩)
    · exact ⟨[], e, es, rfl, hQ⟩
    · exact ⟨e :: pre, e', post, rfl, hQ⟩

/-- **Provenance.**  What holds at the end of a run held at its start, or an event of
the run brought it about. -/
theorem happened_of_run {I : σ → Prop} (hstep : ∀ s e, I (M.next s e) → I s ∨ Q s e)
    (h : I (M.run s es)) : I s ∨ M.Happened Q s es := by
  induction es generalizing s with
  | nil => exact Or.inl h
  | cons e es ih =>
    rw [happened_cons]
    rcases ih h with hnext | hlater
    · rcases hstep s e hnext with hs | hQ
      · exact Or.inl hs
      · exact Or.inr (Or.inl hQ)
    · exact Or.inr (Or.inr hlater)

/-! ## Deleting events -/

section Purge
variable (M) {ω : Type*}

/-- Nobody who sees `view` can tell, now or later, whether the `bad` events of the run
have happened: deleting them from any part of it changes no view of any
continuation. -/
def Invisible (bad : ε → Prop) [DecidablePred bad] (view : σ → ω) (s : σ) (es : List ε) : Prop :=
  ∀ pre, pre <+: es → ∀ rest,
    view (M.run s (pre ++ rest)) = view (M.run s (pre.filter (¬ bad ·) ++ rest))

end Purge

variable {ω : Type*} {bad : ε → Prop} [DecidablePred bad] {view : σ → ω} {inert : σ → ε → Prop}

/-- Bad events that change nothing can be deleted. -/
theorem run_filter (hinert : ∀ s e, bad e → inert s e → M.next s e = s)
    (h : M.Always (fun s e => bad e → inert s e) s es) :
    M.run s (es.filter (¬ bad ·)) = M.run s es := by
  induction es generalizing s with
  | nil => rfl
  | cons e es ih =>
    obtain ⟨-, hok, hrest⟩ := h
    by_cases hbad : bad e
    · have hsame := hinert s e hbad (hok hbad)
      rw [List.filter_cons_of_neg (by simp [hbad]), run_cons, ← ih hrest, hsame]
    · rw [List.filter_cons_of_pos (by simp [hbad]), run_cons, run_cons, ih hrest]

/-- **Bad events are invisible if and only if they are all inert**, when inert events
change nothing and every other bad event can be detected. -/
theorem invisible_iff (inert : σ → ε → Prop) (hall : ∀ s e, M.Enabled s e)
    (hinert : ∀ s e, bad e → inert s e → M.next s e = s)
    (hdetect : ∀ s e, bad e → ¬ inert s e →
      ∃ rest, view (M.run (M.next s e) rest) ≠ view (M.run s rest)) :
    M.Invisible bad view s es ↔ M.Always (fun s e => bad e → inert s e) s es := by
  constructor
  · intro h
    induction es using List.reverseRecOn with
    | nil => trivial
    | append_singleton es e ih =>
      -- The bad events before `e` are inert, so only `e` itself is left to be seen.
      have hes := ih (fun pre hpre => h pre (hpre.trans (List.prefix_append es [e])))
      refine always_snoc.mpr ⟨hes, hall _ e, fun hbad => ?_⟩
      by_contra hnot
      obtain ⟨rest, hrest⟩ := hdetect _ e hbad hnot
      apply hrest
      have hview := h (es ++ [e]) (List.prefix_refl _) rest
      have hlast : [e].filter (¬ bad ·) = [] := List.filter_cons_of_neg (by simp [hbad])
      rw [List.filter_append, hlast, List.append_nil, run_append, run_snoc, run_append,
        run_filter hinert hes] at hview
      exact hview
  · rintro h pre ⟨post, rfl⟩ rest
    rw [run_append, run_append, run_filter hinert (always_append.mp h).1]

/-! ## Maps between systems -/

/-- **Simulation by a map of states.**  On the states of an invariant, `abs`
commutes with the steps of both systems and respects what is enabled. -/
structure MapsTo {τ : Type*} (M : EventSystem σ ε) (N : EventSystem τ ε) (abs : σ → τ)
    (I : σ → Prop) : Prop where
  invariant : ∀ s e, I s → M.Enabled s e → I (M.next s e)
  enabled_iff : ∀ s e, I s → (M.Enabled s e ↔ N.Enabled (abs s) e)
  next_eq : ∀ s e, I s → M.Enabled s e → abs (M.next s e) = N.next (abs s) e

namespace MapsTo
variable {τ : Type*} {N : EventSystem τ ε} {abs : σ → τ} {I : σ → Prop}

/-- The two systems have the same runs. -/
theorem always_iff (h : MapsTo M N abs I) (hs : I s) :
    M.Always (fun _ _ => True) s es ↔ N.Always (fun _ _ => True) (abs s) es := by
  induction es generalizing s with
  | nil => exact Iff.rfl
  | cons e es ih =>
    simp only [always_cons, ← h.enabled_iff s e hs, true_and]
    apply and_congr_right
    intro hen
    rw [ih (h.invariant s e hs hen), h.next_eq s e hs hen]

/-- What a run amounts to is seen on its image. -/
theorem sumAlong_eq {g : τ → ε → ℕ} (h : MapsTo M N abs I)
    (hfg : ∀ s e, I s → M.Enabled s e → f s e = g (abs s) e) (hs : I s)
    (hes : M.Always (fun _ _ => True) s es) :
    M.sumAlong f s es = N.sumAlong g (abs s) es := by
  induction es generalizing s with
  | nil => rfl
  | cons e es ih =>
    obtain ⟨hen, -, hrest⟩ := hes
    rw [sumAlong_cons, sumAlong_cons, hfg s e hs hen, ih (h.invariant s e hs hen) hrest,
      h.next_eq s e hs hen]

end MapsTo

/-- **Refinement.**  On the states of an invariant, every step that `ok` allows is seen
through `abs` as a step of the other system, or not at all. -/
structure Refines {τ δ : Type*} (M : EventSystem σ ε) (N : EventSystem τ δ) (abs : σ → τ)
    (I : σ → Prop) (ok : σ → ε → Prop) : Prop where
  invariant : ∀ s e, I s → M.Enabled s e → ok s e → I (M.next s e)
  step : ∀ s e, I s → M.Enabled s e → ok s e →
    abs (M.next s e) = abs s ∨ ∃ a, N.Enabled (abs s) a ∧ abs (M.next s e) = N.next (abs s) a

namespace Refines
variable {τ δ : Type*} {N : EventSystem τ δ} {abs : σ → τ} {I : σ → Prop}

/-- Every run is seen as a run of the other system. -/
theorem exists_run (h : Refines M N abs I ok) (hs : I s) (hes : M.Always ok s es) :
    ∃ as, N.Always (fun _ _ => True) (abs s) as ∧ N.run (abs s) as = abs (M.run s es) := by
  induction es generalizing s with
  | nil => exact ⟨[], trivial, rfl⟩
  | cons e es ih =>
    obtain ⟨hen, hok, hrest⟩ := hes
    obtain ⟨as, has, hrun⟩ := ih (h.invariant s e hs hen hok) hrest
    rcases h.step s e hs hen hok with hstay | ⟨a, ha, hstep⟩
    · rw [hstay] at has hrun
      exact ⟨as, has, hrun⟩
    · rw [hstep] at has hrun
      exact ⟨a :: as, ⟨ha, trivial, has⟩, hrun⟩

end Refines

/-- **Simulation.**  A step that `ok` allows leads to a state related to the same state of
the other system, or to the state after a step there that `ok'` allows.  `seen` says as what
this event is seen there, if it is seen at all. -/
def Simulates {τ δ : Type*} (M : EventSystem σ ε) (N : EventSystem τ δ) (R : σ → τ → Prop)
    (ok : σ → ε → Prop) (ok' : τ → δ → Prop) (seen : ε → Option δ → Prop) : Prop :=
  ∀ s t e, R s t → M.Enabled s e → ok s e →
    (seen e none ∧ R (M.next s e) t) ∨
      ∃ a, N.Enabled t a ∧ ok' t a ∧ seen e (some a) ∧ R (M.next s e) (N.next t a)

/-- The events as which those of a run are seen, one by one and in their order, without those
that are not seen. -/
inductive SeenIn {ε δ : Type*} (seen : ε → Option δ → Prop) : List δ → List ε → Prop
  | nil : SeenIn seen [] []
  | unseen {as es e} (he : seen e none) (h : SeenIn seen as es) : SeenIn seen as (e :: es)
  | seen {as es e a} (he : seen e (some a)) (h : SeenIn seen as es) :
    SeenIn seen (a :: as) (e :: es)

theorem SeenIn.trans {δ ζ : Type*} {seen : ε → Option δ → Prop} {seen' : δ → Option ζ → Prop}
    {seen'' : ε → Option ζ → Prop} {bs : List δ} {as : List ζ}
    (hunseen : ∀ e, seen e none → seen'' e none)
    (hseen : ∀ e b a, seen e (some b) → seen' b a → seen'' e a)
    (hbs : SeenIn seen bs es) (has : SeenIn seen' as bs) : SeenIn seen'' as es := by
  induction hbs generalizing as with
  | nil =>
    cases has
    exact .nil
  | unseen he _ ih => exact .unseen (hunseen _ he) (ih has)
  | seen he _ ih =>
    cases has with
    | unseen hb has => exact .unseen (hseen _ _ _ he hb) (ih has)
    | seen hb has => exact .seen (hseen _ _ _ he hb) (ih has)

/-- An event here is what one of those events is seen as. -/
theorem SeenIn.exists_mem {δ : Type*} {seen : ε → Option δ → Prop} {as : List δ} {a : δ}
    (h : SeenIn seen as es) (ha : a ∈ as) : ∃ e ∈ es, seen e (some a) := by
  induction h with
  | nil => cases ha
  | unseen _ _ ih =>
    obtain ⟨e, he, hea⟩ := ih ha
    exact ⟨e, List.mem_cons_of_mem _ he, hea⟩
  | seen he _ ih =>
    rcases List.mem_cons.mp ha with rfl | ha
    · exact ⟨_, List.mem_cons_self, he⟩
    · obtain ⟨e, he, hea⟩ := ih ha
      exact ⟨e, List.mem_cons_of_mem _ he, hea⟩

/-- Every run has a related run of the other system, as which it is seen. -/
theorem Simulates.exists_run {τ δ : Type*} {N : EventSystem τ δ} {R : σ → τ → Prop}
    {ok' : τ → δ → Prop} {seen : ε → Option δ → Prop} {t : τ} (h : Simulates M N R ok ok' seen)
    (hR : R s t) (hes : M.Always ok s es) :
    ∃ as, N.Always ok' t as ∧ SeenIn seen as es ∧ R (M.run s es) (N.run t as) := by
  induction es generalizing s t with
  | nil => exact ⟨[], trivial, .nil, hR⟩
  | cons e es ih =>
    obtain ⟨hen, hok, hrest⟩ := hes
    rcases h s t e hR hen hok with ⟨hunseen, hstay⟩ | ⟨a, ha, hok', hseen, hstep⟩
    · obtain ⟨as, has, hin, hrun⟩ := ih hstay hrest
      exact ⟨as, has, .unseen hunseen hin, hrun⟩
    · obtain ⟨as, has, hin, hrun⟩ := ih hstep hrest
      exact ⟨a :: as, ⟨ha, hok', has⟩, .seen hseen hin, hrun⟩

end EventSystem
