import Zeta.LockedTasks

/-!
# Calls that are made at one moment

Tasks that share a lock carry out calls, each by a program of many actions.  In another
system each call is a single step.  The pool of tasks is a run of that system if every
program has one action at which its call is made there, and all its other actions leave
alone what the two systems have in common.

As in `LockedTasks`, one program is looked at at a time (`TaskProgram.Makes`).  It may rely
on what it holds, on both sides: with the lock, on what the lock guards; at all times, on
what belongs to its task alone; and on facts about the other system that no step undoes.
What the lock guards is linked on the two sides while the lock is free, and what belongs to
a task is the same while the task is done; in between they may differ.

From this follows what one action of a pool is over there: nothing, or the step of the
task's call (`CallSpec.Kept.step`).
-/

universe u v w x y z

/-- What tasks and the system of their calls have in common. -/
structure CallSpec (τ : Type z) (σ : Type u) (γ δ : Type v) (ω : Type w) (α : Type x)
    (ε : Type y) where
  /-- The system whose steps are calls, and those of its steps that may be made. -/
  system : EventSystem α ε
  allowed : α → ε → Prop
  /-- What the lock guards on either side, and how it is linked while the lock is free. -/
  view : σ → γ
  view' : α → δ
  Linked : γ → δ → Prop
  /-- What belongs to one task on either side. -/
  own : τ → σ → ω
  own' : τ → α → ω
  /-- What holds between the two states at all times. -/
  Rel : σ → α → Prop

/-- Where the call of a task stands. -/
structure Standing (γ δ : Type v) (ω : Type w) (α : Type x) (ε : Type y) where
  /-- The step that has not been made yet. -/
  pending : Option ε
  /-- What the lock guards, for the task that holds it. -/
  held : Option (γ × δ)
  /-- What belongs to the task. -/
  owned : ω × ω
  /-- What is known of the system for good. -/
  Known : α → Prop

namespace CallSpec
variable {τ : Type z} {σ : Type u} {γ δ : Type v} {ω : Type w} {α : Type x} {ε : Type y}

/-- No step undoes the fact. -/
def Stable (A : CallSpec τ σ γ δ ω α ε) (K : α → Prop) : Prop :=
  ∀ a e, A.system.Enabled a e → A.allowed a e → K a → K (A.system.next a e)

end CallSpec

namespace Standing
variable {τ : Type z} {σ : Type u} {γ δ : Type v} {ω : Type w} {α : Type x} {ε : Type y}
  (A : CallSpec τ σ γ δ ω α ε) (t : τ) (st : Standing γ δ ω α ε)

/-- The state is one in which task `t` with this standing may find itself. -/
def Sees (s : σ) : Prop := (∀ g ∈ st.held, A.view s = g.1) ∧ A.own t s = st.owned.1

/-- What the task may rely on in the system. -/
def Knows (a : α) : Prop :=
  st.Known a ∧ (∀ g ∈ st.held, A.view' a = g.2) ∧ A.own' t a = st.owned.2

/-- The task leaves alone what it does not hold. -/
def Leaves (s s' : σ) : Prop :=
  (st.held = none → A.view s' = A.view s) ∧ ∀ u, u ≠ t → A.own u s' = A.own u s

/-- The standing after an action that makes no step. -/
def acted (s' : σ) : Standing γ δ ω α ε where
  pending := st.pending
  held := st.held.map fun g => (A.view s', g.2)
  owned := (A.own t s', st.owned.2)
  Known := st.Known

/-- The standing after the action that makes the step, with what it leaves guarded and owned
over there. -/
def made (s' : σ) (K : α → Prop) (d : δ) (o : ω) : Standing γ δ ω α ε where
  pending := none
  held := st.held.map fun _ => (A.view s', d)
  owned := (A.own t s', o)
  Known := K

/-- The action from `s` to `s'` makes the step `e` in `a`. -/
structure StepsAt (s s' : σ) (e : ε) (K : α → Prop) (d : δ) (o : ω) (a : α) : Prop where
  enabled : A.system.Enabled a e
  allowed : A.allowed a e
  rel : A.Rel s' (A.system.next a e)
  known : K (A.system.next a e)
  holder : st.held ≠ none → A.view' (A.system.next a e) = d
  outside : st.held = none → A.view' (A.system.next a e) = A.view' a
  owner : A.own' t (A.system.next a e) = o
  others : ∀ u, u ≠ t → A.own' u (A.system.next a e) = A.own' u a

end Standing

/-- **A program of task `t` makes its call**, or ends without: while the call is pending, an
action that makes it may come, and then no other. -/
def TaskProgram.Makes {τ : Type z} {σ : Type u} {γ δ : Type v} {ω : Type w} {α : Type x}
    {ε : Type y} (A : CallSpec τ σ γ δ ω α ε) (t : τ) :
    TaskProgram σ → Standing γ δ ω α ε → Prop
  | .done, st => st.held = none ∧ st.owned.1 = st.owned.2
  | .lock p, st =>
    st.held = none ∧ ∀ g, A.Linked g.1 g.2 → p.Makes A t { st with held := some g }
  | .unlock p, st =>
    ∃ g, st.held = some g ∧ A.Linked g.1 g.2 ∧ p.Makes A t { st with held := none }
  | .act f next, st =>
    ∀ s, st.Sees A t s → st.Leaves A t s (f s) ∧
      ((∀ a, A.Rel s a → st.Knows A t a → A.Rel (f s) a) ∧
          (next s).Makes A t (st.acted A t (f s)) ∨
      ∃ e K d o, st.pending = some e ∧ A.Stable K ∧
        (∀ a, A.Rel s a → st.Knows A t a → st.StepsAt A t s (f s) e K d o a) ∧
        (next s).Makes A t (st.made A t (f s) K d o))

namespace TaskProgram
variable {τ : Type z} {σ : Type u} {γ δ : Type v} {ω : Type w} {α : Type x} {ε : Type y}
  {A : CallSpec τ σ γ δ ω α ε} {t : τ} {f : σ → σ} {next : σ → TaskProgram σ}
  {st : Standing γ δ ω α ε}

/-- An action that changes nothing that is held or owned leaves the standing as it is. -/
theorem acted_eq {s s' : σ} (hsees : st.Sees A t s) (hview : A.view s' = A.view s)
    (hown : A.own t s' = A.own t s) : st.acted A t s' = st := by
  obtain ⟨hheld, howned⟩ := hsees
  obtain ⟨pending, held, owned, Known⟩ := st
  simp only [Standing.acted, Standing.mk.injEq, true_and, and_true]
  constructor
  · cases held with
    | none => rfl
    | some g => exact congrArg some (Prod.ext (hview.trans (hheld g rfl)) rfl)
  · exact Prod.ext (hown.trans howned) rfl

/-- **A silent action.** -/
theorem makes_silent (hview : ∀ s, A.view (f s) = A.view s)
    (hown : ∀ u s, A.own u (f s) = A.own u s)
    (hrel : ∀ s a, A.Rel s a → st.Knows A t a → A.Rel (f s) a)
    (hnext : ∀ s, st.Sees A t s → (next s).Makes A t st) : (act f next).Makes A t st := by
  intro s hs
  refine ⟨⟨fun _ => hview s, fun u _ => hown u s⟩, Or.inl ⟨hrel s, ?_⟩⟩
  rw [acted_eq hs (hview s) (hown t s)]
  exact hnext s hs

/-- A task lets go of the lock that it took with this standing. -/
theorem makes_unlock {p : TaskProgram σ} (hheld : st.held = none) (hp : p.Makes A t st)
    {g : γ × δ} (hg : A.Linked g.1 g.2) : (unlock p).Makes A t { st with held := some g } := by
  refine ⟨g, rfl, hg, ?_⟩
  rw [← hheld]
  exact hp

end TaskProgram

namespace CallSpec
variable {τ : Type z} {σ : Type u} {γ δ : Type v} {ω : Type w} {α : Type x} {ε : Type y}
  [DecidableEq τ]

/-- The standing of task `t` fits what is left of its program, and the two states. -/
structure Fits (A : CallSpec τ σ γ δ ω α ε) (Call : τ → ε → Prop) (shared : σ) (holder : Option τ)
    (a : α) (t : τ) (p : TaskProgram σ) (st : Standing γ δ ω α ε) : Prop where
  makes : p.Makes A t st
  known : st.Known a
  stable : A.Stable st.Known
  pending : ∀ e ∈ st.pending, Call t e
  held : st.held = if holder = some t then some (A.view shared, A.view' a) else none
  owned : st.owned = (A.own t shared, A.own' t a)

/-- **The invariant of a pool.** -/
structure Kept (A : CallSpec τ σ γ δ ω α ε) (Call : τ → ε → Prop) (s : TaskPool τ σ) (a : α) :
    Prop where
  rel : A.Rel s.shared a
  free : s.holder = none → A.Linked (A.view s.shared) (A.view' a)
  tasks : ∀ t, ∃ st, A.Fits Call s.shared s.holder a t (s.prog t) st

section Fits
variable {A : CallSpec τ σ γ δ ω α ε} {Call : τ → ε → Prop} {shared : σ} {holder : Option τ} {a : α}
  {t : τ} {p : TaskProgram σ} {st : Standing γ δ ω α ε}

theorem Fits.mem_held (h : A.Fits Call shared holder a t p st) {g : γ × δ} (hg : g ∈ st.held) :
    g = (A.view shared, A.view' a) := by
  rw [h.held] at hg
  split at hg
  · exact (Option.some.inj hg).symm
  · cases hg

/-- A task sees what it holds. -/
theorem Fits.sees (h : A.Fits Call shared holder a t p st) : st.Sees A t shared :=
  ⟨fun g hg => by rw [h.mem_held hg], by rw [h.owned]⟩

theorem Fits.knows (h : A.Fits Call shared holder a t p st) : st.Knows A t a :=
  ⟨h.known, fun g hg => by rw [h.mem_held hg], by rw [h.owned]⟩

/-- Only the holder of the lock knows what it guards. -/
theorem Fits.holder_iff (h : A.Fits Call shared holder a t p st) :
    st.held ≠ none ↔ holder = some t := by
  rw [h.held]
  split <;> simp_all

/-- A task that takes no part in a step stays where it is. -/
theorem Fits.elsewhere (h : A.Fits Call shared holder a t p st) {shared' : σ}
    {holder' : Option τ} {a' : α} (hholder : holder' = some t ↔ holder = some t)
    (hview : holder = some t → A.view shared' = A.view shared ∧ A.view' a' = A.view' a)
    (hown : A.own t shared' = A.own t shared ∧ A.own' t a' = A.own' t a)
    (hknown : st.Known a') : A.Fits Call shared' holder' a' t p st where
  makes := h.makes
  known := hknown
  stable := h.stable
  pending := h.pending
  held := by
    rw [h.held]
    by_cases hh : holder = some t
    · rw [if_pos hh, if_pos (hholder.mpr hh), (hview hh).1, (hview hh).2]
    · rw [if_neg hh, if_neg (fun h' => hh (hholder.mp h'))]
  owned := by rw [h.owned, hown.1, hown.2]

/-- A task that is done holds no lock, and what belongs to it is the same. -/
theorem Fits.of_done (h : A.Fits Call shared holder a t .done st) :
    holder ≠ some t ∧ A.own t shared = A.own' t a := by
  obtain ⟨hheld, hown⟩ := h.makes
  refine ⟨fun hh => h.holder_iff.mpr hh hheld, ?_⟩
  rw [h.owned] at hown
  exact hown

end Fits

section Steps
variable {A : CallSpec τ σ γ δ ω α ε} {Call : τ → ε → Prop} {s : TaskPool τ σ} {a : α} {t : τ}

/-- All tasks done. -/
theorem kept_idle {x : σ} (hrel : A.Rel x a) (hlinked : A.Linked (A.view x) (A.view' a))
    (hown : ∀ t, A.own t x = A.own' t a) : A.Kept Call (TaskPool.idle x) a := by
  refine ⟨hrel, fun _ => hlinked, fun t => ?_⟩
  refine ⟨⟨none, none, (A.own t x, A.own' t a), fun _ => True⟩, ⟨rfl, hown t⟩, trivial,
    fun _ _ _ _ _ => trivial, ?_, ?_, rfl⟩
  · intro e he
    cases he
  · exact (if_neg (Option.some_ne_none t).symm).symm

/-- **A step of the rest of the system** leaves alone what it has in common with the pool. -/
theorem Kept.elsewhere (h : A.Kept Call s a) {e : ε} (hen : A.system.Enabled a e)
    (hok : A.allowed a e) (hrel : A.Rel s.shared (A.system.next a e))
    (hview : A.view' (A.system.next a e) = A.view' a)
    (hown : ∀ t, A.own' t (A.system.next a e) = A.own' t a) :
    A.Kept Call s (A.system.next a e) := by
  refine ⟨hrel, ?_, fun t => ?_⟩
  · intro hfree
    rw [hview]
    exact h.free hfree
  · obtain ⟨st, hst⟩ := h.tasks t
    exact ⟨st, hst.elsewhere Iff.rfl (fun _ => ⟨rfl, hview⟩) ⟨rfl, hown t⟩
      (hst.stable a e hen hok hst.known)⟩

/-- **A call begins.** -/
theorem Kept.start (h : A.Kept Call s a) (hdone : s.prog t = .done) {p : TaskProgram σ}
    {e : Option ε} {K : α → Prop} (hcall : ∀ e' ∈ e, Call t e') (hstable : A.Stable K) (hK : K a)
    (hp : p.Makes A t ⟨e, none, (A.own t s.shared, A.own t s.shared), K⟩) :
    A.Kept Call { s with prog := Function.update s.prog t p } a := by
  refine ⟨h.rel, h.free, (Function.forall_update_iff s.prog (fun u q =>
    ∃ st, A.Fits Call s.shared s.holder a u q st)).mpr ⟨?_, fun u _ => h.tasks u⟩⟩
  obtain ⟨st, hst⟩ := h.tasks t
  rw [hdone] at hst
  obtain ⟨hholder, hown⟩ := hst.of_done
  exact ⟨_, hp, hK, hstable, hcall, (if_neg hholder).symm, by rw [hown]⟩

/-- What is left of the program of task `t`, and what the others are left with. -/
theorem kept_update {s' : TaskPool τ σ} {a' : α} {p : TaskProgram σ}
    (hprog : s'.prog = Function.update s.prog t p) (hrel : A.Rel s'.shared a')
    (hfree : s'.holder = none → A.Linked (A.view s'.shared) (A.view' a'))
    (ht : ∃ st, A.Fits Call s'.shared s'.holder a' t p st)
    (hothers : ∀ u, u ≠ t → ∀ st, A.Fits Call s.shared s.holder a u (s.prog u) st →
      A.Fits Call s'.shared s'.holder a' u (s.prog u) st)
    (h : A.Kept Call s a) : A.Kept Call s' a' := by
  refine ⟨hrel, hfree, ?_⟩
  rw [hprog]
  refine (Function.forall_update_iff s.prog (fun u q =>
    ∃ st, A.Fits Call s'.shared s'.holder a' u q st)).mpr ⟨ht, fun u hu => ?_⟩
  obtain ⟨st, hst⟩ := h.tasks u
  exact ⟨st, hothers u hu st hst⟩

/-- A task takes the lock. -/
theorem Kept.lock (h : A.Kept Call s a) {p : TaskProgram σ} (hp : s.prog t = .lock p)
    (hfree : s.holder = none) :
    A.Kept Call { s with holder := some t, prog := Function.update s.prog t p } a := by
  have hout : ∀ u, s.holder ≠ some u := by simp [hfree]
  refine kept_update rfl h.rel (fun hnone => absurd hnone (Option.some_ne_none t)) ?_ ?_ h
  · obtain ⟨st, hst⟩ := h.tasks t
    have hmakes := hst.makes
    rw [hp] at hmakes
    exact ⟨_, hmakes.2 (A.view s.shared, A.view' a) (h.free hfree), hst.known, hst.stable,
      hst.pending, (if_pos rfl).symm, hst.owned⟩
  · intro u hu st hst
    refine hst.elsewhere ⟨?_, fun hh => absurd hh (hout u)⟩ (fun _ => ⟨rfl, rfl⟩) ⟨rfl, rfl⟩
      hst.known
    intro hh
    exact absurd (Option.some.inj hh).symm hu

/-- A task releases the lock. -/
theorem Kept.unlock (h : A.Kept Call s a) {p : TaskProgram σ} (hp : s.prog t = .unlock p)
    (hheld : s.holder = some t) :
    A.Kept Call { s with holder := none, prog := Function.update s.prog t p } a := by
  obtain ⟨st, hst⟩ := h.tasks t
  have hmakes := hst.makes
  rw [hp] at hmakes
  obtain ⟨g, hg, hlinked, hrest⟩ := hmakes
  refine kept_update rfl h.rel ?_ ?_ ?_ h
  · intro _
    rw [hst.mem_held hg] at hlinked
    exact hlinked
  · exact ⟨_, hrest, hst.known, hst.stable, hst.pending,
      (if_neg (Option.some_ne_none t).symm).symm, hst.owned⟩
  · intro u hu su hsu
    refine hsu.elsewhere ⟨fun hh => absurd hh (Option.some_ne_none u).symm, ?_⟩
      (fun _ => ⟨rfl, rfl⟩) ⟨rfl, rfl⟩ hsu.known
    intro hh
    rw [hheld] at hh
    exact absurd (Option.some.inj hh).symm hu

/-- **A task acts**: nothing happens in the system, or the step of its call. -/
theorem Kept.act (h : A.Kept Call s a) {f : σ → σ} {next : σ → TaskProgram σ}
    (hp : s.prog t = .act f next) :
    let s' : TaskPool τ σ :=
      { s with shared := f s.shared, prog := Function.update s.prog t (next s.shared) }
    A.Kept Call s' a ∨
      ∃ e, Call t e ∧ A.system.Enabled a e ∧ A.allowed a e ∧
        A.Kept Call s' (A.system.next a e) := by
  intro s'
  obtain ⟨st, hst⟩ := h.tasks t
  have hmakes := hst.makes
  rw [hp] at hmakes
  obtain ⟨⟨hview, hown⟩, hstep⟩ := hmakes s.shared hst.sees
  -- What the acting task does not hold it leaves to the others.
  have hnone : s.holder ≠ some t → st.held = none := fun hh =>
    Classical.not_not.mp (fun hheld => hh (hst.holder_iff.mp hheld))
  have hother : ∀ u, u ≠ t → s.holder = some u → s.holder ≠ some t := by
    intro u hu hh ht
    rw [hh] at ht
    exact hu (Option.some.inj ht)
  have hnobody : s.holder = none → s.holder ≠ some t := by
    intro hh
    rw [hh]
    exact (Option.some_ne_none t).symm
  rcases hstep with ⟨hrel, hnext⟩ | ⟨e, K, d, o, hpending, hstable, hat, hnext⟩
  · left
    refine kept_update rfl (hrel a h.rel hst.knows) ?_ ?_ ?_ h
    · intro hfree
      show A.Linked (A.view (f s.shared)) _
      rw [hview (hnone (hnobody hfree))]
      exact h.free hfree
    · refine ⟨_, hnext, hst.known, hst.stable, hst.pending, ?_, ?_⟩
      · rw [Standing.acted, hst.held]
        split <;> rfl
      · rw [Standing.acted, hst.owned]
    · intro u hu su hsu
      exact hsu.elsewhere Iff.rfl (fun hh => ⟨hview (hnone (hother u hu hh)), rfl⟩)
        ⟨hown u hu, rfl⟩ hsu.known
  · right
    have hmade := hat a h.rel hst.knows
    refine ⟨e, hst.pending e hpending, hmade.enabled, hmade.allowed, ?_⟩
    refine kept_update rfl hmade.rel ?_ ?_ ?_ h
    · intro hfree
      show A.Linked (A.view (f s.shared)) _
      rw [hview (hnone (hnobody hfree)), hmade.outside (hnone (hnobody hfree))]
      exact h.free hfree
    · refine ⟨_, hnext, hmade.known, hstable, ?_, ?_, ?_⟩
      · intro e' he'
        cases he'
      · by_cases hh : s.holder = some t
        · rw [Standing.made, hst.held, if_pos hh, if_pos hh,
            hmade.holder (hst.holder_iff.mpr hh)]
          rfl
        · rw [Standing.made, hst.held, if_neg hh, if_neg hh]
          rfl
      · rw [Standing.made, hmade.owner]
    · intro u hu su hsu
      have hout : s.holder = some u → st.held = none := fun hh => hnone (hother u hu hh)
      exact hsu.elsewhere Iff.rfl (fun hh => ⟨hview (hout hh), hmade.outside (hout hh)⟩)
        ⟨hown u hu, hmade.others u hu⟩
        (hsu.stable a e hmade.enabled hmade.allowed hsu.known)

/-- **One step of a pool**: nothing happens in the system, or the step of a call. -/
theorem Kept.step (h : A.Kept Call s a) {mayRun : σ → τ → TaskProgram σ → Prop}
    (hen : (TaskPool.system mayRun).Enabled s (.step t)) :
    A.Kept Call ((TaskPool.system mayRun).next s (.step t)) a ∨
      ∃ e, Call t e ∧ A.system.Enabled a e ∧ A.allowed a e ∧
        A.Kept Call ((TaskPool.system mayRun).next s (.step t)) (A.system.next a e) := by
  simp only [TaskPool.system] at hen ⊢
  cases hp : s.prog t with
  | done =>
    rw [hp] at hen
    exact hen.elim
  | lock p =>
    rw [hp] at hen
    exact Or.inl (h.lock hp hen)
  | unlock p =>
    rw [hp] at hen
    exact Or.inl (h.unlock hp hen)
  | act f next => exact h.act hp

/-- **A pool in which every program makes its call** is a run of the system, of calls for which
programs were started on the tasks that make them. -/
theorem simulates {mayRun : σ → τ → TaskProgram σ → Prop} {ok : TaskAction τ σ → Prop}
    (hmakes : ∀ x t p, mayRun x t p → ok (.start t p) →
      ∃ e, (∀ e' ∈ e, Call t e') ∧ p.Makes A t ⟨e, none, (A.own t x, A.own t x), fun _ => True⟩) :
    EventSystem.Simulates (TaskPool.system mayRun) A.system (A.Kept Call) (fun _ e => ok e)
      (fun a e => A.allowed a e ∧ ∃ t, Call t e) (fun _ _ => True) := by
  intro s a e h hen hok
  cases e with
  | start t p =>
    obtain ⟨hdone, hmay⟩ := hen
    obtain ⟨e, hcall, hp⟩ := hmakes s.shared t p hmay hok
    exact Or.inl ⟨trivial, h.start hdone hcall (fun _ _ _ _ _ => trivial) trivial hp⟩
  | step t =>
    rcases h.step hen with hstay | ⟨e, hcall, hen', hok, hstep⟩
    · exact Or.inl ⟨trivial, hstay⟩
    · exact Or.inr ⟨e, hen', ⟨hok, t, hcall⟩, trivial, hstep⟩

end Steps
end CallSpec
