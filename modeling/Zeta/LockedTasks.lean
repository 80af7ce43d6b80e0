import Zeta.EventSystem
import Mathlib.Logic.Function.Basic

/-!
# Tasks that share a lock

Any number of tasks act on a shared state, one atomic action at a time and in any order.
There is one lock: a task that wants it waits until it is free.  A task that is done may
be given a new program.

What holds of such tasks whatever their order is proved one program at a time
(`TaskProgram.Sound`).  A program is run alone, except that whenever it takes the lock it
finds the guarded part of the state as any other task may have left it: in some state
that satisfies the resource invariant.  Three things follow of any run of sound programs.

* The resource invariant holds whenever the lock is free (`resource_of_free`).
* The guarantee, which each action on the guarded part must keep, holds always
  (`guarantee_of_run`).
* Once all tasks are done, the state is settled (`settled_of_done`).  A task may unsettle
  it, but then it owes it to the others to settle it before it is done.
-/

universe u v w

/-- The program of a task: atomic actions on the state, some of them between taking and
releasing the lock.  What comes next depends on the state an action finds. -/
inductive TaskProgram (σ : Type u) where
  | done
  | lock (next : TaskProgram σ)
  | unlock (next : TaskProgram σ)
  | act (f : σ → σ) (next : σ → TaskProgram σ)

namespace TaskProgram
variable {σ : Type u}

/-- The program run alone, without interruption. -/
def exec : TaskProgram σ → σ → σ
  | .done, s => s
  | .lock p, s => p.exec s
  | .unlock p, s => p.exec s
  | .act f next, s => (next s).exec (f s)

/-- The program has come to its end. -/
def isDone : TaskProgram σ → Bool
  | .done => true
  | _ => false

theorem eq_done_of_isDone {p : TaskProgram σ} (h : p.isDone = true) : p = .done := by
  cases p with
  | done => rfl
  | lock _ | unlock _ | act _ _ => cases h

@[simp] theorem exec_done (s : σ) : (done : TaskProgram σ).exec s = s := rfl
@[simp] theorem exec_lock (p : TaskProgram σ) (s : σ) : (lock p).exec s = p.exec s := rfl
@[simp] theorem exec_unlock (p : TaskProgram σ) (s : σ) : (unlock p).exec s = p.exec s := rfl
@[simp] theorem exec_act (f : σ → σ) (next : σ → TaskProgram σ) (s : σ) :
    (act f next).exec s = (next s).exec (f s) := rfl

end TaskProgram

/-- What a lock is for: the part of the state it guards, the resource invariant, which
holds whenever it is free, the guarantee, which holds always, and what it is for the
state to be settled. -/
structure LockSpec (σ : Type u) (γ : Type v) where
  view : σ → γ
  Resource : γ → Prop
  Guarantee : γ → Prop
  Settled : γ → Prop
  guarantee_of_resource : ∀ g, Resource g → Guarantee g

/-- Where a task stands: without the lock, and owing to settle the state or not; or with
the lock, knowing the guarded state, and answering for it or not. -/
inductive TaskPhase (γ : Type v) where
  | outside (owes : Bool)
  | inside (g : γ) (answers : Prop)

/-- **A program keeps to the specification of the lock.** -/
def TaskProgram.Sound {σ : Type u} {γ : Type v} (L : LockSpec σ γ) :
    TaskProgram σ → TaskPhase γ → Prop
  | .done, .outside owes => owes = false
  | .done, .inside _ _ => False
  -- A task that owes, or finds the state settled, answers for it until it lets go.
  | .lock p, .outside owes =>
    ∀ g, L.Resource g → p.Sound L (.inside g (owes = true ∨ L.Settled g))
  | .lock _, .inside _ _ => False
  | .unlock _, .outside _ => False
  | .unlock p, .inside g answers =>
    L.Resource g ∧ ∃ owes, (answers → L.Settled g ∨ owes = true) ∧ p.Sound L (.outside owes)
  | .act f next, .outside owes =>
    ∀ s, L.view (f s) = L.view s ∧ (next s).Sound L (.outside owes)
  | .act f next, .inside g answers =>
    ∀ s, L.view s = g →
      L.Guarantee (L.view (f s)) ∧ (next s).Sound L (.inside (L.view (f s)) answers)

/-- A task that finds the guarded state as it should be, and leaves it so, owes nothing. -/
theorem TaskProgram.sound_unlock_done {σ : Type u} {γ : Type v} {L : LockSpec σ γ} {g : γ}
    (hr : L.Resource g) :
    (TaskProgram.unlock .done).Sound L (.inside g (false = true ∨ L.Settled g)) :=
  ⟨hr, false, fun h => Or.inl (h.resolve_left nofun), rfl⟩

/-- Tasks, the state they share, and who has the lock. -/
structure TaskPool (τ : Type w) (σ : Type u) where
  shared : σ
  holder : Option τ
  prog : τ → TaskProgram σ

/-- What tasks do. -/
inductive TaskAction (τ : Type w) (σ : Type u) where
  /-- A task that is done is given a program. -/
  | start (t : τ) (p : TaskProgram σ)
  /-- A task takes the next step of its program. -/
  | step (t : τ)

namespace TaskPool
variable {τ : Type w} {σ : Type u} {γ : Type v}

/-- Task `t` can go on with `p`. -/
def Ready (s : TaskPool τ σ) (t : τ) : TaskProgram σ → Prop
  | .done => False
  | .lock _ => s.holder = none
  | .unlock _ => s.holder = some t
  | .act _ _ => True

section System
variable [DecidableEq τ] (allowed : σ → τ → TaskProgram σ → Prop)

/-- Tasks that may be given the `allowed` programs. -/
def system : EventSystem (TaskPool τ σ) (TaskAction τ σ) where
  Enabled s
    | .start t p => s.prog t = .done ∧ allowed s.shared t p
    | .step t => s.Ready t (s.prog t)
  next s
    | .start t p => { s with prog := Function.update s.prog t p }
    | .step t => match s.prog t with
      | .done => s
      | .lock p => { s with holder := some t, prog := Function.update s.prog t p }
      | .unlock p => { s with holder := none, prog := Function.update s.prog t p }
      | .act f next =>
        { s with shared := f s.shared, prog := Function.update s.prog t (next s.shared) }

instance decidableReady (s : TaskPool τ σ) (t : τ) :
    (p : TaskProgram σ) → Decidable (s.Ready t p)
  | .done => isFalse id
  | .lock _ | .unlock _ => inferInstanceAs (Decidable (_ = _))
  | .act _ _ => isTrue trivial

instance decidableStep (s : TaskPool τ σ) (t : τ) :
    Decidable ((system allowed).Enabled s (.step t)) :=
  inferInstanceAs (Decidable (s.Ready t (s.prog t)))

/-- Whether tasks can take these steps is found out by taking them. -/
instance decidableSteps : ∀ (s : TaskPool τ σ) (ts : List τ),
    Decidable ((system allowed).Always (fun _ _ => True) s (ts.map .step))
  | _, [] => isTrue trivial
  | s, t :: ts =>
    have := decidableSteps ((system allowed).next s (.step t)) ts
    inferInstanceAs (Decidable (_ ∧ True ∧ _))

/-- All tasks done, and the lock free. -/
def idle (s : σ) : TaskPool τ σ where
  shared := s
  holder := none
  prog _ := .done

variable {allowed} in
/-- A task that takes no step goes on with the program it has. -/
theorem prog_steps_of_not_mem {s : TaskPool τ σ} {u : τ} {ts : List τ} (hu : u ∉ ts) :
    ((system allowed).run s (ts.map .step)).prog u = s.prog u := by
  induction ts generalizing s with
  | nil => rfl
  | cons t ts ih =>
    obtain ⟨hne, hrest⟩ := List.ne_and_not_mem_of_not_mem_cons hu
    rw [List.map_cons, EventSystem.run_cons, ih hrest]
    simp only [system]
    cases s.prog t <;> simp [Function.update_of_ne hne]

end System

/-- Where a task stands, given what it owes and what the holder of the lock answers for. -/
def phase [DecidableEq τ] (L : LockSpec σ γ) (s : TaskPool τ σ) (owes : τ → Bool) (answers : Prop)
    (t : τ) : TaskPhase γ :=
  if s.holder = some t then .inside (L.view s.shared) answers else .outside (owes t)

/-- **The invariant of sound tasks.** -/
structure Kept [DecidableEq τ] (L : LockSpec σ γ) (s : TaskPool τ σ) (owes : τ → Bool)
    (answers : Prop) : Prop where
  sound : ∀ t, (s.prog t).Sound L (s.phase L owes answers t)
  guarantee : L.Guarantee (L.view s.shared)
  free : s.holder = none →
    L.Resource (L.view s.shared) ∧ (L.Settled (L.view s.shared) ∨ ∃ t, owes t = true)
  held : ∀ t, s.holder = some t → answers ∨ ∃ u, u ≠ t ∧ owes u = true

section Invariant
variable [DecidableEq τ] {L : LockSpec σ γ} {s : TaskPool τ σ} {owes : τ → Bool} {answers : Prop}
  {t : τ}

theorem phase_of_holder (h : s.holder = some t) :
    s.phase L owes answers t = .inside (L.view s.shared) answers := if_pos h

theorem phase_of_not_holder (h : s.holder ≠ some t) :
    s.phase L owes answers t = .outside (owes t) := if_neg h

theorem kept_idle {x : σ} (hr : L.Resource (L.view x)) (hs : L.Settled (L.view x)) :
    Kept L (idle x : TaskPool τ σ) (fun _ => false) True where
  sound _ := rfl
  guarantee := L.guarantee_of_resource _ hr
  free _ := ⟨hr, Or.inl hs⟩
  held _ _ := Or.inl trivial

/-- A task that is done does not hold the lock and owes nothing. -/
theorem Kept.of_done (h : Kept L s owes answers) (hp : s.prog t = .done) :
    s.holder ≠ some t ∧ owes t = false := by
  have hsound := h.sound t
  rw [hp] at hsound
  by_cases hh : s.holder = some t
  · rw [phase_of_holder hh] at hsound
    exact hsound.elim
  · rw [phase_of_not_holder hh] at hsound
    exact ⟨hh, hsound⟩

/-- A task that goes on to `p` leaves the programs of the others alone. -/
theorem sound_update {s' : TaskPool τ σ} {p : TaskProgram σ}
    (hprog : s'.prog = Function.update s.prog t p)
    (ht : p.Sound L (s'.phase L owes answers t))
    (hu : ∀ u, u ≠ t → (s.prog u).Sound L (s'.phase L owes answers u)) :
    ∀ u, (s'.prog u).Sound L (s'.phase L owes answers u) := by
  rw [hprog]
  exact (Function.forall_update_iff s.prog
    (fun u q => q.Sound L (s'.phase L owes answers u))).mpr ⟨ht, hu⟩

omit [DecidableEq τ] in
/-- Only one task holds the lock. -/
theorem ne_holder {u : τ} (h : s.holder = some t) (hu : u ≠ t) : s.holder ≠ some u := by
  rw [h]
  exact fun he => hu (Option.some.inj he).symm

/-- A task that is done is given a program. -/
theorem Kept.start (h : Kept L s owes answers) {p : TaskProgram σ} (hdone : s.prog t = .done)
    (hp : p.Sound L (.outside false)) :
    Kept L { s with prog := Function.update s.prog t p } owes answers := by
  obtain ⟨hh, howes⟩ := h.of_done hdone
  refine ⟨sound_update rfl ?_ (fun u _ => h.sound u), h.guarantee, h.free, h.held⟩
  show p.Sound L (if s.holder = some t then _ else _)
  rw [if_neg hh, howes]
  exact hp

/-- A task takes the lock. -/
theorem Kept.lock (h : Kept L s owes answers) {p : TaskProgram σ} (hp : s.prog t = .lock p)
    (hfree : s.holder = none) :
    Kept L { s with holder := some t, prog := Function.update s.prog t p } owes
      (owes t = true ∨ L.Settled (L.view s.shared)) := by
  obtain ⟨hr, hsettled⟩ := h.free hfree
  have hout : ∀ u, s.holder ≠ some u := by simp [hfree]
  refine ⟨sound_update rfl ?_ ?_, h.guarantee, nofun, ?_⟩
  · have hsound := h.sound t
    rw [hp, phase_of_not_holder (hout t)] at hsound
    rw [phase_of_holder rfl]
    exact hsound _ hr
  · intro u hu
    have hsound := h.sound u
    rw [phase_of_not_holder (hout u)] at hsound
    rw [phase_of_not_holder (ne_holder rfl hu)]
    exact hsound
  · intro t' ht'
    cases ht'
    rcases hsettled with hset | ⟨u, hu⟩
    · exact Or.inl (Or.inr hset)
    · by_cases hut : u = t
      · exact Or.inl (Or.inl (hut ▸ hu))
      · exact Or.inr ⟨u, hut, hu⟩

/-- A task releases the lock. -/
theorem Kept.unlock (h : Kept L s owes answers) {p : TaskProgram σ} (hp : s.prog t = .unlock p)
    (hheld : s.holder = some t) :
    ∃ owes', Kept L { s with holder := none, prog := Function.update s.prog t p } owes' True := by
  have hsound := h.sound t
  rw [hp, phase_of_holder hheld] at hsound
  obtain ⟨hr, b, hb, hrest⟩ := hsound
  have hnone : ∀ u, (none : Option τ) ≠ some u := nofun
  refine ⟨Function.update owes t b, sound_update rfl ?_ ?_, h.guarantee, ?_, nofun⟩
  · rw [phase_of_not_holder (hnone t), Function.update_self]
    exact hrest
  · intro u hu
    have hsound := h.sound u
    rw [phase_of_not_holder (ne_holder hheld hu)] at hsound
    rw [phase_of_not_holder (hnone u), Function.update_of_ne hu]
    exact hsound
  · intro _
    refine ⟨hr, ?_⟩
    rcases h.held t hheld with hans | ⟨u, hu, hou⟩
    · rcases hb hans with hset | hown
      · exact Or.inl hset
      · exact Or.inr ⟨t, by rw [Function.update_self]; exact hown⟩
    · exact Or.inr ⟨u, by rw [Function.update_of_ne hu]; exact hou⟩

/-- A task acts. -/
theorem Kept.act (h : Kept L s owes answers) {f : σ → σ} {next : σ → TaskProgram σ}
    (hp : s.prog t = .act f next) :
    Kept L { s with shared := f s.shared, prog := Function.update s.prog t (next s.shared) }
      owes answers := by
  have hsound := h.sound t
  rw [hp] at hsound
  by_cases hh : s.holder = some t
  · -- With the lock: the other tasks know nothing of the guarded state.
    rw [phase_of_holder hh] at hsound
    obtain ⟨hg, hrest⟩ := hsound s.shared rfl
    refine ⟨sound_update rfl ?_ ?_, hg, ?_, h.held⟩
    · show (next s.shared).Sound L (if s.holder = some t then _ else _)
      rw [if_pos hh]
      exact hrest
    · intro u hu
      have hne := ne_holder hh hu
      have hsound := h.sound u
      rw [phase_of_not_holder hne] at hsound
      show (s.prog u).Sound L (if s.holder = some u then _ else _)
      rw [if_neg hne]
      exact hsound
    · intro hfree
      rw [show s.holder = none from hfree] at hh
      cases hh
  · -- Without it: the guarded state stays as it is.
    rw [phase_of_not_holder hh] at hsound
    obtain ⟨hview, hrest⟩ := hsound s.shared
    refine ⟨sound_update rfl ?_ ?_, ?_, ?_, h.held⟩
    · show (next s.shared).Sound L (if s.holder = some t then _ else _)
      rw [if_neg hh]
      exact hrest
    · intro u _
      simp only [phase, hview]
      exact h.sound u
    · rw [hview]
      exact h.guarantee
    · rw [hview]
      exact h.free

variable {allowed : σ → τ → TaskProgram σ → Prop} {x : σ} {as : List (TaskAction τ σ)}

/-- **One step of sound tasks keeps the invariant.** -/
theorem kept_next (hallowed : ∀ x t p, allowed x t p → p.Sound L (.outside false))
    {a : TaskAction τ σ} (h : ∃ owes answers, Kept L s owes answers)
    (hen : (system allowed).Enabled s a) :
    ∃ owes answers, Kept L ((system allowed).next s a) owes answers := by
  obtain ⟨owes, answers, h⟩ := h
  cases a with
  | start t p => exact ⟨owes, answers, h.start hen.1 (hallowed _ _ _ hen.2)⟩
  | step t =>
    simp only [system] at hen ⊢
    cases hp : s.prog t with
    | done =>
      rw [hp] at hen
      exact hen.elim
    | lock p =>
      rw [hp] at hen
      exact ⟨owes, _, h.lock hp hen⟩
    | unlock p =>
      rw [hp] at hen
      obtain ⟨owes', h'⟩ := h.unlock hp hen
      exact ⟨owes', True, h'⟩
    | act f next => exact ⟨owes, answers, h.act hp⟩

/-! ## Runs of sound tasks -/

/-- The invariant holds after every run. -/
theorem kept_run (hallowed : ∀ x t p, allowed x t p → p.Sound L (.outside false))
    (hr : L.Resource (L.view x)) (hs : L.Settled (L.view x))
    (has : (system allowed).Always (fun _ _ => True) (idle x) as) :
    ∃ owes answers, Kept L ((system allowed).run (idle x) as) owes answers :=
  EventSystem.invariant_run (I := fun s => ∃ owes answers, Kept L s owes answers)
    (fun _ _ h hen _ => kept_next hallowed h hen) has ⟨_, _, kept_idle hr hs⟩

/-- **Whenever the lock is free, the resource invariant holds.** -/
theorem resource_of_free (hallowed : ∀ x t p, allowed x t p → p.Sound L (.outside false))
    (hr : L.Resource (L.view x)) (hs : L.Settled (L.view x))
    (has : (system allowed).Always (fun _ _ => True) (idle x) as)
    (hfree : ((system allowed).run (idle x) as).holder = none) :
    L.Resource (L.view ((system allowed).run (idle x) as).shared) := by
  obtain ⟨owes, answers, h⟩ := kept_run hallowed hr hs has
  exact (h.free hfree).1

/-- **The guarantee holds always.** -/
theorem guarantee_of_run (hallowed : ∀ x t p, allowed x t p → p.Sound L (.outside false))
    (hr : L.Resource (L.view x)) (hs : L.Settled (L.view x))
    (has : (system allowed).Always (fun _ _ => True) (idle x) as) :
    L.Guarantee (L.view ((system allowed).run (idle x) as).shared) := by
  obtain ⟨owes, answers, h⟩ := kept_run hallowed hr hs has
  exact h.guarantee

/-- **Once all tasks are done, the state is settled.** -/
theorem settled_of_done (hallowed : ∀ x t p, allowed x t p → p.Sound L (.outside false))
    (hr : L.Resource (L.view x)) (hs : L.Settled (L.view x))
    (has : (system allowed).Always (fun _ _ => True) (idle x) as)
    (hdone : ∀ t, ((system allowed).run (idle x) as).prog t = .done) :
    L.Settled (L.view ((system allowed).run (idle x) as).shared) := by
  obtain ⟨owes, answers, h⟩ := kept_run hallowed hr hs has
  have hfree : ((system allowed).run (idle x) as).holder = none := by
    cases hh : ((system allowed).run (idle x) as).holder with
    | none => rfl
    | some t => exact absurd hh (h.of_done (hdone t)).1
  rcases (h.free hfree).2 with hset | ⟨t, ht⟩
  · exact hset
  · rw [(h.of_done (hdone t)).2] at ht
    cases ht

end Invariant
end TaskPool
