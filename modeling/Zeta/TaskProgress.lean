import Zeta.LockedTasks
import Mathlib.Data.Multiset.Replicate

/-!
# Tasks that share a lock come to an end

How many steps a program takes depends on what it finds, but there may be a bound that does not
(`TaskProgram.EndsWithin`).  Then the tasks of a pool have so many steps left together, whoever
takes the next one (`StepsLeft`): a step takes one away, and a program that begins brings its
bound.

Nor can sound programs block each other: the holder of the lock never waits for it, so
while one of them is not done, one can go on (`TaskPool.Kept.exists_ready`).
-/

universe u v w

namespace TaskProgram
variable {σ : Type u}

/-- `q` may be left of the program after its first step. -/
inductive Follows : TaskProgram σ → TaskProgram σ → Prop
  | lock (p : TaskProgram σ) : Follows p (.lock p)
  | unlock (p : TaskProgram σ) : Follows p (.unlock p)
  | act (f : σ → σ) (next : σ → TaskProgram σ) (s : σ) : Follows (next s) (.act f next)

/-- The program takes no more than `n` steps, whatever it finds. -/
def EndsWithin : TaskProgram σ → ℕ → Prop
  | .done, _ => True
  | .lock p, n + 1 | .unlock p, n + 1 => p.EndsWithin n
  | .act _ next, n + 1 => ∀ s, (next s).EndsWithin n
  | _, 0 => False

variable {p q : TaskProgram σ} {m n : ℕ}

theorem EndsWithin.mono (h : p.EndsWithin m) (hmn : m ≤ n) : p.EndsWithin n := by
  induction p generalizing m n with
  | done => trivial
  | lock p ih | unlock p ih =>
    cases m with
    | zero => exact h.elim
    | succ m =>
      cases n with
      | zero => omega
      | succ n => exact ih h (Nat.le_of_succ_le_succ hmn)
  | act f next ih =>
    cases m with
    | zero => exact h.elim
    | succ m =>
      cases n with
      | zero => omega
      | succ n => exact fun s => ih s (h s) (Nat.le_of_succ_le_succ hmn)

/-- A step is one of them. -/
theorem EndsWithin.follows (h : p.EndsWithin n) (hq : q.Follows p) :
    ∃ m, n = m + 1 ∧ q.EndsWithin m := by
  cases n with
  | zero => cases hq <;> exact h.elim
  | succ m =>
    refine ⟨m, rfl, ?_⟩
    cases hq with
    | lock | unlock => exact h
    | act f next s => exact h s

end TaskProgram

/-- **The steps that the tasks have left**: each task is among them once for each. -/
def StepsLeft {τ : Type w} {σ : Type u} [DecidableEq τ] (progs : τ → TaskProgram σ)
    (left : Multiset τ) : Prop :=
  ∀ t, (progs t).EndsWithin (left.count t)

section Left
variable {τ : Type w} {σ : Type u} [DecidableEq τ] {progs : τ → TaskProgram σ}
  {left : Multiset τ} {t : τ} {p : TaskProgram σ}

/-- A task takes a step. -/
theorem StepsLeft.step (h : StepsLeft progs left) (hp : p.Follows (progs t)) :
    t ∈ left ∧ StepsLeft (Function.update progs t p) (left.erase t) := by
  obtain ⟨m, hm, hends⟩ := (h t).follows hp
  have hmem : t ∈ left := Multiset.count_pos.mp (by omega)
  refine ⟨hmem, fun u => ?_⟩
  by_cases hu : u = t
  · subst hu
    rw [Function.update_self, Multiset.count_erase_self, hm]
    exact hends
  · rw [Function.update_of_ne hu, Multiset.count_erase_of_ne hu]
    exact h u

/-- A task is given a program. -/
theorem StepsLeft.start (h : StepsLeft progs left) {n : ℕ} (hp : p.EndsWithin n) :
    StepsLeft (Function.update progs t p) (left + Multiset.replicate n t) := by
  intro u
  rw [Multiset.count_add]
  by_cases hu : u = t
  · subst hu
    rw [Function.update_self, Multiset.count_replicate_self]
    exact hp.mono (Nat.le_add_left _ _)
  · rw [Function.update_of_ne hu]
    exact (h u).mono (Nat.le_add_right _ _)

end Left

namespace TaskPool
variable {τ : Type w} {σ : Type u} {γ : Type v} [DecidableEq τ] {s : TaskPool τ σ} {t : τ}
  {allowed : σ → τ → TaskProgram σ → Prop}

/-- What a step leaves. -/
theorem follows_of_step (hen : (system allowed).Enabled s (.step t)) :
    ∃ p, ((system allowed).next s (.step t)).prog = Function.update s.prog t p ∧
      p.Follows (s.prog t) := by
  simp only [system] at hen ⊢
  cases hp : s.prog t with
  | done =>
    rw [hp] at hen
    exact hen.elim
  | lock p => exact ⟨p, rfl, .lock p⟩
  | unlock p => exact ⟨p, rfl, .unlock p⟩
  | act f next => exact ⟨next s.shared, rfl, .act f next _⟩

/-- **No deadlock.**  While a sound program is not done, a task can go on. -/
theorem Kept.exists_ready {L : LockSpec σ γ} {owes : τ → Bool} {answers : Prop}
    (h : Kept L s owes answers) (ht : s.prog t ≠ .done) : ∃ u, s.Ready u (s.prog u) := by
  cases hh : s.holder with
  | some u =>
    -- The holder is inside its section.
    have hsound := h.sound u
    rw [phase_of_holder hh] at hsound
    refine ⟨u, ?_⟩
    cases hp : s.prog u with
    | done | lock p =>
      rw [hp] at hsound
      exact hsound.elim
    | unlock p => exact hh
    | act f next => trivial
  | none =>
    have hsound := h.sound t
    rw [phase_of_not_holder (by rw [hh]; exact (Option.some_ne_none t).symm)] at hsound
    refine ⟨t, ?_⟩
    cases hp : s.prog t with
    | done => exact absurd hp ht
    | unlock p =>
      rw [hp] at hsound
      exact hsound.elim
    | lock p => exact hh
    | act f next => trivial

end TaskPool
