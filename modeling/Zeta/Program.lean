import Mathlib.Logic.Basic

/-!
# Programs that make calls

A program is done, or it makes a call and goes on with the answer.  What a call does is
left open.  `run` has a handler answer the calls, which keeps a state of its own; `expand`
puts a program in the place of each call, which makes calls of another kind.  To run an
expanded program is to run the outer one with a handler that runs the inner ones
(`run_expand`), so the inner programs can be specified first, each by itself.

`Phase` is where an expanded program stands, when one wants to know which outer call is
being carried out.  Its steps are those of the expanded program
(`remaining_enter`, `remaining_call`).
-/

/-- A program that makes calls `ι`, answered by `ρ`, and ends with an `α`. -/
inductive Program (ι : Type) (ρ : ι → Type) (α : Type) where
  | done (a : α)
  | call (i : ι) (next : ρ i → Program ι ρ α)

namespace Program

variable {ι κ α β ω : Type} {ρ : ι → Type} {τ : κ → Type}

/-- One program after another. -/
def bind : Program ι ρ α → (α → Program ι ρ β) → Program ι ρ β
  | done a, f => f a
  | call i next, f => call i fun r => (next r).bind f

/-- The result of the program, and the state it leaves the handler in. -/
def run (handle : (i : ι) → ω → ρ i × ω) : Program ι ρ α → ω → α × ω
  | done a, w => (a, w)
  | call i next, w => (next (handle i w).1).run handle (handle i w).2

/-- Each call is carried out by a program. -/
def expand (body : (i : ι) → Program κ τ (ρ i)) : Program ι ρ α → Program κ τ α
  | done a => done a
  | call i next => (body i).bind fun r => (next r).expand body

@[simp] theorem bind_done (a : α) (f : α → Program ι ρ β) : (done a).bind f = f a := rfl

@[simp] theorem bind_call (i : ι) (next : ρ i → Program ι ρ α) (f : α → Program ι ρ β) :
    (call i next).bind f = call i fun r => (next r).bind f := rfl

@[simp] theorem run_done (handle : (i : ι) → ω → ρ i × ω) (a : α) (w : ω) :
    (done a : Program ι ρ α).run handle w = (a, w) := rfl

@[simp] theorem run_call (handle : (i : ι) → ω → ρ i × ω) (i : ι)
    (next : ρ i → Program ι ρ α) (w : ω) :
    (call i next).run handle w = (next (handle i w).1).run handle (handle i w).2 := rfl

@[simp] theorem expand_done (body : (i : ι) → Program κ τ (ρ i)) (a : α) :
    (done a : Program ι ρ α).expand body = done a := rfl

@[simp] theorem expand_call (body : (i : ι) → Program κ τ (ρ i)) (i : ι)
    (next : ρ i → Program ι ρ α) :
    (call i next).expand body = (body i).bind fun r => (next r).expand body := rfl

theorem run_bind (handle : (i : ι) → ω → ρ i × ω) (p : Program ι ρ α)
    (f : α → Program ι ρ β) (w : ω) :
    (p.bind f).run handle w = (f (p.run handle w).1).run handle (p.run handle w).2 := by
  induction p generalizing w with
  | done a => rfl
  | call i next ih => exact ih (handle i w).1 (handle i w).2

/-- **An expanded program runs as the outer one does, with calls that run the inner
ones.** -/
theorem run_expand (handle : (k : κ) → ω → τ k × ω) (body : (i : ι) → Program κ τ (ρ i))
    (p : Program ι ρ α) (w : ω) :
    (p.expand body).run handle w = p.run (fun i w => (body i).run handle w) w := by
  induction p generalizing w with
  | done a => rfl
  | call i next ih =>
    rw [expand_call, run_bind, run_call]
    exact ih ((body i).run handle w).1 ((body i).run handle w).2

/-! ## Where an expanded program stands -/

/-- It is at its end, or carries out a call: what is left of the inner program, and what
the outer one does with its result. -/
inductive Phase (ι : Type) (ρ : ι → Type) (κ : Type) (τ : κ → Type) (α : Type) where
  | finished (a : α)
  | running (i : ι) (inner : Program κ τ (ρ i)) (next : ρ i → Program ι ρ α)

variable (body : (i : ι) → Program κ τ (ρ i))

/-- The outer program is entered, up to the first call of an inner one. -/
def enter : Program ι ρ α → Phase ι ρ κ τ α
  | done a => .finished a
  | call i next =>
    match body i with
    | done r => enter (next r)
    | call k g => .running i (call k g) next

/-- The inner program goes on; once it is done, the outer one does. -/
def settle (i : ι) (inner : Program κ τ (ρ i)) (next : ρ i → Program ι ρ α) :
    Phase ι ρ κ τ α :=
  match inner with
  | done r => enter body (next r)
  | call k g => .running i (call k g) next

/-- What is left of the expanded program. -/
def Phase.remaining : Phase ι ρ κ τ α → Program κ τ α
  | .finished a => done a
  | .running _ inner next => inner.bind fun r => (next r).expand body

theorem remaining_enter (p : Program ι ρ α) : (enter body p).remaining body = p.expand body := by
  induction p with
  | done a => rfl
  | call i next ih =>
    rw [enter, expand_call]
    cases hbody : body i with
    | done r => exact ih r
    | call k g => rfl

/-- **A call is made and answered as in the expanded program.** -/
theorem remaining_call (i : ι) (k : κ) (g : τ k → Program κ τ (ρ i))
    (next : ρ i → Program ι ρ α) :
    (Phase.running i (call k g) next).remaining body =
      call k fun r => (settle body i (g r) next).remaining body := by
  have hsettle : ∀ inner : Program κ τ (ρ i), (settle body i inner next).remaining body =
      inner.bind fun r => (next r).expand body := by
    intro inner
    cases inner with
    | done r => exact remaining_enter body (next r)
    | call k g => rfl
  simp only [hsettle]
  rfl

/-- What is known of the inner program that is running. -/
def Phase.Inner (I : (i : ι) → Program κ τ (ρ i) → Prop) : Phase ι ρ κ τ α → Prop
  | .finished _ => True
  | .running i inner _ => I i inner

variable {body} {I : (i : ι) → Program κ τ (ρ i) → Prop}

/-- An inner program is entered at its beginning. -/
theorem inner_enter (hbody : ∀ i, I i (body i)) (p : Program ι ρ α) :
    (enter body p).Inner I := by
  induction p with
  | done a => trivial
  | call i next ih =>
    rw [enter]
    have hi := hbody i
    cases hcall : body i with
    | done r => exact ih r
    | call k g => rwa [hcall] at hi

theorem inner_settle (hbody : ∀ i, I i (body i)) {i : ι} {inner : Program κ τ (ρ i)}
    (next : ρ i → Program ι ρ α) (hinner : I i inner) : (settle body i inner next).Inner I := by
  cases inner with
  | done r => exact inner_enter hbody (next r)
  | call k g => exact hinner

end Program
