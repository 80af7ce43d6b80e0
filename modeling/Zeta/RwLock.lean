import Zeta.EventSystem

/-!
# A readers-writer lock

Tasks share a value under a lock.  A writer has it alone, for a section of several steps;
any number of readers may have it together, and nobody writes meanwhile.  Tasks take the
lock in any order, and the steps of a section interleave with whatever the other tasks
may do meanwhile.

The sections have the effect of having been run whole, one after the other, in the order
in which the lock was taken; and that is all a reader sees (`outcome_of_free`,
`outcome_of_reading`).
-/

/-- A value under a lock.  `log`, the sections for which the lock was taken to write, in their
order, is history. -/
structure RwLock (τ κ σ : Type*) where
  data : σ
  /-- The writer, and what is left of its section. -/
  writer : Option (τ × List (σ → σ))
  readers : List τ
  log : List κ

/-- What tasks do with the lock. -/
inductive RwEvent (τ κ : Type*) where
  /-- A task takes the lock to write, for a section. -/
  | write (t : τ) (k : κ)
  /-- The writer takes the next step of its section. -/
  | step
  | endWrite
  /-- A task takes the lock to read. -/
  | read (t : τ)
  /-- A reader looks at the value. -/
  | look (t : τ)
  | endRead (t : τ)

namespace RwLock
variable {τ κ σ : Type*}

/-- The value before any task has come. -/
def start (x : σ) : RwLock τ κ σ where
  data := x
  writer := none
  readers := []
  log := []

/-- What is left of the section of the writer. -/
def pending (s : RwLock τ κ σ) : List (σ → σ) :=
  match s.writer with
  | some (_, fs) => fs
  | none => []

/-- The writer has come to the end of its section. -/
def atEnd (s : RwLock τ κ σ) : Bool :=
  match s.writer with
  | some (_, []) => true
  | _ => false

/-- The writer takes a step. -/
def advance (s : RwLock τ κ σ) : RwLock τ κ σ :=
  match s.writer with
  | some (t, f :: fs) => { s with data := f s.data, writer := some (t, fs) }
  | _ => s

section System
variable [DecidableEq τ] (body : κ → List (σ → σ))

/-- The lock as an event system, where the sections have these steps. -/
def system : EventSystem (RwLock τ κ σ) (RwEvent τ κ) where
  Enabled s
    | .write _ _ => s.writer.isNone = true ∧ s.readers = []
    | .step => s.pending.isEmpty = false
    | .endWrite => s.atEnd = true
    | .read _ => s.writer.isNone = true
    | .look t | .endRead t => t ∈ s.readers
  next s
    | .write t k => { s with writer := some (t, body k), log := s.log ++ [k] }
    | .step => s.advance
    | .endWrite => { s with writer := none }
    | .read t => { s with readers := t :: s.readers }
    | .look _ => s
    | .endRead t => { s with readers := s.readers.erase t }

instance (s : RwLock τ κ σ) : (e : RwEvent τ κ) → Decidable ((system body).Enabled s e)
  | .write _ _ => inferInstanceAs (Decidable (_ ∧ s.readers = []))
  | .step | .endWrite | .read _ => inferInstanceAs (Decidable (_ = _))
  | .look t | .endRead t => inferInstanceAs (Decidable (t ∈ s.readers))

end System

/-- The effect of steps, one after the other. -/
def effect (fs : List (σ → σ)) (x : σ) : σ := fs.foldl (fun x f => f x) x

/-- The effect of sections, each of them whole. -/
def outcome (body : κ → List (σ → σ)) (x : σ) (log : List κ) : σ :=
  log.foldl (fun x k => effect (body k) x) x

/-- **The invariant**: once the writer is at the end of its section, the sections have been run
one after the other; and nobody reads while there is a writer. -/
structure Serial (body : κ → List (σ → σ)) (x : σ) (s : RwLock τ κ σ) : Prop where
  data : effect s.pending s.data = outcome body x s.log
  alone : s.writer ≠ none → s.readers = []

variable {body : κ → List (σ → σ)} {x : σ} {s : RwLock τ κ σ} {t : τ}

theorem outcome_snoc (log : List κ) (k : κ) :
    outcome body x (log ++ [k]) = effect (body k) (outcome body x log) := by
  rw [outcome, List.foldl_append]
  rfl

theorem pending_of_free (h : s.writer = none) : s.pending = [] := by
  simp only [pending, h]

theorem writer_of_pending (h : s.pending.isEmpty = false) :
    ∃ t f fs, s.writer = some (t, f :: fs) := by
  cases hw : s.writer with
  | none =>
    rw [pending_of_free hw] at h
    cases h
  | some w =>
    obtain ⟨t, fs⟩ := w
    cases fs with
    | nil => simp [pending, hw] at h
    | cons f fs => exact ⟨t, f, fs, rfl⟩

theorem serial_start (body : κ → List (σ → σ)) (x : σ) :
    Serial body x (start x : RwLock τ κ σ) where
  data := rfl
  alone := fun h => absurd rfl h

section Steps
variable [DecidableEq τ]

/-- **One step.** -/
theorem serial_next {e : RwEvent τ κ} (h : Serial body x s) (hen : (system body).Enabled s e) :
    Serial body x ((system body).next s e) := by
  cases e with
  | write t k =>
    obtain ⟨hfree, hreaders⟩ := hen
    have hnone : s.writer = none := Option.isNone_iff_eq_none.mp hfree
    refine ⟨?_, fun _ => hreaders⟩
    show effect (body k) s.data = outcome body x (s.log ++ [k])
    have hdata := h.data
    rw [pending_of_free hnone] at hdata
    rw [outcome_snoc, ← hdata]
    rfl
  | step =>
    obtain ⟨t, f, fs, hw⟩ := writer_of_pending hen
    have hnext : (system body).next s .step =
        { s with data := f s.data, writer := some (t, fs) } := by
      simp only [system, advance, hw]
    have hdata := h.data
    simp only [pending, hw] at hdata
    rw [hnext]
    exact ⟨hdata, fun _ => h.alone (by simp [hw])⟩
  | endWrite =>
    refine ⟨?_, fun hw => absurd rfl hw⟩
    show effect [] s.data = outcome body x s.log
    rw [← h.data]
    have hend : s.atEnd = true := hen
    unfold atEnd at hend
    split at hend
    · rename_i hw
      simp only [pending, hw]
    · cases hend
  | read t =>
    have hnone : s.writer = none := Option.isNone_iff_eq_none.mp hen
    exact ⟨h.data, fun hw => absurd hnone hw⟩
  | look t => exact h
  | endRead t =>
    refine ⟨h.data, fun hw => ?_⟩
    show s.readers.erase t = []
    rw [h.alone hw]
    rfl

/-! ## Runs -/

variable {es : List (RwEvent τ κ)}

theorem serial_run (hes : (system body).Always (fun _ _ => True) (start x) es) :
    Serial body x ((system body).run (start x) es) :=
  EventSystem.invariant_run (fun _ _ h hen _ => serial_next h hen) hes (serial_start body x)

end Steps

/-- **Whenever nobody writes, the sections have been run whole, one after the other.** -/
theorem Serial.outcome_of_free (h : Serial body x s) (hfree : s.writer = none) :
    s.data = outcome body x s.log := by
  rw [← h.data, pending_of_free hfree]
  rfl

/-- **And that is what a reader sees.** -/
theorem Serial.outcome_of_reading (h : Serial body x s) (ht : t ∈ s.readers) :
    s.data = outcome body x s.log := by
  apply h.outcome_of_free
  by_contra hw
  rw [h.alone hw] at ht
  cases ht

end RwLock
