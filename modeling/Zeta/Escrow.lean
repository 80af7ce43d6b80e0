import Zeta.EventSystem
import Mathlib.Algebra.BigOperators.Group.Finset.Piecewise
import Mathlib.Algebra.Order.BigOperators.Group.Finset
import Mathlib.Algebra.Order.Group.Nat

/-!
# Money in escrow

What a payment system is for, whatever carries its messages: a payer gives up an
amount, which is then nobody's, until somebody is credited with it.  Nobody pays more
than he has and nobody is credited with what has not been paid, so the money does not
become more or less.
-/

/-- What everybody owns, and the payments made and not yet received. -/
structure Escrow (ι α : Type*) where
  balance : ι → ℕ
  pending : Multiset α

namespace Escrow

/-- `i` makes a payment, or receives one. -/
inductive Move (ι α : Type*) where
  | pay (i : ι) (a : α)
  | credit (i : ι) (a : α)

variable {ι α : Type*} [DecidableEq ι] [DecidableEq α] (amount : α → ℕ)

/-- Payers pay what they have; what is received is pending. -/
def system : EventSystem (Escrow ι α) (Move ι α) where
  Enabled x
    | .pay i a => amount a ≤ x.balance i
    | .credit _ a => a ∈ x.pending
  next x
    | .pay i a => ⟨Function.update x.balance i (x.balance i - amount a), a ::ₘ x.pending⟩
    | .credit i a => ⟨Function.update x.balance i (x.balance i + amount a), x.pending.erase a⟩

variable [Fintype ι]

/-- All the money there is. -/
def total (x : Escrow ι α) : ℕ := ∑ i, x.balance i + (x.pending.map amount).sum

variable {amount} {x : Escrow ι α}

omit [DecidableEq α] in
/-- One account's share in the sum of all. -/
theorem sum_update (f : ι → ℕ) (i : ι) (n : ℕ) :
    ∑ j, Function.update f i n j + f i = ∑ j, f j + n := by
  rw [Finset.sum_update_of_mem (Finset.mem_univ i),
    Finset.sum_eq_add_sum_sdiff_singleton_of_mem (Finset.mem_univ i) f]
  omega

/-- **Money is conserved** by every move. -/
theorem total_next {m : Move ι α} (h : (system amount).Enabled x m) :
    total amount ((system amount).next x m) = total amount x := by
  cases m with
  | pay i a =>
    have hle : amount a ≤ x.balance i := h
    have hsum := sum_update x.balance i (x.balance i - amount a)
    simp only [total, system, Multiset.map_cons, Multiset.sum_cons]
    omega
  | credit i a =>
    have hsum := sum_update x.balance i (x.balance i + amount a)
    have hpending : (x.pending.map amount).sum =
        amount a + ((x.pending.erase a).map amount).sum := by
      rw [← Multiset.sum_cons, ← Multiset.map_cons, Multiset.cons_erase h]
    simp only [total, system, hpending]
    omega

/-- Money is conserved by every run. -/
theorem total_run {ms : List (Move ι α)}
    (h : (system amount).Always (fun _ _ => True) x ms) :
    total amount ((system amount).run x ms) = total amount x :=
  EventSystem.invariant_run (I := fun y => total amount y = total amount x)
    (fun _ _ hI hen _ => (total_next hen).trans hI) h rfl

omit [DecidableEq ι] [DecidableEq α] in
/-- Whoever receives a pending payment has room for it in the total. -/
theorem balance_add_amount_le (amount : α → ℕ) {a : α} (h : a ∈ x.pending) (i : ι) :
    x.balance i + amount a ≤ total amount x :=
  Nat.add_le_add
    (Finset.single_le_sum (f := x.balance) (fun _ _ => Nat.zero_le _) (Finset.mem_univ i))
    (Multiset.single_le_sum (fun _ _ => Nat.zero_le _) _ (Multiset.mem_map_of_mem amount h))

end Escrow
