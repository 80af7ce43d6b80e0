import Mathlib.Data.List.Basic

/-!
# Sliding windows

The last `k` elements of a list, and the queue that holds them: `push` drops its
front once it is full.  Pushing the elements of a list one by one onto a window
slides it to the end of the list (`foldl_push`).
-/

namespace Window

variable {α β : Type*} {k : ℕ} {l l' w : List α} {x : α}

/-- The last `k` elements of a list. -/
def lastN (k : ℕ) (l : List α) : List α := l.drop (l.length - k)

/-- A queue of at most `k` elements takes in one more. -/
def push (k : ℕ) (w : List α) (x : α) : List α :=
  (if w.length ≥ k then w.tail else w) ++ [x]

theorem lastN_of_length_le (h : l.length ≤ k) : lastN k l = l := by
  rw [lastN, Nat.sub_eq_zero_of_le h, List.drop_zero]

theorem length_lastN : (lastN k l).length = min k l.length := by
  rw [lastN, List.length_drop]
  omega

theorem map_lastN (f : α → β) : (lastN k l).map f = lastN k (l.map f) := by
  rw [lastN, lastN, List.map_drop, List.length_map]

theorem push_sublist : (push k w x).Sublist (w ++ [x]) := by
  unfold push
  split
  · exact (List.tail_sublist w).append_right [x]
  · exact List.Sublist.refl _

/-- Pushing slides the window by one. -/
theorem push_lastN (hk : 0 < k) : push k (lastN k l) x = lastN k (l ++ [x]) := by
  unfold push
  rw [length_lastN]
  split
  · -- A full window drops its front.
    rename_i hfull
    have hlen : l.length - k + 1 ≤ l.length := by omega
    rw [lastN, lastN, List.tail_drop, List.length_append, List.length_singleton,
      List.drop_append_of_le_length (by omega)]
    rw [show l.length + 1 - k = l.length - k + 1 by omega]
  · -- Until then the window is the whole list.
    rw [lastN_of_length_le (by omega), lastN_of_length_le]
    rw [List.length_append, List.length_singleton]
    omega

/-- The newest element is in the window. -/
theorem mem_lastN_concat (hk : 0 < k) : x ∈ lastN k (l ++ [x]) := by
  rw [← push_lastN hk]
  exact List.mem_append_right _ (List.mem_singleton_self x)

/-- What has left the window does not come back into it. -/
theorem lastN_lastN_append : lastN k (lastN k l ++ l') = lastN k (l ++ l') := by
  rcases Nat.le_total l.length k with hle | hlt
  · rw [lastN_of_length_le hle]
  · have hlen : (l.drop (l.length - k)).length = k := by
      rw [List.length_drop]
      omega
    simp only [lastN, List.length_append, hlen]
    rw [← List.drop_append_of_le_length (Nat.sub_le _ _), List.drop_drop]
    congr 1
    omega

/-- **A window slid along a list ends at its end.** -/
theorem foldl_push (hk : 0 < k) : l'.foldl (push k) (lastN k l) = lastN k (l ++ l') := by
  induction l' generalizing l with
  | nil => simp
  | cons x l' ih =>
    rw [List.foldl_cons, push_lastN hk, ih]
    simp

/-- What is not among the new elements has left the window once they fill it. -/
theorem not_mem_lastN_append (h : k ≤ l'.length) (hx : x ∉ l') : x ∉ lastN k (l ++ l') := by
  intro hmem
  rw [lastN, List.drop_append, List.drop_eq_nil_of_le (by rw [List.length_append]; omega),
    List.nil_append] at hmem
  exact hx (List.mem_of_mem_drop hmem)

end Window
