import Mathlib.Data.List.Basic

/-!
# Escaping by replacement

A text is escaped by a chain of replacements, each of one character by a text, and read
back from left to right.  If no replacement puts in a character that a later one
replaces, the chain replaces all characters at once (`chain_eq_flatMap`).  If moreover
all texts put in begin with a mark that is itself replaced, and none is the beginning of
another, then reading back undoes it (`decode_chain`).
-/

namespace Escape

variable {α : Type*} [DecidableEq α]

/-- Every `c` in a text is replaced by `r`. -/
def replaceAll (c : α) (r s : List α) : List α := s.flatMap (fun x => if x = c then r else [x])

/-- One replacement after the other. -/
def chain (rules : List (α × List α)) (s : List α) : List α :=
  rules.foldl (fun s r => replaceAll r.1 r.2 s) s

/-- What one character is escaped to. -/
def encode (rules : List (α × List α)) (x : α) : List α :=
  match rules.find? (fun r => r.1 = x) with
  | some r => r.2
  | none => [x]

/-- Reads a text back, after `n` more characters. -/
def decodeFrom (rules : List (α × List α)) : ℕ → List α → List α
  | _, [] => []
  | n + 1, _ :: s => decodeFrom rules n s
  | 0, x :: s =>
    match rules.find? (fun r => r.2.isPrefixOf (x :: s)) with
    | some r => r.1 :: decodeFrom rules (r.2.length - 1) s
    | none => x :: decodeFrom rules 0 s

/-- Reads an escaped text back. -/
def decode (rules : List (α × List α)) (s : List α) : List α := decodeFrom rules 0 s

/-- No replacement puts in what a later one replaces. -/
def Ordered (rules : List (α × List α)) : Prop := rules.Pairwise (fun r r' => r'.1 ∉ r.2)

instance (rules : List (α × List α)) : Decidable (Ordered rules) :=
  inferInstanceAs (Decidable (List.Pairwise _ _))

/-- The texts that are put in can be told apart, and from characters left as they are. -/
structure Readable (rules : List (α × List α)) (mark : α) : Prop where
  begins : ∀ r ∈ rules, r.2.head? = some mark
  escaped : mark ∈ rules.map Prod.fst
  distinct : ∀ r ∈ rules, ∀ r' ∈ rules, r.2 <+: r'.2 → r = r'

variable {rules : List (α × List α)} {mark c x : α} {s : List α}

/-! ## The chain -/

theorem encode_of_not_mem (h : x ∉ rules.map Prod.fst) : encode rules x = [x] := by
  have hnone : rules.find? (fun r => r.1 = x) = none := by
    rw [List.find?_eq_none]
    intro r hr
    simp only [decide_eq_true_eq]
    rintro rfl
    exact h (List.mem_map_of_mem hr)
  rw [encode, hnone]

/-- A character is escaped by a rule, or left as it is. -/
theorem encode_cases (rules : List (α × List α)) (x : α) :
    (∃ r ∈ rules, r.1 = x ∧ encode rules x = r.2) ∨
      (x ∉ rules.map Prod.fst ∧ encode rules x = [x]) := by
  cases hf : rules.find? (fun r => r.1 = x) with
  | some r =>
    have hx : r.1 = x := by simpa using List.find?_some hf
    exact Or.inl ⟨r, List.mem_of_find?_eq_some hf, hx, by rw [encode, hf]⟩
  | none =>
    have hnot : x ∉ rules.map Prod.fst := by
      intro hmem
      obtain ⟨r, hr, rfl⟩ := List.mem_map.mp hmem
      simpa using List.find?_eq_none.mp hf r hr
    exact Or.inr ⟨hnot, encode_of_not_mem hnot⟩

theorem flatMap_encode_of_disjoint (h : ∀ x ∈ s, x ∉ rules.map Prod.fst) :
    s.flatMap (encode rules) = s := by
  induction s with
  | nil => rfl
  | cons x s ih =>
    rw [List.flatMap_cons, encode_of_not_mem (h x List.mem_cons_self),
      ih (fun y hy => h y (List.mem_cons_of_mem x hy)), List.singleton_append]

/-- **Replacements in the right order replace all at once.** -/
theorem chain_eq_flatMap (h : Ordered rules) (s : List α) :
    chain rules s = s.flatMap (encode rules) := by
  induction rules generalizing s with
  | nil => exact (flatMap_encode_of_disjoint (fun _ _ => List.not_mem_nil)).symm
  | cons r rules ih =>
    obtain ⟨hfirst, hrest⟩ := List.pairwise_cons.mp h
    show chain rules (replaceAll r.1 r.2 s) = _
    rw [ih hrest, replaceAll, List.flatMap_assoc]
    congr 1
    funext x
    by_cases hx : x = r.1
    · -- The text put in is left alone by the rest.
      have hkeep : r.2.flatMap (encode rules) = r.2 := by
        apply flatMap_encode_of_disjoint
        intro y hy hmem
        obtain ⟨r', hr', rfl⟩ := List.mem_map.mp hmem
        exact hfirst r' hr' hy
      rw [if_pos hx, hkeep, hx]
      simp [encode]
    · have hskip : encode (r :: rules) x = encode rules x := by
        simp [encode, Ne.symm hx]
      rw [if_neg hx, List.flatMap_singleton, hskip]

/-- A character that every rule avoids and one rule replaces is gone. -/
theorem not_mem_chain (h : Ordered rules) (hc : c ∈ rules.map Prod.fst)
    (havoid : ∀ r ∈ rules, c ∉ r.2) (s : List α) : c ∉ chain rules s := by
  rw [chain_eq_flatMap h]
  intro hmem
  obtain ⟨x, -, hx⟩ := List.mem_flatMap.mp hmem
  rcases encode_cases rules x with ⟨r, hr, -, heq⟩ | ⟨hnot, heq⟩
  · rw [heq] at hx
    exact havoid r hr hx
  · rw [heq, List.mem_singleton] at hx
    exact hnot (hx ▸ hc)

/-! ## Reading back -/

theorem decodeFrom_append (rules : List (α × List α)) (l s : List α) :
    decodeFrom rules l.length (l ++ s) = decodeFrom rules 0 s := by
  induction l with
  | nil => rfl
  | cons y l ih => exact ih

/-- The text of a rule is read back as what it stands for. -/
theorem decodeFrom_rule (h : Readable rules mark) {r : α × List α} (hr : r ∈ rules)
    (s : List α) : decodeFrom rules 0 (r.2 ++ s) = r.1 :: decodeFrom rules 0 s := by
  cases ht : r.2 with
  | nil =>
    have hbegins := h.begins r hr
    rw [ht] at hbegins
    cases hbegins
  | cons y t =>
    have hfind : rules.find? (fun r => r.2.isPrefixOf (y :: (t ++ s))) = some r := by
      have hself : r.2 <+: y :: (t ++ s) := by
        rw [ht]
        exact List.prefix_append (y :: t) s
      cases hf : rules.find? (fun r => r.2.isPrefixOf (y :: (t ++ s))) with
      | none =>
        have hnone := List.find?_eq_none.mp hf r hr
        exact absurd (List.isPrefixOf_iff_prefix.mpr hself) hnone
      | some r' =>
        have hr' : r' ∈ rules := List.mem_of_find?_eq_some hf
        have hpre : r'.2 <+: y :: (t ++ s) := List.isPrefixOf_iff_prefix.mp (by
          simpa using List.find?_some hf)
        -- Two beginnings of one text: one is the beginning of the other.
        rcases List.prefix_or_prefix_of_prefix hpre hself with hle | hle
        · rw [h.distinct r' hr' r hr hle]
        · rw [h.distinct r hr r' hr' hle]
    rw [List.cons_append, decodeFrom, hfind]
    simp only [ht, List.length_cons, Nat.add_sub_cancel]
    rw [decodeFrom_append]

/-- A character that is left as it is is read back as itself. -/
theorem decodeFrom_other (h : Readable rules mark) (hx : x ∉ rules.map Prod.fst) (s : List α) :
    decodeFrom rules 0 (x :: s) = x :: decodeFrom rules 0 s := by
  have hnone : rules.find? (fun r => r.2.isPrefixOf (x :: s)) = none := by
    rw [List.find?_eq_none]
    intro r hr hpre
    have hbegins := h.begins r hr
    have hprefix : r.2 <+: x :: s := List.isPrefixOf_iff_prefix.mp (by simpa using hpre)
    cases ht : r.2 with
    | nil =>
      rw [ht] at hbegins
      cases hbegins
    | cons y t =>
      rw [ht] at hbegins hprefix
      obtain rfl : y = mark := Option.some.inj hbegins
      exact hx ((List.cons_prefix_cons.mp hprefix).1 ▸ h.escaped)
  rw [decodeFrom, hnone]

/-- **Reading back undoes the escaping.** -/
theorem decode_chain (hord : Ordered rules) (h : Readable rules mark) (s : List α) :
    decode rules (chain rules s) = s := by
  rw [chain_eq_flatMap hord, decode]
  induction s with
  | nil => rfl
  | cons x s ih =>
    rw [List.flatMap_cons]
    rcases encode_cases rules x with ⟨r, hr, rfl, heq⟩ | ⟨hnot, heq⟩
    · rw [heq, decodeFrom_rule h hr, ih]
    · rw [heq, List.singleton_append, decodeFrom_other h hnot, ih]

end Escape
