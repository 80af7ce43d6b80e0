import Mathlib.Data.List.Infix
import Mathlib.Data.Prod.Basic
import Mathlib.Data.Sigma.Basic

/-!
# Codecs

How values are written as sequences of symbols and read back from the front of an input.
Reading returns the input that is left, so that codecs can be put one after the other.

`canon` is what survives of a value that is written and read: `id` where nothing is lost.
`limit` bounds the length of what is written; a format that writes lengths as numbers of a
fixed width cannot keep its promise for longer values.

Reading is the inverse of writing in both directions, so what is accepted is well formed
(`decode_eq_some_iff`), and no input that is cut short is (`decode_eq_none_of_cut`).
-/

/-- A way to write and to read the values of a type. -/
structure Codec (β : Type*) (limit : ℕ) {α : Type*} (canon : α → α) where
  encode : α → List β
  decode : List β → Option (α × List β)
  decode_encode : ∀ a rest, (encode a).length < limit →
    decode (encode a ++ rest) = some (canon a, rest)
  eq_encode_of_decode : ∀ input a rest, decode input = some (a, rest) →
    input = encode a ++ rest

namespace Codec

variable {β : Type*} {limit : ℕ} {α γ : Type*} {f : α → α} {g : γ → γ}

/-! ## What is accepted -/

section Accepted
variable (c : Codec β limit f) {a b : α} {input rest : List β}

/-- What is read has lost nothing. -/
theorem canon_of_decode (h : c.decode input = some (a, rest)) (hlen : input.length < limit) :
    f a = a := by
  have hinput := c.eq_encode_of_decode input a rest h
  have hshort : (c.encode a).length < limit := by
    rw [hinput, List.length_append] at hlen
    omega
  have hagain := c.decode_encode a rest hshort
  rw [← hinput, h, Option.some.injEq, Prod.mk.injEq] at hagain
  exact hagain.1.symm

/-- What does not survive is not written. -/
theorem encode_canon (h : (c.encode a).length < limit) : c.encode (f a) = c.encode a := by
  have hread := c.decode_encode a [] h
  have hwritten := c.eq_encode_of_decode _ _ _ hread
  rw [List.append_nil, List.append_nil] at hwritten
  exact hwritten.symm

/-- **What is accepted is what is written**: reading succeeds exactly on the inputs that
begin with the encoding of a value that loses nothing. -/
theorem decode_eq_some_iff (hlen : input.length < limit) :
    c.decode input = some (a, rest) ↔ f a = a ∧ input = c.encode a ++ rest := by
  constructor
  · intro h
    exact ⟨c.canon_of_decode h hlen, c.eq_encode_of_decode input a rest h⟩
  · rintro ⟨hcanon, rfl⟩
    rw [List.length_append] at hlen
    rw [c.decode_encode a rest (by omega), hcanon]

/-- **An encoding that is cut short is not accepted.** -/
theorem decode_eq_none_of_cut (hlen : (c.encode a).length < limit)
    (hpre : input <+: c.encode a) (hcut : input ≠ c.encode a) : c.decode input = none := by
  cases h : c.decode input with
  | none => rfl
  | some out =>
    obtain ⟨b, rest⟩ := out
    exfalso
    obtain ⟨missing, hmissing⟩ := hpre
    have hinput := c.eq_encode_of_decode input b rest h
    have hwhole : c.encode a = c.encode b ++ (rest ++ missing) := by
      rw [← hmissing, hinput, List.append_assoc]
    have hshort : (c.encode b).length < limit := by
      rw [hwhole, List.length_append] at hlen
      omega
    -- The whole encoding would be read twice, with different rests.
    have hfirst := c.decode_encode b (rest ++ missing) hshort
    have hsecond := c.decode_encode a [] hlen
    rw [List.append_nil, hwhole, hfirst, Option.some.injEq, Prod.mk.injEq] at hsecond
    have hnone : missing = [] := (List.append_eq_nil_iff.mp hsecond.2).2
    rw [hnone, List.append_nil] at hmissing
    exact hcut hmissing

end Accepted

/-! ## Building codecs -/

/-- One value after the other. -/
def pair (c : Codec β limit f) (d : Codec β limit g) : Codec β limit (Prod.map f g) where
  encode x := c.encode x.1 ++ d.encode x.2
  decode input :=
    (c.decode input).bind (fun x => (d.decode x.2).map (fun y => ((x.1, y.1), y.2)))
  decode_encode x rest hlen := by
    rw [List.length_append] at hlen
    rw [List.append_assoc, c.decode_encode x.1 _ (by omega), Option.bind_some,
      d.decode_encode x.2 rest (by omega)]
    rfl
  eq_encode_of_decode input x rest h := by
    obtain ⟨⟨a, middle⟩, hc, hd⟩ := Option.bind_eq_some_iff.mp h
    obtain ⟨⟨b, last⟩, hd, hx⟩ := Option.map_eq_some_iff.mp hd
    rw [← (Prod.mk.inj hx).1, ← (Prod.mk.inj hx).2, List.append_assoc,
      ← d.eq_encode_of_decode middle b last hd]
    exact c.eq_encode_of_decode input a middle hc

/-- The values of `γ` written as values of `α`, some of which are no value of `γ`. -/
def embed (c : Codec β limit f) (into : γ → α) (back : α → Option γ)
    (hinto : ∀ x, back (f (into x)) = some (g x)) (hback : ∀ a x, back a = some x → into x = a) :
    Codec β limit g where
  encode x := c.encode (into x)
  decode input := (c.decode input).bind (fun y => (back y.1).map (fun x => (x, y.2)))
  decode_encode x rest hlen := by
    rw [c.decode_encode (into x) rest hlen, Option.bind_some, hinto]
    rfl
  eq_encode_of_decode input x rest h := by
    obtain ⟨⟨a, last⟩, hc, hb⟩ := Option.bind_eq_some_iff.mp h
    obtain ⟨x', hx', hx⟩ := Option.map_eq_some_iff.mp hb
    rw [← (Prod.mk.inj hx).1, ← (Prod.mk.inj hx).2, hback a x' hx']
    exact c.eq_encode_of_decode input a last hc

/-- A tag that tells which codec the value after it is written with. -/
def tagged {τ ι : Type*} {α : ι → Type*} {f : ∀ i, α i → α i}
    (tag : Codec β limit (id : τ → τ)) (toTag : ι → τ) (ofTag : τ → Option ι)
    (htag : ∀ t i, ofTag t = some i ↔ toTag i = t) (c : ∀ i, Codec β limit (f i)) :
    Codec β limit (Sigma.map id f) where
  encode x := tag.encode (toTag x.1) ++ (c x.1).encode x.2
  decode input :=
    (tag.decode input).bind (fun t => (ofTag t.1).bind (fun i =>
      ((c i).decode t.2).map (fun x => (⟨i, x.1⟩, x.2))))
  decode_encode x rest hlen := by
    rw [List.length_append] at hlen
    rw [List.append_assoc, tag.decode_encode _ _ (by omega), Option.bind_some, id,
      (htag _ x.1).mpr rfl, Option.bind_some, (c x.1).decode_encode x.2 rest (by omega)]
    rfl
  eq_encode_of_decode input x rest h := by
    obtain ⟨⟨t, middle⟩, ht, h⟩ := Option.bind_eq_some_iff.mp h
    obtain ⟨i, hi, h⟩ := Option.bind_eq_some_iff.mp h
    obtain ⟨⟨a, last⟩, ha, hx⟩ := Option.map_eq_some_iff.mp h
    rw [← (Prod.mk.inj hx).1, ← (Prod.mk.inj hx).2, List.append_assoc, (htag t i).mp hi,
      ← (c i).eq_encode_of_decode middle a last ha]
    exact tag.eq_encode_of_decode input t middle ht

/-- The next `n` symbols of the input. -/
def takeExactly (n : ℕ) (input : List β) : Option (List β × List β) :=
  if n ≤ input.length then some (input.take n, input.drop n) else none

theorem takeExactly_append {block rest : List β} :
    takeExactly block.length (block ++ rest) = some (block, rest) := by
  simp [takeExactly]

theorem eq_append_of_takeExactly {n : ℕ} {input block rest : List β}
    (h : takeExactly n input = some (block, rest)) :
    input = block ++ rest ∧ block.length = n := by
  unfold takeExactly at h
  split at h
  · rename_i hle
    obtain ⟨rfl, rfl⟩ := Prod.mk.inj (Option.some.inj h)
    exact ⟨(List.take_append_drop n input).symm, List.length_take_of_le hle⟩
  · cases h

/-- Values that are always written with `n` symbols. -/
def fixed (n : ℕ) (into : α → List β) (back : List β → α) (hlen : ∀ a, (into a).length = n)
    (hinto : ∀ a, back (into a) = a)
    (hback : ∀ block, block.length = n → into (back block) = block) :
    Codec β limit (id : α → α) where
  encode := into
  decode input := (takeExactly n input).map (fun x => (back x.1, x.2))
  decode_encode a rest _ := by
    have htake : takeExactly (into a).length (into a ++ rest) = some (into a, rest) :=
      takeExactly_append
    rw [hlen a] at htake
    rw [htake, Option.map_some, hinto]
    rfl
  eq_encode_of_decode input a rest h := by
    obtain ⟨⟨block, last⟩, htake, hx⟩ := Option.map_eq_some_iff.mp h
    obtain ⟨hinput, hblock⟩ := eq_append_of_takeExactly htake
    rw [← (Prod.mk.inj hx).1, ← (Prod.mk.inj hx).2, hback block hblock, hinput]

/-- A sequence of symbols, after its length. -/
def counted {τ : Type*} (len : Codec β limit (id : τ → τ)) (ofLen : ℕ → τ) (toLen : τ → ℕ)
    (hof : ∀ n, n < limit → toLen (ofLen n) = n) (hto : ∀ t, ofLen (toLen t) = t) :
    Codec β limit (id : List β → List β) where
  encode block := len.encode (ofLen block.length) ++ block
  decode input := (len.decode input).bind (fun t => takeExactly (toLen t.1) t.2)
  decode_encode block rest hlen := by
    rw [List.length_append] at hlen
    rw [List.append_assoc, len.decode_encode _ _ (by omega), Option.bind_some, id,
      hof _ (by omega), takeExactly_append]
    rfl
  eq_encode_of_decode input block rest h := by
    obtain ⟨⟨t, middle⟩, ht, htake⟩ := Option.bind_eq_some_iff.mp h
    obtain ⟨hmiddle, hblock⟩ := eq_append_of_takeExactly htake
    rw [hblock, hto, List.append_assoc, ← hmiddle]
    exact len.eq_encode_of_decode input t middle ht

end Codec
