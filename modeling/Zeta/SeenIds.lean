import Zeta.Message
import Zeta.Window
import Mathlib.Data.Finset.Basic

/-!
# The deduplication cache

`SeenIds`, which `client.rs` and `relay.rs` define in the same words: a set of the
ids seen so far, and the queue of the same ids in order of arrival, from whose
front the oldest id is evicted once the queue is full.

The two containers always hold the same ids, each once.  That is part of the
type: no operation below can produce a cache whose set and queue disagree.
-/

namespace Zeta

/-- `SeenIds`. -/
structure SeenIds where
  set : Finset UInt64
  queue : List UInt64
  max : Nat
  nodup : queue.Nodup
  mem_set_iff : ∀ id, id ∈ set ↔ id ∈ queue

namespace SeenIds

/-- `SeenIds::new`. -/
def new (max : Nat) : SeenIds where
  set := ∅
  queue := []
  max := max
  nodup := List.nodup_nil
  mem_set_iff := by simp

/-- `if let Some(old) = self.queue.pop_front() { self.set.remove(&old); }` -/
def popFront (s : SeenIds) : SeenIds where
  set := match s.queue with
    | [] => s.set
    | old :: _ => s.set.erase old
  queue := s.queue.tail
  max := s.max
  nodup := s.nodup.tail
  mem_set_iff := by
    intro id
    have hmem := s.mem_set_iff id
    have hnodup := s.nodup
    cases hq : s.queue with
    | nil => simpa [hq] using hmem
    | cons old rest =>
      rw [hq] at hmem hnodup
      simp only [Finset.mem_erase, List.tail_cons, hmem, List.mem_cons]
      constructor
      · rintro ⟨hne, h⟩
        exact h.resolve_left hne
      · intro h
        exact ⟨fun he => (List.nodup_cons.mp hnodup).1 (he ▸ h), Or.inr h⟩

/-- `self.set.insert(id); self.queue.push_back(id);`, for an id the cache does
not hold. -/
def pushBack (s : SeenIds) (id : UInt64) (h : id ∉ s.set) : SeenIds where
  set := insert id s.set
  queue := s.queue ++ [id]
  max := s.max
  nodup := by
    refine List.nodup_append.mpr ⟨s.nodup, List.nodup_singleton id, ?_⟩
    intro a ha b hb he
    rw [List.mem_singleton] at hb
    exact h ((s.mem_set_iff id).mpr (hb ▸ he ▸ ha))
  mem_set_iff := by
    intro x
    simp only [Finset.mem_insert, List.mem_append, List.mem_singleton, s.mem_set_iff]
    exact Or.comm

/-- The cache with room for one more id: its front is dropped when the queue is
full. -/
def makeRoom (s : SeenIds) : SeenIds :=
  if s.queue.length ≥ s.max then s.popFront else s

theorem popFront_set (s : SeenIds) : s.popFront.set =
    match s.queue with
    | [] => s.set
    | old :: _ => s.set.erase old := rfl

theorem popFront_set_subset (s : SeenIds) : s.popFront.set ⊆ s.set := by
  rw [popFront_set]
  cases s.queue with
  | nil => exact Finset.Subset.refl _
  | cons old rest => exact Finset.erase_subset _ _

theorem makeRoom_set_subset (s : SeenIds) : s.makeRoom.set ⊆ s.set := by
  unfold makeRoom
  split
  · exact s.popFront_set_subset
  · exact Finset.Subset.refl _

/-- `SeenIds::is_new`: whether the id was unknown, and the cache afterwards. -/
def isNew (s : SeenIds) (id : UInt64) : Bool × SeenIds :=
  if h : id ∈ s.set then (false, s)
  else (true, s.makeRoom.pushBack id (fun hm => h (s.makeRoom_set_subset hm)))

/-- The id that `isNew id` drops to make room, if it drops one. -/
def evicted (s : SeenIds) (id : UInt64) : Option UInt64 :=
  if id ∉ s.set ∧ s.queue.length ≥ s.max then s.queue.head? else none

/-! ## What one call does -/

theorem isNew_of_mem {s : SeenIds} {id : UInt64} (h : id ∈ s.set) :
    s.isNew id = (false, s) := by
  simp [isNew, h]

@[simp] theorem isNew_fst (s : SeenIds) (id : UInt64) :
    (s.isNew id).1 = decide (id ∉ s.set) := by
  unfold isNew
  split <;> simp_all

@[simp] theorem isNew_max (s : SeenIds) (id : UInt64) : (s.isNew id).2.max = s.max := by
  unfold isNew makeRoom
  split
  · rfl
  · simp only [pushBack]
    split <;> rfl

/-- Whatever the answer, the id is in the cache afterwards. -/
@[simp] theorem mem_isNew_self (s : SeenIds) (id : UInt64) : id ∈ (s.isNew id).2.set := by
  unfold isNew
  split
  · assumption
  · exact Finset.mem_insert_self _ _

theorem popFront_mem {s : SeenIds} {x : UInt64} (h : x ∈ s.set) :
    x ∈ s.popFront.set ∨ s.queue.head? = some x := by
  rw [popFront_set]
  cases hq : s.queue with
  | nil => exact Or.inl h
  | cons old rest =>
    by_cases hx : x = old
    · exact Or.inr (by rw [hx]; rfl)
    · exact Or.inl (Finset.mem_erase.mpr ⟨hx, h⟩)

/-- An id leaves the cache only by being the one evicted. -/
theorem mem_isNew_or_evicted {s : SeenIds} {x : UInt64} (id : UInt64) (h : x ∈ s.set) :
    x ∈ (s.isNew id).2.set ∨ s.evicted id = some x := by
  by_cases hid : id ∈ s.set
  · rw [isNew_of_mem hid]; exact Or.inl h
  · simp only [isNew, hid, dite_false, evicted, not_false_eq_true, true_and]
    by_cases hfull : s.queue.length ≥ s.max
    · rw [if_pos hfull]
      rcases popFront_mem h with hx | hx
      · refine Or.inl (Finset.mem_insert_of_mem ?_)
        simpa [makeRoom, hfull] using hx
      · exact Or.inr hx
    · refine Or.inl (Finset.mem_insert_of_mem ?_)
      simpa [makeRoom, hfull] using h

/-- Only the id asked about enters the cache. -/
theorem mem_of_mem_isNew {s : SeenIds} {id x : UInt64} (h : x ∈ (s.isNew id).2.set)
    (hx : x ≠ id) : x ∈ s.set := by
  unfold isNew at h
  split at h
  · exact h
  · rcases Finset.mem_insert.mp h with he | hm
    · exact absurd he hx
    · exact s.makeRoom_set_subset hm

/-! ## The cache as a window -/

/-- A new id is pushed onto the queue; a cache of capacity 0 holds one id. -/
theorem isNew_queue {s : SeenIds} {id : UInt64} (h : id ∉ s.set) :
    (s.isNew id).2.queue = Window.push (Nat.max 1 s.max) s.queue id := by
  simp only [isNew, h, dite_false, pushBack, Window.push, makeRoom]
  refine congrArg (· ++ [id]) ?_
  cases hq : s.queue with
  | nil => split <;> split <;> simp [popFront, hq]
  | cons old rest =>
    -- A queue that holds an id is full at capacity 0 exactly when it is at capacity 1.
    have hiff : (old :: rest).length ≥ Nat.max 1 s.max ↔ (old :: rest).length ≥ s.max := by
      rw [List.length_cons]
      exact ⟨fun hle => Nat.le_trans (Nat.le_max_right _ _) hle,
        fun hle => Nat.max_le.mpr ⟨by omega, hle⟩⟩
    simp only [hiff]
    split <;> simp [popFront, hq]

/-- The cache after a sequence of calls. -/
def after (s : SeenIds) (ids : List UInt64) : SeenIds :=
  ids.foldl (fun s id => (s.isNew id).2) s

@[simp] theorem after_cons (s : SeenIds) (id : UInt64) (ids : List UInt64) :
    s.after (id :: ids) = (s.isNew id).2.after ids := rfl

/-- Ids that are all new are pushed one after the other. -/
theorem after_queue {s : SeenIds} {ids : List UInt64} (h : (s.queue ++ ids).Nodup) :
    (s.after ids).queue = ids.foldl (Window.push (Nat.max 1 s.max)) s.queue := by
  induction ids generalizing s with
  | nil => rfl
  | cons id ids ih =>
    have hid : id ∉ s.set := by
      intro hmem
      exact (List.nodup_append.mp h).2.2 id ((s.mem_set_iff id).mp hmem) id List.mem_cons_self rfl
    have hnext : ((s.isNew id).2.queue ++ ids).Nodup := by
      rw [isNew_queue hid]
      refine List.Nodup.sublist (Window.push_sublist.append_right ids) ?_
      rwa [List.append_assoc]
    rw [after_cons, ih hnext, isNew_max, isNew_queue hid, List.foldl_cons]

/-- **Eviction.**  A cached id is forgotten once as many new ids have arrived as the
cache has places. -/
theorem not_mem_after {s : SeenIds} {x : UInt64} {ids : List UInt64} (hq : s.queue = [x])
    (hnodup : (x :: ids).Nodup) (hlen : Nat.max 1 s.max ≤ ids.length) :
    x ∉ (s.after ids).set := by
  have hpos : 0 < Nat.max 1 s.max := Nat.lt_of_lt_of_le Nat.one_pos (Nat.le_max_left _ _)
  have hwin : (s.after ids).queue = Window.lastN (Nat.max 1 s.max) ([x] ++ ids) := by
    rw [after_queue (by rw [hq]; exact hnodup), hq, ← Window.foldl_push hpos,
      Window.lastN_of_length_le (l := [x]) hpos]
  rw [mem_set_iff, hwin]
  exact Window.not_mem_lastN_append hlen (List.nodup_cons.mp hnodup).1

/-- The ids of a sequence of calls that are answered `true`, in order. -/
def accepted (s : SeenIds) : List UInt64 → List UInt64
  | [] => []
  | id :: ids => (if (s.isNew id).1 then [id] else []) ++ (s.isNew id).2.accepted ids

@[simp] theorem after_max (s : SeenIds) (ids : List UInt64) : (s.after ids).max = s.max := by
  induction ids generalizing s with
  | nil => rfl
  | cons id ids ih => rw [after_cons, ih, isNew_max]

/-- One call on a cache that is a window onto the accepted ids. -/
theorem isNew_lastN {s : SeenIds} {acc : List UInt64} (id : UInt64)
    (hq : s.queue = Window.lastN (Nat.max 1 s.max) acc) :
    (s.isNew id).2.queue
      = Window.lastN (Nat.max 1 s.max) (acc ++ if (s.isNew id).1 then [id] else []) := by
  have hpos : 0 < Nat.max 1 s.max := Nat.lt_of_lt_of_le Nat.one_pos (Nat.le_max_left _ _)
  by_cases hid : id ∈ s.set
  · rw [isNew_of_mem hid]
    simpa using hq
  · rw [isNew_queue hid, hq, Window.push_lastN hpos]
    simp [hid]

/-- A cache that is a window onto the accepted ids stays one. -/
theorem after_lastN {s : SeenIds} {acc : List UInt64} (ids : List UInt64)
    (hq : s.queue = Window.lastN (Nat.max 1 s.max) acc) :
    (s.after ids).queue = Window.lastN (Nat.max 1 s.max) (acc ++ s.accepted ids) := by
  induction ids generalizing s acc with
  | nil => simpa [after, accepted] using hq
  | cons id ids ih =>
    have hone := isNew_lastN id hq
    rw [← isNew_max s id] at hone
    rw [after_cons, ih hone, isNew_max, accepted, List.append_assoc]

/-- **The cache is a sliding window.**  After any calls the queue is the last
`max 1 max` accepted ids, in order and each once, the set holds the same ids, and
exactly these are answered `false`. -/
theorem isNew_window (max : Nat) (ids : List UInt64) :
    ((new max).after ids).queue = Window.lastN (Nat.max 1 max) ((new max).accepted ids)
    ∧ ((new max).after ids).queue.Nodup
    ∧ (∀ id, id ∈ ((new max).after ids).set ↔ id ∈ ((new max).after ids).queue)
    ∧ ∀ id, (((new max).after ids).isNew id).1 = false
        ↔ id ∈ Window.lastN (Nat.max 1 max) ((new max).accepted ids) := by
  have hq : ((new max).after ids).queue
      = Window.lastN (Nat.max 1 max) ((new max).accepted ids) := by
    have hstart : (new max).queue = Window.lastN (Nat.max 1 (new max).max) [] :=
      List.drop_nil.symm
    have h := after_lastN ids hstart
    rwa [List.nil_append] at h
  refine ⟨hq, SeenIds.nodup _, SeenIds.mem_set_iff _, ?_⟩
  intro id
  rw [isNew_fst, ← hq, ← SeenIds.mem_set_iff]
  simp

/-- A cache of capacity 0 remembers the id accepted last, and an id is accepted
again once it has been evicted. -/
example : (new 0).accepted [7, 7, 8, 7, 7] = [7, 8, 7] := by decide

end SeenIds
end Zeta
