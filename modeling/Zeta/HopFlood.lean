import Zeta.EventSystem
import Mathlib.Algebra.Order.BigOperators.Group.List
import Mathlib.Algebra.Order.Group.Nat
import Mathlib.Algebra.Ring.Nat
import Mathlib.Algebra.BigOperators.Group.Multiset.Basic
import Mathlib.Data.Finset.Max
import Mathlib.Logic.Function.Basic

/-!
# Flooding a graph with a hop limit

One message is flooded along a directed graph.  Each copy carries a number of hops.  A node
keeps the first copy it is delivered and drops the others; if hops are left it sends the
message on, with one hop less, to all its successors but the node the copy came from.
Copies are delivered in any order.

A node keeps the hops of the copy that came first, not of the one that came the shortest
way, so how far the message gets depends on the order.

* In any order, what a node hears first has come along a path without repetition
  (`Trail`), and some order makes it come along any such path.  The message is forwarded by
  all nodes that are near enough, in every order, if and only if no path without
  repetition uses up all hops on its way to one of them (`passed_iff_not_starved`).
* In breadth-first order exactly the nodes within the hop limit hear it
  (`heard_iff_within`).
-/

universe u

/-! ## Paths -/

section Paths
variable {N : Type u} {R : N → N → Prop} {a v w : N} {m n : ℕ} {l : List N}

/-- `v` is at most `n` steps from `a`. -/
inductive Within (R : N → N → Prop) (a : N) : ℕ → N → Prop where
  | refl {n : ℕ} : Within R a n a
  | step {n : ℕ} {v w : N} (h : Within R a n v) (hw : R v w) : Within R a (n + 1) w

/-- A path from `a` that visits no node twice, the latest node first. -/
inductive Trail (R : N → N → Prop) (a : N) : List N → Prop where
  | start : Trail R a [a]
  | step {v w : N} {l : List N} (h : Trail R a (v :: l)) (hw : R v w) (hnew : w ∉ v :: l) :
      Trail R a (w :: v :: l)

theorem Within.mono (h : Within R a m v) (hmn : m ≤ n) : Within R a n v := by
  induction h generalizing n with
  | refl => exact .refl
  | step _ hw ih =>
    obtain ⟨n, rfl⟩ : ∃ k, n = k + 1 := ⟨n - 1, by omega⟩
    exact .step (ih (by omega)) hw

theorem Trail.within (h : Trail R a (v :: l)) : Within R a l.length v := by
  generalize hl : v :: l = nodes at h
  induction h generalizing v l with
  | start =>
    obtain ⟨rfl, rfl⟩ := List.cons.inj hl
    exact .refl
  | step _ hw _ ih =>
    obtain ⟨rfl, rfl⟩ := List.cons.inj hl
    exact .step (ih rfl) hw

theorem Trail.nodup {nodes : List N} (h : Trail R a nodes) : nodes.Nodup := by
  induction h with
  | start => exact List.nodup_singleton a
  | step _ _ hnew ih => exact List.nodup_cons.mpr ⟨hnew, ih⟩

/-- Every node of a path but the last has a successor. -/
theorem Trail.exists_edge (h : Trail R a (v :: l)) (hw : w ∈ l) : ∃ x, R w x := by
  generalize hnodes : v :: l = nodes at h
  induction h generalizing v l with
  | start =>
    obtain ⟨rfl, rfl⟩ := List.cons.inj hnodes
    cases hw
  | @step u x l' _ hedge _ ih =>
    obtain ⟨rfl, rfl⟩ := List.cons.inj hnodes
    rcases List.mem_cons.mp hw with rfl | hw
    · exact ⟨v, hedge⟩
    · exact ih hw rfl

end Paths

/-! ## The flood -/

/-- A graph, and a message that its origin sends to some of the nodes. -/
structure FloodGraph (N : Type u) where
  /-- The nodes that send the message on. -/
  Forwards : N → Prop
  out : N → List N
  out_eq_nil : ∀ v, ¬ Forwards v → out v = []
  origin : N
  origin_silent : ¬ Forwards origin
  entries : List N
  hops : ℕ

/-- A copy of the message on its way. -/
structure FloodCopy (N : Type u) where
  src : N
  dst : N
  hops : ℕ
  deriving DecidableEq

/-- Who has heard the message, with how many hops left, and what is on its way. -/
structure FloodState (N : Type u) where
  heard : N → Option ℕ
  inFlight : Multiset (FloodCopy N)

namespace FloodGraph

variable {N : Type u} [DecidableEq N] (G : FloodGraph N)

/-- What a node sends that has taken the copy `c`. -/
def forwarded (c : FloodCopy N) : List (FloodCopy N) :=
  match c.hops with
  | 0 => []
  | h + 1 => ((G.out c.dst).filter (· ≠ c.src)).map (fun v => ⟨c.dst, v, h⟩)

/-- The copy `c` is delivered. -/
def deliver (s : FloodState N) (c : FloodCopy N) : FloodState N :=
  match s.heard c.dst with
  | some _ => { s with inFlight := s.inFlight.erase c }
  | none =>
    { heard := Function.update s.heard c.dst (some c.hops)
      inFlight := s.inFlight.erase c + G.forwarded c }

/-- The origin has sent the message to the entries, with all hops. -/
def start : FloodState N where
  heard _ := none
  inFlight := ↑(G.entries.map (fun a => (⟨G.origin, a, G.hops⟩ : FloodCopy N)))

/-- Deliveries in any order. -/
def system : EventSystem (FloodState N) (FloodCopy N) where
  Enabled s c := c ∈ s.inFlight
  next := G.deliver

/-- The edges of the graph. -/
def Edge (v w : N) : Prop := w ∈ G.out v

variable {G} {s : FloodState N} {c c' : FloodCopy N} {v w : N} {h k n : ℕ}

@[simp] theorem system_next : G.system.next s c = G.deliver s c := rfl

omit [DecidableEq N] in
theorem Edge.forwards (h : G.Edge v w) : G.Forwards v := by
  by_contra hno
  have hw : w ∈ G.out v := h
  rw [G.out_eq_nil v hno] at hw
  cases hw

omit [DecidableEq N] in
theorem ne_origin (h : G.Forwards v) : v ≠ G.origin := by
  rintro rfl
  exact G.origin_silent h

theorem mem_forwarded : c' ∈ G.forwarded c ↔
    ∃ h, c.hops = h + 1 ∧ G.Edge c.dst c'.dst ∧ c'.dst ≠ c.src ∧ c'.src = c.dst ∧ c'.hops = h := by
  obtain ⟨src, dst, hops⟩ := c
  obtain ⟨src', dst', hops'⟩ := c'
  cases hops with
  | zero => simp [forwarded]
  | succ h =>
    simp only [forwarded, Edge, List.mem_map, List.mem_filter, FloodCopy.mk.injEq]
    constructor
    · rintro ⟨v, ⟨hv, hne⟩, rfl, rfl, rfl⟩
      exact ⟨h, rfl, hv, of_decide_eq_true hne, rfl, rfl⟩
    · rintro ⟨h, hh, hv, hne, rfl, rfl⟩
      exact ⟨dst', ⟨hv, decide_eq_true hne⟩, rfl, rfl, Nat.succ.inj hh⟩

theorem deliver_heard (hc : s.heard c.dst = some k) :
    G.deliver s c = { s with inFlight := s.inFlight.erase c } := by
  simp [deliver, hc]

theorem deliver_unheard (hc : s.heard c.dst = none) :
    G.deliver s c =
      { heard := Function.update s.heard c.dst (some c.hops)
        inFlight := s.inFlight.erase c + G.forwarded c } := by
  simp [deliver, hc]

theorem deliver_unheard_heard (hc : s.heard c.dst = none) :
    (G.deliver s c).heard = Function.update s.heard c.dst (some c.hops) := by
  rw [deliver_unheard hc]

/-- A delivery tells nobody but its destination. -/
theorem heard_deliver_of_ne (hne : v ≠ c.dst) : (G.deliver s c).heard v = s.heard v := by
  cases hc : s.heard c.dst with
  | some k => rw [deliver_heard hc]
  | none => rw [deliver_unheard_heard hc, Function.update_of_ne hne]

/-- **What a node has heard it keeps.** -/
theorem heard_deliver (hv : s.heard v = some h) : (G.deliver s c).heard v = some h := by
  by_cases hne : v = c.dst
  · subst hne
    rw [deliver_heard hv]
    exact hv
  · rw [heard_deliver_of_ne hne]
    exact hv

/-- **Where what a node hears comes from**: it had heard it, or has taken this copy. -/
theorem heard_of_deliver (hv : (G.deliver s c).heard v = some h) :
    s.heard v = some h ∨ s.heard v = none ∧ v = c.dst ∧ h = c.hops := by
  by_cases hne : v = c.dst
  · subst hne
    cases hc : s.heard c.dst with
    | some k =>
      rw [deliver_heard hc, hc] at hv
      exact Or.inl hv
    | none =>
      rw [deliver_unheard_heard hc, Function.update_self] at hv
      exact Or.inr ⟨rfl, rfl, (Option.some.inj hv).symm⟩
  · rw [heard_deliver_of_ne hne] at hv
    exact Or.inl hv

/-- A delivery leaves its destination informed. -/
theorem heard_dst : ∃ h, (G.deliver s c).heard c.dst = some h := by
  cases hc : s.heard c.dst with
  | some k => exact ⟨k, heard_deliver hc⟩
  | none => exact ⟨c.hops, by rw [deliver_unheard_heard hc, Function.update_self]⟩

/-- Every other copy stays on its way. -/
theorem mem_inFlight_deliver (h : c' ∈ s.inFlight) (hne : c' ≠ c) :
    c' ∈ (G.deliver s c).inFlight := by
  have hstay : c' ∈ s.inFlight.erase c := (Multiset.mem_erase_of_ne hne).mpr h
  cases hc : s.heard c.dst with
  | some k =>
    rw [deliver_heard hc]
    exact hstay
  | none =>
    rw [deliver_unheard hc]
    exact Multiset.mem_add.mpr (Or.inl hstay)

/-- What is on its way was, or has just been sent by a node that heard the message first
with this copy. -/
theorem inFlight_of_deliver (h : c' ∈ (G.deliver s c).inFlight) :
    c' ∈ s.inFlight ∨ s.heard c.dst = none ∧ c' ∈ G.forwarded c := by
  cases hc : s.heard c.dst with
  | some k =>
    rw [deliver_heard hc] at h
    exact Or.inl (Multiset.mem_of_mem_erase h)
  | none =>
    rw [deliver_unheard hc] at h
    rcases Multiset.mem_add.mp h with hold | hnew
    · exact Or.inl (Multiset.mem_of_mem_erase hold)
    · exact Or.inr ⟨rfl, hnew⟩

/-! ## The invariant

The order of delivery enters through `ρ`: the copy that is delivered has at least `ρ h`
hops, for every copy with `h` hops on its way.  In any order this is true of `ρ = 0`, and
in breadth-first order of the identity. -/

/-- The copy may be delivered next. -/
def InOrder (ρ : ℕ → ℕ) (s : FloodState N) (c : FloodCopy N) : Prop :=
  ∀ c' ∈ s.inFlight, ρ c'.hops ≤ c.hops

/-- The node has heard the message, or will, with not too few hops left. -/
def Covered (ρ : ℕ → ℕ) (s : FloodState N) (v : N) (n : ℕ) : Prop :=
  (∃ h, s.heard v = some h ∧ ρ n ≤ h) ∨ ∃ c ∈ s.inFlight, c.dst = v ∧ n ≤ c.hops

/-- How the message spreads. -/
structure Spread (G : FloodGraph N) (ρ : ℕ → ℕ) (s : FloodState N) : Prop where
  flight : ∀ c ∈ s.inFlight,
    (c.src = G.origin ∧ c.dst ∈ G.entries ∧ c.hops = G.hops) ∨
      s.heard c.src = some (c.hops + 1) ∧ G.Edge c.src c.dst
  late : ∀ v h, s.heard v = some h → ∀ c ∈ s.inFlight, ρ c.hops ≤ h
  entered : ∀ a ∈ G.entries, Covered ρ s a G.hops
  passed : ∀ v h, s.heard v = some (h + 1) → ∀ w, G.Edge v w → w = G.origin ∨ Covered ρ s w h
  /-- What a node heard first came along a path. -/
  came : ∀ v h, s.heard v = some h → ∃ a ∈ G.entries, ∃ l, Trail G.Edge a (v :: l) ∧
    l.length + h = G.hops ∧ ∀ x ∈ v :: l, s.heard x ≠ none

variable {ρ : ℕ → ℕ}

omit [DecidableEq N] in
theorem spread_start : Spread G ρ G.start where
  flight c hc := by
    obtain ⟨a, ha, rfl⟩ := List.mem_map.mp (Multiset.mem_coe.mp hc)
    exact Or.inl ⟨rfl, ha, rfl⟩
  late _ _ hv := nomatch hv
  entered a ha :=
    Or.inr ⟨⟨G.origin, a, G.hops⟩, Multiset.mem_coe.mpr (List.mem_map_of_mem ha), rfl,
      Nat.le_refl _⟩
  passed _ _ hv := nomatch hv
  came _ _ hv := nomatch hv

theorem covered_deliver (hρ : Monotone ρ) (hs : Spread G ρ s) (hc : c ∈ s.inFlight)
    (hord : InOrder ρ s c) (h : Covered ρ s v n) : Covered ρ (G.deliver s c) v n := by
  rcases h with ⟨h, hv, hn⟩ | ⟨c', hc', rfl, hn⟩
  · exact Or.inl ⟨h, heard_deliver hv, hn⟩
  · by_cases heq : c' = c
    · subst heq
      obtain ⟨h, hv⟩ := heard_dst (G := G) (s := s) (c := c')
      have hle : ρ n ≤ ρ c'.hops := hρ hn
      refine Or.inl ⟨h, hv, hle.trans ?_⟩
      rcases heard_of_deliver hv with hold | ⟨-, -, rfl⟩
      · exact hs.late _ _ hold c' hc'
      · exact hord c' hc'
    · exact Or.inr ⟨c', mem_inFlight_deliver hc' heq, rfl, hn⟩

theorem late_deliver (hρ : Monotone ρ) (hs : Spread G ρ s) (hc : c ∈ s.inFlight)
    (hord : InOrder ρ s c) (hv : (G.deliver s c).heard v = some h)
    (hc' : c' ∈ (G.deliver s c).inFlight) : ρ c'.hops ≤ h := by
  -- A copy that has just been sent is no later than the one it was sent for.
  have hbound : ∃ c₀ ∈ s.inFlight, ρ c'.hops ≤ ρ c₀.hops := by
    rcases inFlight_of_deliver hc' with hold | ⟨-, hnew⟩
    · exact ⟨c', hold, Nat.le_refl _⟩
    · obtain ⟨k, hk, -, -, -, hk'⟩ := mem_forwarded.mp hnew
      exact ⟨c, hc, hρ (by omega)⟩
  obtain ⟨c₀, hc₀, hle⟩ := hbound
  rcases heard_of_deliver hv with hold | ⟨-, -, rfl⟩
  · exact hle.trans (hs.late v h hold c₀ hc₀)
  · exact hle.trans (hord c₀ hc₀)

theorem flight_deliver (hs : Spread G ρ s) (hc' : c' ∈ (G.deliver s c).inFlight) :
    (c'.src = G.origin ∧ c'.dst ∈ G.entries ∧ c'.hops = G.hops) ∨
      (G.deliver s c).heard c'.src = some (c'.hops + 1) ∧ G.Edge c'.src c'.dst := by
  rcases inFlight_of_deliver hc' with hold | ⟨hnone, hnew⟩
  · rcases hs.flight c' hold with horigin | ⟨hheard, hedge⟩
    · exact Or.inl horigin
    · exact Or.inr ⟨heard_deliver hheard, hedge⟩
  · obtain ⟨k, hk, hedge, -, hsrc, rfl⟩ := mem_forwarded.mp hnew
    rw [hsrc, ← hk, deliver_unheard_heard hnone, Function.update_self]
    exact Or.inr ⟨rfl, hedge⟩

theorem passed_deliver (hρ : Monotone ρ) (hs : Spread G ρ s) (hc : c ∈ s.inFlight)
    (hord : InOrder ρ s c) (hv : (G.deliver s c).heard v = some (h + 1)) (hw : G.Edge v w) :
    w = G.origin ∨ Covered ρ (G.deliver s c) w h := by
  rcases heard_of_deliver hv with hold | ⟨hnone, rfl, hh⟩
  · exact (hs.passed v h hold w hw).imp_right (covered_deliver hρ hs hc hord)
  · by_cases hsrc : w = c.src
    · -- The node the copy came from needs none.
      subst hsrc
      rcases hs.flight c hc with ⟨horigin, -⟩ | ⟨hheard, -⟩
      · exact Or.inl horigin
      · refine Or.inr (Or.inl ⟨c.hops + 1, heard_deliver hheard, ?_⟩)
        calc ρ h ≤ ρ c.hops := hρ (by omega)
          _ ≤ c.hops := hord c hc
          _ ≤ c.hops + 1 := Nat.le_succ _
    · refine Or.inr (Or.inr ⟨⟨c.dst, w, h⟩, ?_, rfl, Nat.le_refl _⟩)
      rw [deliver_unheard hnone]
      exact Multiset.mem_add.mpr (Or.inr (Multiset.mem_coe.mpr
        (mem_forwarded.mpr ⟨h, hh.symm, hw, hsrc, rfl, rfl⟩)))

theorem came_deliver (hs : Spread G ρ s) (hc : c ∈ s.inFlight)
    (hv : (G.deliver s c).heard v = some h) :
    ∃ a ∈ G.entries, ∃ l, Trail G.Edge a (v :: l) ∧ l.length + h = G.hops ∧
      ∀ x ∈ v :: l, (G.deliver s c).heard x ≠ none := by
  have hkeep : ∀ x, s.heard x ≠ none → (G.deliver s c).heard x ≠ none := by
    intro x hx
    obtain ⟨k, hk⟩ := Option.ne_none_iff_exists'.mp hx
    rw [heard_deliver hk]
    exact Option.some_ne_none k
  have hself : (G.deliver s c).heard v ≠ none := by
    rw [hv]
    exact Option.some_ne_none h
  rcases heard_of_deliver hv with hold | ⟨hnone, rfl, rfl⟩
  · obtain ⟨a, ha, l, htrail, hlen, hall⟩ := hs.came v h hold
    exact ⟨a, ha, l, htrail, hlen, fun x hx => hkeep x (hall x hx)⟩
  · rcases hs.flight c hc with ⟨-, hentry, hhops⟩ | ⟨hheard, hedge⟩
    · refine ⟨c.dst, hentry, [], .start, by rw [hhops]; exact Nat.zero_add _, fun x hx => ?_⟩
      rw [List.mem_singleton.mp hx]
      exact hself
    · obtain ⟨a, ha, l, htrail, hlen, hall⟩ := hs.came c.src _ hheard
      -- The nodes of the path have heard the message, and this one had not.
      have hnew : c.dst ∉ c.src :: l := fun hmem => hall c.dst hmem hnone
      refine ⟨a, ha, c.src :: l, htrail.step hedge hnew, ?_, fun x hx => ?_⟩
      · rw [List.length_cons]
        omega
      · rcases List.mem_cons.mp hx with rfl | hx
        · exact hself
        · exact hkeep x (hall x hx)

/-- **One delivery keeps the invariant.** -/
theorem spread_deliver (hρ : Monotone ρ) (hs : Spread G ρ s) (hc : c ∈ s.inFlight)
    (hord : InOrder ρ s c) : Spread G ρ (G.deliver s c) where
  flight _ hc' := flight_deliver hs hc'
  late _ _ hv _ hc' := late_deliver hρ hs hc hord hv hc'
  entered a ha := covered_deliver hρ hs hc hord (hs.entered a ha)
  passed _ _ hv _ hw := passed_deliver hρ hs hc hord hv hw
  came _ _ hv := came_deliver hs hc hv

theorem spread_run {cs : List (FloodCopy N)} (hρ : Monotone ρ)
    (hcs : G.system.Always (InOrder ρ) G.start cs) :
    Spread G ρ (G.system.run G.start cs) :=
  EventSystem.invariant_run (fun _ _ hs hc hord => spread_deliver hρ hs hc hord) hcs spread_start

/-- In any order the message spreads. -/
theorem spread_of_run {ok : FloodState N → FloodCopy N → Prop} {cs : List (FloodCopy N)}
    (hcs : G.system.Always ok G.start cs) :
    Spread G (fun _ => 0) (G.system.run G.start cs) :=
  spread_run monotone_const (hcs.imp (fun _ _ _ _ _ _ => Nat.zero_le _))

omit [DecidableEq N] in
/-- When nothing is on its way any more, what is covered has been heard. -/
theorem heard_of_covered (hend : s.inFlight = 0) (h : Covered ρ s v n) :
    ∃ h, s.heard v = some h ∧ ρ n ≤ h := by
  rcases h with hheard | ⟨c, hc, -⟩
  · exact hheard
  · rw [hend] at hc
    cases hc

/-! ## Breadth first -/

/-- No copy on its way has more hops left. -/
def BreadthFirst (s : FloodState N) (c : FloodCopy N) : Prop := ∀ c' ∈ s.inFlight, c'.hops ≤ c.hops

omit [DecidableEq N] in
theorem heard_of_within {a : N} (hs : Spread G id s) (hend : s.inFlight = 0)
    (ha : a ∈ G.entries) (h : Within G.Edge a n v) (hn : n ≤ G.hops) (hv : v ≠ G.origin) :
    ∃ k, s.heard v = some k ∧ G.hops ≤ k + n := by
  induction h with
  | refl =>
    obtain ⟨k, hk, hle⟩ := heard_of_covered hend (hs.entered a ha)
    exact ⟨k, hk, Nat.le_add_right_of_le hle⟩
  | @step n u v _ hedge ih =>
    obtain ⟨k, hk, hle⟩ := ih (by omega) (ne_origin hedge.forwards)
    obtain ⟨k, rfl⟩ : ∃ k', k = k' + 1 := ⟨k - 1, by omega⟩
    obtain ⟨j, hj, hkj⟩ :=
      heard_of_covered hend ((hs.passed u k hk v hedge).resolve_left hv)
    have hkj : k ≤ j := hkj
    exact ⟨j, hj, by omega⟩

/-- **In breadth-first order the message is heard by exactly the nodes within the hop
limit.** -/
theorem heard_iff_within {cs : List (FloodCopy N)}
    (hcs : G.system.Always BreadthFirst G.start cs)
    (hend : (G.system.run G.start cs).inFlight = 0) (hv : v ≠ G.origin) :
    (∃ h, (G.system.run G.start cs).heard v = some h) ↔
      ∃ a ∈ G.entries, Within G.Edge a G.hops v := by
  have hs : Spread G id (G.system.run G.start cs) := spread_run monotone_id hcs
  constructor
  · rintro ⟨h, hh⟩
    obtain ⟨a, ha, l, htrail, hlen, -⟩ := hs.came v h hh
    exact ⟨a, ha, htrail.within.mono (by omega)⟩
  · rintro ⟨a, ha, hwithin⟩
    obtain ⟨k, hk, -⟩ := heard_of_within hs hend ha hwithin (Nat.le_refl _) hv
    exact ⟨k, hk⟩

/-! ## Any order -/

/-- The node has sent the message on. -/
def Passed (s : FloodState N) (v : N) : Prop := ∃ h, s.heard v = some (h + 1)

omit [DecidableEq N] in
/-- A node that hears the message without passing it on is at the end of a path that uses
up all hops. -/
theorem exists_trail_of_not_passed (hs : Spread G ρ s) (hv : s.heard v = some h)
    (hno : ¬ Passed s v) :
    ∃ a ∈ G.entries, ∃ l, Trail G.Edge a (v :: l) ∧ l.length = G.hops := by
  obtain ⟨a, ha, l, htrail, hlen, -⟩ := hs.came v h hv
  cases h with
  | zero => exact ⟨a, ha, l, htrail, hlen⟩
  | succ h => exact absurd ⟨h, hv⟩ hno

/-- The node is near enough to be sure of the message, and is at the end of a path from an
entry that uses up all hops. -/
def Starved (G : FloodGraph N) (v : N) : Prop :=
  (∃ a ∈ G.entries, Within G.Edge a (G.hops - 1) v) ∧
    ∃ a ∈ G.entries, ∃ l, Trail G.Edge a (v :: l) ∧ l.length = G.hops

omit [DecidableEq N] in
theorem passed_of_within {a : N} (hs : Spread G ρ s) (hend : s.inFlight = 0)
    (hno : ∀ v, G.Forwards v → ¬ G.Starved v) (ha : a ∈ G.entries) (h : Within G.Edge a n v)
    (hn : n ≤ G.hops - 1) (hv : G.Forwards v) : Passed s v := by
  -- What is heard here is passed on: no path uses up its hops.
  have hpass : ∀ n v, Within G.Edge a n v → n ≤ G.hops - 1 → G.Forwards v →
      ∀ h, s.heard v = some h → Passed s v := by
    intro n v hwithin hn hv h hh
    by_contra hnot
    exact hno v hv ⟨⟨a, ha, hwithin.mono hn⟩, exists_trail_of_not_passed hs hh hnot⟩
  induction h with
  | refl =>
    obtain ⟨k, hk, -⟩ := heard_of_covered hend (hs.entered a ha)
    exact hpass 0 a .refl (Nat.zero_le _) hv k hk
  | @step n u v hwithin hedge ih =>
    obtain ⟨k, hk⟩ := ih (by omega) hedge.forwards
    obtain ⟨j, hj, -⟩ :=
      heard_of_covered hend ((hs.passed u k hk v hedge).resolve_left (ne_origin hv))
    exact hpass (n + 1) v (.step hwithin hedge) hn hv j hj

omit [DecidableEq N] in
/-- When nothing is on its way any more, the successors of a node that passed the message
on have heard it. -/
theorem heard_of_passed (hs : Spread G ρ s) (hend : s.inFlight = 0) (hv : Passed s v)
    (hedge : G.Edge v w) (hw : w ≠ G.origin) : s.heard w ≠ none := by
  obtain ⟨h, hh⟩ := hv
  obtain ⟨k, hk, -⟩ := heard_of_covered hend ((hs.passed v h hh w hedge).resolve_left hw)
  rw [hk]
  exact Option.some_ne_none k

/-! ## Choosing an order -/

/-- The deliveries that a copy at `v` with some hops left can lead to. -/
def weight (G : FloodGraph N) : ℕ → N → ℕ
  | 0, _ => 1
  | h + 1, v => 1 + ((G.out v).map (weight G h)).sum

/-- The deliveries that are still to come, at most. -/
def pending (G : FloodGraph N) (s : FloodState N) : ℕ :=
  (s.inFlight.map (fun c => weight G c.hops c.dst)).sum

theorem forwarded_weight_lt (c : FloodCopy N) :
    ((G.forwarded c).map (fun c => weight G c.hops c.dst)).sum < weight G c.hops c.dst := by
  obtain ⟨src, dst, hops⟩ := c
  cases hops with
  | zero => exact Nat.one_pos
  | succ h =>
    have hsub : (((G.out dst).filter (· ≠ src)).map (weight G h)).Sublist
        ((G.out dst).map (weight G h)) := List.filter_sublist.map _
    have hle := hsub.sum_le_sum (fun _ _ => Nat.zero_le _)
    simp only [forwarded, List.map_map, weight]
    exact Nat.lt_one_add_iff.mpr hle

/-- A delivery leaves less to come. -/
theorem pending_deliver (hc : c ∈ s.inFlight) : pending G (G.deliver s c) < pending G s := by
  have hsplit : pending G s = weight G c.hops c.dst +
      ((s.inFlight.erase c).map (fun c => weight G c.hops c.dst)).sum := by
    unfold pending
    conv_lhs => rw [← Multiset.cons_erase hc]
    rw [Multiset.map_cons, Multiset.sum_cons]
  have hlt := forwarded_weight_lt (G := G) c
  cases hh : s.heard c.dst with
  | some k =>
    rw [deliver_heard hh, hsplit]
    exact Nat.lt_add_of_pos_left (Nat.zero_lt_of_lt hlt)
  | none =>
    rw [deliver_unheard hh, hsplit, pending, Multiset.map_add, Multiset.sum_add,
      Multiset.map_coe, Multiset.sum_coe]
    omega

/-- **Everything can be delivered**, choosing the next copy by any rule that allows one. -/
theorem exists_complete (ok : FloodState N → FloodCopy N → Prop)
    (hok : ∀ s, s.inFlight ≠ 0 → ∃ c ∈ s.inFlight, ok s c) (s : FloodState N) :
    ∃ cs, G.system.Always ok s cs ∧ (G.system.run s cs).inFlight = 0 := by
  induction hn : pending G s using Nat.strong_induction_on generalizing s with
  | _ n ih =>
    by_cases hend : s.inFlight = 0
    · exact ⟨[], trivial, hend⟩
    · obtain ⟨c, hc, hokc⟩ := hok s hend
      have hlt : pending G (G.deliver s c) < n := hn ▸ pending_deliver hc
      obtain ⟨cs, hcs, hdone⟩ := ih _ hlt _ rfl
      exact ⟨c :: cs, ⟨hc, hokc, hcs⟩, hdone⟩

/-- The message has come to `v` along the path `v :: l`, and nowhere else. -/
structure Arrived (G : FloodGraph N) (v : N) (l : List N) (s : FloodState N) : Prop where
  heard : s.heard v = some (G.hops - l.length)
  others : ∀ x, x ∉ v :: l → s.heard x = none
  sent : ∀ w, G.Edge v w → w ∉ v :: l → w ≠ G.origin → l.length + 1 ≤ G.hops →
    ⟨v, w, G.hops - (l.length + 1)⟩ ∈ s.inFlight

/-- A node that takes its first copy sends it on. -/
theorem arrived_deliver {src : N} (hnone : s.heard v = none) (hsrc : src = G.origin ∨ src ∈ l)
    (hothers : ∀ x, x ∉ l → s.heard x = none) :
    Arrived G v l (G.deliver s ⟨src, v, G.hops - l.length⟩) where
  heard := by rw [deliver_unheard_heard hnone, Function.update_self]
  others x hx := by
    obtain ⟨hne, hxl⟩ := not_or.mp (mt List.mem_cons.mpr hx)
    rw [deliver_unheard_heard hnone, Function.update_of_ne hne]
    exact hothers x hxl
  sent w hw hwl hworigin hlen := by
    have hne : w ≠ src := by
      rintro rfl
      rcases hsrc with horigin | hmem
      · exact hworigin horigin
      · exact hwl (List.mem_cons_of_mem _ hmem)
    rw [deliver_unheard hnone]
    exact Multiset.mem_add.mpr (Or.inr (Multiset.mem_coe.mpr
      (mem_forwarded.mpr ⟨_, by simp only; omega, hw, hne, rfl, rfl⟩)))

/-- **The message can come along any path**: some order delivers it to the nodes of the
path first, one after the other. -/
theorem exists_run_along {a : N} {l : List N} (h : Trail G.Edge a (v :: l)) (ha : a ∈ G.entries)
    (hv : v ≠ G.origin) (hl : l.length ≤ G.hops) :
    ∃ cs, G.system.Always (fun _ _ => True) G.start cs ∧
      Arrived G v l (G.system.run G.start cs) := by
  generalize hnodes : v :: l = nodes at h
  induction h generalizing v l with
  | start =>
    obtain ⟨rfl, rfl⟩ := List.cons.inj hnodes
    refine ⟨[⟨G.origin, v, G.hops⟩], ⟨?_, trivial, trivial⟩, ?_⟩
    · exact Multiset.mem_coe.mpr (List.mem_map_of_mem ha)
    · exact arrived_deliver (s := G.start) rfl (Or.inl rfl) (fun _ _ => rfl)
  | @step u w l' _ hedge hnew ih =>
    obtain ⟨rfl, rfl⟩ := List.cons.inj hnodes
    have hlen : l'.length + 1 ≤ G.hops := hl
    obtain ⟨cs, hcs, harr⟩ := ih (ne_origin hedge.forwards) (by omega) rfl
    have hen : G.system.Enabled (G.system.run G.start cs) ⟨u, v, G.hops - (l'.length + 1)⟩ :=
      harr.sent v hedge hnew hv hlen
    refine ⟨cs ++ [⟨u, v, G.hops - (l'.length + 1)⟩],
      EventSystem.always_snoc.mpr ⟨hcs, hen, trivial⟩, ?_⟩
    rw [EventSystem.run_snoc]
    exact arrived_deliver (harr.others v hnew) (Or.inr List.mem_cons_self) harr.others

/-- What a node has heard it keeps to the end. -/
theorem heard_run {ok : FloodState N → FloodCopy N → Prop} {cs : List (FloodCopy N)}
    (hcs : G.system.Always ok s cs) (hv : s.heard v = some h) :
    (G.system.run s cs).heard v = some h :=
  EventSystem.invariant_run (I := fun s => s.heard v = some h)
    (fun _ _ hv _ _ => heard_deliver hv) hcs hv

/-- Some order makes a node that a path starves hear the message without passing it on. -/
theorem exists_run_starving (hv : G.Forwards v) (h : G.Starved v) :
    ∃ cs, G.system.Always (fun _ _ => True) G.start cs ∧
      (G.system.run G.start cs).inFlight = 0 ∧ ¬ Passed (G.system.run G.start cs) v := by
  obtain ⟨-, a, ha, l, htrail, hlen⟩ := h
  obtain ⟨cs, hcs, harr⟩ := exists_run_along htrail ha (ne_origin hv) hlen.le
  obtain ⟨cs', hcs', hend⟩ := exists_complete (G := G) (fun _ _ => True)
    (fun s hs => (Multiset.exists_mem_of_ne_zero hs).imp (fun _ hc => ⟨hc, trivial⟩))
    (G.system.run G.start cs)
  refine ⟨cs ++ cs', EventSystem.always_append.mpr ⟨hcs, hcs'⟩, ?_, ?_⟩
  · rw [EventSystem.run_append]
    exact hend
  · rintro ⟨h, hh⟩
    rw [EventSystem.run_append, heard_run hcs' harr.heard, hlen, Nat.sub_self] at hh
    cases hh

/-- **When the message is passed on in every order**: all nodes that forward and are nearer
to an entry than the hop limit pass it on, however it is delivered, if and only if none of
them is at the end of a path from an entry that uses up all hops. -/
theorem passed_iff_not_starved :
    (∀ cs, G.system.Always (fun _ _ => True) G.start cs →
      (G.system.run G.start cs).inFlight = 0 →
      ∀ v, G.Forwards v → (∃ a ∈ G.entries, Within G.Edge a (G.hops - 1) v) →
        Passed (G.system.run G.start cs) v) ↔
      ∀ v, G.Forwards v → ¬ G.Starved v := by
  constructor
  · intro h v hv hstarved
    obtain ⟨cs, hcs, hend, hno⟩ := exists_run_starving hv hstarved
    exact hno (h cs hcs hend v hv hstarved.1)
  · rintro hno cs hcs hend v hv ⟨a, ha, hwithin⟩
    exact passed_of_within (spread_of_run hcs) hend hno ha hwithin (Nat.le_refl _) hv

end FloodGraph
