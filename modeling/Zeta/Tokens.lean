import Zeta.EventSystem
import Mathlib.Data.Set.Finite.Basic
import Mathlib.Data.Fintype.Order
import Mathlib.Order.WellFounded
import Mathlib.Logic.Relation

/-!
# Tokens that fire

A pool of tokens of type `τ`.  Firing a token removes it from the pool and puts
its offspring `succ t` there; any token of the pool may fire next.  Firing is
deterministic in the token and independent of the rest of the pool, so whether a
pool can be fired for ever depends only on the graph `u ∈ succ t`: it cannot if
and only if no cycle is reachable from its tokens (`terminates_iff`).
-/

namespace Tokens

variable {τ : Type*} (succ : τ → Multiset τ)

/-- `u` is among the offspring of `t`. -/
def Edge (t u : τ) : Prop := u ∈ succ t

/-- A token all of whose descents end. -/
def Dies (t : τ) : Prop := Acc (fun u t => Edge succ t u) t

section Weight

/-- The firings and the offspring a dying token still has ahead of it. -/
noncomputable def weight (t : τ) : ℕ := by
  classical
  exact if h : Dies succ t then
    Acc.rec (motive := fun _ _ => ℕ)
      (fun t _ ih => 1 + ((succ t).attach.map (fun u => 1 + ih u.1 u.2)).sum) h
  else 0

variable {succ}

theorem Dies.of_edge {t u : τ} (h : Dies succ t) (hu : u ∈ succ t) : Dies succ u := h.inv hu

theorem Dies.weight_eq {t : τ} (h : Dies succ t) :
    weight succ t = 1 + ((succ t).map (fun u => 1 + weight succ u)).sum := by
  classical
  have hrec : ∀ u (hu : u ∈ succ t), (Acc.rec (motive := fun _ _ => ℕ)
      (fun t _ ih => 1 + ((succ t).attach.map (fun u => 1 + ih u.1 u.2)).sum)
      (h.of_edge hu) : ℕ) = weight succ u := by
    intro u hu
    rw [weight, dif_pos (h.of_edge hu)]
  rw [weight, dif_pos h]
  cases h with
  | intro _ hacc =>
    refine congrArg (1 + ·) (congrArg Multiset.sum ?_)
    calc (succ t).attach.map (fun u => 1 + _)
        = (succ t).attach.map (fun u => 1 + weight succ u.1) :=
          Multiset.map_congr rfl (fun u _ => congrArg (1 + ·) (hrec u.1 u.2))
      _ = (succ t).map (fun u => 1 + weight succ u) :=
          Multiset.attach_map_val' (succ t) (fun u => 1 + weight succ u)

end Weight

variable {succ} in
/-- On a finite part of the graph without cycles every token dies. -/
theorem dies_of_acyclic {t : τ} (hfin : {u | Relation.ReflTransGen (Edge succ) t u}.Finite)
    (hac : ∀ u, Relation.ReflTransGen (Edge succ) t u → ¬ Relation.TransGen (Edge succ) u u) :
    Dies succ t := by
  -- Without cycles, descent is a strict order on the finitely many tokens reached.
  let reached := {u // Relation.ReflTransGen (Edge succ) t u}
  have : Finite reached := hfin
  let below : reached → reached → Prop := fun a b => Relation.TransGen (Edge succ) b.1 a.1
  have : IsTrans reached below := ⟨fun _ _ _ hab hbc => hbc.trans hab⟩
  have : Std.Irrefl below := ⟨fun a => hac a.1 a.2⟩
  have hwf : WellFounded below := Finite.wellFounded_of_trans_of_irrefl below
  have hall : ∀ a : reached, Dies succ a.1 := by
    intro a
    induction a using hwf.induction with
    | h a ih => exact Acc.intro _ (fun u hu => ih ⟨u, a.2.tail hu⟩ (.single hu))
  exact hall ⟨t, .refl⟩

variable [DecidableEq τ]

/-- Firing, as an event system. -/
def system : EventSystem (Multiset τ) τ where
  Enabled pool t := t ∈ pool
  next pool t := pool.erase t + succ t

/-- Every way of firing the pool ends, after at most `N` firings that produced at
most `N` tokens together. -/
def Terminates (pool : Multiset τ) : Prop :=
  ∃ N, ∀ ts, (system succ).Always (fun _ _ => True) pool ts →
    ts.length + (system succ).sumAlong (fun _ t => (succ t).card) pool ts ≤ N

variable {succ}

/-- A firing takes one off the weight of the pool, and one for each token it
produces. -/
theorem weight_fire {pool : Multiset τ} {t : τ} (ht : t ∈ pool) (h : Dies succ t) :
    1 + (succ t).card + (((system succ).next pool t).map (weight succ)).sum =
      (pool.map (weight succ)).sum := by
  have hpool : (pool.map (weight succ)).sum =
      weight succ t + ((pool.erase t).map (weight succ)).sum := by
    conv_lhs => rw [← Multiset.cons_erase ht]
    simp
  have hsum : ((succ t).map (fun u => 1 + weight succ u)).sum =
      (succ t).card + ((succ t).map (weight succ)).sum := by
    simp [Multiset.sum_map_add]
  rw [hpool, h.weight_eq, hsum]
  simp only [system, Multiset.map_add, Multiset.sum_add]
  omega

theorem terminates_of_dies {pool : Multiset τ} (h : ∀ t ∈ pool, Dies succ t) :
    Terminates succ pool := by
  refine ⟨(pool.map (weight succ)).sum, ?_⟩
  intro ts hts
  induction ts generalizing pool with
  | nil => simp
  | cons t ts ih =>
    obtain ⟨ht, -, htail⟩ := hts
    have hdies : ∀ u ∈ (system succ).next pool t, Dies succ u := by
      intro u hu
      rcases Multiset.mem_add.mp hu with hu | hu
      · exact h u (Multiset.mem_of_mem_erase hu)
      · exact (h t ht).of_edge hu
    have hrest := ih hdies htail
    have hfire := weight_fire ht (h t ht)
    simp only [List.length_cons, EventSystem.sumAlong_cons]
    omega

/-- From a token that leads to a cycle the pool can be fired as long as one
likes. -/
theorem exists_run_of_cycle {u : τ} (hcycle : Relation.TransGen (Edge succ) u u) (n : ℕ) :
    ∀ {pool : Multiset τ} {t : τ}, t ∈ pool → Relation.ReflTransGen (Edge succ) t u →
      ∃ ts, ts.length = n ∧ (system succ).Always (fun _ _ => True) pool ts := by
  induction n with
  | zero => exact fun _ _ => ⟨[], rfl, trivial⟩
  | succ n ih =>
    intro pool t ht htu
    -- Fire towards the cycle; on it there is always an offspring that leads back to `u`.
    have hlive : Relation.TransGen (Edge succ) t u := Relation.TransGen.trans_right htu hcycle
    obtain ⟨v, htv, hvu⟩ := Relation.TransGen.head'_iff.mp hlive
    have hv : v ∈ (system succ).next pool t := Multiset.mem_add.mpr (Or.inr htv)
    obtain ⟨ts, hlen, hts⟩ := ih hv hvu
    exact ⟨t :: ts, by rw [List.length_cons, hlen], ht, trivial, hts⟩

/-- **When firing terminates.**  If only finitely many tokens descend from `t`, a
pool holding `t` alone terminates exactly when none of them lies on a cycle. -/
theorem terminates_iff {t : τ} (hfin : {u | Relation.ReflTransGen (Edge succ) t u}.Finite) :
    Terminates succ {t} ↔
      ∀ u, Relation.ReflTransGen (Edge succ) t u → ¬ Relation.TransGen (Edge succ) u u := by
  constructor
  · rintro ⟨N, hN⟩ u htu hcycle
    obtain ⟨ts, hlen, hts⟩ := exists_run_of_cycle hcycle (N + 1) (Multiset.mem_singleton_self t) htu
    have hle := hN ts hts
    omega
  · intro hac
    apply terminates_of_dies
    intro u hu
    rw [Multiset.mem_singleton.mp hu]
    exact dies_of_acyclic hfin hac

end Tokens
