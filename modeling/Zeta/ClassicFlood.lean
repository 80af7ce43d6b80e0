import Zeta.Federation
import Mathlib.Algebra.BigOperators.Group.Finset.Basic
import Mathlib.Algebra.Order.BigOperators.Group.Finset
import Mathlib.Order.Lattice.Nat
import Mathlib.Tactic.Ring

/-!
# How far a text travels

A `Classic` is flooded: a relay that has not seen its id, and to which it comes
with hops left, sends it to all its peers but the one it came from.  Two
independent mechanisms stop it.

* Every forwarded copy has one hop less, so the flood ends even if the relays
  forget the id at once: the weight of the copies on their way (`copyWeight`)
  falls with each delivery.
* A relay that keeps the id broadcasts at most once, so what the relays send is
  bounded by the number of their peers, whatever the hop limit.

Meanwhile the relays handle other traffic, of which only what it does to their
caches matters here: at any moment the cache of a relay may be replaced by any
other (`churn`).
-/

namespace Zeta
namespace Federation

/-- A delivery, or the effect of other traffic on the cache of one relay. -/
inductive Event (κ : Type) where
  | deliver (d : Datagram)
  | churn (r : κ) (seen : SeenIds)

section System
variable {κ : Type} [DecidableEq κ] (P : Platform) (F : Federation κ)

/-- Deliveries amid other traffic. -/
def churned : EventSystem (FedState κ) (Event κ) where
  Enabled s
    | .deliver d => d ∈ s.inFlight
    | .churn _ _ => True
  next s
    | .deliver d => F.deliver P s d
    | .churn r seen =>
      { s with relays := Function.update s.relays r { s.relays r with seen := seen } }

/-- Counts the deliveries. -/
def deliveries (_ : FedState κ) : Event κ → ℕ
  | .deliver _ => 1
  | .churn _ _ => 0

/-- Counts the datagrams the relays send. -/
def sends (s : FedState κ) : Event κ → ℕ
  | .deliver d => F.sentOn P s d
  | .churn _ _ => 0

/-- Counts the broadcasts of relay `r`. -/
def broadcastsBy (r : κ) (s : FedState κ) : Event κ → ℕ
  | .deliver d =>
    if F.relayAt d.dst = some r ∧
        (handleMessage P d.msg d.src (s.relays r)).exit = .broadcast then 1 else 0
  | .churn _ _ => 0

/-- No relay loses `id` from its cache to other traffic. -/
def Retains (id : UInt64) (s : FedState κ) : Event κ → Prop
  | .deliver _ => True
  | .churn r seen => id ∈ (s.relays r).seen.set → id ∈ seen.set

/-- What a delivery makes a relay send has one hop less than what was delivered. -/
def LosesHop (s : FedState κ) : Event κ → Prop
  | .deliver d => ∀ u ∈ F.emitted P s.relays d, ∃ c c' : Classic,
      d.msg = .classic c ∧ u.msg = .classic c' ∧ c'.ttl.toNat + 1 = c.ttl.toNat
  | .churn _ _ => True

end System

/-- The number of peers registered at a relay. -/
def degree (s : RelayState) : ℕ := s.peers.keys.length

/-- The deliveries and sends that a copy with `ttl` hops left can lead to, when no
relay has more than `D` peers. -/
def floodBound (D : ℕ) : ℕ → ℕ
  | 0 => 1
  | ttl + 1 => 1 + D * (1 + floodBound D ttl)

/-- The weight of a copy on its way. -/
def copyWeight (D : ℕ) (d : Datagram) : ℕ :=
  match d.msg with
  | .classic c => floodBound D c.ttl.toNat
  | _ => 1

theorem one_le_floodBound (D ttl : ℕ) : 1 ≤ floodBound D ttl := by
  cases ttl <;> simp [floodBound]

/-! ## One delivery -/

section Delivery
variable {κ : Type} {P : Platform} {F : Federation κ} {relays : κ → RelayState}

theorem forwarded_ttl {c : Classic} (h : c.ttl > 0) :
    c.forwarded.ttl.toNat + 1 = c.ttl.toNat := by
  have hpos : 1 ≤ c.ttl.toNat := UInt8.lt_iff_toNat_lt.mp h
  have hle : (1 : UInt8) ≤ c.ttl := UInt8.le_iff_toNat_le.mpr hpos
  rw [Classic.forwarded, UInt8.toNat_sub_of_le _ _ hle]
  exact Nat.sub_add_cancel hpos

theorem length_broadcast_le (peers : PeersMap) (exclude : SocketAddr) (msg : Message) :
    (broadcast peers exclude msg).length ≤ peers.keys.length := by
  rw [broadcast, List.length_map]
  exact List.length_filter_le _ _

/-- A relay sends a copy on only if its id is new there and it has hops left. -/
theorem emitted_classic (P : Platform) (F : Federation κ) (relays : κ → RelayState)
    {d : Datagram} {c : Classic} (hd : d.msg = .classic c) :
    (∃ r, F.relayAt d.dst = some r ∧ c.msgId ∉ (relays r).seen.set ∧ c.ttl > 0 ∧
      (handleMessage P d.msg d.src (relays r)).exit = .broadcast ∧
      F.emitted P relays d =
        packets (F.addr r) (broadcast (relays r).peers d.src (.classic c.forwarded))) ∨
    ((∀ r, F.relayAt d.dst = some r →
      (handleMessage P d.msg d.src (relays r)).exit ≠ .broadcast) ∧
      F.emitted P relays d = []) := by
  cases hr : F.relayAt d.dst with
  | none => exact Or.inr ⟨nofun, emitted_of_none hr⟩
  | some r =>
    rw [emitted_of_eq hr]
    simp only [hd, handleMessage]
    rcases relayClassic_cases P c d.src (relays r) with
      ⟨hnew, -, ht, hexit, hsends⟩ | ⟨hexit, hsends⟩
    · exact Or.inl ⟨r, rfl, hnew, ht, hexit, by rw [hsends]⟩
    · refine Or.inr ⟨?_, by rw [hsends]; rfl⟩
      intro r' h
      rw [← Option.some.inj h]
      exact hexit

/-- Each copy sent has one hop less. -/
theorem emitted_loses_hop {d u : Datagram} {c : Classic} (hd : d.msg = .classic c)
    (hu : u ∈ F.emitted P relays d) :
    u.msg = .classic c.forwarded ∧ c.forwarded.ttl.toNat + 1 = c.ttl.toNat := by
  rcases emitted_classic P F relays hd with
    ⟨r, -, -, ht, -, hem⟩ | ⟨-, hem⟩
  · rw [hem] at hu
    obtain ⟨x, hx, rfl⟩ := List.mem_map.mp hu
    exact ⟨(mem_broadcast hx).2.2, forwarded_ttl ht⟩
  · rw [hem] at hu
    cases hu

/-- A delivery takes its own weight off, and puts no more than the rest of it back. -/
theorem emitted_weight_le {D : ℕ} {d : Datagram} {c : Classic} (hd : d.msg = .classic c)
    (hD : ∀ r, degree (relays r) ≤ D) :
    1 + (F.emitted P relays d).length +
      ((F.emitted P relays d).map (copyWeight D)).sum ≤ copyWeight D d := by
  have hweight : copyWeight D d = floodBound D c.ttl.toNat := by rw [copyWeight, hd]
  rw [hweight]
  rcases emitted_classic P F relays hd with
    ⟨r, -, -, ht, -, hem⟩ | ⟨-, hem⟩
  · -- At most `D` copies, each with the weight of one hop less.
    have hlen : (F.emitted P relays d).length ≤ D := by
      rw [hem, packets, List.length_map]
      exact Nat.le_trans (length_broadcast_le _ _ _) (hD r)
    have hsum : ((F.emitted P relays d).map (copyWeight D)).sum =
        (F.emitted P relays d).length * floodBound D c.forwarded.ttl.toNat := by
      rw [List.map_congr_left (g := fun _ => floodBound D c.forwarded.ttl.toNat)]
      · simp
      · intro u hu
        rw [copyWeight, (emitted_loses_hop hd hu).1]
    rw [hsum, ← forwarded_ttl ht, floodBound]
    calc 1 + (F.emitted P relays d).length +
          (F.emitted P relays d).length * floodBound D c.forwarded.ttl.toNat
        = 1 + (F.emitted P relays d).length * (1 + floodBound D c.forwarded.ttl.toNat) := by ring
      _ ≤ 1 + D * (1 + floodBound D c.forwarded.ttl.toNat) :=
          Nat.add_le_add_left (Nat.mul_le_mul_right _ hlen) 1
  · rw [hem]
    exact one_le_floodBound D _

end Delivery

/-! ## The invariant of a flood -/

section Flood
variable {κ : Type} [DecidableEq κ] {P : Platform} {F : Federation κ}
  {relays : κ → RelayState} {m : Classic} {s : FedState κ}

/-- Only copies of `m` are on their way, and the relays have the peers they had. -/
structure Flooding (relays : κ → RelayState) (m : Classic) (s : FedState κ) : Prop where
  copies : ∀ d ∈ s.inFlight, ∃ c, d.msg = .classic c ∧ c.msgId = m.msgId
  peers : ∀ r, (s.relays r).peers = (relays r).peers

theorem relaysAfter_classic_peers {d : Datagram} {c : Classic} (hd : d.msg = .classic c) (r : κ) :
    (F.relaysAfter P s.relays d r).peers = (s.relays r).peers := by
  by_cases h : F.relayAt d.dst = some r
  · rw [relaysAfter_of_eq h, hd, handleMessage, relayClassic_peers]
  · rw [relaysAfter_of_ne h]

/-- **The invariant of a flood is preserved**, by deliveries and other traffic. -/
theorem flooding_step {e : Event κ} (h : Flooding relays m s) (he : (F.churned P).Enabled s e) :
    Flooding relays m ((F.churned P).next s e) := by
  cases e with
  | deliver d =>
    obtain ⟨c, hd, hid⟩ := h.copies d he
    constructor
    · intro u hu
      rcases Multiset.mem_add.mp hu with hu | hu
      · exact h.copies u (Multiset.mem_of_mem_erase hu)
      · exact ⟨c.forwarded, (emitted_loses_hop hd hu).1, hid⟩
    · intro r
      rw [← h.peers r]
      exact relaysAfter_classic_peers hd r
  | churn r' seen =>
    refine ⟨h.copies, ?_⟩
    intro r
    rw [← h.peers r]
    by_cases hr : r = r'
    · subst hr
      simp [churned]
    · simp [churned, hr]

omit [DecidableEq κ] in
theorem flooding_start (d : Datagram) (hd : d.msg = .classic m) :
    Flooding relays m ⟨relays, {d}⟩ :=
  ⟨fun u hu => ⟨m, by rw [Multiset.mem_singleton.mp hu]; exact hd, rfl⟩, fun _ => rfl⟩

/-- The invariant holds all along a run. -/
theorem always_flooding {ok : FedState κ → Event κ → Prop} {es : List (Event κ)}
    (h : (F.churned P).Always ok s es) (hs : Flooding relays m s) :
    (F.churned P).Always (fun s e => Flooding relays m s ∧ ok s e) s es :=
  EventSystem.always_of_invariant (fun _ _ hI he _ => flooding_step hI he)
    (fun _ _ hI _ hok => ⟨hI, hok⟩) h hs

/-! ## The hop limit -/

/-- The weight of everything on its way. -/
def pending (D : ℕ) (s : FedState κ) : ℕ := (s.inFlight.map (copyWeight D)).sum

theorem pending_step {D : ℕ} {e : Event κ} (h : Flooding relays m s)
    (hD : ∀ r, degree (relays r) ≤ D) (he : (F.churned P).Enabled s e) :
    (deliveries s e + F.sends P s e) + pending D ((F.churned P).next s e) ≤ pending D s := by
  cases e with
  | churn r seen => simp [deliveries, sends, pending, churned]
  | deliver d =>
    obtain ⟨c, hd, -⟩ := h.copies d he
    have hD' : ∀ r, degree (s.relays r) ≤ D := fun r => by
      rw [degree, h.peers r]
      exact hD r
    have hle := emitted_weight_le (P := P) (F := F) hd hD'
    have hsplit : pending D s =
        copyWeight D d + ((s.inFlight.erase d).map (copyWeight D)).sum := by
      unfold pending
      conv_lhs => rw [← Multiset.cons_erase he]
      simp
    have hnext : pending D ((F.churned P).next s (.deliver d)) =
        ((s.inFlight.erase d).map (copyWeight D)).sum +
          ((F.emitted P s.relays d).map (copyWeight D)).sum := by
      simp [pending, churned, deliver]
    rw [hsplit, hnext]
    simp only [deliveries, sends, sentOn]
    omega

/-! ## The cache -/

/-- `1` while relay `r` has not seen `id`. -/
def unseen (id : UInt64) (s : FedState κ) (r : κ) : ℕ :=
  if id ∈ (s.relays r).seen.set then 0 else 1

omit [DecidableEq κ] in
theorem unseen_le_one (id : UInt64) (s : FedState κ) (r : κ) : unseen id s r ≤ 1 := by
  unfold unseen
  split <;> omega

/-- A relay pays for a broadcast with its ignorance of the id. -/
theorem unseen_step {e : Event κ} (h : Flooding relays m s) (hok : Retains m.msgId s e)
    (he : (F.churned P).Enabled s e) (r : κ) :
    F.broadcastsBy P r s e + unseen m.msgId ((F.churned P).next s e) r ≤ unseen m.msgId s r := by
  cases e with
  | churn r' seen =>
    rw [broadcastsBy, Nat.zero_add]
    by_cases hr : r = r'
    · -- Other traffic may bring the id into the cache, but not take it out.
      subst hr
      by_cases hin : m.msgId ∈ (s.relays r).seen.set
      · simp [unseen, churned, hok hin]
      · rw [show unseen m.msgId s r = 1 from if_neg hin]
        exact unseen_le_one _ _ _
    · simp [unseen, churned, hr]
  | deliver d =>
    obtain ⟨c, hd, hid⟩ := h.copies d he
    by_cases hr : F.relayAt d.dst = some r
    · -- The relay knows the id afterwards, and broadcast only if it did not before.
      have hafter : unseen m.msgId ((F.churned P).next s (.deliver d)) r = 0 := by
        simp [unseen, churned, deliver, relaysAfter_of_eq hr, hd, handleMessage, ← hid]
      rw [hafter, broadcastsBy]
      split
      · rename_i hb
        rcases emitted_classic P F s.relays hd with
          ⟨r', hr', hnew, -⟩ | ⟨hno, -⟩
        · rw [hr, Option.some.injEq] at hr'
          subst hr'
          rw [hid] at hnew
          simp [unseen, hnew]
        · exact absurd hb.2 (hno r hr)
      · exact Nat.zero_le _
    · simp [broadcastsBy, hr, unseen, churned, deliver, relaysAfter_of_ne hr]

/-- What a delivery makes the relays send is one broadcast. -/
theorem sends_le [Fintype κ] {e : Event κ} (h : Flooding relays m s)
    (he : (F.churned P).Enabled s e) :
    F.sends P s e ≤ ∑ r, F.broadcastsBy P r s e * degree (relays r) := by
  cases e with
  | churn _ _ => exact Nat.zero_le _
  | deliver d =>
    obtain ⟨c, hd, -⟩ := h.copies d he
    simp only [sends, sentOn]
    rcases emitted_classic P F s.relays hd with
      ⟨r, hr, -, -, hexit, hem⟩ | ⟨-, hem⟩
    · have hone : F.broadcastsBy P r s (.deliver d) = 1 := by
        simp only [broadcastsBy]
        rw [if_pos ⟨hr, hexit⟩]
      calc (F.emitted P s.relays d).length
          ≤ degree (s.relays r) := by
            rw [hem, packets, List.length_map]
            exact length_broadcast_le _ _ _
        _ = F.broadcastsBy P r s (.deliver d) * degree (relays r) := by
            rw [hone, Nat.one_mul, degree, h.peers r]
            rfl
        _ ≤ ∑ r, F.broadcastsBy P r s (.deliver d) * degree (relays r) :=
            Finset.single_le_sum (f := fun r => F.broadcastsBy P r s (.deliver d) *
              degree (relays r)) (fun _ _ => Nat.zero_le _) (Finset.mem_univ r)
    · rw [hem]
      exact Nat.zero_le _

theorem sends_step [Fintype κ] {e : Event κ} (h : Flooding relays m s)
    (hok : Retains m.msgId s e) (he : (F.churned P).Enabled s e) :
    F.sends P s e +
        ∑ r, unseen m.msgId ((F.churned P).next s e) r * degree (relays r) ≤
      ∑ r, unseen m.msgId s r * degree (relays r) := by
  refine Nat.le_trans (Nat.add_le_add_right (sends_le h he) _) ?_
  rw [← Finset.sum_add_distrib]
  apply Finset.sum_le_sum
  intro r _
  rw [← Nat.add_mul]
  exact Nat.mul_le_mul_right _ (unseen_step h hok he r)

/-! ## The flood -/

/-- The hop limit bounds the deliveries and sends of a flood, whatever the caches do. -/
theorem flood_le_pending {ok : FedState κ → Event κ → Prop} {es : List (Event κ)} {D : ℕ}
    (hD : ∀ r, degree (relays r) ≤ D) (hs : Flooding relays m s)
    (h : (F.churned P).Always ok s es) :
    (F.churned P).sumAlong (fun s e => deliveries s e + F.sends P s e) s es ≤ pending D s :=
  EventSystem.sumAlong_le_start (fun _ _ he hok => pending_step hok.1 hD he)
    (always_flooding h hs)

/-- A relay that keeps the id broadcasts at most once. -/
theorem broadcasts_le_one {es : List (Event κ)} (hs : Flooding relays m s)
    (h : (F.churned P).Always (Retains m.msgId) s es) (r : κ) :
    (F.churned P).sumAlong (F.broadcastsBy P r) s es ≤ 1 := by
  calc (F.churned P).sumAlong (F.broadcastsBy P r) s es
      ≤ unseen m.msgId s r :=
        EventSystem.sumAlong_le_start (φ := fun s => unseen m.msgId s r)
          (fun _ _ he hok => unseen_step hok.1 hok.2 he r) (always_flooding h hs)
    _ ≤ 1 := unseen_le_one m.msgId s r

/-- Relays that keep the id send no more than one broadcast each. -/
theorem sends_le_degrees [Fintype κ] {es : List (Event κ)} (hs : Flooding relays m s)
    (h : (F.churned P).Always (Retains m.msgId) s es) :
    (F.churned P).sumAlong (F.sends P) s es ≤ ∑ r, degree (relays r) := by
  calc (F.churned P).sumAlong (F.sends P) s es
      ≤ ∑ r, unseen m.msgId s r * degree (relays r) :=
        EventSystem.sumAlong_le_start (φ := fun s => ∑ r, unseen m.msgId s r * degree (relays r))
          (fun _ _ he hok => sends_step hok.1 hok.2 he) (always_flooding h hs)
    _ ≤ ∑ r, degree (relays r) := by
        apply Finset.sum_le_sum
        intro r _
        exact Nat.le_trans (Nat.mul_le_mul_right _ (unseen_le_one _ _ _)) (Nat.one_mul _).le

/-- Every copy a relay sends has a hop less, all along a flood. -/
theorem always_losesHop {ok : FedState κ → Event κ → Prop} {es : List (Event κ)}
    (hs : Flooding relays m s) (h : (F.churned P).Always ok s es) :
    (F.churned P).Always (F.LosesHop P) s es := by
  refine (always_flooding h hs).imp ?_
  rintro s (d | ⟨r, seen⟩) he ⟨hI, -⟩
  · obtain ⟨c, hd, -⟩ := hI.copies d he
    intro u hu
    exact ⟨c, c.forwarded, hd, emitted_loses_hop hd hu⟩
  · trivial

/-- **The flood of a text is bounded, twice.**  A `Classic` with any hop limit is
injected at one relay.

* However other traffic changes the caches meanwhile, the deliveries and sends of
  its copies are bounded in terms of the hop limit and the largest number of peers.
* While no relay loses the id, each relay broadcasts it at most once, and all relays
  together send at most as many datagrams as they have peers.
* Every copy a relay sends has one hop less than the copy it received. -/
theorem classic_flood_bounded [Fintype κ] (P : Platform) (F : Federation κ)
    (relays : κ → RelayState) (m : Classic) (client : SocketAddr) (r₀ : κ) :
    let start : FedState κ := ⟨relays, {⟨client, F.addr r₀, .classic m⟩}⟩
    (∀ es, (F.churned P).Always (fun _ _ => True) start es →
      (F.churned P).sumAlong (fun s e => deliveries s e + F.sends P s e) start es ≤
        floodBound (Finset.univ.sup (fun r => degree (relays r))) m.ttl.toNat) ∧
    (∀ es, (F.churned P).Always (Retains m.msgId) start es →
      (∀ r, (F.churned P).sumAlong (F.broadcastsBy P r) start es ≤ 1) ∧
      (F.churned P).sumAlong (F.sends P) start es ≤ ∑ r, degree (relays r)) ∧
    (∀ es, (F.churned P).Always (fun _ _ => True) start es →
      (F.churned P).Always (F.LosesHop P) start es) := by
  intro start
  have hstart : Flooding relays m start := flooding_start _ rfl
  refine ⟨?_, ?_, ?_⟩
  · intro es h
    let D := Finset.univ.sup (fun r => degree (relays r))
    have hD : ∀ r, degree (relays r) ≤ D :=
      fun r => Finset.le_sup (f := fun r => degree (relays r)) (Finset.mem_univ r)
    have hweight : pending D start = floodBound D m.ttl.toNat := by
      simp [pending, start, copyWeight]
    rw [← hweight]
    exact flood_le_pending hD hstart h
  · intro es h
    exact ⟨broadcasts_le_one hstart h, sends_le_degrees hstart h⟩
  · intro es h
    exact always_losesHop hstart h

end Flood
end Federation
end Zeta
