import Zeta.Stun
import Mathlib.Data.List.AList
import Mathlib.Data.List.MinMax

/-!
# The verdict of several servers

`nat_detect_with_servers` asks all servers at once, each in a task of its own, and makes one
verdict of theirs: the type of the greatest weight, and the last address that is not empty.
The two belong together exactly if this address was also reported with that type
(`coherent_iff`).
-/

namespace Zeta

/-- What the handle of a task gives: an error if the task was lost, or what `nat_detect` has
returned. -/
inductive Joined where
  | lost
  | finished (result : Option (String × SocketAddr × NatType))
  deriving DecidableEq

/-- `HashMap<NatType, usize>`. -/
abbrev ReduceMap := AList (fun _ : NatType => ℕ)

/-- `reduce_map.entry(n).and_modify(..).or_insert(1)`. -/
def ReduceMap.count (map : ReduceMap) (n : NatType) : ReduceMap :=
  map.insert n ((map.lookup n).elim 1 (· + 1))

/-- The order in which the keys of a map are visited, of which Rust promises nothing. -/
structure KeyOrder where
  keys : ReduceMap → List NatType
  perm : ∀ map, (keys map).Perm map.keys

/-- The variables of the loop. -/
structure Collected where
  publicAddress : SocketAddr
  reduceMap : ReduceMap

/-- The verdict of one server is taken in. -/
def Collected.add (c : Collected) (p : SocketAddr) (n : NatType) : Collected where
  publicAddress := if emptyAddress ≠ p then p else c.publicAddress
  reduceMap := c.reduceMap.count n

/-- Before the loop. -/
def Collected.start : Collected := ⟨emptyAddress, ∅⟩

/-- The loop over the handles. -/
def collect : List Joined → Collected → Option Collected
  | [], c => some c
  | .lost :: _, _ => none
  | .finished (some (_, p, n)) :: handlers, c => collect handlers (c.add p n)
  | .finished none :: handlers, c => collect handlers c

/-- `nat_detect_with_servers`, with the address of the host, if it has one, and what the tasks
give that are spawned with it.  The weights of two types differ, so `max_by` has no choice. -/
def natDetectWithServers (order : KeyOrder) (localAddress : Option SocketAddr)
    (handlers : SocketAddr → List Joined) : Option (NatType × SocketAddr) :=
  match localAddress with
  | none => none
  | some localAddress =>
    match collect (handlers localAddress) .start with
    | none => none
    | some c =>
      match (order.keys c.reduceMap).argmax NatType.weight with
      | some n => some (n, c.publicAddress)
      | none => none

/-! ## Coherence -/

/-- What a server has reported. -/
def Joined.verdict : Joined → Option (SocketAddr × NatType)
  | .finished (some (_, p, n)) => some (p, n)
  | _ => none

/-- What the servers have reported, in their order. -/
def verdicts (handlers : List Joined) : List (SocketAddr × NatType) :=
  handlers.filterMap Joined.verdict

/-- The verdicts are taken in one by one. -/
def Collected.addAll (c : Collected) (vs : List (SocketAddr × NatType)) : Collected :=
  vs.foldl (fun c v => c.add v.1 v.2) c

/-- No type that was reported has a greater weight. -/
def Heaviest (vs : List (SocketAddr × NatType)) (n : NatType) : Prop :=
  ∀ v ∈ vs, v.2.weight ≤ n.weight

/-- **A coherent verdict**: the heaviest type that was reported, with an address that was
reported with it, and not with the empty one if there is another. -/
def Coherent (handlers : List Joined) (r : Option (NatType × SocketAddr)) : Prop :=
  ∃ n p, r = some (n, p) ∧ Heaviest (verdicts handlers) n ∧ (p, n) ∈ verdicts handlers ∧
    (p = emptyAddress → ∀ q, (q, n) ∈ verdicts handlers → q = emptyAddress)

/-- The address that is reported last, of those that are not empty, is also reported with the
heaviest type. -/
def LastWithHeaviest (vs : List (SocketAddr × NatType)) : Prop :=
  ∀ pre p n post, vs = pre ++ (p, n) :: post → p ≠ emptyAddress →
    (∀ v ∈ post, v.1 = emptyAddress) → ∃ m, (p, m) ∈ vs ∧ Heaviest vs m

variable {vs : List (SocketAddr × NatType)} {handlers : List Joined} {c : Collected}

theorem weight_injective : Function.Injective NatType.weight := by
  intro n m h
  cases n <;> cases m <;> first | rfl | cases h

/-! ## The loop -/

/-- **The loop takes in the verdicts in their order**, unless a task was lost. -/
theorem collect_eq (h : Joined.lost ∉ handlers) :
    collect handlers c = some (c.addAll (verdicts handlers)) := by
  induction handlers generalizing c with
  | nil => rfl
  | cons j handlers ih =>
    have hrest : Joined.lost ∉ handlers := fun hmem => h (List.mem_cons_of_mem j hmem)
    match j with
    | .lost => exact absurd List.mem_cons_self h
    | .finished none => exact ih hrest
    | .finished (some (_, p, n)) => exact ih hrest

theorem collect_of_lost (h : Joined.lost ∈ handlers) : collect handlers c = none := by
  induction handlers generalizing c with
  | nil => cases h
  | cons j handlers ih =>
    match j with
    | .lost => rfl
    | .finished none => exact ih (by simpa using h)
    | .finished (some (_, p, n)) => exact ih (by simpa using h)

@[simp] theorem addAll_nil : c.addAll [] = c := rfl

@[simp] theorem addAll_cons {v : SocketAddr × NatType} :
    c.addAll (v :: vs) = (c.add v.1 v.2).addAll vs := rfl

theorem addAll_append {vs' : List (SocketAddr × NatType)} :
    c.addAll (vs ++ vs') = (c.addAll vs).addAll vs' := List.foldl_append

/-- The types of the map are those that were reported. -/
theorem mem_reduceMap {n : NatType} :
    n ∈ (c.addAll vs).reduceMap ↔
      n ∈ c.reduceMap ∨ ∃ p, (p, n) ∈ vs := by
  induction vs generalizing c with
  | nil => simp
  | cons v vs ih =>
    obtain ⟨q, m⟩ := v
    rw [addAll_cons, ih, Collected.add, ReduceMap.count, AList.mem_insert]
    constructor
    · rintro ((rfl | hold) | ⟨p, hp⟩)
      · exact Or.inr ⟨q, List.mem_cons_self⟩
      · exact Or.inl hold
      · exact Or.inr ⟨p, List.mem_cons_of_mem _ hp⟩
    · rintro (hold | ⟨p, hp⟩)
      · exact Or.inl (Or.inr hold)
      · rcases List.mem_cons.mp hp with heq | hp
        · exact Or.inl (Or.inl (congrArg Prod.snd heq))
        · exact Or.inr ⟨p, hp⟩

/-- Empty addresses are not taken in. -/
theorem publicAddress_of_empty (h : ∀ v ∈ vs, v.1 = emptyAddress) :
    (c.addAll vs).publicAddress = c.publicAddress := by
  induction vs generalizing c with
  | nil => rfl
  | cons v vs ih =>
    rw [addAll_cons, ih fun v hv => h v (List.mem_cons_of_mem _ hv)]
    exact if_neg fun hne => hne (h v List.mem_cons_self).symm

/-- The last address that is not empty stays. -/
theorem publicAddress_append {pre post : List (SocketAddr × NatType)} {p : SocketAddr}
    {n : NatType} (hp : p ≠ emptyAddress) (hpost : ∀ v ∈ post, v.1 = emptyAddress) :
    (c.addAll (pre ++ (p, n) :: post)).publicAddress = p := by
  rw [addAll_append, addAll_cons, publicAddress_of_empty hpost]
  exact if_pos hp.symm

/-- Either there is a last address that is not empty, or all are empty. -/
theorem exists_last_address (vs : List (SocketAddr × NatType)) :
    (∃ pre p n post, vs = pre ++ (p, n) :: post ∧ p ≠ emptyAddress ∧
        ∀ v ∈ post, v.1 = emptyAddress) ∨
      ∀ v ∈ vs, v.1 = emptyAddress := by
  induction vs with
  | nil => exact Or.inr (by simp)
  | cons v vs ih =>
    rcases ih with ⟨pre, p, n, post, rfl, hp, hpost⟩ | hall
    · exact Or.inl ⟨v :: pre, p, n, post, rfl, hp, hpost⟩
    · by_cases hv : v.1 = emptyAddress
      · exact Or.inr (List.forall_mem_cons.mpr ⟨hv, hall⟩)
      · exact Or.inl ⟨[], v.1, v.2, vs, rfl, hv, hall⟩

/-! ## The verdict -/

/-- **What is returned**: the heaviest type, and the address that the loop ends with. -/
theorem natDetectWithServers_eq (order : KeyOrder) {localAddress : SocketAddr}
    {spawned : SocketAddr → List Joined} (hlost : Joined.lost ∉ spawned localAddress)
    (hne : verdicts (spawned localAddress) ≠ []) :
    ∃ n q, natDetectWithServers order (some localAddress) spawned =
        some (n, (Collected.start.addAll (verdicts (spawned localAddress))).publicAddress) ∧
      (q, n) ∈ verdicts (spawned localAddress) ∧
      Heaviest (verdicts (spawned localAddress)) n := by
  have hmem : ∀ n, n ∈ order.keys
      (Collected.start.addAll (verdicts (spawned localAddress))).reduceMap ↔
        ∃ p, (p, n) ∈ verdicts (spawned localAddress) := by
    intro n
    rw [(order.perm _).mem_iff, ← AList.mem_keys, mem_reduceMap]
    exact or_iff_right (AList.notMem_empty n)
  simp only [natDetectWithServers, collect_eq hlost]
  generalize verdicts (spawned localAddress) = vs at hne hmem ⊢
  cases hmax : (order.keys (Collected.start.addAll vs).reduceMap).argmax NatType.weight with
  | none =>
    obtain ⟨v, rest, rfl⟩ := List.exists_cons_of_ne_nil hne
    have hv := (hmem v.2).mpr ⟨v.1, List.mem_cons_self⟩
    rw [List.argmax_eq_none.mp hmax] at hv
    cases hv
  | some n =>
    obtain ⟨q, hq⟩ := (hmem n).mp (List.argmax_mem hmax)
    refine ⟨n, q, rfl, hq, fun v hv => ?_⟩
    exact List.le_of_mem_argmax ((hmem v.2).mpr ⟨v.1, hv⟩) hmax

/-- The address that is returned belongs to the type if it was reported with it. -/
theorem coherent_iff_lastWithHeaviest (order : KeyOrder) {localAddress : SocketAddr}
    {spawned : SocketAddr → List Joined} (hlost : Joined.lost ∉ spawned localAddress)
    (hne : verdicts (spawned localAddress) ≠ []) :
    Coherent (spawned localAddress) (natDetectWithServers order (some localAddress) spawned) ↔
      LastWithHeaviest (verdicts (spawned localAddress)) := by
  obtain ⟨n, q, hreturned, hq, hheaviest⟩ := natDetectWithServers_eq order hlost hne
  rw [Coherent, hreturned]
  generalize verdicts (spawned localAddress) = vs at *
  constructor
  · rintro ⟨n', p', hr, -, hreported, -⟩ pre p m post hvs hp hpost
    cases hr
    refine ⟨n, ?_, hheaviest⟩
    rw [hvs, publicAddress_append hp hpost] at hreported
    rwa [hvs]
  · intro hlast
    rcases exists_last_address vs with ⟨pre, p, m, post, hvs, hp, hpost⟩ | hempty
    · obtain ⟨m', hm', hheaviest'⟩ := hlast pre p m post hvs hp hpost
      have hsame : m' = n :=
        weight_injective (le_antisymm (hheaviest (p, m') hm') (hheaviest' (q, n) hq))
      have haddress : (Collected.start.addAll vs).publicAddress = p := by
        rw [hvs, publicAddress_append hp hpost]
      rw [haddress]
      exact ⟨n, p, rfl, hheaviest, hsame ▸ hm', fun h => absurd h hp⟩
    · rw [publicAddress_of_empty hempty]
      have hqEmpty : q = emptyAddress := hempty (q, n) hq
      exact ⟨n, emptyAddress, rfl, hheaviest, hqEmpty ▸ hq, fun _ _ hq' => hempty _ hq'⟩

/-- **In every order of the servers** the verdict is coherent, if and only if each address
that is not empty was also reported with the heaviest type. -/
theorem coherent_in_every_order_iff (order : KeyOrder) (localAddress : SocketAddr)
    (handlers : List Joined) (hlost : Joined.lost ∉ handlers) (hne : verdicts handlers ≠ []) :
    (∀ handlers' : List Joined, handlers'.Perm handlers →
        Coherent handlers' (natDetectWithServers order (some localAddress) fun _ => handlers')) ↔
      ∀ v ∈ verdicts handlers, v.1 ≠ emptyAddress →
        ∃ m, (v.1, m) ∈ verdicts handlers ∧ Heaviest (verdicts handlers) m := by
  have hmem : ∀ {handlers' : List Joined}, handlers'.Perm handlers →
      ∀ v, v ∈ verdicts handlers' ↔ v ∈ verdicts handlers :=
    fun h v => (h.filterMap Joined.verdict).mem_iff
  have hcoherent : ∀ {handlers' : List Joined}, handlers'.Perm handlers →
      (Coherent handlers' (natDetectWithServers order (some localAddress) fun _ => handlers') ↔
        LastWithHeaviest (verdicts handlers')) := by
    intro handlers' h
    refine @coherent_iff_lastWithHeaviest order localAddress (fun _ => handlers')
      (fun hmem' => hlost (h.mem_iff.mp hmem')) ?_
    obtain ⟨v, hv⟩ := List.exists_mem_of_ne_nil _ hne
    exact List.ne_nil_of_mem ((hmem h v).mpr hv)
  constructor
  · intro hall v hv hp
    -- The server that reported the address is moved to the end.
    obtain ⟨j, hj, hverdict⟩ := List.mem_filterMap.mp hv
    have hperm : (handlers.erase j ++ [j]).Perm handlers :=
      List.perm_append_comm.trans (List.perm_cons_erase hj).symm
    have hlast := (hcoherent hperm).mp (hall _ hperm) (verdicts (handlers.erase j)) v.1 v.2 []
      (by simp [verdicts, hverdict]) hp (by simp)
    obtain ⟨m, hm, hheaviest⟩ := hlast
    exact ⟨m, (hmem hperm _).mp hm, fun u hu => hheaviest u ((hmem hperm u).mpr hu)⟩
  · intro hall handlers' hperm
    rw [hcoherent hperm]
    intro pre p n post hvs hp _
    have hpn : (p, n) ∈ verdicts handlers' := hvs ▸ List.mem_append_right _ List.mem_cons_self
    obtain ⟨m, hm, hheaviest⟩ := hall (p, n) ((hmem hperm _).mp hpn) hp
    exact ⟨m, (hmem hperm _).mpr hm, fun u hu => hheaviest u ((hmem hperm u).mp hu)⟩

/-- **The verdict is coherent if and only if its address was reported with the heaviest
type.**  For all servers and whatever they report, as long as one reports something, and for
every order of the keys: no task is lost, and the last address that is not empty, if there is
one, was also reported with the heaviest type. -/
theorem coherent_iff (order : KeyOrder) (localAddress : SocketAddr)
    (spawned : SocketAddr → List Joined) (hne : verdicts (spawned localAddress) ≠ []) :
    Coherent (spawned localAddress) (natDetectWithServers order (some localAddress) spawned) ↔
      Joined.lost ∉ spawned localAddress ∧
        LastWithHeaviest (verdicts (spawned localAddress)) := by
  by_cases hlost : Joined.lost ∈ spawned localAddress
  · refine iff_of_false ?_ fun h => h.1 hlost
    rintro ⟨n, p, hr, -⟩
    simp only [natDetectWithServers, collect_of_lost hlost] at hr
    cases hr
  · rw [coherent_iff_lastWithHeaviest order hlost hne]
    exact (and_iff_right hlost).symm

/-- The keys as they stand. -/
def sampleKeyOrder : KeyOrder where
  keys map := map.keys
  perm map := List.Perm.refl map.keys

/-- Two servers that do not agree. -/
def disagreeing : List Joined :=
  [.finished (some ("a", .v4 0x01020304 40000, .openInternet)),
    .finished (some ("b", .v4 0x05060708 40001, .symmetric))]

theorem disagreeing_coherent_iff :
    Coherent disagreeing
        (natDetectWithServers sampleKeyOrder (some (.v4 0 0)) fun _ => disagreeing) ↔
      Joined.lost ∉ disagreeing ∧ LastWithHeaviest (verdicts disagreeing) :=
  coherent_iff sampleKeyOrder (.v4 0 0) (fun _ => disagreeing) (List.cons_ne_nil _ _)

/-- **The type of one server may come with the address of another.** -/
theorem address_of_another_verdict :
    ¬ ∀ (order : KeyOrder) (localAddress : SocketAddr) (spawned : SocketAddr → List Joined),
      verdicts (spawned localAddress) ≠ [] →
        Coherent (spawned localAddress)
          (natDetectWithServers order (some localAddress) spawned) := by
  intro h
  obtain ⟨n, p, hr, -, hreported, -⟩ :=
    h sampleKeyOrder (.v4 0 0) (fun _ => disagreeing) (List.cons_ne_nil _ _)
  have hrun : natDetectWithServers sampleKeyOrder (some (.v4 0 0)) (fun _ => disagreeing) =
      some (.openInternet, .v4 0x05060708 40001) := by
    decide +kernel
  rw [hrun] at hr
  cases hr
  revert hreported
  decide +kernel

end Zeta
