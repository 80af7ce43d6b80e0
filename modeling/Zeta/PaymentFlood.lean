import Zeta.Federation
import Zeta.Tokens
import Zeta.SamplePlatform
import Mathlib.Data.Set.Finite.Lattice

/-!
# How far a payment travels

A `Payment` or `PaymentAck` carries no hop limit, and the relays keep no trace of
it: what a relay sends depends only on its map of peers, on the destination id and
on the address the datagram came from.  The relays therefore route it along the
edges of a fixed graph (`Hop`), and its flood ends exactly when no cycle of that
graph can be reached from where it entered (`routed_flood_ends_iff`).
-/

namespace Zeta

/-- The messages that `handle_message` routes by destination id. -/
inductive Routed where
  | payment (p : Payment)
  | paymentAck (a : PaymentAck)

/-- The message. -/
def Routed.msg : Routed → Message
  | .payment p => .payment p
  | .paymentAck a => .paymentAck a

/-- The id it is routed to: `dst_id` or `to_id`. -/
def Routed.dstId : Routed → String
  | .payment p => p.dstId
  | .paymentAck a => a.toId

/-- The addresses a relay with these peers sends a message for `dstId` on to, when it
comes from `sender`. -/
def route (peers : PeersMap) (sender : SocketAddr) (dstId : String) : List SocketAddr :=
  match findPeer peers dstId with
  | some addr => [addr]
  | none => broadcastTo peers sender

theorem relayTo_sends (dstId : String) (msg : Message) (sender : SocketAddr) (s : RelayState) :
    (relayTo dstId msg sender s).sends =
      (route s.peers sender dstId).map (fun addr => (addr, msg)) := by
  unfold relayTo route
  cases findPeer s.peers dstId <;> rfl

/-- A relay sends only to its peers. -/
theorem mem_keys_of_mem_route {peers : PeersMap} {sender a : SocketAddr} {dstId : String}
    (h : a ∈ route peers sender dstId) : a ∈ peers.keys := by
  unfold route at h
  cases hf : findPeer peers dstId with
  | none =>
    rw [hf] at h
    exact List.mem_of_mem_filter h
  | some addr =>
    rw [hf] at h
    rw [List.mem_singleton.mp h]
    obtain ⟨e, he, rfl⟩ := Option.map_eq_some_iff.mp hf
    exact List.mem_map.mpr ⟨e, List.mem_of_find?_eq_some he, rfl⟩

namespace Federation
variable {κ : Type} (P : Platform) (F : Federation κ) (relays : κ → RelayState) (x : Routed)

/-- A message arriving at relay `h.2` from the address `h.1` makes that relay send it
on to relay `h'.2`, where it arrives from the address `h'.1`. -/
def Hop (dstId : String) (h h' : SocketAddr × κ) : Prop :=
  h'.1 = F.addr h.2 ∧ F.addr h'.2 ∈ route (relays h.2).peers h.1 dstId

instance (dstId : String) (h h' : SocketAddr × κ) : Decidable (F.Hop relays dstId h h') :=
  inferInstanceAs (Decidable (_ ∧ _))

/-- The datagram that arrives at relay `h.2` from the address `h.1`. -/
def arriving (h : SocketAddr × κ) : Datagram := ⟨h.1, F.addr h.2, x.msg⟩

/-- What a routed message makes the relays send, as the offspring of a token. -/
def offspring (d : Datagram) : Multiset Datagram := F.emitted P relays d

variable {P F relays x}

theorem handleMessage_routed (x : Routed) (sender : SocketAddr) (s : RelayState) :
    handleMessage P x.msg sender s = relayTo x.dstId x.msg sender s := by
  cases x <;> rfl

theorem arriving_injective : Function.Injective (F.arriving x) := by
  rintro ⟨a, r⟩ ⟨a', r'⟩ h
  simp only [arriving, Datagram.mk.injEq] at h
  rw [h.1, F.addr_injective h.2.1]

theorem mem_offspring {d u : Datagram} (hd : d.msg = x.msg) :
    u ∈ F.offspring P relays d ↔
      ∃ r, F.relayAt d.dst = some r ∧ u.src = F.addr r ∧ u.msg = x.msg ∧
        u.dst ∈ route (relays r).peers d.src x.dstId := by
  unfold offspring emitted
  cases hr : F.relayAt d.dst with
  | none => simp
  | some r =>
    simp only [packets, hd, handleMessage_routed, relayTo_sends, List.map_map, Multiset.mem_coe,
      List.mem_map, Function.comp, Option.some.injEq, exists_eq_left']
    constructor
    · rintro ⟨a, ha, rfl⟩
      exact ⟨rfl, rfl, ha⟩
    · rintro ⟨hsrc, hmsg, hdst⟩
      exact ⟨u.dst, hdst, by rw [← hsrc, ← hmsg]⟩

/-- A hop is an edge between the datagrams that arrive. -/
theorem edge_of_hop {h h' : SocketAddr × κ} (hop : F.Hop relays x.dstId h h') :
    Tokens.Edge (F.offspring P relays) (F.arriving x h) (F.arriving x h') :=
  (mem_offspring rfl).mpr ⟨h.2, F.relayAt_addr h.2, hop.1, rfl, hop.2⟩

/-- An edge from a datagram arriving at a relay is a hop, or leaves the relays. -/
theorem hop_of_edge {h : SocketAddr × κ} {u : Datagram}
    (he : Tokens.Edge (F.offspring P relays) (F.arriving x h) u) :
    u.msg = x.msg ∧
      (F.relayAt u.dst = none ∨ ∃ h', u = F.arriving x h' ∧ F.Hop relays x.dstId h h') := by
  obtain ⟨r, hr, hsrc, hmsg, hdst⟩ := (mem_offspring (x := x) rfl).mp he
  rw [arriving, relayAt_addr, Option.some.injEq] at hr
  subst hr
  refine ⟨hmsg, ?_⟩
  cases hu : F.relayAt u.dst with
  | none => exact Or.inl rfl
  | some r' =>
    have haddr := (F.relayAt_eq_some_iff _ _).mp hu
    refine Or.inr ⟨(u.src, r'), ?_, hsrc, by rw [haddr]; exact hdst⟩
    rw [arriving, haddr, ← hmsg]

/-- A datagram that leaves the relays has no offspring. -/
theorem not_edge_of_left {d u : Datagram} (hd : F.relayAt d.dst = none) :
    ¬ Tokens.Edge (F.offspring P relays) d u := by
  intro he
  simp [Tokens.Edge, offspring, emitted, hd] at he

/-- Paths of datagrams are paths of hops, unless they have left the relays. -/
theorem path_of_transGen {h : SocketAddr × κ} {u : Datagram}
    (hp : Relation.TransGen (Tokens.Edge (F.offspring P relays)) (F.arriving x h) u) :
    F.relayAt u.dst = none ∨
      ∃ h', u = F.arriving x h' ∧ Relation.TransGen (F.Hop relays x.dstId) h h' := by
  induction hp with
  | single he =>
    rcases (hop_of_edge he).2 with hleft | ⟨h', rfl, hop⟩
    · exact Or.inl hleft
    · exact Or.inr ⟨h', rfl, .single hop⟩
  | tail _ he ih =>
    rcases ih with hleft | ⟨h', rfl, hpath⟩
    · exact absurd he (not_edge_of_left hleft)
    · rcases (hop_of_edge he).2 with hleft | ⟨h'', rfl, hop⟩
      · exact Or.inl hleft
      · exact Or.inr ⟨h'', rfl, hpath.tail hop⟩

variable (P F relays x) in
theorem transGen_of_path {h h' : SocketAddr × κ}
    (hp : Relation.TransGen (F.Hop relays x.dstId) h h') :
    Relation.TransGen (Tokens.Edge (F.offspring P relays)) (F.arriving x h) (F.arriving x h') :=
  Relation.TransGen.lift (F.arriving x) (fun _ _ => edge_of_hop) _ _ hp

/-- A cycle of datagrams is a cycle of hops. -/
theorem cycle_iff {h : SocketAddr × κ} :
    Relation.TransGen (Tokens.Edge (F.offspring P relays)) (F.arriving x h) (F.arriving x h) ↔
      Relation.TransGen (F.Hop relays x.dstId) h h := by
  constructor
  · intro hp
    rcases path_of_transGen hp with hleft | ⟨h', he, hpath⟩
    · simp [arriving] at hleft
    · rwa [← arriving_injective he] at hpath
  · exact transGen_of_path P F relays x

/-- A reachable cycle of datagrams is a reachable cycle of hops. -/
theorem acyclic_iff {h₀ : SocketAddr × κ} :
    (∀ u, Relation.ReflTransGen (Tokens.Edge (F.offspring P relays)) (F.arriving x h₀) u →
        ¬ Relation.TransGen (Tokens.Edge (F.offspring P relays)) u u) ↔
      ∀ h, Relation.ReflTransGen (F.Hop relays x.dstId) h₀ h →
        ¬ Relation.TransGen (F.Hop relays x.dstId) h h := by
  constructor
  · intro hac h hreach hcycle
    exact hac _ (Relation.ReflTransGen.lift (F.arriving x) (fun _ _ => edge_of_hop) _ _ hreach)
      (cycle_iff.mpr hcycle)
  · intro hac u hreach hcycle
    rcases Relation.reflTransGen_iff_eq_or_transGen.mp hreach with rfl | hpath
    · exact hac h₀ .refl (cycle_iff.mp hcycle)
    · rcases path_of_transGen hpath with hleft | ⟨h, rfl, hhops⟩
      · -- A datagram that has left the relays lies on no cycle.
        obtain ⟨v, hv, -⟩ := Relation.TransGen.head'_iff.mp hcycle
        exact not_edge_of_left hleft hv
      · exact hac h hhops.to_reflTransGen (cycle_iff.mp hcycle)

/-- Finitely many relays can put only finitely many different copies of a message
on the network. -/
theorem finite_copies [Fintype κ] (h₀ : SocketAddr × κ) :
    {u | Relation.ReflTransGen (Tokens.Edge (F.offspring P relays))
      (F.arriving x h₀) u}.Finite := by
  -- Whatever is sent on goes from a relay to one of its peers.
  let copies : Set Datagram :=
    ⋃ r, (fun a => (⟨F.addr r, a, x.msg⟩ : Datagram)) '' {a | a ∈ (relays r).peers.keys}
  have hcopies : copies.Finite :=
    Set.finite_iUnion (fun r => (List.finite_toSet (relays r).peers.keys).image _)
  refine (hcopies.insert (F.arriving x h₀)).subset ?_
  have hmem : ∀ {d u : Datagram}, d.msg = x.msg →
      Tokens.Edge (F.offspring P relays) d u → u ∈ copies := by
    intro d u hd he
    obtain ⟨r, -, hsrc, hmsg, hdst⟩ := (mem_offspring hd).mp he
    refine Set.mem_iUnion.mpr ⟨r, u.dst, mem_keys_of_mem_route hdst, ?_⟩
    rw [← hsrc, ← hmsg]
  intro u hu
  induction hu with
  | refl => exact Set.mem_insert _ _
  | tail hreach he ih =>
    refine Set.mem_insert_of_mem _ (hmem ?_ he)
    rcases ih with rfl | hin
    · rfl
    · obtain ⟨r, a, -, rfl⟩ := Set.mem_iUnion.mp hin
      rfl

/-! ## The relays simulate the tokens -/

variable [DecidableEq κ]

/-- The relays are those at the start, and only copies of the message are on their
way. -/
def OnlyCopies (relays : κ → RelayState) (x : Routed) (s : FedState κ) : Prop :=
  s.relays = relays ∧ ∀ d ∈ s.inFlight, d.msg = x.msg

theorem relaysAfter_routed {d : Datagram} (hd : d.msg = x.msg) :
    F.relaysAfter P relays d = relays := by
  unfold relaysAfter
  cases F.relayAt d.dst with
  | none => rfl
  | some r =>
    dsimp only
    rw [hd, handleMessage_routed, relayTo_state, Function.update_eq_self]

variable (P F relays x) in
/-- **Refinement.**  Relays that route one message fire tokens. -/
theorem mapsTo_tokens :
    (F.system P).MapsTo (Tokens.system (F.offspring P relays)) FedState.inFlight
      (OnlyCopies relays x) where
  invariant := by
    rintro s d ⟨hrelays, hcopies⟩ hd
    have hmsg := hcopies d hd
    refine ⟨by rw [← hrelays]; exact relaysAfter_routed hmsg, ?_⟩
    intro u hu
    rcases Multiset.mem_add.mp hu with hu | hu
    · exact hcopies u (Multiset.mem_of_mem_erase hu)
    · obtain ⟨-, -, -, hu, -⟩ := (mem_offspring (P := P) (F := F) hmsg).mp hu
      exact hu
  enabled_iff := fun _ _ _ => Iff.rfl
  next_eq := by
    rintro s d ⟨rfl, -⟩ -
    rfl

variable (P F relays x) in
theorem floodEnds_iff_terminates (h₀ : SocketAddr × κ) :
    F.FloodEnds P ⟨relays, {F.arriving x h₀}⟩ ↔
      Tokens.Terminates (F.offspring P relays) {F.arriving x h₀} := by
  have hstart : OnlyCopies relays x ⟨relays, {F.arriving x h₀}⟩ :=
    ⟨rfl, fun d hd => by rw [Multiset.mem_singleton.mp hd]; rfl⟩
  have hsim := mapsTo_tokens P F relays x
  have hsum : ∀ ds, (F.system P).Always (fun _ _ => True) ⟨relays, {F.arriving x h₀}⟩ ds →
      (F.system P).sumAlong (F.sentOn P) ⟨relays, {F.arriving x h₀}⟩ ds =
        (Tokens.system (F.offspring P relays)).sumAlong
          (fun _ d => (F.offspring P relays d).card) {F.arriving x h₀} ds := by
    intro ds hds
    apply hsim.sumAlong_eq _ hstart hds
    rintro s d ⟨rfl, -⟩ -
    rfl
  constructor
  · rintro ⟨N, hN⟩
    refine ⟨N + N, ?_⟩
    intro ds hds
    have hds' := (hsim.always_iff hstart).mpr hds
    obtain ⟨hlen, hsent⟩ := hN ds hds'
    rw [hsum ds hds'] at hsent
    omega
  · rintro ⟨N, hN⟩
    refine ⟨N, ?_⟩
    intro ds hds
    have hle := hN ds ((hsim.always_iff hstart).mp hds)
    rw [hsum ds hds]
    omega

/-- **When the flood of a payment or acknowledgement ends.**  Injected at a relay
from any address, it ends, whatever the order of delivery, if and only if no cycle
of hops is reachable from there. -/
theorem routed_flood_ends_iff [Fintype κ] (P : Platform) (F : Federation κ)
    (relays : κ → RelayState) (x : Routed) (client : SocketAddr) (r : κ) :
    F.FloodEnds P ⟨relays, {⟨client, F.addr r, x.msg⟩}⟩ ↔
      ∀ h, Relation.ReflTransGen (F.Hop relays x.dstId) (client, r) h →
        ¬ Relation.TransGen (F.Hop relays x.dstId) h h := by
  rw [← acyclic_iff (P := P), ← Tokens.terminates_iff (finite_copies (client, r))]
  exact floodEnds_iff_terminates P F relays x (client, r)

/-! ## A ring of three relays -/

/-- Relay `i` listens at `10.0.0.i:12345`. -/
def ringAddr (i : Fin 3) : SocketAddr := .v4 (0x0A000000 + BitVec.ofNat 32 i) 12345

/-- Three relays. -/
def ring : Federation (Fin 3) := ofInjective ringAddr (by decide)

/-- The entry a relay leaves in the map of another when it registers there. -/
def ringPeer (i : Fin 3) : Sigma (fun _ : SocketAddr => PeerInfo) :=
  ⟨ringAddr i, { peerId := "relay:r", lastSeen := 0, btcAddress := none }⟩

/-- Each relay is registered with the other two. -/
def ringRelays (i : Fin 3) : RelayState where
  peers :=
    { entries := [ringPeer (i + 1), ringPeer (i + 2)]
      nodupKeys :=
        (by decide : ∀ i, (List.keys [ringPeer (i + 1), ringPeer (i + 2)]).Nodup) i }
  seen := SeenIds.new 10000

/-- A payment to an id that is registered nowhere. -/
def lostPayment : Routed :=
  .payment { srcId := "alice", dstId := "nobody", amount := 5, paymentId := 1 }

/-- Sent by a client to one relay of a ring of three, a payment nobody is registered
for circulates for ever. -/
theorem ring_flood_never_ends :
    ¬ ring.FloodEnds samplePlatform
      ⟨ringRelays, {⟨.v4 0x0A000064 40000, ringAddr 0, lostPayment.msg⟩}⟩ := by
  have hstart : ring.Hop ringRelays "nobody" (.v4 0x0A000064 40000, 0) (ringAddr 0, 1) := by decide
  have h01 : ring.Hop ringRelays "nobody" (ringAddr 0, 1) (ringAddr 1, 2) := by decide
  have h12 : ring.Hop ringRelays "nobody" (ringAddr 1, 2) (ringAddr 2, 0) := by decide
  have h20 : ring.Hop ringRelays "nobody" (ringAddr 2, 0) (ringAddr 0, 1) := by decide
  intro hends
  -- Three hops lead back, so a run of more than `N` deliveries exists for every `N`.
  obtain ⟨N, hN⟩ := (floodEnds_iff_terminates samplePlatform ring ringRelays lostPayment
    (.v4 0x0A000064 40000, 0)).mp hends
  have hcycle := transGen_of_path samplePlatform ring ringRelays lostPayment
    ((Relation.TransGen.single h01).tail h12 |>.tail h20)
  obtain ⟨ds, hlen, hds⟩ := Tokens.exists_run_of_cycle hcycle (N + 1)
    (Multiset.mem_singleton_self _) (.single (edge_of_hop hstart))
  have hle := hN ds hds
  omega

end Federation
end Zeta
