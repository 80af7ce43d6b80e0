import Zeta.TextFlood
import Zeta.PaymentFlood
import Zeta.SamplePlatform
import Mathlib.Data.Fintype.Card

/-!
# Which relays a text reaches

A text has sixteen hops, so it could reach every relay within fifteen links of the one it
enters at.  But a relay keeps the copy that comes first and its hops.  One that has come by
a long way around uses them up, and the copy that came straight is dropped.

Whether this can happen is seen on the graph of the relays: it can if and only if a path of
sixteen links, which visits nothing twice, ends at a relay within fifteen
(`reaches_iff`).
-/

namespace Zeta

/-- A client that takes these messages for a text shows the text exactly once, amid whatever
else it does. -/
def ShownOnce (P : Platform) (ctx : ClientContext P.ed) (id : UInt64) (msgs : List Message) :
    Prop :=
  ∀ (s : ClientState) (ts : List TaskEvent), s.receiving = true → id ∉ s.seen.set →
    (running P ctx).Always (Undistracted P ctx id) s ts → ts.filterMap (textIn id) = msgs →
    (running P ctx).sumAlong (displays P ctx id) s ts = 1

namespace Federation

variable {κ : Type} [DecidableEq κ]

/-- In this run the relay broadcasts the text, once, and each client registered with it
shows it once, except the sender. -/
structure Reached (P : Platform) (F : Federation κ) (relays : κ → RelayState) (src : SocketAddr)
    (m : Classic) (start : FedState κ) (es : List (Event κ)) (r : κ) : Prop where
  broadcast : (F.churned P).sumAlong (F.broadcastsBy P r) start es = 1
  shown : ∀ a ∈ (relays r).peers.keys, F.relayAt a = none → a ≠ src →
    ∀ ctx : ClientContext P.ed, ShownOnce P ctx m.msgId (inbox a es)

/-- A relay within fifteen links of one to which the text is sent. -/
def Near (F : Federation κ) (relays : κ → RelayState) (entries : List SocketAddr) (r : κ) :
    Prop :=
  ∃ a ∈ entries, Within (F.Links relays) a 15 (F.addr r)

/-- The relays, and a text that a client has just sent them. -/
def sayStart (P : Platform) (relays : κ → RelayState) (ctx : ClientContext P.ed)
    (s : ClientState) (now msgId : UInt64) (text : String) (src : SocketAddr) : FedState κ where
  relays := relays
  inFlight := ↑(packets src (sendMsg P ctx now msgId text s).2)

/-- The client sends a text.  However its copies are delivered, amid other traffic: if none
is lost, and no relay forgets its id, it reaches every relay within fifteen links. -/
def Reaches (P : Platform) (F : Federation κ) (relays : κ → RelayState)
    (ctx : ClientContext P.ed) (s : ClientState) (now msgId : UInt64) (text : String)
    (src : SocketAddr) : Prop :=
  let start := sayStart P relays ctx s now msgId text src
  ∀ es, (F.churned P).Always (Calm msgId) start es →
    ((F.churned P).run start es).inFlight = 0 →
    ∀ r, F.Near relays ctx.relayAddrs r →
      Reached P F relays src (classicOf P ctx now msgId text s) start es r

variable {P : Platform} {F : Federation κ} {relays : κ → RelayState} {src : SocketAddr}
  {m : Classic} {A : FloodState SocketAddr} {start : FedState κ} {es : List (Event κ)}

/-- A client to which the flood brings the text shows it once. -/
theorem shownOnce_of_heard (h : Tracks P F relays m start A es)
    (hv : verify P.ed m.publicKey m.srcId m.txt m.time m.msgId m.signature = true)
    {a : SocketAddr} (ha : A.heard a ≠ none) (ctx : ClientContext P.ed) :
    ShownOnce P ctx m.msgId (inbox a es) := by
  intro s ts hrun hnew hts heq
  have hne : inbox a es ≠ [] := fun hnil => ha ((h.heard a).mpr hnil)
  have hvalid : ∀ m', .classic m' ∈ ts.filterMap (textIn m.msgId) →
      verify P.ed m'.publicKey m'.srcId m'.txt m'.time m'.msgId m'.signature = true := by
    intro m' hm'
    rw [heq] at hm'
    obtain ⟨k, hk⟩ := h.inbox a _ hm'
    rw [Message.classic.inj hk]
    exact hv
  rw [sum_displays hrun hts hvalid, heq, if_neg (not_or.mpr ⟨hnew, hne⟩)]

omit [DecidableEq κ] in
theorem relayAt_addr_ne_none (r : κ) : F.relayAt (F.addr r) ≠ none := by
  rw [relayAt_addr]
  exact Option.some_ne_none r

/-- Where a path uses up the hops on the way to a relay that is near, some order starves
it. -/
theorem no_trail_of_reaches {ctx : ClientContext P.ed} {s : ClientState} {now msgId : UInt64}
    {text : String} (hE : P.ed.Correct) (hsrc : F.relayAt src = none)
    (hnew : ∀ r, msgId ∉ (relays r).seen.set)
    (h : Reaches P F relays ctx s now msgId text src) {r : κ}
    (hnear : F.Near relays ctx.relayAddrs r) :
    ¬ ∃ a ∈ ctx.relayAddrs, ∃ l, Trail (F.Links relays) a (F.addr r :: l) ∧ l.length = 16 := by
  intro htrail
  obtain ⟨cs, hcs, hend, hno⟩ := FloodGraph.exists_run_starving
    (G := F.floodGraph relays src hsrc ctx.relayAddrs) (relayAt_addr_ne_none r) ⟨hnear, htrail⟩
  obtain ⟨es, hes, htracks⟩ := exists_run_of_flood (Calm msgId)
    (verify_classicOf hE ctx now msgId text s) rfl hnew
    (fun _ _ _ _ _ _ => trivial) hcs
  have hdone : ((F.churned P).run (sayStart P relays ctx s now msgId text src) es).inFlight =
      0 := by
    show ((F.churned P).run (textStart relays src (classicOf P ctx now msgId text s)
      ctx.relayAddrs) es).inFlight = 0
    rw [htracks.mirrors.inFlight, hend]
    rfl
  have hone := (h es hes hdone r hnear).broadcast
  exact hno (passes_eq_one_iff.mp ((htracks.broadcasts r).symm.trans hone))

/-- Where no path does, every order reaches all of them. -/
theorem reaches_of_no_trail {ctx : ClientContext P.ed} {s : ClientState} {now msgId : UInt64}
    {text : String} (hE : P.ed.Correct) (hsrc : F.relayAt src = none)
    (hnew : ∀ r, msgId ∉ (relays r).seen.set)
    (hno : ∀ r, F.Near relays ctx.relayAddrs r → ¬ ∃ a ∈ ctx.relayAddrs, ∃ l,
      Trail (F.Links relays) a (F.addr r :: l) ∧ l.length = 16) :
    Reaches P F relays ctx s now msgId text src := by
  let G := F.floodGraph relays src hsrc ctx.relayAddrs
  have hv := verify_classicOf hE ctx now msgId text s
  intro es hes hdone r hnear
  obtain ⟨cs, hcs, htracks⟩ := exists_flood (fun _ _ => True) hsrc hv rfl hnew
    (fun _ _ h => h) (fun _ _ _ _ _ _ => trivial) hes
  have hend : (G.system.run G.start cs).inFlight = 0 :=
    Multiset.map_eq_zero.mp (htracks.mirrors.inFlight.symm.trans hdone)
  have hstarved : ∀ v, G.Forwards v → ¬ G.Starved v := by
    rintro v hforwards ⟨hwithin, htrail⟩
    obtain ⟨r', hr'⟩ := Option.ne_none_iff_exists'.mp hforwards
    obtain rfl := (F.relayAt_eq_some_iff _ _).mp hr'
    exact hno r' hwithin htrail
  have hpassed : FloodGraph.Passed (G.system.run G.start cs) (F.addr r) :=
    FloodGraph.passed_iff_not_starved.mpr hstarved cs hcs hend _ (relayAt_addr_ne_none r) hnear
  refine ⟨(htracks.broadcasts r).trans (passes_eq_one_iff.mpr hpassed), fun a ha _ hne => ?_⟩
  have hedge : G.Edge (F.addr r) a := by
    show a ∈ F.successors relays (F.addr r)
    rw [successors_of_relayAt (F.relayAt_addr r)]
    exact ha
  exact shownOnce_of_heard htracks hv
    (FloodGraph.heard_of_passed (FloodGraph.spread_of_run hcs) hend hpassed hedge hne)

omit [DecidableEq κ] in
/-- All nodes of a path that ends at a relay are relays. -/
theorem exists_addr_of_mem_trail {a x : SocketAddr} {r : κ} {l : List SocketAddr}
    (h : Trail (F.Links relays) a (F.addr r :: l)) (hx : x ∈ F.addr r :: l) :
    ∃ r', F.addr r' = x := by
  rcases List.mem_cons.mp hx with rfl | hmem
  · exact ⟨r, rfl⟩
  · obtain ⟨y, hy⟩ := h.exists_edge hmem
    have hy : y ∈ F.successors relays x := hy
    cases hr : F.relayAt x with
    | none =>
      rw [successors, hr] at hy
      cases hy
    | some r' => exact ⟨r', (F.relayAt_eq_some_iff _ _).mp hr⟩

omit [DecidableEq κ] in
/-- A path among relays has fewer links than there are relays. -/
theorem length_trail_lt [Fintype κ] {a : SocketAddr} {r : κ} {l : List SocketAddr}
    (h : Trail (F.Links relays) a (F.addr r :: l)) : l.length < Fintype.card κ := by
  have hsub : (F.addr r :: l).toFinset ⊆ Finset.univ.image F.addr := by
    intro x hx
    obtain ⟨r', rfl⟩ := exists_addr_of_mem_trail h (List.mem_toFinset.mp hx)
    exact Finset.mem_image_of_mem _ (Finset.mem_univ r')
  calc l.length + 1 = (F.addr r :: l).toFinset.card :=
        (List.toFinset_card_of_nodup h.nodup).symm
    _ ≤ (Finset.univ.image F.addr).card := Finset.card_le_card hsub
    _ ≤ Fintype.card κ := Finset.card_image_le

/-- Among sixteen relays, or fewer, every order reaches all of them. -/
theorem reaches_of_card_le [Fintype κ] {ctx : ClientContext P.ed} {s : ClientState}
    {now msgId : UInt64} {text : String} (hcard : Fintype.card κ ≤ 16) (hE : P.ed.Correct)
    (hsrc : F.relayAt src = none) (hnew : ∀ r, msgId ∉ (relays r).seen.set) :
    Reaches P F relays ctx s now msgId text src := by
  refine reaches_of_no_trail hE hsrc hnew ?_
  rintro r - ⟨a, -, l, htrail, hlen⟩
  have hlt := length_trail_lt htrail
  omega

/-- **A text reaches every relay within fifteen links, in every order, if and only if no
path of sixteen links that visits nothing twice ends at one of them.**  This is so whoever
is registered with whom, for every client, text and set of relays it is sent to, amid any
other traffic that does not touch its id. -/
theorem reaches_iff (P : Platform) (hE : P.ed.Correct) (F : Federation κ)
    (relays : κ → RelayState) (ctx : ClientContext P.ed) (s : ClientState)
    (now msgId : UInt64) (text : String) (src : SocketAddr) (hsrc : F.relayAt src = none)
    (hnew : ∀ r, msgId ∉ (relays r).seen.set) :
    Reaches P F relays ctx s now msgId text src ↔
      ∀ r, F.Near relays ctx.relayAddrs r →
        ¬ ∃ a ∈ ctx.relayAddrs, ∃ l,
          Trail (F.Links relays) a (F.addr r :: l) ∧ l.length = 16 :=
  ⟨fun h _ hnear => no_trail_of_reaches hE hsrc hnew h hnear,
    fun hno => reaches_of_no_trail hE hsrc hnew hno⟩

/-- In a ring of three relays alice's text reaches all. -/
theorem reaches_ring :
    samplePlatform.ed.Correct ∧ ring.relayAt (.v4 1 40000) = none ∧
    (∀ r, 7 ∉ (ringRelays r).seen.set) ∧
    Reaches samplePlatform ring ringRelays alice (aliceStart 5) 0 7 "hello" (.v4 1 40000) := by
  have hsrc : ring.relayAt (.v4 1 40000) = none := by decide +kernel
  have hnew : ∀ r, 7 ∉ (ringRelays r).seen.set := by decide +kernel
  refine ⟨checksumScheme_correct, hsrc, hnew, ?_⟩
  refine (reaches_iff samplePlatform checksumScheme_correct ring ringRelays alice (aliceStart 5)
    0 7 "hello" (.v4 1 40000) hsrc hnew).mpr ?_
  rintro r - ⟨a, -, l, htrail, hlen⟩
  have hlt := length_trail_lt htrail
  rw [hlen] at hlt
  exact absurd hlt (by decide)

/-! ## A ring of relays -/

/-- The address of the relay with this number. -/
def longRingAddr (n : ℕ) : SocketAddr := .v4 (BitVec.ofNat 32 (0x0A000001 + n)) 12345

/-- Seventeen relays. -/
def longRing : Federation (Fin 17) :=
  ofInjective (fun r => longRingAddr r.val) (by decide +kernel)

/-- Each is registered with its two neighbours; alice is registered with the first, and bob
with the last. -/
def longRingRelays (r : Fin 17) : RelayState where
  peers :=
    let info : PeerInfo := { peerId := "relay:relay", lastSeen := 0, btcAddress := none }
    let neighbours : PeersMap :=
      ((∅ : PeersMap).insert (longRingAddr ((r.val + 1) % 17)) info).insert
        (longRingAddr ((r.val + 16) % 17)) info
    if r.val = 0 then neighbours.insert (.v4 1 40000) { info with peerId := "alice" }
    else if r.val = 16 then neighbours.insert (.v4 2 40000) { info with peerId := "bob" }
    else neighbours
  seen := SeenIds.new 10000

/-- Alice's text goes around the ring, and comes to the last relay without hops left before
it comes there from the first. -/
def longRingRun : List (Event (Fin 17)) :=
  let hop (n : ℕ) : Event (Fin 17) :=
    .deliver (copyOf (aliceText 7) ⟨longRingAddr n, longRingAddr (n + 1), 15 - n⟩)
  .deliver ⟨.v4 1 40000, longRingAddr 0, .classic (aliceText 7)⟩ :: (List.range 16).map hop ++
    [.deliver (copyOf (aliceText 7) ⟨longRingAddr 0, longRingAddr 16, 15⟩)]

instance (id : UInt64) (s : FedState κ) : (e : Event κ) → Decidable (Calm id s e)
  | .deliver _ => isTrue trivial
  | .churn _ _ => inferInstanceAs (Decidable (_ ↔ _))

instance (s : FedState κ) : (e : Event κ) → Decidable ((F.churned P).Enabled s e)
  | .deliver d => inferInstanceAs (Decidable (d ∈ s.inFlight))
  | .churn _ _ => isTrue trivial

/-- Alice has sent her text. -/
def longRingStart : FedState (Fin 17) :=
  sayStart samplePlatform longRingRelays alice (aliceStart 5) 0 7 "hello" (.v4 1 40000)

/-- **A detour starves a relay next to the one the text enters at**: in a ring of seventeen
relays the last never broadcasts, and bob never sees the text. -/
theorem not_reaches_longRing :
    ¬ Reaches samplePlatform longRing longRingRelays alice (aliceStart 5) 0 7 "hello"
      (.v4 1 40000) := by
  intro h
  have hcalm : (longRing.churned samplePlatform).Always (Calm 7) longRingStart longRingRun := by
    decide +kernel
  have hend : ((longRing.churned samplePlatform).run longRingStart longRingRun).inFlight = 0 := by
    decide +kernel
  have hlink : longRing.Links longRingRelays (longRingAddr 0) (longRingAddr 16) := by
    show longRingAddr 16 ∈ longRing.successors longRingRelays (longRingAddr 0)
    decide +kernel
  have hzero : (longRing.churned samplePlatform).sumAlong
      (longRing.broadcastsBy samplePlatform ⟨16, by decide⟩) longRingStart longRingRun = 0 := by
    decide +kernel
  have hone := (h longRingRun hcalm hend ⟨16, by decide⟩
    ⟨longRingAddr 0, by decide, .step .refl hlink⟩).broadcast
  exact absurd (hzero.symm.trans hone) (by decide)

end Federation
end Zeta
