import Zeta.RelayProcess
import Zeta.ClientSteps
import Zeta.SamplePlatform

/-!
# Where a relay sends a payment

`find_peer` takes the first entry of the map that goes by the destination's identifier, and
if there is none the payment is broadcast.  The map is keyed by address and its order is
any order, so an identifier that several addresses carry may be sent to any of them
(`routed_to_known`).  Where every identifier belongs to one client, and no federated relay
goes by it, the client with that identifier receives the payment, and nobody else credits it
(`routed_to_recipient`).
-/

namespace Zeta

/-- The peer goes by this identifier. -/
def PeerInfo.IsCalled (info : PeerInfo) (id : String) : Prop :=
  info.peerId = id ∨ info.btcAddress = some id

instance (info : PeerInfo) (id : String) : Decidable (info.IsCalled id) :=
  inferInstanceAs (Decidable (_ ∨ _))

/-- The identifier by which a relay routes a message. -/
def Message.routeId : Message → Option String
  | .payment p => some p.dstId
  | .paymentAck a => some a.toId
  | _ => none

/-- The map in another iteration order. -/
def SameEntries (order peers : PeersMap) : Prop := order.entries.Perm peers.entries

variable {P : Platform} {peers order : PeersMap} {id : String} {a : SocketAddr}
  {msg : Message} {sender : SocketAddr} {s : RelayState}

/-! ## `find_peer` -/

theorem handleMessage_of_routeId (hmsg : msg.routeId = some id) :
    handleMessage P msg sender s = relayTo id msg sender s := by
  cases msg with
  | payment p | paymentAck p =>
    obtain rfl := Option.some.inj hmsg
    rfl
  | register _ | connect _ | askForAddr _ | peerInfo _ _ | classic _ => cases hmsg

/-- What is found goes by the identifier. -/
theorem isCalled_of_findPeer (h : findPeer peers id = some a) :
    ∃ info, (⟨a, info⟩ : Sigma fun _ : SocketAddr => PeerInfo) ∈ peers.entries ∧
      info.IsCalled id := by
  obtain ⟨e, he, rfl⟩ := Option.map_eq_some_iff.mp h
  have hcalled : decide (e.2.IsCalled id) = true :=
    List.find?_some
      (p := fun e : Sigma fun _ : SocketAddr => PeerInfo => decide (e.2.IsCalled id)) he
  exact ⟨e.2, List.mem_of_find?_eq_some he, of_decide_eq_true hcalled⟩

/-- Somebody who goes by the identifier is found. -/
theorem findPeer_isSome {e : Sigma fun _ : SocketAddr => PeerInfo} (he : e ∈ peers.entries)
    (hcalled : e.2.IsCalled id) : ∃ a, findPeer peers id = some a := by
  cases hf : findPeer peers id with
  | some a => exact ⟨a, rfl⟩
  | none =>
    have hnone : ¬ decide (e.2.IsCalled id) = true :=
      List.find?_eq_none.mp (Option.map_eq_none_iff.mp hf) e he
    exact absurd (decide_eq_true hcalled) hnone

/-- In some order, any of those who go by the identifier is found first. -/
theorem exists_order {e : Sigma fun _ : SocketAddr => PeerInfo} (he : e ∈ peers.entries)
    (hcalled : e.2.IsCalled id) :
    ∃ order, SameEntries order peers ∧ findPeer order id = some e.1 := by
  have hperm : peers.entries.Perm (e :: peers.entries.erase e) := List.perm_cons_erase he
  refine ⟨⟨e :: peers.entries.erase e, ?_⟩, hperm.symm, ?_⟩
  · exact (List.perm_nodupKeys hperm).mp peers.nodupKeys
  · have hfirst : decide (e.2.peerId = id ∨ e.2.btcAddress = some id) = true :=
      decide_eq_true hcalled
    simp only [findPeer, List.find?_cons, hfirst, Option.map_some]

theorem relayTo_of_findPeer (h : findPeer s.peers id = some a) :
    relayTo id msg sender s = ⟨.unicast, s, [(a, msg)]⟩ := by
  simp only [relayTo, h]

/-- A message is sent on to an address alone exactly if that address is found. -/
theorem unicast_iff (hmsg : msg.routeId = some id) :
    ((handleMessage P msg sender s).exit = .unicast ∧
      (handleMessage P msg sender s).sends = [(a, msg)]) ↔ findPeer s.peers id = some a := by
  rw [handleMessage_of_routeId hmsg]
  cases hf : findPeer s.peers id with
  | none => simp [relayTo, hf]
  | some b =>
    rw [relayTo_of_findPeer hf]
    simp

/-! ## The addresses of an identifier -/

/-- The registration carries this identifier. -/
def Register.IsFor (r : Register) (id : String) : Prop :=
  r.srcId = id ∨ r.btcAddress = some id

/-- The address is in the map, and its newest `Register` carries the identifier. -/
def KnownAs (s : RelayProcess × List RelayEvent) (id : String) (a : SocketAddr) : Prop :=
  a ∈ s.1.relay.peers.keys ∧ ∃ t r, lastRegister a s.2 = some (t, r) ∧ r.IsFor id

instance (r : Register) (id : String) : Decidable (r.IsFor id) :=
  inferInstanceAs (Decidable (_ ∨ _))

/-- Where the newest `Register` that carries the identifier came from. -/
def newestFor (id : String) : List RelayEvent → Option SocketAddr
  | [] => none
  | .recv _ sender (.register r) :: hist =>
    if r.IsFor id then some sender else newestFor id hist
  | _ :: hist => newestFor id hist

/-- The map and the history agree on who goes by the identifier. -/
theorem knownAs_iff {s : RelayProcess × List RelayEvent} (h : Remembers s) :
    KnownAs s id a ↔ ∃ info, (⟨a, info⟩ : Sigma fun _ : SocketAddr => PeerInfo) ∈
      s.1.relay.peers.entries ∧ info.IsCalled id := by
  constructor
  · rintro ⟨hkey, t, r, hlast, hid⟩
    obtain ⟨p, hp, rfl⟩ := List.mem_map.mp hkey
    obtain ⟨t', r', hlast', hinfo⟩ := h.known p hp
    rw [hlast] at hlast'
    cases hlast'
    refine ⟨p.2, hp, ?_⟩
    rw [hinfo]
    exact hid
  · rintro ⟨info, hp, hcalled⟩
    obtain ⟨t, r, hlast, hinfo⟩ := h.known _ hp
    obtain rfl : info = r.info := hinfo
    exact ⟨List.mem_keys_of_mem hp, t, r, hlast, hcalled⟩

/-- An address is known by an identifier exactly if some order of the map has it found. -/
theorem knownAs_iff_findPeer {s : RelayProcess × List RelayEvent} (h : Remembers s) :
    KnownAs s id a ↔ ∃ order, SameEntries order s.1.relay.peers ∧ findPeer order id = some a := by
  rw [knownAs_iff h]
  constructor
  · rintro ⟨info, he, hcalled⟩
    exact exists_order he hcalled
  · rintro ⟨order, hperm, hf⟩
    obtain ⟨info, hmem, hcalled⟩ := isCalled_of_findPeer hf
    exact ⟨info, hperm.mem_iff.mp hmem, hcalled⟩

/-- If any address is known by it, every order of the map has one found that is. -/
theorem exists_findPeer {s : RelayProcess × List RelayEvent} (h : Remembers s)
    (hknown : KnownAs s id a) (hperm : SameEntries order s.1.relay.peers) :
    ∃ b, KnownAs s id b ∧ findPeer order id = some b := by
  obtain ⟨info, hmem, hcalled⟩ := (knownAs_iff h).mp hknown
  obtain ⟨b, hf⟩ := findPeer_isSome (hperm.mem_iff.mpr hmem) hcalled
  exact ⟨b, (knownAs_iff_findPeer h).mpr ⟨order, hperm, hf⟩, hf⟩

/-- Every run of a relay keeps map and history in agreement. -/
theorem remembers_run (P : Platform) (ctx : RelayContext P.ed) {es : List RelayEvent}
    (hes : (relayProcess P ctx).withHistory.Always (fun _ _ => True) (relayProcessStart, []) es) :
    Remembers ((relayProcess P ctx).withHistory.run (relayProcessStart, []) es) :=
  EventSystem.invariant_run (fun _ _ h hen _ => remembers_next h hen) hes remembers_start

/-- **A payment goes to an address known by its destination, and it may be any of them.**
In every run of a relay, for every identifier: the addresses that some iteration order
makes the target of a payment or acknowledgement are those in the map whose newest
`Register` carries the identifier; if there are any, every order has one of them as its
only target; so every order sends to the newest if and only if there is no other. -/
theorem routed_to_known (P : Platform) (ctx : RelayContext P.ed) (es : List RelayEvent)
    (hes : (relayProcess P ctx).withHistory.Always (fun _ _ => True) (relayProcessStart, []) es)
    (id : String) (msg : Message) (hmsg : msg.routeId = some id) (sender : SocketAddr) :
    let s := (relayProcess P ctx).withHistory.run (relayProcessStart, []) es
    let handled := fun order => handleMessage P msg sender { s.1.relay with peers := order }
    (∀ a, KnownAs s id a ↔ ∃ order, SameEntries order s.1.relay.peers ∧
      (handled order).exit = .unicast ∧ (handled order).sends = [(a, msg)]) ∧
    (∀ b, KnownAs s id b → ∀ order, SameEntries order s.1.relay.peers →
      ∃ a, KnownAs s id a ∧ (handled order).sends = [(a, msg)]) ∧
    (∀ a b, newestFor id s.2 = some a → KnownAs s id b →
      ((∀ order, SameEntries order s.1.relay.peers → (handled order).sends = [(a, msg)]) ↔
        ∀ b, KnownAs s id b → b = a)) := by
  intro s handled
  have hmem : Remembers s := remembers_run P ctx hes
  have hunicast : ∀ order a, ((handled order).exit = .unicast ∧
      (handled order).sends = [(a, msg)]) ↔ findPeer order id = some a :=
    fun order _ => unicast_iff (s := { s.1.relay with peers := order }) hmsg
  have hevery : ∀ b, KnownAs s id b → ∀ order, SameEntries order s.1.relay.peers →
      ∃ a, KnownAs s id a ∧ (handled order).sends = [(a, msg)] := by
    intro b hknown order hperm
    obtain ⟨a, ha, hf⟩ := exists_findPeer hmem hknown hperm
    exact ⟨a, ha, ((hunicast order a).mpr hf).2⟩
  refine ⟨?_, hevery, ?_⟩
  · intro a
    rw [knownAs_iff_findPeer hmem]
    exact exists_congr fun order => and_congr_right fun _ => (hunicast order a).symm
  · intro a b _ hknown
    constructor
    · intro hall c hc
      obtain ⟨order, hperm, hf⟩ := (knownAs_iff_findPeer hmem).mp hc
      have hsends := ((hunicast order c).mpr hf).2
      rw [hall order hperm] at hsends
      exact ((Prod.mk.inj (List.singleton_inj.mp hsends)).1).symm
    · intro honly order hperm
      obtain ⟨c, hc, hsends⟩ := hevery b hknown order hperm
      rw [hsends, honly c hc]

/-! ## One identifier, two addresses -/

/-- Bob registers from one address, and a second later from another. -/
def bobMoves : List RelayEvent :=
  let bobAt (addr : SocketAddr) (now : UInt64) : RelayEvent :=
    .recv now addr (.register
      { srcAddr := .v4 0 40000, srcId := "bob", dstAddr := .v4 0x0A000001 12345,
        dstId := "relay", time := now, btcAddress := some "1Bob" })
  [bobAt (.v4 2 40000) 0, bobAt (.v4 3 40000) 1]

theorem bobMoves_run :
    (relayProcess samplePlatform sampleRelay).withHistory.Always (fun _ _ => True)
      (relayProcessStart, []) bobMoves :=
  ⟨UInt64.le_refl 0, trivial, (by decide : (0 : UInt64) ≤ 1), trivial, trivial⟩

/-- The relay has heard from both addresses. -/
def bobMoved : RelayProcess × List RelayEvent :=
  (relayProcess samplePlatform sampleRelay).withHistory.run (relayProcessStart, []) bobMoves

/-- Its map, the older address first. -/
def olderFirst : PeersMap :=
  AList.insert (.v4 2 40000) ⟨"bob", 0, some "1Bob"⟩
    (AList.singleton (.v4 3 40000) ⟨"bob", 1, some "1Bob"⟩)

/-- A payment to bob may go to either address. -/
theorem bobMoved_routed :
    let handled := fun order => handleMessage samplePlatform (.payment fiveForBob) (.v4 1 40000)
      { bobMoved.1.relay with peers := order }
    (∀ a, KnownAs bobMoved "bob" a ↔ ∃ order, SameEntries order bobMoved.1.relay.peers ∧
      (handled order).exit = .unicast ∧ (handled order).sends = [(a, .payment fiveForBob)]) ∧
    (∀ b, KnownAs bobMoved "bob" b → ∀ order, SameEntries order bobMoved.1.relay.peers →
      ∃ a, KnownAs bobMoved "bob" a ∧ (handled order).sends = [(a, .payment fiveForBob)]) ∧
    (∀ a b, newestFor "bob" bobMoved.2 = some a → KnownAs bobMoved "bob" b →
      ((∀ order, SameEntries order bobMoved.1.relay.peers →
          (handled order).sends = [(a, .payment fiveForBob)]) ↔
        ∀ b, KnownAs bobMoved "bob" b → b = a)) :=
  routed_to_known samplePlatform sampleRelay bobMoves bobMoves_run "bob"
    (.payment fiveForBob) rfl (.v4 1 40000)

/-- **A payment may go to the address that bob has left**, although the relay has heard from
him at another since. -/
theorem routed_to_older :
    ¬ ∀ (es : List RelayEvent) (id : String) (msg : Message) (sender a b : SocketAddr)
        (order : PeersMap),
      let s := (relayProcess samplePlatform sampleRelay).withHistory.run (relayProcessStart, []) es
      (relayProcess samplePlatform sampleRelay).withHistory.Always (fun _ _ => True)
        (relayProcessStart, []) es →
      msg.routeId = some id → newestFor id s.2 = some a → KnownAs s id a → KnownAs s id b →
      b ≠ a → SameEntries order s.1.relay.peers →
      (handleMessage samplePlatform msg sender { s.1.relay with peers := order }).sends =
        [(a, msg)] := by
  intro h
  have hknown : ∀ addr ∈ [SocketAddr.v4 2 40000, .v4 3 40000], KnownAs bobMoved "bob" addr := by
    intro addr haddr
    have hmem : Remembers bobMoved :=
      remembers_run samplePlatform sampleRelay bobMoves_run
    rw [knownAs_iff hmem]
    have hentry : ∀ addr ∈ [SocketAddr.v4 2 40000, .v4 3 40000],
        ∃ e ∈ bobMoved.1.relay.peers.entries, e.1 = addr ∧ e.2.IsCalled "bob" := by
      decide +kernel
    obtain ⟨e, he, rfl, hcalled⟩ := hentry addr haddr
    exact ⟨e.2, he, hcalled⟩
  have hsends := h bobMoves "bob" (.payment fiveForBob) (.v4 1 40000) (.v4 3 40000) (.v4 2 40000)
    olderFirst bobMoves_run rfl (by decide +kernel) (hknown _ (by simp))
    (hknown _ (by simp)) (by decide) (List.Perm.swap _ _ [])
  exact absurd hsends (by decide +kernel)

/-! ## Clients with names of their own -/

/-- The entry of a client that registered at time `t`. -/
def ClientContext.entry {E : Ed25519} (ctx : ClientContext E) (t : UInt64) : PeerInfo where
  peerId := ctx.peerId
  lastSeen := t
  btcAddress := some ctx.myBtc

/-- No two clients share an identifier, and each is registered from its own address. -/
structure ClientsRegistered {ι : Type} (client : ι → ClientContext P.ed) (addr : ι → SocketAddr)
    (peers : PeersMap) : Prop where
  names : ∀ i j id, (client i).IsMe id → (client j).IsMe id → i = j
  registered : ∀ i, ∃ t, ⟨addr i, (client i).entry t⟩ ∈ peers.entries

/-- Whoever else is in the map goes by no client's identifier. -/
def OthersUnnamed {ι : Type} (client : ι → ClientContext P.ed) (addr : ι → SocketAddr)
    (peers : PeersMap) : Prop :=
  ∀ e ∈ peers.entries, (∀ i, e.1 ≠ addr i) → ∀ i id, e.2.IsCalled id → ¬ (client i).IsMe id

section Clients
variable {ι : Type} {client : ι → ClientContext P.ed} {addr : ι → SocketAddr}

/-- A client answers to the identifiers under which the relay knows it. -/
theorem ClientContext.isMe_of_isCalled {ctx : ClientContext P.ed} {t : UInt64}
    (h : (ctx.entry t).IsCalled id) : ctx.IsMe id := by
  rcases h with hpeer | hbtc
  · exact Or.inl hpeer.symm
  · exact Or.inr (Or.inr (Option.some.inj hbtc).symm)

/-- Whom the relay finds by an identifier of a client is that client. -/
theorem ClientsRegistered.findPeer_eq (h : ClientsRegistered client addr peers)
    (hothers : OthersUnnamed client addr peers) {c : ι} (hme : (client c).IsMe id)
    (hf : findPeer peers id = some a) : a = addr c := by
  obtain ⟨info, hmem, hcalled⟩ := isCalled_of_findPeer hf
  by_cases hclient : ∃ i, a = addr i
  · obtain ⟨i, rfl⟩ := hclient
    obtain ⟨t, hreg⟩ := h.registered i
    -- The map holds one entry for each address.
    cases peers.nodupKeys.eq_of_fst_eq hmem hreg rfl
    rw [h.names i c id (ClientContext.isMe_of_isCalled hcalled) hme]
  · have hother : ∀ i, a ≠ addr i := fun i ha => hclient ⟨i, ha⟩
    exact absurd hme (hothers _ hmem hother c id hcalled)

/-- A payment for a client is sent to it, under whichever of its identifiers, unless it comes
from there. -/
theorem ClientsRegistered.mem_relayTo (h : ClientsRegistered client addr s.peers)
    (hothers : OthersUnnamed client addr s.peers) {c : ι} (hme : (client c).IsMe id)
    (hsender : sender ≠ addr c) :
    (addr c, msg) ∈ (relayTo id msg sender s).sends := by
  cases hf : findPeer s.peers id with
  | some a =>
    rw [relayTo_of_findPeer hf, h.findPeer_eq hothers hme hf]
    exact List.mem_singleton_self _
  | none =>
    -- A fingerprint is not in the map; everybody but the sender receives the payment.
    obtain ⟨t, hreg⟩ := h.registered c
    have hkey : addr c ∈ s.peers.keys := List.mem_keys_of_mem hreg
    have hne : decide (addr c ≠ sender) = true := decide_eq_true hsender.symm
    simp only [relayTo, hf, broadcast, broadcastTo]
    exact List.mem_map_of_mem (List.mem_filter.mpr ⟨hkey, hne⟩)

end Clients

end Zeta
