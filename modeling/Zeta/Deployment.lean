import Zeta.Reach
import Zeta.Network

/-!
# Federated relays

A relay that is given others with `--peer-relays` registers with them at startup, which
enters it in their maps.  It does not enter them in its own.  So the texts of their clients
come to it, and those of its own do not go to them: a link works in one direction, from the
relay that is named to the one that names it.

Once all are registered, the text of a client reaches another, breadth first, if and only
if there is a way of at most fifteen such links from a relay of the first to a relay of the
second (`delivers_iff_serves`).
-/

namespace Zeta

/-- Clients and relays at addresses of their own. -/
structure Deployment (P : Platform) (ι κ : Type) extends Network P ι κ where
  addr : ι → SocketAddr
  localAddr : ι → SocketAddr
  file : ι → WalletFile
  fed : Federation κ
  fed_addr : ∀ r, (relay r).addr = fed.addr r
  addr_injective : Function.Injective addr
  addr_not_relay : ∀ i, fed.relayAt (addr i) = none
  /-- What the clients are given with `--relay-addr` are relays. -/
  relayAddrs_relay : ∀ i, ∀ a ∈ (client i).relayAddrs, ∃ r, fed.addr r = a

namespace Deployment
open Federation

variable {P : Platform} {ι κ : Type} [DecidableEq κ] (D : Deployment P ι κ)

/-- Client `i` when it has just been started. -/
def started (i : ι) : ClientState := startup P (D.client i) (D.localAddr i) (D.file i)

/-- Every client registers with its relays and every relay with its peers. -/
def registrations [Fintype ι] [Fintype κ] (now : ι ⊕ κ → UInt64) : Multiset Datagram :=
  (∑ i, (↑(packets (D.addr i) (register P (D.client i) (now (.inl i)) (D.started i))) :
    Multiset Datagram)) +
  ∑ r, (↑(packets (D.relay r).addr (registerWithPeers P (D.relay r) (now (.inr r)))) :
    Multiset Datagram)

/-- All relays are started, and the registrations are on their way. -/
def boot [Fintype ι] [Fintype κ] (now : ι ⊕ κ → UInt64) : FedState κ where
  relays _ := relayStartup
  inFlight := D.registrations now

/-- Relay `r'` names relay `r` with `--peer-relays`. -/
def Feeds (r r' : κ) : Prop := D.fed.addr r ∈ (D.relay r').peerRelays

/-- Client `i` names relay `r` with `--relay-addr`. -/
def Uses (i : ι) (r : κ) : Prop := D.fed.addr r ∈ (D.client i).relayAddrs

instance (r r' : κ) : Decidable (D.Feeds r r') := inferInstanceAs (Decidable (_ ∈ _))

instance (i : ι) (r : κ) : Decidable (D.Uses i r) := inferInstanceAs (Decidable (_ ∈ _))

/-- There is a way of at most fifteen links from a relay of `x` to a relay of `y`. -/
def Serves (x y : ι) : Prop := ∃ r r', D.Uses x r ∧ D.Uses y r' ∧ Within D.Feeds r 15 r'

/-- The hops that a datagram has left, if it is a text. -/
def hopsOf (d : Datagram) : ℕ :=
  match d.msg with
  | .classic m => m.ttl.toNat
  | _ => 0

/-- No datagram on its way has more hops left than the one that is delivered. -/
def BreadthFirst (s : FedState κ) : Event κ → Prop
  | .deliver d => ∀ d' ∈ s.inFlight, hopsOf d' ≤ hopsOf d
  | .churn _ _ => True

/-- Client `y` is shown every text of client `x`, once: in every order in which the
registrations are handled, whatever other traffic does to the caches, for every text whose
id is new to the relays, if its copies are delivered breadth first and none is lost. -/
def Delivers [Fintype ι] [Fintype κ] (x y : ι) : Prop :=
  ∀ now ds, (D.fed.churned P).Always (fun _ _ => True) (D.boot now) ds →
    ((D.fed.churned P).run (D.boot now) ds).inFlight = 0 →
    let relays := ((D.fed.churned P).run (D.boot now) ds).relays
    ∀ (s : ClientState) (time msgId : UInt64) (text : String),
      (∀ r, msgId ∉ (relays r).seen.set) →
      let start := sayStart P relays (D.client x) s time msgId text (D.addr x)
      ∀ es, (D.fed.churned P).Always (fun s e => Calm msgId s e ∧ BreadthFirst s e) start es →
        ((D.fed.churned P).run start es).inFlight = 0 →
        ShownOnce P (D.client y) msgId (inbox (D.addr y) es)

/-! ## Registration -/

/-- The node at `a` is entered in the map of relay `r`: a client that uses it, or a relay
that names it. -/
def Entered (r : κ) (a : SocketAddr) : Prop :=
  (∃ i, D.addr i = a ∧ D.Uses i r) ∨ ∃ r', D.fed.addr r' = a ∧ D.Feeds r r'

/-- The registrations that are still on their way bring in who is missing. -/
structure Registering (s : FedState κ) : Prop where
  registers : ∀ d ∈ s.inFlight, ∃ reg, d.msg = .register reg
  entered : ∀ r a, D.Entered r a ↔
    a ∈ (s.relays r).peers.keys ∨ ∃ d ∈ s.inFlight, d.src = a ∧ d.dst = D.fed.addr r

variable {D} {s : FedState κ} {e : Event κ}

omit [DecidableEq κ] in
theorem mem_register {i : ι} {time : UInt64} {d : Datagram} :
    d ∈ packets (D.addr i) (register P (D.client i) time (D.started i)) ↔
      ∃ a ∈ (D.client i).relayAddrs, d = ⟨D.addr i, a, .register
        { srcAddr := (D.started i).localAddr, srcId := (D.client i).peerId, dstAddr := a,
          dstId := "relay", time := time, btcAddress := some (D.client i).myBtc }⟩ := by
  simp [packets, register, eq_comm]

omit [DecidableEq κ] in
theorem mem_registerWithPeers {r : κ} {time : UInt64} {d : Datagram} :
    d ∈ packets (D.relay r).addr (registerWithPeers P (D.relay r) time) ↔
      ∃ a ∈ (D.relay r).peerRelays, d = ⟨D.fed.addr r, a, .register
        { srcAddr := .v4 0 12345, srcId := (D.relay r).relayId, dstAddr := a,
          dstId := "relay", time := time, btcAddress := none }⟩ := by
  simp [packets, registerWithPeers, D.fed_addr r, eq_comm]

omit [DecidableEq κ] in
theorem mem_registrations [Fintype ι] [Fintype κ] {now : ι ⊕ κ → UInt64} {d : Datagram} :
    d ∈ D.registrations now ↔
      (∃ i, d ∈ packets (D.addr i) (register P (D.client i) (now (.inl i)) (D.started i))) ∨
      ∃ r, d ∈ packets (D.relay r).addr (registerWithPeers P (D.relay r) (now (.inr r))) := by
  simp [registrations, Multiset.mem_sum]

omit [DecidableEq κ] in
theorem registering_boot [Fintype ι] [Fintype κ] (now : ι ⊕ κ → UInt64) :
    D.Registering (D.boot now) where
  registers d hd := by
    rcases mem_registrations.mp hd with ⟨i, hi⟩ | ⟨r, hr⟩
    · obtain ⟨a, -, rfl⟩ := mem_register.mp hi
      exact ⟨_, rfl⟩
    · obtain ⟨a, -, rfl⟩ := mem_registerWithPeers.mp hr
      exact ⟨_, rfl⟩
  entered r a := by
    constructor
    · rintro (⟨i, rfl, huses⟩ | ⟨r', rfl, hfeeds⟩)
      · exact Or.inr ⟨_, mem_registrations.mpr
          (Or.inl ⟨i, mem_register.mpr ⟨_, huses, rfl⟩⟩), rfl, rfl⟩
      · exact Or.inr ⟨_, mem_registrations.mpr
          (Or.inr ⟨r', mem_registerWithPeers.mpr ⟨_, hfeeds, rfl⟩⟩), rfl, rfl⟩
    · rintro (hnone | ⟨d, hd, rfl, hdst⟩)
      · exact absurd hnone List.not_mem_nil
      · rcases mem_registrations.mp hd with ⟨i, hi⟩ | ⟨r', hr'⟩
        · obtain ⟨a, ha, rfl⟩ := mem_register.mp hi
          obtain rfl : a = D.fed.addr r := hdst
          exact Or.inl ⟨i, rfl, ha⟩
        · obtain ⟨a, ha, rfl⟩ := mem_registerWithPeers.mp hr'
          obtain rfl : a = D.fed.addr r := hdst
          exact Or.inr ⟨r', rfl, ha⟩

/-- A registration enters its sender in one map. -/
theorem mem_keys_deliver {d : Datagram} {reg : Register} (hd : d.msg = .register reg) (r : κ)
    (a : SocketAddr) :
    a ∈ ((D.fed.deliver P s d).relays r).peers.keys ↔
      a ∈ (s.relays r).peers.keys ∨ a = d.src ∧ d.dst = D.fed.addr r := by
  by_cases hr : D.fed.relayAt d.dst = some r
  · have hdst : d.dst = D.fed.addr r := ((D.fed.relayAt_eq_some_iff _ _).mp hr).symm
    have hafter : (D.fed.deliver P s d).relays r =
        (handleMessage P d.msg d.src (s.relays r)).state := relaysAfter_of_eq hr
    rw [hafter, hd, handleMessage, relayRegister, ← AList.mem_keys, AList.mem_insert,
      AList.mem_keys]
    simp [hdst, or_comm]
  · have hdst : d.dst ≠ D.fed.addr r :=
      fun he => hr ((D.fed.relayAt_eq_some_iff _ _).mpr he.symm)
    have hafter : (D.fed.deliver P s d).relays r = s.relays r := relaysAfter_of_ne hr
    rw [hafter]
    simp [hdst]

omit [DecidableEq κ] in
/-- Nothing is sent in answer to a registration. -/
theorem emitted_register {d : Datagram} {reg : Register} (hd : d.msg = .register reg)
    (relays : κ → RelayState) : D.fed.emitted P relays d = [] := by
  cases hr : D.fed.relayAt d.dst with
  | none => exact emitted_of_none hr
  | some r =>
    rw [emitted_of_eq hr, hd]
    rfl

theorem inFlight_register {d : Datagram} {reg : Register} (hd : d.msg = .register reg) :
    ((D.fed.churned P).next s (.deliver d)).inFlight = s.inFlight.erase d := by
  show s.inFlight.erase d + ↑(D.fed.emitted P s.relays d) = s.inFlight.erase d
  rw [emitted_register hd]
  exact add_zero _

theorem registering_next (h : D.Registering s) (hen : (D.fed.churned P).Enabled s e) :
    D.Registering ((D.fed.churned P).next s e) := by
  cases e with
  | churn r' seen =>
    refine ⟨h.registers, fun r a => ?_⟩
    have hpeers : (((D.fed.churned P).next s (.churn r' seen)).relays r).peers =
        (s.relays r).peers := by
      by_cases hr : r = r'
      · subst hr
        simp [churned]
      · simp [churned, hr]
    rw [hpeers]
    exact h.entered r a
  | deliver d =>
    obtain ⟨reg, hreg⟩ := h.registers d hen
    have hflight := inFlight_register (D := D) (s := s) hreg
    refine ⟨fun d' hd' => ?_, fun r a => ?_⟩
    · rw [hflight] at hd'
      exact h.registers d' (Multiset.mem_of_mem_erase hd')
    · have hkeys : a ∈ (((D.fed.churned P).next s (.deliver d)).relays r).peers.keys ↔
          a ∈ (s.relays r).peers.keys ∨ a = d.src ∧ d.dst = D.fed.addr r :=
        mem_keys_deliver hreg r a
      rw [hflight, hkeys, h.entered r a]
      constructor
      · rintro (hkey | ⟨d', hd', hsrc, hdst⟩)
        · exact Or.inl (Or.inl hkey)
        · by_cases heq : d' = d
          · exact Or.inl (Or.inr ⟨heq ▸ hsrc.symm, heq ▸ hdst⟩)
          · exact Or.inr ⟨d', (Multiset.mem_erase_of_ne heq).mpr hd', hsrc, hdst⟩
      · rintro ((hkey | ⟨hsrc, hdst⟩) | ⟨d', hd', hsrc, hdst⟩)
        · exact Or.inl hkey
        · exact Or.inr ⟨d, hen, hsrc.symm, hdst⟩
        · exact Or.inr ⟨d', Multiset.mem_of_mem_erase hd', hsrc, hdst⟩

/-- **Once all registrations are handled, in whatever order, the maps hold who named the
relay, and nobody else.** -/
theorem mem_keys_of_registered [Fintype ι] [Fintype κ] {now : ι ⊕ κ → UInt64}
    {ds : List (Event κ)} (hds : (D.fed.churned P).Always (fun _ _ => True) (D.boot now) ds)
    (hend : ((D.fed.churned P).run (D.boot now) ds).inFlight = 0) (r : κ) (a : SocketAddr) :
    a ∈ (((D.fed.churned P).run (D.boot now) ds).relays r).peers.keys ↔ D.Entered r a := by
  have h : D.Registering ((D.fed.churned P).run (D.boot now) ds) :=
    EventSystem.invariant_run (fun _ _ h hen _ => registering_next h hen) hds
      (registering_boot now)
  rw [h.entered r a, hend]
  simp

/-! ## The graph of the maps -/

section Graph
variable {relays : κ → RelayState}

omit [DecidableEq κ] in
theorem links_iff (h : ∀ r a, a ∈ (relays r).peers.keys ↔ D.Entered r a) {u v : SocketAddr} :
    D.fed.Links relays u v ↔ ∃ r, D.fed.addr r = u ∧ D.Entered r v := by
  constructor
  · intro hlink
    have hlink : v ∈ D.fed.successors relays u := hlink
    cases hr : D.fed.relayAt u with
    | none =>
      rw [successors, hr] at hlink
      cases hlink
    | some r =>
      rw [successors_of_relayAt hr, h r v] at hlink
      exact ⟨r, (D.fed.relayAt_eq_some_iff _ _).mp hr, hlink⟩
  · rintro ⟨r, rfl, hentered⟩
    show v ∈ D.fed.successors relays (D.fed.addr r)
    rw [successors_of_relayAt (D.fed.relayAt_addr r), h r v]
    exact hentered

omit [DecidableEq κ] in
theorem addr_ne_addr (i : ι) (r : κ) : D.addr i ≠ D.fed.addr r := by
  intro h
  have hnone := D.addr_not_relay i
  rw [h, D.fed.relayAt_addr] at hnone
  cases hnone

omit [DecidableEq κ] in
/-- A relay has another in its map if the other names it. -/
theorem entered_addr_iff {r r' : κ} : D.Entered r (D.fed.addr r') ↔ D.Feeds r r' := by
  constructor
  · rintro (⟨i, hi, -⟩ | ⟨r'', hr'', hfeeds⟩)
    · exact absurd hi (addr_ne_addr i r')
    · obtain rfl := D.fed.addr_injective hr''
      exact hfeeds
  · exact fun hfeeds => Or.inr ⟨r', rfl, hfeeds⟩

omit [DecidableEq κ] in
/-- A relay has a client in its map if the client uses it. -/
theorem entered_client_iff {r : κ} {i : ι} : D.Entered r (D.addr i) ↔ D.Uses i r := by
  constructor
  · rintro (⟨j, hj, huses⟩ | ⟨r', hr', -⟩)
    · obtain rfl := D.addr_injective hj
      exact huses
    · exact absurd hr'.symm (addr_ne_addr i r')
  · exact fun huses => Or.inl ⟨i, rfl, huses⟩

omit [DecidableEq κ] in
theorem within_feeds (h : ∀ r a, a ∈ (relays r).peers.keys ↔ D.Entered r a) {r r' : κ} {n : ℕ}
    {v : SocketAddr} (hw : Within (D.fed.Links relays) (D.fed.addr r) n v)
    (hv : D.fed.addr r' = v) : Within D.Feeds r n r' := by
  induction hw generalizing r' with
  | refl =>
    obtain rfl := D.fed.addr_injective hv
    exact .refl
  | step _ hlink ih =>
    obtain ⟨r'', hr'', hentered⟩ := (links_iff h).mp hlink
    rw [← hv] at hentered
    exact .step (ih hr'') (entered_addr_iff.mp hentered)

omit [DecidableEq κ] in
theorem within_links (h : ∀ r a, a ∈ (relays r).peers.keys ↔ D.Entered r a) {r r' : κ} {n : ℕ}
    (hw : Within D.Feeds r n r') :
    Within (D.fed.Links relays) (D.fed.addr r) n (D.fed.addr r') := by
  induction hw with
  | refl => exact .refl
  | step _ hfeeds ih =>
    exact .step ih ((links_iff h).mpr ⟨_, rfl, entered_addr_iff.mpr hfeeds⟩)

omit [DecidableEq κ] in
/-- **Sixteen hops lead from the relays of `x` to `y` if and only if `x` is served to `y`.** -/
theorem within_iff_serves (h : ∀ r a, a ∈ (relays r).peers.keys ↔ D.Entered r a) {x y : ι} :
    (∃ a ∈ (D.client x).relayAddrs, Within (D.fed.Links relays) a 16 (D.addr y)) ↔
      D.Serves x y := by
  constructor
  · rintro ⟨a, ha, hw⟩
    obtain ⟨r, rfl⟩ := D.relayAddrs_relay x a ha
    generalize hv : D.addr y = v at hw
    cases hw with
    | refl => exact absurd hv (addr_ne_addr y r)
    | step hw hlink =>
      obtain ⟨r', hr', hentered⟩ := (links_iff h).mp hlink
      rw [← hv] at hentered
      exact ⟨r, r', ha, entered_client_iff.mp hentered, within_feeds h hw hr'⟩
  · rintro ⟨r, r', hx, hy, hw⟩
    exact ⟨D.fed.addr r, hx, .step (within_links h hw)
      ((links_iff h).mpr ⟨r', rfl, entered_client_iff.mpr hy⟩)⟩

end Graph

/-! ## Delivery -/

/-- A client to which nothing is delivered shows nothing. -/
theorem not_shownOnce_nil (P : Platform) (ctx : ClientContext P.ed) (id : UInt64) :
    ¬ ShownOnce P ctx id [] := by
  intro h
  have hone := h (startup P ctx .unspecified none) [] rfl List.not_mem_nil trivial rfl
  cases hone

/-- The hops of a copy are those it has in the flood. -/
theorem hopsOf_copyOf {m : Classic} {c : FloodCopy SocketAddr} (h : c.hops ≤ 16) :
    hopsOf (copyOf m c) = c.hops := by
  show (UInt8.ofNat c.hops).toNat = c.hops
  rw [UInt8.toNat_ofNat']
  exact Nat.mod_eq_of_lt (by omega)

omit [DecidableEq κ] in
/-- Breadth first for the relays is breadth first for the flood. -/
theorem breadthFirst_iff {relays : κ → RelayState} {m : Classic} {A : FloodState SocketAddr}
    {c : FloodCopy SocketAddr} (h : Mirrors D.fed relays m A s) (hc : c ∈ A.inFlight) :
    BreadthFirst s (.deliver (copyOf m c)) ↔ FloodGraph.BreadthFirst A c := by
  have hiff : BreadthFirst s (.deliver (copyOf m c)) ↔
      ∀ d' ∈ s.inFlight, hopsOf d' ≤ hopsOf (copyOf m c) := Iff.rfl
  rw [hiff, h.inFlight, hopsOf_copyOf (h.hops c hc)]
  constructor
  · intro hle c' hc'
    rw [← hopsOf_copyOf (m := m) (h.hops c' hc')]
    exact hle _ (Multiset.mem_map_of_mem _ hc')
  · intro hle d' hd'
    obtain ⟨c', hc', rfl⟩ := Multiset.mem_map.mp hd'
    rw [hopsOf_copyOf (h.hops c' hc')]
    exact hle c' hc'

/-- **In every run the text of `x` is shown to `y` exactly if `x` is served to `y`.** -/
theorem shownOnce_iff_serves {relays : κ → RelayState} {x y : ι} {c : ClientState}
    {time msgId : UInt64} {text : String} {es : List (Event κ)} (hE : P.ed.Correct)
    (hkeys : ∀ r a, a ∈ (relays r).peers.keys ↔ D.Entered r a) (hxy : x ≠ y)
    (hnew : ∀ r, msgId ∉ (relays r).seen.set)
    (hes : (D.fed.churned P).Always (fun s e => Calm msgId s e ∧ BreadthFirst s e)
      (sayStart P relays (D.client x) c time msgId text (D.addr x)) es)
    (hend : ((D.fed.churned P).run
      (sayStart P relays (D.client x) c time msgId text (D.addr x)) es).inFlight = 0) :
    ShownOnce P (D.client y) msgId (inbox (D.addr y) es) ↔ D.Serves x y := by
  let G := D.fed.floodGraph relays (D.addr x) (D.addr_not_relay x) (D.client x).relayAddrs
  have hv := verify_classicOf hE (D.client x) time msgId text c
  obtain ⟨cs, hcs, htracks⟩ := exists_flood FloodGraph.BreadthFirst
    (D.addr_not_relay x) hv rfl hnew (fun _ _ h => h.1)
    (fun _ _ _ h hc hok => (breadthFirst_iff h hc).mp hok.2) hes
  have hdone : (G.system.run G.start cs).inFlight = 0 :=
    Multiset.map_eq_zero.mp (htracks.mirrors.inFlight.symm.trans hend)
  have hne : D.addr y ≠ G.origin := fun h => hxy (D.addr_injective h).symm
  rw [← within_iff_serves hkeys]
  have hheard : (∃ h, (G.system.run G.start cs).heard (D.addr y) = some h) ↔
      ∃ a ∈ (D.client x).relayAddrs, Within (D.fed.Links relays) a 16 (D.addr y) :=
    FloodGraph.heard_iff_within hcs hdone hne
  rw [← hheard, ← Option.ne_none_iff_exists']
  constructor
  · intro hshown hnone
    rw [(htracks.heard (D.addr y)).mp hnone] at hshown
    exact not_shownOnce_nil P (D.client y) msgId hshown
  · exact fun h => shownOnce_of_heard htracks hv h (D.client y)

/-- All registrations can be handled, and leave the caches alone. -/
theorem exists_registered (h : D.Registering s) (hseen : ∀ r, (s.relays r).seen.set = ∅) :
    ∃ ds, (D.fed.churned P).Always (fun _ _ => True) s ds ∧
      ((D.fed.churned P).run s ds).inFlight = 0 ∧
      ∀ r, (((D.fed.churned P).run s ds).relays r).seen.set = ∅ := by
  induction hn : Multiset.card s.inFlight generalizing s with
  | zero => exact ⟨[], trivial, Multiset.card_eq_zero.mp hn, hseen⟩
  | succ n ih =>
    obtain ⟨d, hd⟩ := Multiset.card_pos_iff_exists_mem.mp (by omega : 0 < Multiset.card s.inFlight)
    obtain ⟨reg, hreg⟩ := h.registers d hd
    have hen : (D.fed.churned P).Enabled s (.deliver d) := hd
    have hcard : Multiset.card ((D.fed.churned P).next s (.deliver d)).inFlight = n := by
      rw [inFlight_register hreg, Multiset.card_erase_of_mem hd, hn]
      rfl
    have hafter : ∀ r, (((D.fed.churned P).next s (.deliver d)).relays r).seen.set = ∅ := by
      intro r
      show ((D.fed.relaysAfter P s.relays d) r).seen.set = ∅
      by_cases hr : D.fed.relayAt d.dst = some r
      · rw [relaysAfter_of_eq hr, hreg]
        exact hseen r
      · rw [relaysAfter_of_ne hr]
        exact hseen r
    obtain ⟨ds, hds, hend, hds'⟩ := ih (registering_next h hen) hafter hcard
    exact ⟨.deliver d :: ds, ⟨hen, trivial, hds⟩, hend, hds'⟩

/-- A text can be delivered breadth first. -/
theorem exists_breadthFirst {relays : κ → RelayState} (x : ι) (c : ClientState)
    (time msgId : UInt64) (text : String) (hE : P.ed.Correct)
    (hnew : ∀ r, msgId ∉ (relays r).seen.set) :
    ∃ es, (D.fed.churned P).Always (fun s e => Calm msgId s e ∧ BreadthFirst s e)
        (sayStart P relays (D.client x) c time msgId text (D.addr x)) es ∧
      ((D.fed.churned P).run
        (sayStart P relays (D.client x) c time msgId text (D.addr x)) es).inFlight = 0 := by
  obtain ⟨cs, hcs, hdone⟩ := FloodGraph.exists_complete FloodGraph.BreadthFirst
    (G := D.fed.floodGraph relays (D.addr x) (D.addr_not_relay x) (D.client x).relayAddrs)
    (fun s hs => Multiset.exists_max_image FloodCopy.hops hs) (FloodGraph.start _)
  obtain ⟨es, hes, htracks⟩ := exists_run_of_flood
    (fun s e => Calm msgId s e ∧ BreadthFirst s e)
    (verify_classicOf hE (D.client x) time msgId text c) rfl hnew
    (fun _ _ _ h hc hok => ⟨trivial, (breadthFirst_iff h hc).mpr hok⟩) hcs
  refine ⟨es, hes, htracks.mirrors.inFlight.trans ?_⟩
  rw [hdone]
  rfl

/-- Who is shown the texts of `x` is served. -/
theorem serves_of_delivers [Fintype ι] [Fintype κ] (hE : P.ed.Correct) {x y : ι} (hxy : x ≠ y)
    (h : D.Delivers x y) : D.Serves x y := by
  obtain ⟨ds, hds, hend, hseen⟩ := exists_registered (registering_boot (D := D) (fun _ => 0))
    (fun _ => rfl)
  have hnew : ∀ r, (0 : UInt64) ∉
      (((D.fed.churned P).run (D.boot (fun _ => 0)) ds).relays r).seen.set := by
    intro r
    rw [hseen r]
    exact Finset.notMem_empty 0
  obtain ⟨es, hes, hdone⟩ := exists_breadthFirst x (D.started x) 0 0 "" hE hnew
  exact (shownOnce_iff_serves hE (mem_keys_of_registered hds hend) hxy hnew hes hdone).mp
    (h _ ds hds hend _ 0 0 "" hnew es hes hdone)

/-- **Federation delivers the texts of every client to every other if and only if each is
served to each**: from a relay it uses to one that the other uses lead at most fifteen
links, each from a relay to one that names it. -/
theorem delivers_iff_serves [Fintype ι] [Fintype κ] (hE : P.ed.Correct)
    (D : Deployment P ι κ) :
    (∀ x y, x ≠ y → D.Delivers x y) ↔ ∀ x y, x ≠ y → D.Serves x y := by
  constructor
  · exact fun h x y hxy => serves_of_delivers hE hxy (h x y hxy)
  · intro h x y hxy now ds hds hend relays s time msgId text hnew start es hes hdone
    exact (shownOnce_iff_serves hE (mem_keys_of_registered hds hend) hxy hnew hes hdone).mpr
      (h x y hxy)

/-- The links, in whichever direction, lead from every relay to every other in at most
fifteen steps. -/
def Connected (D : Deployment P ι κ) : Prop :=
  ∀ r r', Within (fun u v => D.Feeds u v ∨ D.Feeds v u) r 15 r'

/-! ## Two relays -/

/-- The addresses of two relays. -/
def pairAddr (r : Fin 2) : SocketAddr :=
  if r.val = 0 then .v4 0x0A000001 12345 else .v4 0x0A000002 12345

/-- Alice with one relay and bob with the other, which names the first; the first names the
second, or does not. -/
def linked (both : Bool) : Deployment samplePlatform (Fin 2) (Fin 2) where
  client i := if i.val = 0 then alice else { bob with relayAddrs := [.v4 0x0A000002 12345] }
  relay r :=
    { sampleRelay with
      addr := pairAddr r
      peerRelays :=
        if r.val = 0 then (if both then [.v4 0x0A000002 12345] else [])
        else [.v4 0x0A000001 12345] }
  addr i := if i.val = 0 then .v4 1 40000 else .v4 2 40000
  localAddr _ := .v4 0 40000
  file _ := none
  fed := ofInjective pairAddr (by decide)
  fed_addr _ := rfl
  addr_injective := by decide
  addr_not_relay := by decide
  relayAddrs_relay := by decide

/-- Linked in both directions, the relays deliver the texts of both clients. -/
theorem delivers_linked_both :
    samplePlatform.ed.Correct ∧ ∀ x y, x ≠ y → (linked true).Delivers x y := by
  refine ⟨checksumScheme_correct, (delivers_iff_serves checksumScheme_correct _).mpr ?_⟩
  have huses : ∀ i, (linked true).Uses i i := by decide
  have hfeeds : ∀ x y, x ≠ y → (linked true).Feeds x y := by decide
  exact fun x y hxy => ⟨x, y, huses x, huses y, .step .refl (hfeeds x y hxy)⟩

/-- **A link works in one direction only**: the relays are linked, and bob's texts do not
reach alice. -/
theorem not_delivers_linked :
    (linked false).Connected ∧ ¬ ∀ x y, x ≠ y → (linked false).Delivers x y := by
  have hlink : ∀ r r', r ≠ r' → (linked false).Feeds r r' ∨ (linked false).Feeds r' r := by
    decide
  have hfirst : ∀ r, (linked false).Uses ⟨0, by decide⟩ r → r.val = 0 := by decide
  have hsecond : ∀ r, (linked false).Uses ⟨1, by decide⟩ r → r.val = 1 := by decide
  have hno : ∀ r r', r'.val = 0 → ¬ (linked false).Feeds r r' := by decide
  refine ⟨fun r r' => ?_, fun h => ?_⟩
  · by_cases heq : r = r'
    · subst heq
      exact .refl
    · exact .step .refl (hlink r r' heq)
  · have hne : (⟨1, by decide⟩ : Fin 2) ≠ ⟨0, by decide⟩ := by decide
    obtain ⟨r, r', hr, hr', hw⟩ := serves_of_delivers checksumScheme_correct hne (h _ _ hne)
    have hr1 := hsecond r hr
    have hr0 := hfirst r' hr'
    cases hw with
    | refl => omega
    | step _ hfeeds => exact hno _ r' hr0 hfeeds

end Deployment
end Zeta
