import Zeta.RelayProcess

/-!
# Registrations in time

A client or a relay registers with its relays when it starts, and its heartbeat task
(`spawn_heartbeat`) does so again whenever it has slept for 30 seconds.  The cleanup task of
a relay (`spawn_cleanup`) sleeps as long between its rounds, in which it removes the peers
whose last `Register` is a minute old.

Here all of them run against one clock, in milliseconds.  Time goes on only as long as
nothing is overdue: a timer goes off at most `lag` after its time, and a `Register` that was
sent arrives within `delay`.  A node's clock may be behind that of the relays.
-/

namespace Zeta

/-- A node that registers with relays: where its packets come from, its relays, under which
identifiers, and the `Register` it writes for one of the relays at a time of its clock. -/
structure Registrant where
  addr : SocketAddr
  relays : List SocketAddr
  peerId : String
  btcAddress : Option String
  message : UInt64 → SocketAddr → Register
  info_eq : ∀ now relay, (message now relay).info = { peerId, lastSeen := now, btcAddress }

/-- What a relay enters into its map for the node, if it registers at this time. -/
def Registrant.entry (n : Registrant) (now : UInt64) : PeerInfo where
  peerId := n.peerId
  lastSeen := now
  btcAddress := n.btcAddress

/-- What a registrant hands to its socket. -/
def Registrant.sends (n : Registrant) (now : UInt64) : Sends :=
  n.relays.map (fun relay => (relay, .register (n.message now relay)))

/-- A client whose packets come from `addr`. -/
def clientRegistrant (P : Platform) (ctx : ClientContext P.ed) (s : ClientState)
    (addr : SocketAddr) : Registrant where
  addr
  relays := ctx.relayAddrs
  peerId := ctx.peerId
  btcAddress := some ctx.myBtc
  message now relay :=
    { srcAddr := s.localAddr, srcId := ctx.peerId, dstAddr := relay, dstId := "relay",
      time := now, btcAddress := some ctx.myBtc }
  info_eq _ _ := rfl

/-- A relay in its role of a peer of other relays. -/
def relayRegistrant (P : Platform) (ctx : RelayContext P.ed) : Registrant where
  addr := ctx.addr
  relays := ctx.peerRelays
  peerId := ctx.relayId
  btcAddress := none
  message now relay :=
    { srcAddr := .v4 0 12345, srcId := ctx.relayId, dstAddr := relay, dstId := "relay",
      time := now, btcAddress := none }
  info_eq _ _ := rfl

theorem sends_clientRegistrant (P : Platform) (ctx : ClientContext P.ed) (s : ClientState)
    (addr : SocketAddr) (now : UInt64) :
    (clientRegistrant P ctx s addr).sends now = register P ctx now s := rfl

theorem sends_relayRegistrant (P : Platform) (ctx : RelayContext P.ed) (now : UInt64) :
    (relayRegistrant P ctx).sends now = registerWithPeers P ctx now := rfl

/-- `sleep(Duration::from_secs(30))`, in milliseconds. -/
def halfMinute : ℕ := 30000

/-- `now()`, at a time in milliseconds. -/
def seconds (ms : ℕ) : UInt64 := UInt64.ofNat (ms / 1000)

/-- The registrants and the relays, and how punctual everything is. -/
structure Heartbeats (ι κ : Type) where
  node : ι → Registrant
  /-- By how much the clock of a node is behind that of the relays. -/
  behind : ι → ℕ
  relayAddr : κ → SocketAddr
  delay : ℕ
  lag : ℕ

/-- Where a registrant is in its life, and since when. -/
inductive Phase where
  | idle
  | up (since : ℕ)
  | down (since : ℕ)
  deriving DecidableEq

/-- A `Register` on its way. -/
structure Flight (ι : Type) where
  src : ι
  dst : SocketAddr
  reg : Register
  sent : ℕ
  deriving DecidableEq

/-- The state of registrants and relays. -/
structure BeatState (ι κ : Type) where
  clock : ℕ
  phase : ι → Phase
  /-- When the heartbeat task wakes up. -/
  beatAt : ι → ℕ
  relays : κ → RelayState
  /-- When the cleanup task wakes up. -/
  cleanupAt : κ → ℕ
  /-- The cleanup task is still there. -/
  cleaning : κ → Bool
  flight : List (Flight ι)
  /-- When the last `Register` from an address arrived; no step reads it. -/
  arrived : κ → SocketAddr → Option ℕ

/-- What happens between registrants and relays. -/
inductive BeatEvent (ι κ : Type) where
  /-- Time goes by. -/
  | elapse (ms : ℕ)
  /-- A node is started: it registers, and starts its heartbeat task. -/
  | start (i : ι)
  /-- The heartbeat task of a node wakes up. -/
  | beat (i : ι)
  /-- A node ends. -/
  | stop (i : ι)
  /-- A `Register` arrives at relay `r`; a duplicate of it may stay on its way. -/
  | arrive (r : κ) (f : Flight ι) (again : Bool)
  /-- The cleanup task of relay `r` wakes up. -/
  | cleanup (r : κ)
  /-- Relay `r` handles any other datagram. -/
  | other (r : κ) (sender : SocketAddr) (msg : Message)

section System
variable {ι κ : Type} [DecidableEq ι] [DecidableEq κ]

namespace BeatState

/-- Node `i` hands its `Register` messages to its socket, and goes to sleep. -/
def registers (H : Heartbeats ι κ) (s : BeatState ι κ) (i : ι) : BeatState ι κ :=
  let now := seconds (s.clock - H.behind i)
  { s with
    flight := s.flight ++ (H.node i).relays.map
      (fun relay => ⟨i, relay, (H.node i).message now relay, s.clock⟩)
    beatAt := Function.update s.beatAt i (s.clock + halfMinute) }

/-- Relay `r` handles a datagram. -/
def receives (P : Platform) (s : BeatState ι κ) (r : κ) (sender : SocketAddr) (msg : Message) :
    BeatState ι κ :=
  { s with
    relays := Function.update s.relays r (handleMessage P msg sender (s.relays r)).state
    arrived :=
      match msg with
      | .register _ => Function.update s.arrived r
          (Function.update (s.arrived r) sender (some s.clock))
      | _ => s.arrived }

/-- A round of the cleanup task of relay `r`. -/
def cleans (P : Platform) (s : BeatState ι κ) (r : κ) : BeatState ι κ :=
  let c := Zeta.cleanup P.build (seconds s.clock) (s.relays r).peers
  { s with
    relays := Function.update s.relays r { s.relays r with peers := c.1 }
    cleaning := Function.update s.cleaning r c.2
    cleanupAt := Function.update s.cleanupAt r (s.clock + halfMinute) }

end BeatState

/-- Registrants and relays as an event system. -/
def beatSystem (P : Platform) (H : Heartbeats ι κ) :
    EventSystem (BeatState ι κ) (BeatEvent ι κ) where
  Enabled s
    -- Nothing is overdue then, and the time fits a `u64`.
    | .elapse ms =>
      s.clock + ms < 2 ^ 64 ∧
      (∀ f ∈ s.flight, ∀ r, f.dst = H.relayAddr r → s.clock + ms ≤ f.sent + H.delay) ∧
      (∀ i t, s.phase i = .up t → s.clock + ms ≤ s.beatAt i + H.lag) ∧
      ∀ r, s.cleaning r = true → s.clock + ms ≤ s.cleanupAt r + H.lag
    | .start i => s.phase i = .idle
    | .beat i => (∃ t, s.phase i = .up t) ∧ s.beatAt i ≤ s.clock
    | .stop i => ∃ t, s.phase i = .up t
    | .arrive r f _ => f ∈ s.flight ∧ f.dst = H.relayAddr r
    | .cleanup r => s.cleaning r = true ∧ s.cleanupAt r ≤ s.clock
    | .other _ _ _ => True
  next s
    | .elapse ms => { s with clock := s.clock + ms }
    | .start i => { s.registers H i with phase := Function.update s.phase i (.up s.clock) }
    | .beat i => s.registers H i
    | .stop i => { s with phase := Function.update s.phase i (.down s.clock) }
    | .arrive r f again =>
      { s.receives P r (H.node f.src).addr (.register f.reg) with
        flight := if again then s.flight else s.flight.erase f }
    | .cleanup r => s.cleans P r
    | .other r sender msg => s.receives P r sender msg

/-- Relays have just been started, and nobody has registered. -/
def beatStart (clock : ℕ) : BeatState ι κ where
  clock
  phase _ := .idle
  beatAt _ := 0
  relays _ := relayStartup
  cleanupAt _ := clock + halfMinute
  cleaning _ := true
  flight := []
  arrived _ _ := none

end System

/-! ## What the cleanup keeps -/

section Cleanup
variable {b : Build} {nowTs : UInt64}

/-- An entry that is found active stays, whatever the other entries are. -/
theorem mem_retainActive {es : List (Sigma fun _ : SocketAddr => PeerInfo)}
    {p : Sigma fun _ : SocketAddr => PeerInfo} (hp : p ∈ es)
    (h : active b nowTs p.2.lastSeen = some true) : p ∈ (retainActive b nowTs es).1 := by
  induction es with
  | nil => cases hp
  | cons e es ih =>
    unfold retainActive
    rcases List.mem_cons.mp hp with rfl | hp
    · rw [h]
      exact List.mem_cons_self
    · cases active b nowTs e.2.lastSeen with
      | none => exact List.mem_cons_of_mem e hp
      | some keep =>
        cases keep with
        | true => exact List.mem_cons_of_mem e (ih hp)
        | false => exact ih hp

/-- A release build gets through all entries, and keeps those found active. -/
theorem retainActive_release (es : List (Sigma fun _ : SocketAddr => PeerInfo)) :
    (retainActive .release nowTs es).2 = true ∧
      ∀ p ∈ (retainActive .release nowTs es).1, nowTs - p.2.lastSeen < 60 := by
  induction es with
  | nil => exact ⟨rfl, fun _ hp => absurd hp List.not_mem_nil⟩
  | cons e es ih =>
    have hactive : active .release nowTs e.2.lastSeen =
        some (decide (nowTs - e.2.lastSeen < 60)) := by
      rw [active, if_neg (fun h => absurd h.1 (by decide))]
    unfold retainActive
    rw [hactive]
    by_cases hkeep : nowTs - e.2.lastSeen < 60
    · rw [decide_eq_true hkeep]
      refine ⟨ih.1, ?_⟩
      intro p hp
      rcases List.mem_cons.mp hp with rfl | hp
      · exact hkeep
      · exact ih.2 p hp
    · rw [decide_eq_false hkeep]
      exact ih

variable {peers : PeersMap} {a : SocketAddr} {info : PeerInfo}

theorem lookup_cleanup_of_active (hp : peers.lookup a = some info)
    (h : active b nowTs info.lastSeen = some true) :
    (cleanup b nowTs peers).1.lookup a = some info :=
  AList.mem_lookup_iff.mpr (mem_retainActive (p := ⟨a, info⟩) (AList.mem_lookup_iff.mp hp) h)

theorem lookup_of_lookup_cleanup (h : (cleanup b nowTs peers).1.lookup a = some info) :
    peers.lookup a = some info :=
  AList.mem_lookup_iff.mpr
    ((retainActive_sublist b nowTs peers.entries).subset (AList.mem_lookup_iff.mp h))

/-- What a release build keeps was found active. -/
theorem active_of_lookup_cleanup
    (h : (cleanup .release nowTs peers).1.lookup a = some info) : nowTs - info.lastSeen < 60 :=
  (retainActive_release peers.entries).2 ⟨a, info⟩ (AList.mem_lookup_iff.mp h)

/-- A subtraction of times that is less than a minute did not underflow, if the epoch was
more than a minute ago. -/
theorem recent_of_sub_lt {lastSeen : UInt64} (hnow : 60 ≤ nowTs.toNat)
    (h : nowTs - lastSeen < 60) :
    lastSeen.toNat ≤ nowTs.toNat ∧ nowTs.toNat < lastSeen.toNat + 60 := by
  have hsub : (nowTs - lastSeen).toNat < 60 := UInt64.lt_iff_toNat_lt.mp h
  rw [UInt64.toNat_sub] at hsub
  have hnowlt : nowTs.toNat < 2 ^ 64 := nowTs.toNat_lt
  have hseenlt : lastSeen.toNat < 2 ^ 64 := lastSeen.toNat_lt
  omega

/-- A time that is not in the future and less than a minute ago is found active. -/
theorem active_of_recent {lastSeen : UInt64} (hle : lastSeen.toNat ≤ nowTs.toNat)
    (hlt : nowTs.toNat < lastSeen.toNat + 60) : active b nowTs lastSeen = some true := by
  have hnot : ¬ nowTs < lastSeen := by
    rw [UInt64.lt_iff_toNat_lt]
    omega
  have hsub : nowTs - lastSeen < 60 := by
    rw [UInt64.lt_iff_toNat_lt, UInt64.toNat_sub_of_le _ _ (UInt64.le_iff_toNat_le.mpr hle)]
    have h60 : (60 : UInt64).toNat = 60 := rfl
    omega
  rw [active, if_neg (fun h => hnot h.2), decide_eq_true hsub]

theorem toNat_seconds {ms : ℕ} (h : ms < 2 ^ 64) : (seconds ms).toNat = ms / 1000 :=
  UInt64.toNat_ofNat_of_lt' (by
    have : ms / 1000 ≤ ms := Nat.div_le_self ms 1000
    exact Nat.lt_of_le_of_lt this h)

end Cleanup

end Zeta
