import Zeta.Relay
import Zeta.EventSystem

/-!
# A relay process

`main_relay` runs three tasks: one handles datagrams, one reads the console, and one
removes every 30 seconds the peers that have not registered for a minute
(`spawn_cleanup`).  A run of the process is any interleaving of their steps, at times
of the relay's own clock that do not decrease.

The cleanup compares that clock with `last_seen`, which is the `time` field of a
datagram: a number the sender chose.
-/

namespace Zeta

/-- `now_ts - *last_seen < 60`, on `u64`: `none` is the panic of a debug build. -/
def active (b : Build) (nowTs lastSeen : UInt64) : Option Bool :=
  if b = .debug ∧ nowTs < lastSeen then none else some (decide (nowTs - lastSeen < 60))

/-- `map.retain(..)` with the closure of `spawn_cleanup`: the entries left, and whether
the closure got through all of them without a panic. -/
def retainActive (b : Build) (nowTs : UInt64) :
    List (Sigma fun _ : SocketAddr => PeerInfo) →
      List (Sigma fun _ : SocketAddr => PeerInfo) × Bool
  | [] => ([], true)
  | e :: es =>
    match active b nowTs e.2.lastSeen with
    -- What was removed before the panic stays removed.
    | none => (e :: es, false)
    | some true => (e :: (retainActive b nowTs es).1, (retainActive b nowTs es).2)
    | some false => retainActive b nowTs es

theorem retainActive_sublist (b : Build) (nowTs : UInt64)
    (es : List (Sigma fun _ : SocketAddr => PeerInfo)) :
    (retainActive b nowTs es).1.Sublist es := by
  induction es with
  | nil => exact List.Sublist.refl []
  | cons e es ih =>
    unfold retainActive
    cases active b nowTs e.2.lastSeen with
    | none => exact List.Sublist.refl _
    | some keep =>
      cases keep with
      | true => exact ih.cons_cons e
      | false => exact ih.cons e

/-- One round of `spawn_cleanup`: the peers left, and whether the task goes on. -/
def cleanup (b : Build) (nowTs : UInt64) (peers : PeersMap) : PeersMap × Bool :=
  (⟨(retainActive b nowTs peers.entries).1,
      peers.nodupKeys.sublist (retainActive_sublist b nowTs peers.entries)⟩,
    (retainActive b nowTs peers.entries).2)

/-- A running relay: its state, the last reading of its clock, and whether its cleanup
task is still there. -/
structure RelayProcess where
  relay : RelayState
  clock : UInt64
  cleaning : Bool

/-- `main_relay` as its tasks are spawned. -/
def relayProcessStart : RelayProcess where
  relay := relayStartup
  clock := 0
  cleaning := true

/-- What the tasks of a relay do, and when. -/
inductive RelayEvent where
  /-- A datagram from `sender` is handled. -/
  | recv (now : UInt64) (sender : SocketAddr) (msg : Message)
  /-- A line on the console. -/
  | console (now msgId : UInt64) (line : String)
  /-- A round of the cleanup task. -/
  | cleanup (now : UInt64)
  /-- The iteration order of the map of peers changes. -/
  | rehash (peers : PeersMap)

section Process
variable (P : Platform) (ctx : RelayContext P.ed)

/-- A relay process as an event system. -/
def relayProcess : EventSystem RelayProcess RelayEvent where
  Enabled s
    | .recv now _ _ | .console now _ _ => s.clock ≤ now
    | .cleanup now => s.clock ≤ now ∧ s.cleaning = true
    | .rehash peers => peers.entries.Perm s.relay.peers.entries
  next s
    | .recv now sender msg =>
      { s with relay := (handleMessage P msg sender s.relay).state, clock := now }
    | .console now msgId line =>
      { s with relay := (consoleLine P ctx now msgId line s.relay).1, clock := now }
    | .cleanup now =>
      let r := Zeta.cleanup P.build now s.relay.peers
      { relay := { s.relay with peers := r.1 }, clock := now, cleaning := r.2 }
    | .rehash peers => { s with relay := { s.relay with peers := peers } }

end Process

/-! ## What the cleanup removes -/

/-- Without a subtraction that underflows, the cleanup keeps exactly the entries less
than a minute old. -/
theorem retainActive_eq_filter {b : Build} {nowTs : UInt64}
    {es : List (Sigma fun _ : SocketAddr => PeerInfo)}
    (h : ∀ e ∈ es, e.2.lastSeen ≤ nowTs) :
    retainActive b nowTs es =
      (es.filter (fun e => nowTs.toNat < e.2.lastSeen.toNat + 60), true) := by
  induction es with
  | nil => rfl
  | cons e es ih =>
    have hle : e.2.lastSeen ≤ nowTs := h e List.mem_cons_self
    have hnot : ¬ nowTs < e.2.lastSeen := by
      rw [UInt64.lt_iff_toNat_lt]
      rw [UInt64.le_iff_toNat_le] at hle
      omega
    have hsub : (nowTs - e.2.lastSeen < 60) ↔ nowTs.toNat < e.2.lastSeen.toNat + 60 := by
      rw [UInt64.lt_iff_toNat_lt, UInt64.toNat_sub_of_le _ _ hle]
      rw [UInt64.le_iff_toNat_le] at hle
      have h60 : (60 : UInt64).toNat = 60 := rfl
      omega
    have hactive : active b nowTs e.2.lastSeen =
        some (decide (nowTs.toNat < e.2.lastSeen.toNat + 60)) := by
      rw [active, if_neg (fun hb => hnot hb.2)]
      simp only [hsub]
    have hrest := ih (fun e' he' => h e' (List.mem_cons_of_mem e he'))
    unfold retainActive
    rw [hactive]
    by_cases hkeep : nowTs.toNat < e.2.lastSeen.toNat + 60
    · simp [hkeep, hrest]
    · simp [hkeep, hrest]

/-! ## Where the peers come from -/

/-- What the map holds for the sender of a `Register`. -/
def Register.info (r : Register) : PeerInfo where
  peerId := r.srcId
  lastSeen := r.time
  btcAddress := r.btcAddress

/-- The newest `Register` from `a`: when it arrived, and what it says. -/
def lastRegister (a : SocketAddr) : List RelayEvent → Option (UInt64 × Register)
  | [] => none
  | .recv now sender (.register r) :: hist =>
    if sender = a then some (now, r) else lastRegister a hist
  | _ :: hist => lastRegister a hist

/-- The event is a `Register` from `a`. -/
def RelayEvent.RegistersFrom (a : SocketAddr) (e : RelayEvent) : Prop :=
  ∃ now r, e = .recv now a (.register r)

theorem lastRegister_of_not_registersFrom {a : SocketAddr} {e : RelayEvent}
    {hist : List RelayEvent} (h : ¬ e.RegistersFrom a) :
    lastRegister a (e :: hist) = lastRegister a hist := by
  cases e with
  | console now msgId line => rfl
  | cleanup now => rfl
  | rehash peers => rfl
  | recv now sender msg =>
    cases msg with
    | register r =>
      apply if_neg
      rintro rfl
      exact h ⟨now, r, rfl⟩
    | connect _ | askForAddr _ | peerInfo _ _ | classic _ | payment _ | paymentAck _ => rfl

theorem mem_of_lastRegister {a : SocketAddr} {hist : List RelayEvent} {t : UInt64} {r : Register}
    (h : lastRegister a hist = some (t, r)) : .recv t a (.register r) ∈ hist := by
  induction hist with
  | nil => cases h
  | cons e hist ih =>
    by_cases he : e.RegistersFrom a
    · obtain ⟨now, r', rfl⟩ := he
      rw [lastRegister, if_pos rfl] at h
      cases h
      exact List.mem_cons_self
    · rw [lastRegister_of_not_registersFrom he] at h
      exact List.mem_cons_of_mem e (ih h)

section Steps
variable {P : Platform} {ctx : RelayContext P.ed} {s : RelayProcess}

theorem handleMessage_peers {msg : Message} (sender : SocketAddr) {s : RelayState}
    (h : ∀ r, msg ≠ .register r) : (handleMessage P msg sender s).state.peers = s.peers := by
  cases msg with
  | register r => exact absurd rfl (h r)
  | connect _ | peerInfo _ _ => rfl
  | classic m => exact relayClassic_peers m
  | payment p => rw [handleMessage, relayTo_state]
  | paymentAck a => rw [handleMessage, relayTo_state]
  | askForAddr a =>
    rw [handleMessage, relayAskForAddr]
    split <;> rfl

/-- **What a step does to the map of peers**: an entry that is there afterwards is what
its address has just registered, or was there before and its address did not register. -/
theorem mem_entries_next {e : RelayEvent} (hen : (relayProcess P ctx).Enabled s e)
    {p : Sigma fun _ : SocketAddr => PeerInfo}
    (h : p ∈ ((relayProcess P ctx).next s e).relay.peers.entries) :
    (∃ now r, e = .recv now p.1 (.register r) ∧ p.2 = r.info) ∨
    (¬ e.RegistersFrom p.1 ∧ p ∈ s.relay.peers.entries) := by
  cases e with
  | console now msgId line => exact Or.inr ⟨nofun, h⟩
  | cleanup now =>
    exact Or.inr ⟨nofun, (retainActive_sublist P.build now s.relay.peers.entries).subset h⟩
  | rehash peers => exact Or.inr ⟨nofun, hen.mem_iff.mp h⟩
  | recv now sender msg =>
    by_cases hreg : ∃ r, msg = .register r
    · obtain ⟨r, rfl⟩ := hreg
      have hins : p ∈ (s.relay.peers.insert sender r.info).entries := h
      rw [AList.entries_insert] at hins
      rcases List.mem_cons.mp hins with rfl | hold
      · exact Or.inl ⟨now, r, rfl, rfl⟩
      · -- The insertion erased whatever `sender` had registered before.
        refine Or.inr ⟨?_, (List.kerase_sublist _ _).subset hold⟩
        rintro ⟨now', r', he⟩
        cases he
        exact List.notMem_keys_kerase _ s.relay.peers.nodupKeys (List.mem_keys_of_mem hold)
    · have hpeers := handleMessage_peers (P := P) sender (s := s.relay)
        (fun r hr => hreg ⟨r, hr⟩)
      refine Or.inr ⟨?_, by rw [← hpeers]; exact h⟩
      rintro ⟨now', r', he⟩
      cases he
      exact hreg ⟨r', rfl⟩

/-- The clock of a relay does not go back. -/
theorem clock_le_next {e : RelayEvent} (hen : (relayProcess P ctx).Enabled s e) :
    s.clock ≤ ((relayProcess P ctx).next s e).clock := by
  cases e with
  | recv now sender msg => exact hen
  | console now msgId line => exact hen
  | cleanup now => exact hen.1
  | rehash peers => exact UInt64.le_refl _

end Steps

/-! ## The map against the history -/

/-- The map and the history agree: a peer is known by its newest `Register`, no
`Register` arrived after the relay's time, and none after the newest. -/
structure Remembers (s : RelayProcess × List RelayEvent) : Prop where
  known : ∀ p ∈ s.1.relay.peers.entries,
    ∃ t r, lastRegister p.1 s.2 = some (t, r) ∧ p.2 = r.info
  past : ∀ a t r, .recv t a (.register r) ∈ s.2 → t ≤ s.1.clock
  newest : ∀ a t r, lastRegister a s.2 = some (t, r) →
    ∀ t' r', .recv t' a (.register r') ∈ s.2 → t' ≤ t

theorem remembers_start : Remembers (relayProcessStart, []) :=
  ⟨nofun, nofun, nofun⟩

theorem remembers_next {P : Platform} {ctx : RelayContext P.ed}
    {s : RelayProcess × List RelayEvent} {e : RelayEvent} (h : Remembers s)
    (hen : (relayProcess P ctx).Enabled s.1 e) :
    Remembers ((relayProcess P ctx).withHistory.next s e) := by
  have hclock := clock_le_next hen
  refine ⟨?_, ?_, ?_⟩
  · intro p hp
    rcases mem_entries_next hen hp with ⟨now, r, rfl, hinfo⟩ | ⟨hno, hold⟩
    · exact ⟨now, r, if_pos rfl, hinfo⟩
    · obtain ⟨t, r, hlast, hinfo⟩ := h.known p hold
      exact ⟨t, r, by rw [← hlast]; exact lastRegister_of_not_registersFrom hno, hinfo⟩
  · intro a t r hmem
    rcases List.mem_cons.mp hmem with rfl | hold
    · exact UInt64.le_refl t
    · exact UInt64.le_trans (h.past a t r hold) hclock
  · intro a t r hlast t' r' hmem
    by_cases hfrom : e.RegistersFrom a
    · -- The newest is the one that has just arrived.
      obtain ⟨now, r₁, rfl⟩ := hfrom
      obtain ⟨rfl, rfl⟩ : now = t ∧ r₁ = r := by
        simpa [lastRegister] using hlast
      rcases List.mem_cons.mp hmem with he | hold
      · cases he
        exact UInt64.le_refl _
      · exact UInt64.le_trans (h.past a t' r' hold) hclock
    · rw [EventSystem.withHistory_next, lastRegister_of_not_registersFrom hfrom] at hlast
      rcases List.mem_cons.mp hmem with rfl | hold
      · exact absurd ⟨t', r', rfl⟩ hfrom
      · exact h.newest a t r hlast t' r' hold

end Zeta
