import Zeta.Heartbeat
import Zeta.SamplePlatform

/-!
# Who is in the map of a relay

What heartbeats and cleanups come to, over all their interleavings.  A node that is up is in
the map of each of its relays, under its identifiers, from the time its first `Register` had to
arrive (`registered_while_up`), as long as heartbeat, lateness and delay together stay under the
minute of the cleanup.  A node that has stopped is forgotten (`forgotten_after_stop`).  And
nobody stays in a map without registering again, whatever time was written in the last
`Register` (`entry_expires`).
-/

namespace Zeta

section Steps
variable {P : Platform} {ι κ : Type} [DecidableEq ι] [DecidableEq κ] {H : Heartbeats ι κ}
  {s : BeatState ι κ} {e : BeatEvent ι κ}

/-! ## What one step does -/

/-- The event is the arrival of a `Register` from `a` at relay `r`. -/
def BeatEvent.Registers (H : Heartbeats ι κ) (e : BeatEvent ι κ) (r : κ) (a : SocketAddr)
    (reg : Register) : Prop :=
  (∃ f again, e = .arrive r f again ∧ (H.node f.src).addr = a ∧ f.reg = reg) ∨
    e = .other r a (.register reg)

omit [DecidableEq ι] in
/-- What handling a datagram does to the entry of `a` at relay `r`. -/
theorem lookup_receives (P : Platform) (s : BeatState ι κ) (r' : κ) (sender : SocketAddr)
    (msg : Message) (r : κ) (a : SocketAddr) :
    (∃ reg, r' = r ∧ sender = a ∧ msg = .register reg ∧
      ((s.receives P r' sender msg).relays r).peers.lookup a = some reg.info ∧
      (s.receives P r' sender msg).arrived r a = some s.clock) ∨
    ((∀ reg, ¬ (r' = r ∧ sender = a ∧ msg = .register reg)) ∧
      ((s.receives P r' sender msg).relays r).peers.lookup a = (s.relays r).peers.lookup a ∧
      (s.receives P r' sender msg).arrived r a = s.arrived r a) := by
  by_cases hreg : ∃ reg, msg = .register reg
  · obtain ⟨reg, rfl⟩ := hreg
    by_cases hr : r = r'
    · subst hr
      by_cases ha : a = sender
      · subst ha
        refine Or.inl ⟨reg, rfl, rfl, rfl, ?_, ?_⟩
        · simp only [BeatState.receives, Function.update_self]
          exact AList.lookup_insert _
        · simp only [BeatState.receives, Function.update_self]
      · refine Or.inr ⟨fun reg h => ha h.2.1.symm, ?_, ?_⟩
        · simp only [BeatState.receives, Function.update_self]
          exact AList.lookup_insert_ne ha
        · simp only [BeatState.receives, Function.update_self, Function.update_of_ne ha]
    · refine Or.inr ⟨fun reg h => hr h.1.symm, ?_, ?_⟩
      · simp only [BeatState.receives, Function.update_of_ne hr]
      · simp only [BeatState.receives, Function.update_of_ne hr]
  · have hno : ∀ reg, msg ≠ .register reg := fun reg h => hreg ⟨reg, h⟩
    have harrived : (s.receives P r' sender msg).arrived = s.arrived := by
      cases msg with
      | register reg => exact absurd rfl (hno reg)
      | connect _ | askForAddr _ | peerInfo _ _ | classic _ | payment _ | paymentAck _ => rfl
    refine Or.inr ⟨fun reg h => hno reg h.2.2, ?_, by rw [harrived]⟩
    by_cases hr : r = r'
    · subst hr
      simp only [BeatState.receives, Function.update_self, handleMessage_peers sender hno]
    · simp only [BeatState.receives, Function.update_of_ne hr]

/-- **What a step does to the entry of `a` at relay `r`**: a `Register` of its arrives, the
relay cleans up, or nothing. -/
theorem lookup_next (P : Platform) (H : Heartbeats ι κ) (s : BeatState ι κ)
    (e : BeatEvent ι κ) (r : κ) (a : SocketAddr) :
    let s' := (beatSystem P H).next s e
    (∃ reg, e.Registers H r a reg ∧ (s'.relays r).peers.lookup a = some reg.info ∧
      s'.arrived r a = some s.clock) ∨
    (e = .cleanup r ∧
      (s'.relays r).peers = (cleanup P.build (seconds s.clock) (s.relays r).peers).1 ∧
      s'.arrived r a = s.arrived r a) ∨
    ((∀ reg, ¬ e.Registers H r a reg) ∧ e ≠ .cleanup r ∧
      (s'.relays r).peers.lookup a = (s.relays r).peers.lookup a ∧
      s'.arrived r a = s.arrived r a) := by
  intro s'
  cases e with
  | elapse _ | start _ | beat _ | stop _ =>
    refine Or.inr (Or.inr ⟨?_, nofun, rfl, rfl⟩)
    rintro reg (⟨f, again, he, -⟩ | he) <;> cases he
  | arrive r' f again =>
    rcases lookup_receives P s r' (H.node f.src).addr (.register f.reg) r a with
      ⟨reg, rfl, ha, hmsg, hlookup, harrived⟩ | ⟨hno, hlookup, harrived⟩
    · cases hmsg
      exact Or.inl ⟨f.reg, Or.inl ⟨f, again, rfl, ha, rfl⟩, hlookup, harrived⟩
    · refine Or.inr (Or.inr ⟨?_, nofun, hlookup, harrived⟩)
      rintro reg (⟨g, again', he, ha, -⟩ | he)
      · cases he
        exact hno f.reg ⟨rfl, ha, rfl⟩
      · cases he
  | other r' sender msg =>
    rcases lookup_receives P s r' sender msg r a with
      ⟨reg, rfl, rfl, rfl, hlookup, harrived⟩ | ⟨hno, hlookup, harrived⟩
    · exact Or.inl ⟨reg, Or.inr rfl, hlookup, harrived⟩
    · refine Or.inr (Or.inr ⟨?_, nofun, hlookup, harrived⟩)
      rintro reg (⟨g, again, he, -⟩ | he)
      · cases he
      · cases he
        exact hno reg ⟨rfl, rfl, rfl⟩
  | cleanup r' =>
    by_cases hr : r = r'
    · subst hr
      refine Or.inr (Or.inl ⟨rfl, ?_, rfl⟩)
      simp only [s', beatSystem, BeatState.cleans, Function.update_self]
    · refine Or.inr (Or.inr ⟨?_, ?_, ?_, rfl⟩)
      · rintro reg (⟨g, again, he, -⟩ | he) <;> cases he
      · intro he
        cases he
        exact hr rfl
      · simp only [s', beatSystem, BeatState.cleans, Function.update_of_ne hr]

/-- Node `i` registers. -/
def BeatEvent.Beats (e : BeatEvent ι κ) (i : ι) : Prop := e = .start i ∨ e = .beat i

/-- A `Register` on its way was on its way before, or a node has just sent it. -/
theorem mem_flight_next {f : Flight ι} (h : f ∈ ((beatSystem P H).next s e).flight) :
    f ∈ s.flight ∨ e.Beats f.src ∧ f.sent = s.clock ∧
      f.reg.info = (H.node f.src).entry (seconds (s.clock - H.behind f.src)) := by
  have hnew : ∀ i, f ∈ (s.registers H i).flight → f ∈ s.flight ∨ f.src = i ∧ f.sent = s.clock ∧
      f.reg.info = (H.node f.src).entry (seconds (s.clock - H.behind f.src)) := by
    intro i hf
    rcases List.mem_append.mp hf with hold | hsent
    · exact Or.inl hold
    · obtain ⟨relay, -, rfl⟩ := List.mem_map.mp hsent
      exact Or.inr ⟨rfl, rfl, (H.node i).info_eq _ _⟩
  cases e with
  | elapse _ | stop _ | cleanup _ | other _ _ _ => exact Or.inl h
  | start i =>
    rcases hnew i h with hold | ⟨rfl, hsent, htime⟩
    · exact Or.inl hold
    · exact Or.inr ⟨Or.inl rfl, hsent, htime⟩
  | beat i =>
    rcases hnew i h with hold | ⟨rfl, hsent, htime⟩
    · exact Or.inl hold
    · exact Or.inr ⟨Or.inr rfl, hsent, htime⟩
  | arrive r g again =>
    cases again with
    | true => exact Or.inl h
    | false => exact Or.inl (List.mem_of_mem_erase h)

/-- When a relay wakes up next for its cleanup. -/
theorem cleanupAt_next (r : κ) :
    (e = .cleanup r ∧ ((beatSystem P H).next s e).cleanupAt r = s.clock + halfMinute) ∨
    (e ≠ .cleanup r ∧ ((beatSystem P H).next s e).cleanupAt r = s.cleanupAt r ∧
      ((beatSystem P H).next s e).cleaning r = s.cleaning r) := by
  cases e with
  | elapse _ | start _ | beat _ | stop _ | arrive _ _ _ | other _ _ _ =>
    exact Or.inr ⟨nofun, rfl, rfl⟩
  | cleanup r' =>
    by_cases hr : r = r'
    · subst hr
      refine Or.inl ⟨rfl, ?_⟩
      simp only [beatSystem, BeatState.cleans, Function.update_self]
    · refine Or.inr ⟨?_, ?_, ?_⟩
      · intro he
        cases he
        exact hr rfl
      · simp only [beatSystem, BeatState.cleans, Function.update_of_ne hr]
      · simp only [beatSystem, BeatState.cleans, Function.update_of_ne hr]

/-- **What a step does to node `i`**: it starts, its heartbeat goes off, it ends, or nothing
happens to it. -/
theorem phase_next (i : ι) :
    let s' := (beatSystem P H).next s e
    (e = .start i ∧ s'.phase i = .up s.clock ∧ s'.beatAt i = s.clock + halfMinute) ∨
    (e = .beat i ∧ s'.phase i = s.phase i ∧ s'.beatAt i = s.clock + halfMinute) ∨
    (e = .stop i ∧ s'.phase i = .down s.clock) ∨
    (¬ e.Beats i ∧ s'.phase i = s.phase i ∧ s'.beatAt i = s.beatAt i) := by
  intro s'
  have hkeep : ∀ {j}, i ≠ j → (e = .start j ∨ e = .beat j ∨ e = .stop j) → ¬ e.Beats i := by
    rintro j hij (rfl | rfl | rfl) (he | he) <;> cases he <;> exact hij rfl
  cases e with
  | elapse _ | cleanup _ | arrive _ _ _ | other _ _ _ =>
    refine Or.inr (Or.inr (Or.inr ⟨?_, rfl, rfl⟩))
    rintro (he | he) <;> cases he
  | start j =>
    by_cases hij : i = j
    · subst hij
      exact Or.inl ⟨rfl, by simp only [s', beatSystem, Function.update_self],
        by simp only [s', beatSystem, BeatState.registers, Function.update_self]⟩
    · exact Or.inr (Or.inr (Or.inr ⟨hkeep hij (Or.inl rfl),
        by simp only [s', beatSystem, Function.update_of_ne hij, BeatState.registers],
        by simp only [s', beatSystem, BeatState.registers, Function.update_of_ne hij]⟩))
  | beat j =>
    by_cases hij : i = j
    · subst hij
      exact Or.inr (Or.inl ⟨rfl, rfl,
        by simp only [s', beatSystem, BeatState.registers, Function.update_self]⟩)
    · exact Or.inr (Or.inr (Or.inr ⟨hkeep hij (Or.inr (Or.inl rfl)), rfl,
        by simp only [s', beatSystem, BeatState.registers, Function.update_of_ne hij]⟩))
  | stop j =>
    by_cases hij : i = j
    · subst hij
      exact Or.inr (Or.inr (Or.inl ⟨rfl, by simp only [s', beatSystem, Function.update_self]⟩))
    · exact Or.inr (Or.inr (Or.inr ⟨hkeep hij (Or.inr (Or.inr rfl)),
        by simp only [s', beatSystem, Function.update_of_ne hij], rfl⟩))

theorem clock_next :
    (∃ ms, e = .elapse ms ∧ ((beatSystem P H).next s e).clock = s.clock + ms) ∨
    ((∀ ms, e ≠ .elapse ms) ∧ ((beatSystem P H).next s e).clock = s.clock) := by
  cases e with
  | elapse ms => exact Or.inl ⟨ms, rfl, rfl⟩
  | start _ | beat _ | stop _ | arrive _ _ _ | cleanup _ | other _ _ _ =>
    exact Or.inr ⟨nofun, rfl⟩

/-- Time does not go back. -/
theorem le_clock_next : s.clock ≤ ((beatSystem P H).next s e).clock := by
  rcases clock_next (P := P) (H := H) (s := s) (e := e) with ⟨ms, -, hc⟩ | ⟨-, hc⟩ <;> omega

/-! ## Nothing is overdue -/

/-- Everything that is due happens in time, and what is on its way is as it was written. -/
structure OnTime (H : Heartbeats ι κ) (s : BeatState ι κ) : Prop where
  range : s.clock < 2 ^ 64
  sent : ∀ f ∈ s.flight, f.sent ≤ s.clock
  written : ∀ f ∈ s.flight,
    f.reg.info = (H.node f.src).entry (seconds (f.sent - H.behind f.src))
  arriving : ∀ f ∈ s.flight, ∀ r, f.dst = H.relayAddr r → s.clock ≤ f.sent + H.delay
  beating : ∀ i t, s.phase i = .up t → s.clock ≤ s.beatAt i + H.lag
  cleaning : ∀ r, s.cleaning r = true → s.clock ≤ s.cleanupAt r + H.lag
  asleep : ∀ r, s.cleanupAt r ≤ s.clock + halfMinute

omit [DecidableEq ι] [DecidableEq κ] in
theorem onTime_start {clock : ℕ} (h : clock < 2 ^ 64) : OnTime H (beatStart clock) where
  range := h
  sent := nofun
  written := nofun
  arriving := nofun
  beating := nofun
  cleaning r _ := by
    show clock ≤ clock + halfMinute + H.lag
    omega
  asleep _ := Nat.le_refl _

theorem onTime_next (h : OnTime H s) (hen : (beatSystem P H).Enabled s e) :
    OnTime H ((beatSystem P H).next s e) := by
  have hclock := clock_next (P := P) (H := H) (s := s) (e := e)
  refine ⟨?_, ?_, ?_, ?_, ?_, ?_, ?_⟩
  · rcases hclock with ⟨ms, rfl, hc⟩ | ⟨-, hc⟩
    · rw [hc]
      exact hen.1
    · rw [hc]
      exact h.range
  · intro f hf
    rcases mem_flight_next hf with hold | ⟨-, hsent, -⟩
    · have := h.sent f hold
      omega
    · omega
  · intro f hf
    rcases mem_flight_next hf with hold | ⟨-, hsent, hinfo⟩
    · exact h.written f hold
    · rw [hinfo, hsent]
  · intro f hf r hr
    rcases mem_flight_next hf with hold | ⟨-, hsent, -⟩
    · have hdue := h.arriving f hold r hr
      rcases hclock with ⟨ms, rfl, hc⟩ | ⟨-, hc⟩
      · have := hen.2.1 f hold r hr
        omega
      · omega
    · rcases hclock with ⟨ms, rfl, hc⟩ | ⟨-, hc⟩
      · have := hen.2.1 f hf r hr
        omega
      · omega
  · intro i t hup
    rcases phase_next (P := P) (H := H) (s := s) (e := e) i with
      ⟨rfl, -, hbeat⟩ | ⟨rfl, -, hbeat⟩ | ⟨rfl, hdown⟩ | ⟨-, hphase, hbeat⟩
    · rw [hbeat]
      show s.clock ≤ s.clock + halfMinute + H.lag
      omega
    · rw [hbeat]
      show s.clock ≤ s.clock + halfMinute + H.lag
      omega
    · rw [hup] at hdown
      cases hdown
    · rw [hphase] at hup
      rw [hbeat]
      have hdue := h.beating i t hup
      rcases hclock with ⟨ms, rfl, hc⟩ | ⟨-, hc⟩
      · have := hen.2.2.1 i t hup
        omega
      · omega
  · intro r hcleaning
    rcases cleanupAt_next (P := P) (H := H) (s := s) (e := e) r with
      ⟨rfl, hat⟩ | ⟨-, hat, hsame⟩
    · rw [hat]
      show s.clock ≤ s.clock + halfMinute + H.lag
      omega
    · rw [hsame] at hcleaning
      rw [hat]
      have hdue := h.cleaning r hcleaning
      rcases hclock with ⟨ms, rfl, hc⟩ | ⟨-, hc⟩
      · have := hen.2.2.2 r hcleaning
        omega
      · omega
  · intro r
    rcases cleanupAt_next (P := P) (H := H) (s := s) (e := e) r with
      ⟨rfl, hat⟩ | ⟨-, hat, -⟩
    · rw [hat]
      exact Nat.le_refl _
    · rw [hat]
      have := h.asleep r
      omega

/-! ## How long an entry lasts -/

/-- **How old an entry can be**, at a relay whose clock is past the first minute of the
epoch: since its `Register` arrived there has been no round of the cleanup, or the first
one found that its time was not in the future, and the last one that it was less than a
minute ago. -/
structure Ages (H : Heartbeats ι κ) (s : BeatState ι κ) : Prop where
  epoch : 60000 ≤ s.clock
  cleaning : ∀ r, s.cleaning r = true
  aged : ∀ r a info, (s.relays r).peers.lookup a = some info →
    ∃ t, s.arrived r a = some t ∧ t ≤ s.clock ∧
      (s.cleanupAt r ≤ t + halfMinute ∨
        1000 * info.lastSeen.toNat ≤ t + halfMinute + H.lag ∧
          s.cleanupAt r ≤ 1000 * info.lastSeen.toNat + 60000 + halfMinute)

omit [DecidableEq ι] [DecidableEq κ] in
theorem ages_start {clock : ℕ} (h : 60000 ≤ clock) : Ages H (beatStart clock) :=
  ⟨h, fun _ => rfl, fun _ _ _ hlookup => by cases hlookup⟩

/-- What a round of the cleanup leaves is less than a minute old by the time in it. -/
theorem recent_of_cleanup {clock : ℕ} {a : SocketAddr} {info : PeerInfo} {peers : PeersMap}
    (hepoch : 60000 ≤ clock) (hrange : clock < 2 ^ 64)
    (h : (cleanup .release (seconds clock) peers).1.lookup a = some info) :
    1000 * info.lastSeen.toNat ≤ clock ∧ clock < 1000 * info.lastSeen.toNat + 60000 := by
  have hnow := toNat_seconds hrange
  have hkept := recent_of_sub_lt (by omega) (active_of_lookup_cleanup h)
  omega

theorem ages_next (hrelease : P.build = .release) (hp : OnTime H s) (h : Ages H s)
    (hen : (beatSystem P H).Enabled s e) : Ages H ((beatSystem P H).next s e) := by
  have hclock := le_clock_next (P := P) (H := H) (s := s) (e := e)
  refine ⟨Nat.le_trans h.epoch hclock, ?_, ?_⟩
  · intro r
    rcases cleanupAt_next (P := P) (H := H) (s := s) (e := e) r with
      ⟨rfl, -⟩ | ⟨-, -, hsame⟩
    · simp only [beatSystem, BeatState.cleans, Function.update_self, hrelease]
      exact (retainActive_release _).1
    · rw [hsame]
      exact h.cleaning r
  · intro r a info hlookup
    rcases lookup_next P H s e r a with
      ⟨reg, hreg, -, harrived⟩ | ⟨rfl, hpeers, harrived⟩ | ⟨-, hne, hsame, harrived⟩
    · refine ⟨s.clock, harrived, hclock, Or.inl ?_⟩
      rcases cleanupAt_next (P := P) (H := H) (s := s) (e := e) r with
        ⟨-, hat⟩ | ⟨-, hat, -⟩
      · rw [hat]
      · rw [hat]
        exact hp.asleep r
    · -- The round found the entry active, and is not later than `lag` after its time.
      rw [hpeers, hrelease] at hlookup
      obtain ⟨hpast, -⟩ := recent_of_cleanup h.epoch hp.range hlookup
      have hlate := hp.cleaning r (h.cleaning r)
      obtain ⟨t, ht, hle, hage⟩ := h.aged r a info (lookup_of_lookup_cleanup hlookup)
      refine ⟨t, by rw [harrived, ht], Nat.le_trans hle hclock, Or.inr ⟨?_, ?_⟩⟩
      · rcases hage with hfirst | ⟨hstamp, -⟩ <;> omega
      · have hrecent := (recent_of_cleanup h.epoch hp.range hlookup).2
        simp only [beatSystem, BeatState.cleans, Function.update_self]
        omega
    · rw [hsame] at hlookup
      obtain ⟨t, ht, hle, hage⟩ := h.aged r a info hlookup
      refine ⟨t, by rw [harrived, ht], Nat.le_trans hle hclock, ?_⟩
      rcases cleanupAt_next (P := P) (H := H) (s := s) (e := e) r with
        ⟨rfl, -⟩ | ⟨-, hat, -⟩
      · exact absurd rfl hne
      · rw [hat]
        exact hage

/-- **No entry outlives its last `Register` by more than two minutes** and twice what a
timer may be late, in any run of a release build, whatever anybody sends and whatever time
it says it is. -/
theorem entry_expires (P : Platform) (H : Heartbeats ι κ) (clock : ℕ)
    (es : List (BeatEvent ι κ)) (r : κ) (a : SocketAddr) (hrelease : P.build = .release)
    (hepoch : 60000 ≤ clock) (hrange : clock < 2 ^ 64)
    (hrun : (beatSystem P H).Always (fun _ _ => True) (beatStart clock) es)
    (hkey : a ∈ (((beatSystem P H).run (beatStart clock) es).relays r).peers.keys) :
    ∃ t, ((beatSystem P H).run (beatStart clock) es).arrived r a = some t ∧
      ((beatSystem P H).run (beatStart clock) es).clock ≤ t + 120000 + 2 * H.lag := by
  obtain ⟨hp, hages⟩ := EventSystem.invariant_run
    (I := fun s => OnTime H s ∧ Ages H s)
    (fun s e h hen _ => ⟨onTime_next h.1 hen, ages_next hrelease h.1 h.2 hen⟩) hrun
    ⟨onTime_start hrange, ages_start hepoch⟩
  obtain ⟨info, hlookup⟩ := Option.isSome_iff_exists.mp (AList.lookup_isSome.mpr hkey)
  obtain ⟨t, ht, -, hage⟩ := hages.aged r a info hlookup
  refine ⟨t, ht, ?_⟩
  have hlate := hp.cleaning r (hages.cleaning r)
  have hhalf : halfMinute = 30000 := rfl
  rcases hage with hfirst | ⟨hstamp, hlast⟩ <;> omega

/-! ## A node that is up -/

/-- Nobody else registers from the address of a node. -/
def Unspoofed (H : Heartbeats ι κ) (_ : BeatState ι κ) : BeatEvent ι κ → Prop
  | .other _ sender (.register _) => ∀ i, sender ≠ (H.node i).addr
  | _ => True

/-- A `Register` of node `i` is on its way to relay `r`. -/
def OnItsWay (H : Heartbeats ι κ) (s : BeatState ι κ) (i : ι) (r : κ) : Prop :=
  ∃ f ∈ s.flight, f.src = i ∧ f.dst = H.relayAddr r

/-- Relay `r` holds what node `i` wrote at time `v`. -/
def Holds (H : Heartbeats ι κ) (s : BeatState ι κ) (i : ι) (r : κ) (v : ℕ) : Prop :=
  (s.relays r).peers.lookup (H.node i).addr =
    some ((H.node i).entry (seconds (v - H.behind i)))

/-- **What relay `r` knows of node `i`.**  While the node is up, with `u` the time of its last
beat: its first `Register` is on its way, or the relay holds the last one, or it holds the
one before and the last is on its way. -/
structure Held (H : Heartbeats ι κ) (i : ι) (r : κ) (s : BeatState ι κ) : Prop where
  idle : s.phase i = .idle → ∀ f ∈ s.flight, f.src ≠ i
  up : ∀ t, s.phase i = .up t → ∃ u, s.beatAt i = u + halfMinute ∧ u ≤ s.clock ∧
    (∀ f ∈ s.flight, f.src = i → f.dst = H.relayAddr r → f.sent = u) ∧
    (u = t ∧ OnItsWay H s i r ∨
      ∃ v, Holds H s i r v ∧ v ≤ u ∧
        (v = u ∨ u ≤ v + halfMinute + H.lag ∧ OnItsWay H s i r))

omit [DecidableEq ι] [DecidableEq κ] in
theorem held_start {clock : ℕ} (i : ι) (r : κ) : Held H i r (beatStart clock) :=
  ⟨fun _ => nofun, fun _ h => by cases h⟩

theorem onItsWay_next {i : ι} {r : κ} (hrel : Function.Injective H.relayAddr)
    (h : OnItsWay H s i r) (hen : (beatSystem P H).Enabled s e)
    (hno : ∀ reg, ¬ e.Registers H r (H.node i).addr reg) :
    OnItsWay H ((beatSystem P H).next s e) i r := by
  obtain ⟨f, hf, hsrc, hdst⟩ := h
  refine ⟨f, ?_, hsrc, hdst⟩
  cases e with
  | elapse _ | stop _ | cleanup _ | other _ _ _ => exact hf
  | start j => exact List.mem_append_left _ hf
  | beat j => exact List.mem_append_left _ hf
  | arrive r' g again =>
    cases again with
    | true => exact hf
    | false =>
      refine (List.mem_erase_of_ne ?_).mpr hf
      rintro rfl
      -- The message that arrives is not the one of `i` to `r`.
      have hr : r' = r := hrel (hen.2.symm.trans hdst)
      exact hno f.reg (Or.inl ⟨f, false, by rw [hr], by rw [hsrc], rfl⟩)

/-- A node that registers has its message to each of its relays on its way. -/
theorem onItsWay_of_beats {i : ι} {r : κ} (hr : H.relayAddr r ∈ (H.node i).relays)
    (h : e.Beats i) : OnItsWay H ((beatSystem P H).next s e) i r := by
  have hsent : ⟨i, H.relayAddr r, (H.node i).message (seconds (s.clock - H.behind i))
      (H.relayAddr r), s.clock⟩ ∈ (s.registers H i).flight :=
    List.mem_append_right _ (List.mem_map.mpr ⟨_, hr, rfl⟩)
  rcases h with rfl | rfl
  · exact ⟨_, hsent, rfl, rfl⟩
  · exact ⟨_, hsent, rfl, rfl⟩

/-- A relay that cleans up keeps what a node wrote within the last 59 seconds. -/
theorem holds_cleanup {i : ι} {r : κ} {v : ℕ} (hrange : s.clock < 2 ^ 64) (h : Holds H s i r v)
    (hv : v ≤ s.clock) (hlate : s.clock + H.behind i ≤ v + 59000) :
    Holds H ((beatSystem P H).next s (.cleanup r)) i r v := by
  have hnow := toNat_seconds hrange
  have hseen : ((H.node i).entry (seconds (v - H.behind i))).lastSeen.toNat =
      (v - H.behind i) / 1000 := toNat_seconds (by omega)
  simp only [Holds, beatSystem, BeatState.cleans, Function.update_self]
  exact lookup_cleanup_of_active h (active_of_recent (by omega) (by omega))

/-- The node starts: nothing of it was on its way before. -/
theorem held_start_node {i : ι} {r : κ} (hr : H.relayAddr r ∈ (H.node i).relays)
    (h : Held H i r s) (hen : (beatSystem P H).Enabled s (.start i)) :
    Held H i r ((beatSystem P H).next s (.start i)) := by
  have hphase : ((beatSystem P H).next s (.start i)).phase i = .up s.clock := by
    simp only [beatSystem, Function.update_self]
  constructor
  · intro hidle
    rw [hphase] at hidle
    cases hidle
  · intro t ht
    rw [hphase] at ht
    cases ht
    refine ⟨s.clock, ?_, Nat.le_refl _, ?_, Or.inl ⟨rfl, onItsWay_of_beats hr (Or.inl rfl)⟩⟩
    · simp only [beatSystem, BeatState.registers, Function.update_self]
    · intro f hf hsrc _
      rcases mem_flight_next hf with hold | ⟨-, hsent, -⟩
      · exact absurd hsrc (h.idle hen f hold)
      · exact hsent

/-- The heartbeat goes off: what the node sent before has arrived. -/
theorem held_beat {i : ι} {r : κ} (hr : H.relayAddr r ∈ (H.node i).relays)
    (hdelay : H.delay < halfMinute) (hp : OnTime H s) (h : Held H i r s)
    (hen : (beatSystem P H).Enabled s (.beat i)) :
    Held H i r ((beatSystem P H).next s (.beat i)) := by
  obtain ⟨⟨t, hup⟩, hdue⟩ := hen
  obtain ⟨u, hu, hle, hflight, hknown⟩ := h.up t hup
  have hnone : ∀ f ∈ s.flight, f.src = i → f.dst ≠ H.relayAddr r := by
    intro f hf hsrc hdst
    have hsent := hflight f hf hsrc hdst
    have harrive := hp.arriving f hf r hdst
    omega
  constructor
  · intro hidle
    rw [show ((beatSystem P H).next s (.beat i)).phase i = s.phase i from rfl, hup] at hidle
    cases hidle
  · intro t' _
    refine ⟨s.clock, ?_, Nat.le_refl _, ?_, Or.inr ?_⟩
    · simp only [beatSystem, BeatState.registers, Function.update_self]
    · intro f hf hsrc hdst
      rcases mem_flight_next hf with hold | ⟨-, hsent, -⟩
      · exact absurd hdst (hnone f hold hsrc)
      · exact hsent
    · rcases hknown with ⟨-, f, hf, hsrc, hdst⟩ | ⟨v, hv, hvu, hlast⟩
      · exact absurd hdst (hnone f hf hsrc)
      · have hvu : v = u := by
          rcases hlast with rfl | ⟨-, f, hf, hsrc, hdst⟩
          · rfl
          · exact absurd hdst (hnone f hf hsrc)
        have hlate := hp.beating i t hup
        exact ⟨v, hv, by omega, Or.inr ⟨by omega, onItsWay_of_beats hr (Or.inr rfl)⟩⟩

omit [DecidableEq ι] [DecidableEq κ] in
/-- What a relay holds of a node that is up was written at one of its last two beats. -/
theorem recent_of_last {i : ι} {r : κ} {u t v : ℕ} (hp : OnTime H s) (hup : s.phase i = .up t)
    (hu : s.beatAt i = u + halfMinute)
    (hflight : ∀ f ∈ s.flight, f.src = i → f.dst = H.relayAddr r → f.sent = u)
    (hlast : v = u ∨ u ≤ v + halfMinute + H.lag ∧ OnItsWay H s i r) :
    s.clock ≤ v + halfMinute + H.lag + H.delay := by
  rcases hlast with rfl | ⟨hgap, f, hf, hsrc, hdst⟩
  · have := hp.beating i t hup
    omega
  · have hsent := hflight f hf hsrc hdst
    have := hp.arriving f hf r hdst
    omega

/-- **What relay `r` knows of a node that is up, after a step that is not the node's own.** -/
theorem known_next {i : ι} {r : κ} {u t : ℕ} (hrel : Function.Injective H.relayAddr)
    (haddr : Function.Injective (fun i => (H.node i).addr))
    (htime : halfMinute + H.lag + H.delay + H.behind i ≤ 59000) (hp : OnTime H s)
    (hen : (beatSystem P H).Enabled s e) (hok : Unspoofed H s e) (hup : s.phase i = .up t)
    (hu : s.beatAt i = u + halfMinute) (hle : u ≤ s.clock)
    (hflight : ∀ f ∈ s.flight, f.src = i → f.dst = H.relayAddr r → f.sent = u)
    (hknown : u = t ∧ OnItsWay H s i r ∨
      ∃ v, Holds H s i r v ∧ v ≤ u ∧ (v = u ∨ u ≤ v + halfMinute + H.lag ∧ OnItsWay H s i r)) :
    let s' := (beatSystem P H).next s e
    u = t ∧ OnItsWay H s' i r ∨
      ∃ v, Holds H s' i r v ∧ v ≤ u ∧
        (v = u ∨ u ≤ v + halfMinute + H.lag ∧ OnItsWay H s' i r) := by
  intro s'
  rcases lookup_next P H s e r (H.node i).addr with
    ⟨reg, hreg, hlookup, -⟩ | ⟨rfl, -, -⟩ | ⟨hnoreg, -, hsame, -⟩
  · -- A `Register` of the node arrives, and it is the last one.
    rcases hreg with ⟨f, again, rfl, hsrc, rfl⟩ | rfl
    · have hsrc : f.src = i := haddr hsrc
      have hsent := hflight f hen.1 hsrc hen.2
      refine Or.inr ⟨u, hlookup.trans (congrArg some ?_), Nat.le_refl _, Or.inl rfl⟩
      rw [hp.written f hen.1, hsent, hsrc]
    · exact absurd rfl (hok i)
  · -- The relay cleans up: the node's entry is not old enough.
    have hway : OnItsWay H s i r → OnItsWay H s' i r := id
    rcases hknown with ⟨hfirst, hw⟩ | ⟨v, hv, hvu, hlast⟩
    · exact Or.inl ⟨hfirst, hway hw⟩
    · have hlate := recent_of_last hp hup hu hflight hlast
      exact Or.inr ⟨v, holds_cleanup hp.range hv (by omega) (by omega), hvu,
        hlast.imp_right (fun hgap => ⟨hgap.1, hway hgap.2⟩)⟩
  · have hway : OnItsWay H s i r → OnItsWay H s' i r :=
      fun hw => onItsWay_next hrel hw hen hnoreg
    rcases hknown with ⟨hfirst, hw⟩ | ⟨v, hv, hvu, hlast⟩
    · exact Or.inl ⟨hfirst, hway hw⟩
    · exact Or.inr ⟨v, hsame.trans hv, hvu,
        hlast.imp_right (fun hgap => ⟨hgap.1, hway hgap.2⟩)⟩

theorem held_next {i : ι} {r : κ} (hrel : Function.Injective H.relayAddr)
    (haddr : Function.Injective (fun i => (H.node i).addr))
    (hr : H.relayAddr r ∈ (H.node i).relays)
    (htime : halfMinute + H.lag + H.delay + H.behind i ≤ 59000) (hp : OnTime H s)
    (h : Held H i r s) (hen : (beatSystem P H).Enabled s e) (hok : Unspoofed H s e) :
    Held H i r ((beatSystem P H).next s e) := by
  have hhalf : halfMinute = 30000 := rfl
  rcases phase_next (P := P) (H := H) (s := s) (e := e) i with
    ⟨rfl, -, -⟩ | ⟨rfl, -, -⟩ | ⟨-, hphase⟩ | ⟨hno, hphase, hbeat⟩
  · exact held_start_node hr h hen
  · exact held_beat hr (by omega) hp h hen
  · refine ⟨fun hidle => ?_, fun t ht => ?_⟩
    · rw [hphase] at hidle
      cases hidle
    · rw [hphase] at ht
      cases ht
  · have hold : ∀ f ∈ ((beatSystem P H).next s e).flight, f.src = i → f ∈ s.flight := by
      intro f hf hsrc
      rcases mem_flight_next hf with hold | ⟨hbeats, -⟩
      · exact hold
      · rw [hsrc] at hbeats
        exact absurd hbeats hno
    constructor
    · intro hidle f hf hsrc
      rw [hphase] at hidle
      exact h.idle hidle f (hold f hf hsrc) hsrc
    · intro t ht
      rw [hphase] at ht
      obtain ⟨u, hu, hle, hflight, hknown⟩ := h.up t ht
      exact ⟨u, by rw [hbeat, hu], Nat.le_trans hle le_clock_next,
        fun f hf hsrc hdst => hflight f (hold f hf hsrc) hsrc hdst,
        known_next hrel haddr htime hp hen hok ht hu hle hflight hknown⟩

/-- **A node that is up is in the maps of its relays.**  In every run in which nobody else
registers from its address, from `delay` after its start on, whatever the interleaving of
heartbeats, cleanups and everybody's datagrams, if heartbeat, lateness, delay and the node's
clock leave a second of the minute.  The entry of its address is the node's own, under its
identifiers, and was written no longer ago than a heartbeat, its lateness and the delay. -/
theorem registered_while_up (P : Platform) (H : Heartbeats ι κ) (clock : ℕ)
    (es : List (BeatEvent ι κ)) (i : ι) (r : κ) (t : ℕ)
    (hrel : Function.Injective H.relayAddr)
    (haddr : Function.Injective (fun i => (H.node i).addr))
    (hr : H.relayAddr r ∈ (H.node i).relays)
    (htime : halfMinute + H.lag + H.delay + H.behind i ≤ 59000) (hrange : clock < 2 ^ 64)
    (hrun : (beatSystem P H).Always (Unspoofed H) (beatStart clock) es)
    (hup : ((beatSystem P H).run (beatStart clock) es).phase i = .up t)
    (hlong : t + H.delay < ((beatSystem P H).run (beatStart clock) es).clock) :
    let s := (beatSystem P H).run (beatStart clock) es
    ∃ v, v ≤ s.clock ∧ s.clock ≤ v + halfMinute + H.lag + H.delay ∧
      (s.relays r).peers.lookup (H.node i).addr =
        some { peerId := (H.node i).peerId, lastSeen := seconds (v - H.behind i),
               btcAddress := (H.node i).btcAddress } := by
  intro s
  obtain ⟨hp, hheld⟩ := EventSystem.invariant_run
    (I := fun s => OnTime H s ∧ Held H i r s)
    (fun s e h hen hok =>
      ⟨onTime_next h.1 hen, held_next hrel haddr hr htime h.1 h.2 hen hok⟩) hrun
    ⟨onTime_start hrange, held_start i r⟩
  obtain ⟨u, hu, hle, hflight, hknown⟩ := hheld.up t hup
  rcases hknown with ⟨rfl, f, hf, hsrc, hdst⟩ | ⟨v, hlookup, hvu, hlast⟩
  · -- The first `Register` should have arrived.
    have hsent := hflight f hf hsrc hdst
    have harrive := hp.arriving f hf r hdst
    omega
  · exact ⟨v, Nat.le_trans hvu hle, recent_of_last hp hup hu hflight hlast, hlookup⟩

/-! ## A node that has stopped -/

/-- **What is left of node `i`.**  After it stopped at `t` nothing of it that was sent later
is on its way, nothing of it arrived after `t + delay`, and no entry of it carries a time
after its arrival. -/
structure Leaves (H : Heartbeats ι κ) (i : ι) (s : BeatState ι κ) : Prop where
  flight : ∀ t, s.phase i = .down t → ∀ f ∈ s.flight, f.src = i → f.sent ≤ t
  arrived : ∀ r a, s.arrived r (H.node i).addr = some a →
    a ≤ s.clock ∧ ∀ t, s.phase i = .down t → a ≤ t + H.delay
  stamp : ∀ r info a, (s.relays r).peers.lookup (H.node i).addr = some info →
    s.arrived r (H.node i).addr = some a → 1000 * info.lastSeen.toNat ≤ a

omit [DecidableEq ι] [DecidableEq κ] in
theorem leaves_start {clock : ℕ} (i : ι) : Leaves H i (beatStart clock) where
  flight _ _ := nofun
  arrived _ _ h := by cases h
  stamp _ _ _ h := by cases h

/-- A node is down after a step if the step ended it, or it was down and did nothing. -/
theorem down_next {i : ι} {t : ℕ} (hen : (beatSystem P H).Enabled s e)
    (h : ((beatSystem P H).next s e).phase i = .down t) :
    e = .stop i ∧ t = s.clock ∨ s.phase i = .down t ∧ ¬ e.Beats i ∧ e ≠ .stop i := by
  rcases phase_next (P := P) (H := H) (s := s) (e := e) i with
    ⟨rfl, hphase, -⟩ | ⟨rfl, hphase, -⟩ | ⟨rfl, hphase⟩ | ⟨hno, hphase, -⟩
  · rw [h] at hphase
    cases hphase
  · obtain ⟨⟨t', hup⟩, -⟩ := hen
    rw [h, hup] at hphase
    cases hphase
  · rw [h] at hphase
    cases hphase
    exact Or.inl ⟨rfl, rfl⟩
  · rw [h] at hphase
    refine Or.inr ⟨hphase.symm, hno, ?_⟩
    rintro rfl
    obtain ⟨t', hup⟩ := hen
    rw [hup] at hphase
    cases hphase

theorem leaves_next {i : ι} (haddr : Function.Injective (fun i => (H.node i).addr))
    (hp : OnTime H s) (h : Leaves H i s) (hen : (beatSystem P H).Enabled s e)
    (hok : Unspoofed H s e) : Leaves H i ((beatSystem P H).next s e) := by
  have hclock := le_clock_next (P := P) (H := H) (s := s) (e := e)
  -- What registers from the node's address is a message of its own.
  have harrival : ∀ r reg, e.Registers H r (H.node i).addr reg →
      e ≠ .stop i ∧ ∃ f ∈ s.flight, f.src = i ∧ f.reg = reg ∧ s.clock ≤ f.sent + H.delay := by
    rintro r reg (⟨f, again, rfl, hsrc, rfl⟩ | rfl)
    · exact ⟨nofun, f, hen.1, haddr hsrc, rfl, hp.arriving f hen.1 r hen.2⟩
    · exact absurd rfl (hok i)
  refine ⟨?_, ?_, ?_⟩
  · intro t ht f hf hsrc
    rcases down_next hen ht with ⟨rfl, rfl⟩ | ⟨hdown, hno, -⟩
    · exact hp.sent f hf
    · rcases mem_flight_next hf with hold | ⟨hbeats, -⟩
      · exact h.flight t hdown f hold hsrc
      · rw [hsrc] at hbeats
        exact absurd hbeats hno
  · intro r a ha
    rcases lookup_next P H s e r (H.node i).addr with
      ⟨reg, hreg, -, harrived⟩ | ⟨rfl, -, harrived⟩ | ⟨-, -, -, harrived⟩
    · obtain ⟨hne, f, hf, hsrc, -, hdue⟩ := harrival r reg hreg
      obtain rfl := Option.some.inj (harrived.symm.trans ha)
      refine ⟨hclock, ?_⟩
      intro t ht
      rcases down_next hen ht with ⟨he, -⟩ | ⟨hdown, -⟩
      · exact absurd he hne
      · have hsent := h.flight t hdown f hf hsrc
        omega
    all_goals
      rw [harrived] at ha
      obtain ⟨hle, hlast⟩ := h.arrived r a ha
      refine ⟨Nat.le_trans hle hclock, ?_⟩
      intro t ht
      rcases down_next hen ht with ⟨-, rfl⟩ | ⟨hdown, -⟩
      · omega
      · exact hlast t hdown
  · intro r info a hlookup ha
    rcases lookup_next P H s e r (H.node i).addr with
      ⟨reg, hreg, hnew, harrived⟩ | ⟨rfl, hpeers, harrived⟩ | ⟨-, -, hsame, harrived⟩
    · obtain ⟨-, f, hf, -, rfl, -⟩ := harrival r reg hreg
      obtain rfl := Option.some.inj (harrived.symm.trans ha)
      obtain rfl := Option.some.inj (hnew.symm.trans hlookup)
      have hrange := hp.range
      have hsent := hp.sent f hf
      have hstamp : (f.reg.info.lastSeen).toNat = (f.sent - H.behind f.src) / 1000 := by
        rw [hp.written f hf]
        exact toNat_seconds (by omega)
      omega
    · rw [hpeers] at hlookup
      rw [harrived] at ha
      exact h.stamp r info a (lookup_of_lookup_cleanup hlookup) ha
    · rw [hsame] at hlookup
      rw [harrived] at ha
      exact h.stamp r info a hlookup ha

/-- **A node that has stopped is forgotten**, by every relay, a minute and a half after it
stopped, plus the delay of its last `Register` and the lateness of the relay's cleanup. -/
theorem forgotten_after_stop (P : Platform) (H : Heartbeats ι κ) (clock : ℕ)
    (es : List (BeatEvent ι κ)) (i : ι) (r : κ) (t : ℕ)
    (haddr : Function.Injective (fun i => (H.node i).addr)) (hrelease : P.build = .release)
    (hepoch : 60000 ≤ clock) (hrange : clock < 2 ^ 64)
    (hrun : (beatSystem P H).Always (Unspoofed H) (beatStart clock) es)
    (hdown : ((beatSystem P H).run (beatStart clock) es).phase i = .down t)
    (hlong : t + H.delay + 90000 + H.lag < ((beatSystem P H).run (beatStart clock) es).clock) :
    (H.node i).addr ∉ (((beatSystem P H).run (beatStart clock) es).relays r).peers.keys := by
  obtain ⟨hp, hages, hleaves⟩ := EventSystem.invariant_run
    (I := fun s => OnTime H s ∧ Ages H s ∧ Leaves H i s)
    (fun s e h hen hok => ⟨onTime_next h.1 hen, ages_next hrelease h.1 h.2.1 hen,
      leaves_next haddr h.1 h.2.2 hen hok⟩) hrun
    ⟨onTime_start hrange, ages_start hepoch, leaves_start i⟩
  intro hkey
  obtain ⟨info, hlookup⟩ := Option.isSome_iff_exists.mp (AList.lookup_isSome.mpr hkey)
  obtain ⟨a, ha, -, hage⟩ := hages.aged r _ info hlookup
  have hstamp := hleaves.stamp r info a hlookup ha
  have hlast := (hleaves.arrived r a ha).2 t hdown
  have hlate := hp.cleaning r (hages.cleaning r)
  have hhalf : halfMinute = 30000 := rfl
  rcases hage with hfirst | ⟨-, hround⟩ <;> omega

end Steps

/-! ## Bob and a relay -/

/-- Bob's heartbeats, in milliseconds. -/
def bobBeats : Heartbeats Unit Unit where
  node _ := clientRegistrant samplePlatform bob (bobStart 0) (.v4 2 40000)
  behind _ := 0
  relayAddr _ := .v4 0x0A000001 12345
  delay := 100
  lag := 50

/-- The `Register` that bob sends when he starts, a minute after the epoch. -/
def bobFirst : Flight Unit where
  src := ()
  dst := .v4 0x0A000001 12345
  reg := (bobBeats.node ()).message 60 (.v4 0x0A000001 12345)
  sent := 60000

/-- Bob starts, and his `Register` arrives at the last moment. -/
def bobUp : List (BeatEvent Unit Unit) :=
  [.start (), .elapse 100, .arrive () bobFirst false, .elapse 1]

theorem bobUp_runs :
    (beatSystem samplePlatform bobBeats).Always (Unspoofed bobBeats) (beatStart 60000) bobUp := by
  refine ⟨rfl, trivial, ⟨by decide, ?_, ?_, ?_⟩, trivial, ⟨by decide, rfl⟩, trivial,
    ⟨by decide, ?_, ?_, ?_⟩, trivial, trivial⟩
  · intro f hf r _
    rw [List.mem_singleton.mp hf]
    exact Nat.le_refl _
  · exact fun i t _ => by cases i; decide
  · exact fun r _ => by cases r; decide
  · exact fun f hf => absurd hf List.not_mem_nil
  · exact fun i t _ => by cases i; decide
  · exact fun r _ => by cases r; decide

theorem bobUp_registered :
    let s := (beatSystem samplePlatform bobBeats).run (beatStart 60000) bobUp
    ∃ v, v ≤ s.clock ∧ s.clock ≤ v + halfMinute + 50 + 100 ∧
      (s.relays ()).peers.lookup (.v4 2 40000) =
        some { peerId := "bob", lastSeen := seconds v, btcAddress := some "1Bob" } :=
  registered_while_up samplePlatform bobBeats 60000 bobUp () () 60000
    (fun _ _ _ => rfl) (fun _ _ _ => rfl) (by decide) (by decide) (by decide) bobUp_runs rfl
    (by decide)

theorem bobUp_expires :
    ∃ t, ((beatSystem samplePlatform bobBeats).run (beatStart 60000) bobUp).arrived ()
        (.v4 2 40000) = some t ∧
      ((beatSystem samplePlatform bobBeats).run (beatStart 60000) bobUp).clock ≤
        t + 120000 + 2 * bobBeats.lag :=
  entry_expires samplePlatform bobBeats 60000 bobUp () (.v4 2 40000) rfl (by decide) (by decide)
    (bobUp_runs.imp (fun _ _ _ _ => trivial)) (by decide)

/-- Bob ends, and the relay cleans up three times. -/
def bobDown : List (BeatEvent Unit Unit) :=
  [.start (), .arrive () bobFirst false, .stop (), .elapse 30000, .cleanup (), .elapse 30000,
    .cleanup (), .elapse 30000, .cleanup (), .elapse 30000]

theorem bobDown_runs :
    (beatSystem samplePlatform bobBeats).Always (Unspoofed bobBeats) (beatStart 60000)
      bobDown := by
  have hwait : ∀ {s : BeatState Unit Unit}, s.clock + 30000 < 2 ^ 64 → s.flight = [] →
      s.phase () = .down 60000 → s.clock + 30000 ≤ s.cleanupAt () →
      (beatSystem samplePlatform bobBeats).Enabled s (.elapse 30000) := by
    intro s hrange hflight hphase hdue
    refine ⟨hrange, ?_, ?_, ?_⟩
    · rw [hflight]
      exact fun f hf => absurd hf List.not_mem_nil
    · intro i t ht
      rw [show i = () from rfl, hphase] at ht
      cases ht
    · exact fun r _ => Nat.le_add_right_of_le hdue
  exact ⟨rfl, trivial, ⟨by decide, rfl⟩, trivial, ⟨_, rfl⟩, trivial,
    hwait (by decide) rfl rfl (by decide), trivial, ⟨rfl, by decide⟩, trivial,
    hwait (by decide) rfl rfl (by decide), trivial, ⟨rfl, by decide⟩, trivial,
    hwait (by decide) rfl rfl (by decide), trivial, ⟨rfl, by decide⟩, trivial,
    hwait (by decide) rfl rfl (by decide), trivial, trivial⟩

theorem bobDown_forgotten :
    SocketAddr.v4 2 40000 ∉
      (((beatSystem samplePlatform bobBeats).run (beatStart 60000) bobDown).relays ()).peers.keys :=
  forgotten_after_stop samplePlatform bobBeats 60000 bobDown () () 60000
    (fun _ _ _ => rfl) rfl (by decide) (by decide) bobDown_runs rfl (by decide)

end Zeta
