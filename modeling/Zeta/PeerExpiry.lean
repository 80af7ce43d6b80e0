import Zeta.RelayProcess
import Zeta.SamplePlatform

/-!
# When a peer expires

The cleanup should remove the peers that have not registered for a minute.  It looks at
what time they said it was, not at when they said it, so it does what it should exactly
as far as the two agree (`expires_iff`): no peer may write a time later than the relay's
own, for the subtraction underflows there, and by its own clock and by the relay's the
minute must be over, or not over, together.
-/

namespace Zeta

/-- A `Register` from `a` arrived less than a minute before `nowTs`. -/
def Recent (hist : List RelayEvent) (nowTs : UInt64) (a : SocketAddr) : Prop :=
  ∃ t r, .recv t a (.register r) ∈ hist ∧ nowTs.toNat < t.toNat + 60

/-- A round of the cleanup subtracts without underflow, and removes exactly the peers that
have not registered for a minute. -/
def ExpiresExactly (b : Build) (s : RelayProcess × List RelayEvent) : RelayEvent → Prop
  | .cleanup now =>
    (∀ p ∈ s.1.relay.peers.entries, p.2.lastSeen ≤ now) ∧
      ∀ a ∈ s.1.relay.peers.keys,
        a ∉ (cleanup b now s.1.relay.peers).1.keys ↔ ¬ Recent s.2 now a
  | _ => True

/-- The newest `Register` of every peer carries a time that is not later than the relay's,
and less than a minute old if and only if it arrived less than a minute ago. -/
def ClocksAgree (s : RelayProcess × List RelayEvent) : RelayEvent → Prop
  | .cleanup now =>
    ∀ a ∈ s.1.relay.peers.keys, ∀ t r, lastRegister a s.2 = some (t, r) →
      r.time ≤ now ∧ (now.toNat < r.time.toNat + 60 ↔ now.toNat < t.toNat + 60)
  | _ => True

variable {s : RelayProcess × List RelayEvent}

/-- Whether a peer registered within the last minute is decided by its newest `Register`. -/
theorem recent_iff (h : Remembers s) {a : SocketAddr} {t nowTs : UInt64} {r : Register}
    (hlast : lastRegister a s.2 = some (t, r)) :
    Recent s.2 nowTs a ↔ nowTs.toNat < t.toNat + 60 := by
  constructor
  · rintro ⟨t', r', hmem, hlt⟩
    have hle : t'.toNat ≤ t.toNat := UInt64.le_iff_toNat_le.mp (h.newest a t r hlast t' r' hmem)
    omega
  · exact fun hlt => ⟨t, r, mem_of_lastRegister hlast, hlt⟩

/-- Without an underflow, a peer is kept if it wrote a time of the last minute. -/
theorem mem_keys_cleanup {b : Build} {nowTs : UInt64} {peers : PeersMap}
    {p : Sigma fun _ : SocketAddr => PeerInfo} (hp : p ∈ peers.entries)
    (hle : ∀ e ∈ peers.entries, e.2.lastSeen ≤ nowTs) :
    p.1 ∈ (cleanup b nowTs peers).1.keys ↔ nowTs.toNat < p.2.lastSeen.toNat + 60 := by
  have hentries : (cleanup b nowTs peers).1.entries =
      peers.entries.filter (fun e => nowTs.toNat < e.2.lastSeen.toNat + 60) := by
    simp only [cleanup, retainActive_eq_filter hle]
  rw [AList.keys, hentries]
  constructor
  · intro hkey
    obtain ⟨e, he, hfst⟩ := List.mem_map.mp hkey
    obtain ⟨hmem, hlt⟩ := List.mem_filter.mp he
    -- The map holds one entry for each address.
    have heq : e = p := peers.nodupKeys.eq_of_fst_eq hmem hp hfst
    rw [← heq]
    exact of_decide_eq_true hlt
  · intro hlt
    exact List.mem_map.mpr ⟨p, List.mem_filter.mpr ⟨hp, decide_eq_true hlt⟩, rfl⟩

/-- One round of the cleanup. -/
theorem expiresExactly_iff (b : Build) (h : Remembers s) (e : RelayEvent) :
    ExpiresExactly b s e ↔ ClocksAgree s e := by
  cases e with
  | recv _ _ _ | console _ _ _ | rehash _ => exact Iff.rfl
  | cleanup now =>
    constructor
    · rintro ⟨hle, hexact⟩ a ha t r hlast
      obtain ⟨p, hp, rfl⟩ := List.mem_map.mp ha
      obtain ⟨t', r', hlast', hinfo⟩ := h.known p hp
      rw [hlast] at hlast'
      cases hlast'
      have hseen : p.2.lastSeen = r.time := by rw [hinfo]; rfl
      have hkept := hexact p.1 ha
      rw [mem_keys_cleanup hp hle, recent_iff h hlast, hseen, not_iff_not] at hkept
      exact ⟨hseen ▸ hle p hp, hkept⟩
    · intro hagree
      have hle : ∀ p ∈ s.1.relay.peers.entries, p.2.lastSeen ≤ now := by
        intro p hp
        obtain ⟨t, r, hlast, hinfo⟩ := h.known p hp
        rw [hinfo]
        exact (hagree p.1 (List.mem_keys_of_mem hp) t r hlast).1
      refine ⟨hle, ?_⟩
      intro a ha
      obtain ⟨p, hp, rfl⟩ := List.mem_map.mp ha
      obtain ⟨t, r, hlast, hinfo⟩ := h.known p hp
      have hseen : p.2.lastSeen = r.time := by rw [hinfo]; rfl
      rw [mem_keys_cleanup hp hle, recent_iff h hlast, hseen, not_iff_not]
      exact (hagree p.1 ha t r hlast).2

/-- **Peers expire by the relay's clock if and only if their own agree with it.**  In
every run of a relay, with any datagrams, console lines and cleanups at times that do not
decrease, all cleanups remove exactly the peers silent for a minute if and only if, at
each of them, the newest `Register` of every peer carries a time that is not in the
relay's future and is within the last minute just if its arrival is. -/
theorem expires_iff (P : Platform) (ctx : RelayContext P.ed) (es : List RelayEvent) :
    (relayProcess P ctx).withHistory.Always (ExpiresExactly P.build) (relayProcessStart, []) es ↔
      (relayProcess P ctx).withHistory.Always ClocksAgree (relayProcessStart, []) es :=
  EventSystem.always_congr_of_invariant (fun _ _ h hen => remembers_next h hen)
    (fun _ e h _ => expiresExactly_iff P.build h e) remembers_start

/-- A `Register` of bob's at this time. -/
def registerAt (time : UInt64) : Register where
  srcAddr := .v4 0 40000
  srcId := "bob"
  dstAddr := .v4 0x0A000001 12345
  dstId := "relay"
  time := time
  btcAddress := some "1Bob"

/-- Bob registers at 100 by the relay's clock and 101 by his own, and the cleanup runs. -/
def aheadRun : List RelayEvent :=
  [.recv 100 (.v4 2 40000) (.register (registerAt 101)), .cleanup 100]

/-- **A sender whose clock is one second ahead** makes the subtraction underflow, and is
removed the moment it registered. -/
theorem live_peer_removed :
    ¬ ∀ es, (relayProcess samplePlatform sampleRelay).withHistory.Always (fun _ _ => True)
        (relayProcessStart, []) es →
      (relayProcess samplePlatform sampleRelay).withHistory.Always
        (ExpiresExactly samplePlatform.build) (relayProcessStart, []) es := by
  intro h
  have hzero : (0 : UInt64) ≤ 100 := by decide
  have hrun := h aheadRun ⟨hzero, trivial, ⟨UInt64.le_refl 100, rfl⟩, trivial, trivial⟩
  obtain ⟨-, -, -, ⟨hle, -⟩, -⟩ := hrun
  have h101 : (101 : UInt64) ≤ 100 :=
    hle ⟨.v4 2 40000, (registerAt 101).info⟩ (List.mem_singleton_self _)
  exact absurd h101 (by decide)

end Zeta
