import Zeta.RelayProcess
import Zeta.SamplePlatform

/-!
# Whom a relay can be made to send to

A relay answers, forwards and broadcasts.  Each kind of message is sent to an address
computed in its own way: one that is in the map of peers, and so registered itself, or
one that is written in the request (`relayAskForAddr`).  What `handle_message` sends
goes to the sender or to a peer exactly as far as the written address is one of theirs
(`unreflected_iff`).
-/

namespace Zeta

/-- A `Register` from `a` was received. -/
def Registered (hist : List RelayEvent) (a : SocketAddr) : Prop :=
  ∃ t r, .recv t a (.register r) ∈ hist

section Statement
variable (P : Platform)

/-- All that `handle_message` sends goes to where the datagram came from, or to a peer from
which a `Register` was received. -/
def Unreflected (s : RelayProcess × List RelayEvent) : RelayEvent → Prop
  | .recv _ sender msg => ∀ x ∈ (handleMessage P msg sender s.1.relay).sends,
      x.1 = sender ∨ (x.1 ∈ s.1.relay.peers.keys ∧ Registered s.2 x.1)
  | _ => True

end Statement

/-- Who asks for the address of a known peer asks for itself, or for another peer. -/
def AsksForPeer (s : RelayProcess × List RelayEvent) : RelayEvent → Prop
  | .recv _ sender (.askForAddr a) =>
    (∃ p ∈ s.1.relay.peers.entries, p.2.peerId = a.peerId) →
      a.srcAddr = sender ∨ a.srcAddr ∈ s.1.relay.peers.keys
  | _ => True

variable {P : Platform} {s : RelayState}

/-- What `find_peer` finds is a peer. -/
theorem findPeer_mem {peers : PeersMap} {id : String} {addr : SocketAddr}
    (h : findPeer peers id = some addr) : addr ∈ peers.keys := by
  obtain ⟨p, hp, rfl⟩ := Option.map_eq_some_iff.mp h
  exact List.mem_keys_of_mem (List.mem_of_find?_eq_some hp)

/-- A payment or an acknowledgement goes to peers only. -/
theorem relayTo_dst {dstId : String} {msg : Message} {sender : SocketAddr}
    {x : SocketAddr × Message} (h : x ∈ (relayTo dstId msg sender s).sends) :
    x.1 ∈ s.peers.keys := by
  unfold relayTo at h
  cases hf : findPeer s.peers dstId with
  | none =>
    rw [hf] at h
    exact (mem_broadcast h).1
  | some addr =>
    rw [hf] at h
    rw [List.mem_singleton.mp h]
    exact findPeer_mem hf

/-- **The one branch that trusts an address**: everything else `handle_message` sends goes
to peers. -/
theorem handleMessage_dst {msg : Message} {sender : SocketAddr} {x : SocketAddr × Message}
    (h : x ∈ (handleMessage P msg sender s).sends) :
    x.1 ∈ s.peers.keys ∨
      ∃ a, msg = .askForAddr a ∧ x.1 = a.srcAddr ∧
        ∃ p ∈ s.peers.entries, p.2.peerId = a.peerId := by
  cases msg with
  | register _ | connect _ | peerInfo _ _ => cases h
  | payment p => exact Or.inl (relayTo_dst h)
  | paymentAck a => exact Or.inl (relayTo_dst h)
  | classic m =>
    rcases relayClassic_cases P m sender s with ⟨-, -, -, -, hsends⟩ | ⟨-, hsends⟩
    · rw [handleMessage, hsends] at h
      exact Or.inl (mem_broadcast h).1
    · rw [handleMessage, hsends] at h
      cases h
  | askForAddr a =>
    right
    simp only [handleMessage, relayAskForAddr] at h
    split at h
    · rename_i p hp
      refine ⟨a, rfl, by rw [List.mem_singleton.mp h], p, List.mem_of_find?_eq_some hp, ?_⟩
      simpa using List.find?_some hp
    · cases h

/-- A question about a known peer is answered, at the address written in it. -/
theorem askForAddr_sends {a : AskForAddr} (sender : SocketAddr)
    (h : ∃ p ∈ s.peers.entries, p.2.peerId = a.peerId) :
    ∃ msg, (a.srcAddr, msg) ∈ (handleMessage P (.askForAddr a) sender s).sends := by
  obtain ⟨p, hp, hid⟩ := h
  simp only [handleMessage, relayAskForAddr]
  cases hf : s.peers.entries.find? (fun e => e.2.peerId = a.peerId) with
  | none => exact absurd hid (by simpa using List.find?_eq_none.mp hf p hp)
  | some e => exact ⟨_, List.mem_singleton_self _⟩

/-- One datagram. -/
theorem unreflected_step_iff {s : RelayProcess × List RelayEvent} (h : Remembers s)
    (e : RelayEvent) : Unreflected P s e ↔ AsksForPeer s e := by
  -- The peers are those that registered.
  have hreg : ∀ a ∈ s.1.relay.peers.keys, Registered s.2 a := by
    intro a ha
    obtain ⟨p, hp, rfl⟩ := List.mem_map.mp ha
    obtain ⟨t, r, hlast, -⟩ := h.known p hp
    exact ⟨t, r, mem_of_lastRegister hlast⟩
  cases e with
  | console _ _ _ | cleanup _ | rehash _ => exact Iff.rfl
  | recv now sender msg =>
    constructor
    · intro hun
      cases msg with
      | askForAddr a =>
        intro hknown
        obtain ⟨reply, hreply⟩ := askForAddr_sends (P := P) sender hknown
        rcases hun _ hreply with heq | ⟨hkey, -⟩
        · exact Or.inl heq
        · exact Or.inr hkey
      | register _ | connect _ | peerInfo _ _ | classic _ | payment _ | paymentAck _ => trivial
    · intro hask x hx
      rcases handleMessage_dst hx with hkey | ⟨a, rfl, hdst, hknown⟩
      · exact Or.inr ⟨hkey, hreg _ hkey⟩
      · rw [hdst]
        rcases hask hknown with heq | hkey
        · exact Or.inl heq
        · exact Or.inr ⟨hkey, hreg _ hkey⟩

/-- **A relay is no reflector if and only if nobody asks in another's name.**  In every run
of a relay with any datagrams, all it sends on receiving one goes to the sender or to a
peer that registered, if and only if every question about a known peer carries the
address it comes from, or that of a peer. -/
theorem unreflected_iff (P : Platform) (ctx : RelayContext P.ed) (es : List RelayEvent) :
    (relayProcess P ctx).withHistory.Always (Unreflected P) (relayProcessStart, []) es ↔
      (relayProcess P ctx).withHistory.Always AsksForPeer (relayProcessStart, []) es :=
  EventSystem.always_congr_of_invariant (fun _ _ h hen => remembers_next h hen)
    (fun _ e h _ => unreflected_step_iff h e) remembers_start

/-- Bob registers, and somebody asks for his address in the name of a third party. -/
def spoofedRun : List RelayEvent :=
  [.recv 0 (.v4 2 40000)
      (.register
        { srcAddr := .v4 0 40000, srcId := "bob", dstAddr := .v4 0x0A000001 12345,
          dstId := "relay", time := 0, btcAddress := some "1Bob" }),
    .recv 0 (.v4 6 40000)
      (.askForAddr { srcAddr := .v4 7 53, srcId := "mallory", peerId := "bob", time := 0 })]

/-- **A relay can be made to send to anybody**: the answer goes to the third party. -/
theorem answer_reflected :
    ¬ ∀ es, (relayProcess samplePlatform sampleRelay).withHistory.Always (fun _ _ => True)
        (relayProcessStart, []) es →
      (relayProcess samplePlatform sampleRelay).withHistory.Always
        (Unreflected samplePlatform) (relayProcessStart, []) es := by
  intro h
  have hrun := h spoofedRun ⟨UInt64.le_refl 0, trivial, UInt64.le_refl 0, trivial, trivial⟩
  obtain ⟨-, -, -, hun, -⟩ := hrun
  have hreply := hun (.v4 7 53, .peerInfo (.v4 2 40000) "bob") (by decide)
  rcases hreply with hsender | ⟨hkey, -⟩
  · exact absurd hsender (by decide)
  · exact absurd hkey (by decide)

end Zeta
