import Zeta.Conservation

/-!
# The tasks of a relay

In the network a relay handles a datagram in one step.  In the program `handle_message`
looks a peer up under one lock and broadcasts under the next, and between the two the
cleanup removes peers and the console enters ids into the cache; a line from the console
is cached first and broadcast later.  This module lets the tasks take turns.

What they do is a run of the network all the same (`tasks_simulate`).  A datagram counts
as handled when the cache or the map is asked.  Until the broadcast only the cleanup
changes the map, since registrations are handled by the same task, so everybody that is
sent to later could have been sent to then.  The line counts twice, at either of its two
moments: the second time the cache holds its id.
-/

namespace Zeta

/-- What a call of `handle_message` has left to do. -/
inductive Pending where
  /-- `broadcast`. -/
  | forward (exclude : SocketAddr) (msg : Message)
  /-- `socket.send_msg`. -/
  | send (addr : SocketAddr) (msg : Message)
  deriving DecidableEq

/-- What it sends, with the map as it is then. -/
def Pending.sends (peers : PeersMap) : Pending → Sends
  | .forward exclude msg => broadcast peers exclude msg
  | .send addr msg => [(addr, msg)]

/-- `handle_message` on a `Payment` or a `PaymentAck`, after `find_peer`. -/
def beginRelay (peers : PeersMap) (dstId : String) (msg : Message) (sender : SocketAddr) :
    Pending :=
  match findPeer peers dstId with
  | some addr => .send addr msg
  | none => .forward sender msg

/-- `handle_message` up to the end of its first section under a lock, and what is left. -/
def beginMessage (P : Platform) (msg : Message) (sender : SocketAddr) (s : RelayState) :
    RelayState × Option Pending :=
  match msg with
  | .register r =>
    ({ s with
      peers := s.peers.insert sender
        { peerId := r.srcId, lastSeen := r.time, btcAddress := r.btcAddress } }, none)
  | .classic m =>
    let seen := s.seen.isNew m.msgId
    let s := { s with seen := seen.2 }
    if seen.1 = false then (s, none)
    else if verify P.ed m.publicKey m.srcId m.txt m.time m.msgId m.signature = false then (s, none)
    else if m.ttl > 0 then (s, some (.forward sender (.classic { m with ttl := m.ttl - 1 })))
    else (s, none)
  | .payment p => (s, some (beginRelay s.peers p.dstId msg sender))
  | .paymentAck a => (s, some (beginRelay s.peers a.toId msg sender))
  | .askForAddr a =>
    (s, (s.peers.entries.find? (fun e => e.2.peerId = a.peerId)).map
      (fun e => .send a.srcAddr (.peerInfo e.1 a.peerId)))
  | _ => (s, none)

/-- A line from the console that is not broadcast yet, with the reading of the clock and the
id that are signed with it. -/
structure TypedLine where
  now : UInt64
  msgId : UInt64
  line : String
  deriving DecidableEq

/-- A network, and where the two tasks of each relay stand. -/
structure TaskWorld (ι κ : Type) where
  world : World ι κ
  /-- What the receive task has left to do. -/
  handling : κ → Option Pending
  /-- What the console task has left to broadcast. -/
  typed : κ → Option TypedLine

/-- What happens in a network whose relays have tasks. -/
inductive TaskWorldEvent (ι κ : Type) where
  /-- Anything but a step of these two tasks; of the map, only what the cleanup may do. -/
  | act (e : WorldEvent ι κ)
  /-- The receive task of relay `r` takes a datagram, up to the end of the first section. -/
  | receive (r : κ) (d : Datagram)
  /-- It does what is left. -/
  | finish (r : κ)
  /-- The console task of relay `r` signs a line and enters its id into the cache. -/
  | type (r : κ) (now msgId : UInt64) (line : String)
  /-- It broadcasts the line. -/
  | shout (r : κ)

/-- The event is no step of the two tasks, and if it changes a map, then by removing peers
and iterating in another order. -/
def TaskWorld.LeavesTasks {ι κ : Type} (s : TaskWorld ι κ) : WorldEvent ι κ → Prop
  | .relayRecv _ _ | .console _ _ _ _ => False
  | .repeer r peers => peers.entries ⊆ (s.world.relays r).peers.entries
  | _ => True

instance {ι κ : Type} (s : TaskWorld ι κ) : (e : WorldEvent ι κ) → Decidable (s.LeavesTasks e)
  | .relayRecv _ _ | .console _ _ _ _ => isFalse id
  | .repeer _ _ => inferInstanceAs (Decidable (∀ _, _ → _))
  | .pay _ _ _ _ | .say _ _ _ _ | .register _ _ | .clientRecv _ _ _ | .federate _ _
  | .restart _ _ _ | .inject _ => isTrue trivial

/-! ## One call -/

section Calls
variable {P : Platform} {msg : Message} {sender : SocketAddr} {s : RelayState}

theorem beginRelay_sends (dstId : String) :
    (beginRelay s.peers dstId msg sender).sends s.peers = (relayTo dstId msg sender s).sends := by
  unfold beginRelay relayTo
  cases findPeer s.peers dstId <;> rfl

/-- **Without interruption it is `handle_message`.** -/
theorem beginMessage_eq (P : Platform) (msg : Message) (sender : SocketAddr) (s : RelayState) :
    (beginMessage P msg sender s).1 = (handleMessage P msg sender s).state ∧
      (beginMessage P msg sender s).2.elim []
          (Pending.sends (handleMessage P msg sender s).state.peers) =
        (handleMessage P msg sender s).sends := by
  cases msg with
  | register _ | connect _ | peerInfo _ _ => exact ⟨rfl, rfl⟩
  | payment p | paymentAck a =>
    refine ⟨(relayTo_state _ _).symm, ?_⟩
    rw [handleMessage, relayTo_state]
    exact beginRelay_sends _
  | classic m =>
    by_cases hold : m.msgId ∈ s.seen.set
    · rw [handleMessage, relayClassic_duplicate hold]
      simp [beginMessage, SeenIds.isNew_of_mem hold]
    · cases hv : verify P.ed m.publicKey m.srcId m.txt m.time m.msgId m.signature with
      | false =>
        rw [handleMessage, relayClassic_invalid hold hv]
        simp [beginMessage, hold, hv]
      | true =>
        by_cases ht : m.ttl > 0
        · rw [handleMessage, relayClassic_broadcast hold hv ht]
          simp only [beginMessage, SeenIds.isNew_fst, hold, hv, ht, not_false_eq_true,
            decide_true, Bool.true_eq_false, if_false, if_true, true_and, Option.elim_some]
          rfl
        · rw [handleMessage, relayClassic_expired hold hv ht]
          simp only [beginMessage, SeenIds.isNew_fst, hold, hv, ht, not_false_eq_true,
            decide_true, Bool.true_eq_false, if_false, true_and, Option.elim_none]
  | askForAddr a =>
    simp only [beginMessage, handleMessage, relayAskForAddr]
    cases s.peers.entries.find? (fun e => e.2.peerId = a.peerId) <;> exact ⟨rfl, rfl⟩

/-- What is left sends nothing to a peer that has been removed meanwhile. -/
theorem Pending.sends_subset {peers peers' : PeersMap} (h : peers'.entries ⊆ peers.entries)
    (p : Pending) : p.sends peers' ⊆ p.sends peers := by
  cases p with
  | send addr msg => exact List.Subset.refl _
  | forward exclude msg =>
    intro x hx
    obtain ⟨addr, haddr, rfl⟩ := List.mem_map.mp hx
    obtain ⟨hkey, hne⟩ := List.mem_filter.mp haddr
    exact List.mem_map_of_mem (List.mem_filter.mpr ⟨List.map_subset Sigma.fst h hkey, hne⟩)

end Calls

namespace Network

section System
variable {P : Platform} {ι κ : Type} [DecidableEq ι] [DecidableEq κ] (net : Network P ι κ)

/-- The call of `sign` for a line. -/
def lineSigning (r : κ) (l : TypedLine) : Signing :=
  ⟨(net.relay r).publicKey, (net.relay r).peerId, l.line, l.now, l.msgId⟩

/-- The network with the tasks of its relays. -/
def taskSystem : EventSystem (TaskWorld ι κ) (TaskWorldEvent ι κ) where
  Enabled s
    | .act e => s.LeavesTasks e ∧ net.Enabled s.world e
    | .receive r d => s.handling r = none ∧ d ∈ s.world.sent ∧ d.dst = (net.relay r).addr
    | .finish r => (s.handling r).isSome = true
    | .type r _ _ _ => s.typed r = none
    | .shout r => (s.typed r).isSome = true
  next s
    | .act e => { s with world := net.next s.world e }
    | .receive r d =>
      let h := beginMessage P d.msg d.src (s.world.relays r)
      { s with
        world := s.world.setRelay r (net.relay r).addr h.1 []
        handling := Function.update s.handling r h.2 }
    | .finish r =>
      let relay := s.world.relays r
      let sends := (s.handling r).elim [] (Pending.sends relay.peers)
      { s with
        world := s.world.setRelay r (net.relay r).addr relay sends
        handling := Function.update s.handling r none }
    | .type r now msgId line =>
      let relay := s.world.relays r
      let l : TypedLine := ⟨now, msgId, line⟩
      { s with
        world :=
          { s.world.setRelay r (net.relay r).addr
              { relay with seen := (relay.seen.isNew msgId).2 } [] with
            signed := s.world.signed ++ [net.lineSigning r l] }
        typed := Function.update s.typed r (some l) }
    | .shout r =>
      let relay := s.world.relays r
      let sends := (s.typed r).elim [] (fun l =>
        broadcast relay.peers .unspecified
          (.classic (consoleClassic P (net.relay r) l.now l.msgId l.line)))
      { s with
        world := s.world.setRelay r (net.relay r).addr relay sends
        typed := Function.update s.typed r none }

instance (s : TaskWorld ι κ) : (e : TaskWorldEvent ι κ) → Decidable (net.taskSystem.Enabled s e)
  | .act e => inferInstanceAs (Decidable (_ ∧ net.system.Enabled s.world e))
  | .receive _ _ => inferInstanceAs (Decidable (_ = none ∧ _ ∧ _))
  | .finish _ | .shout _ => inferInstanceAs (Decidable (_ = true))
  | .type _ _ _ _ => inferInstanceAs (Decidable (_ = none))

/-- All nodes have just been started. -/
def taskStart (b : Boot ι κ) : TaskWorld ι κ where
  world := net.start b
  handling _ := none
  typed _ := none

end System

/-! ## The simulation -/

variable {P : Platform} {ι κ : Type} {net : Network P ι κ}

/-- **The network of tasks as seen in single steps**: the nodes are the same, and what is on
its way there, or may still be sent by a task, is on its way here. -/
structure Behind (net : Network P ι κ) (s : TaskWorld ι κ) (w : World ι κ) : Prop where
  nodes : w = { s.world with sent := w.sent, signed := w.signed }
  sent : s.world.sent ⊆ w.sent
  signed : ∀ x, x ∈ s.world.signed ↔ x ∈ w.signed
  handling : ∀ r p, s.handling r = some p → ∀ x ∈ p.sends (s.world.relays r).peers,
    ⟨(net.relay r).addr, x.1, x.2⟩ ∈ w.sent
  typed : ∀ r l, s.typed r = some l → net.lineSigning r l ∈ w.signed

/-- A condition on single steps, on the steps of the tasks. -/
def InSteps (ok : World ι κ → WorldEvent ι κ → Prop) (s : TaskWorld ι κ) :
    TaskWorldEvent ι κ → Prop
  | .act e => ok s.world e
  | .receive r d => ok s.world (.relayRecv r d)
  | .finish _ => True
  | .type r now msgId line => ok s.world (.console r now msgId line)
  | .shout r => ∀ l ∈ s.typed r, ok s.world (.console r l.now l.msgId l.line)

/-- A line that is broadcast has not been evicted from the cache since it was typed. -/
def LinesCached (s : TaskWorld ι κ) : TaskWorldEvent ι κ → Prop
  | .shout r => ∀ l ∈ s.typed r, l.msgId ∈ (s.world.relays r).seen.set
  | _ => True

/-- **What an event is seen as in single steps**, when `es` is all that happens: what is left
of a call is not seen, and a line that has been typed counts once more when it is broadcast. -/
def TaskSeenAs (es : List (TaskWorldEvent ι κ)) :
    TaskWorldEvent ι κ → Option (WorldEvent ι κ) → Prop
  | .act e, a => a = some e
  | .receive r d, a => a = some (.relayRecv r d)
  | .finish _, a => a = none
  | .type r now msgId line, a => a = some (.console r now msgId line)
  | .shout r, a =>
    ∃ now msgId line, .type r now msgId line ∈ es ∧ a = some (.console r now msgId line)

/-- What a relay's console task has left to broadcast was typed. -/
def LinesTyped (es : List (TaskWorldEvent ι κ)) (s : TaskWorld ι κ) : Prop :=
  ∀ r l, s.typed r = some l → .type r l.now l.msgId l.line ∈ es

instance (ok : World ι κ → WorldEvent ι κ → Prop) [∀ w e, Decidable (ok w e)]
    (s : TaskWorld ι κ) : (e : TaskWorldEvent ι κ) → Decidable (InSteps ok s e)
  | .act _ | .receive _ _ | .type _ _ _ _ => inferInstanceAs (Decidable (ok _ _))
  | .finish _ => isTrue trivial
  | .shout _ => inferInstanceAs (Decidable (∀ l ∈ _, _))

instance (s : TaskWorld ι κ) : (e : TaskWorldEvent ι κ) → Decidable (LinesCached s e)
  | .shout _ => inferInstanceAs (Decidable (∀ l ∈ _, _))
  | .act _ | .receive _ _ | .finish _ | .type _ _ _ _ => isTrue trivial

/-- The condition depends neither on what is on its way nor on what was signed. -/
def OnNodes (ok : World ι κ → WorldEvent ι κ → Prop) : Prop :=
  ∀ w l g e, ok w e ↔ ok { w with sent := l, signed := g } e

/-- What a step signs. -/
def signs (net : Network P ι κ) : WorldEvent ι κ → List Signing
  | .say i now msgId text =>
    [⟨(net.client i).publicKey, (net.client i).peerId, text, now, msgId⟩]
  | .console r now msgId line => [net.lineSigning r ⟨now, msgId, line⟩]
  | _ => []

section Steps
variable [DecidableEq ι] [DecidableEq κ] {s : TaskWorld ι κ} {w : World ι κ}
  {ok : World ι κ → WorldEvent ι κ → Prop}

/-- What is on its way and what was signed have no part in what the nodes do. -/
theorem next_with (v : World ι κ) (l : List Datagram) (g : List Signing) (e : WorldEvent ι κ) :
    net.next { v with sent := l, signed := g } e =
      { net.next v e with sent := l ++ net.emits v e, signed := g ++ net.signs e } := by
  cases e <;>
    simp [next, emits, signs, lineSigning, World.setClient, World.setRelay, packets]

omit [DecidableEq ι] [DecidableEq κ] in
theorem enabled_with {v : World ι κ} {l : List Datagram} {g : List Signing} {e : WorldEvent ι κ}
    (hl : v.sent ⊆ l) (h : net.Enabled v e) :
    net.Enabled { v with sent := l, signed := g } e := by
  cases e with
  | clientRecv i now d | relayRecv r d => exact ⟨hl h.1, h.2⟩
  | pay _ _ _ _ | say _ _ _ _ | register _ _ | console _ _ _ _ | federate _ _ | repeer _ _
  | restart _ _ _ | inject _ => trivial

/-- Until a task has sent what it has left to send, no other enters a peer into its map. -/
theorem entries_next {e : WorldEvent ι κ} (h : s.LeavesTasks e) (r : κ) :
    ((net.next s.world e).relays r).peers.entries ⊆ (s.world.relays r).peers.entries := by
  cases e with
  | relayRecv _ _ | console _ _ _ _ => cases h
  | pay _ _ _ _ | say _ _ _ _ | register _ _ | clientRecv _ _ _ | restart _ _ _ | inject _ =>
    exact List.Subset.refl _
  | federate r' now =>
    rw [next, World.setRelay, Function.update_eq_self]
    exact List.Subset.refl _
  | repeer r' peers =>
    by_cases hr : r = r'
    · subst hr
      simp only [next, World.setRelay, Function.update_self]
      exact h
    · simp only [next, World.setRelay, Function.update_of_ne hr]
      exact List.Subset.refl _

theorem signed_eq_append_signs (v : World ι κ) (e : WorldEvent ι κ) :
    (net.next v e).signed = v.signed ++ net.signs e :=
  congrArg World.signed (next_with v v.sent v.signed e)

/-- A step that leaves the tasks alone is the same step on both sides. -/
theorem behind_act {e : WorldEvent ι κ} (h : Behind net s w) (hleaves : s.LeavesTasks e) :
    Behind net (net.taskSystem.next s (.act e)) (net.next w e) := by
  obtain ⟨hnodes, hsent, hsigned, hhandling, htyped⟩ := h
  rw [hnodes, next_with]
  refine ⟨rfl, ?_, ?_, ?_, ?_⟩
  · show (net.next s.world e).sent ⊆ w.sent ++ net.emits s.world e
    rw [sent_eq_append_emits]
    exact List.append_subset.mpr ⟨List.subset_append_of_subset_left _ hsent,
      List.subset_append_right _ _⟩
  · intro x
    show x ∈ (net.next s.world e).signed ↔ x ∈ w.signed ++ net.signs e
    rw [signed_eq_append_signs, List.mem_append, List.mem_append, hsigned x]
  · intro r p hp x hx
    exact List.mem_append_left _
      (hhandling r p hp x (p.sends_subset (entries_next hleaves r) hx))
  · intro r l hl
    exact List.mem_append_left _ (htyped r l hl)

/-- When the receive task takes a datagram, all is sent that it may send for it. -/
theorem behind_receive {r : κ} {d : Datagram} (h : Behind net s w) :
    Behind net (net.taskSystem.next s (.receive r d)) (net.next w (.relayRecv r d)) := by
  obtain ⟨hnodes, hsent, hsigned, hhandling, htyped⟩ := h
  obtain ⟨hstate, hsends⟩ := beginMessage_eq P d.msg d.src (s.world.relays r)
  rw [hnodes, next_with]
  refine ⟨?_, ?_, ?_, ?_, ?_⟩
  · simp only [taskSystem, next, World.setRelay, hstate]
  · show s.world.sent ++ packets _ [] ⊆ w.sent ++ _
    exact List.append_subset.mpr ⟨List.subset_append_of_subset_left _ hsent, List.nil_subset _⟩
  · intro x
    show x ∈ s.world.signed ↔ x ∈ w.signed ++ []
    rw [List.append_nil]
    exact hsigned x
  · intro r' p hp x hx
    by_cases hr : r' = r
    · subst hr
      simp only [taskSystem, Function.update_self, World.setRelay] at hp hx
      rw [hstate] at hx
      rw [hp, Option.elim_some] at hsends
      rw [hsends] at hx
      exact List.mem_append_right _ (List.mem_map_of_mem hx)
    · simp only [taskSystem, Function.update_of_ne hr, World.setRelay] at hp hx
      exact List.mem_append_left _ (hhandling r' p hp x hx)
  · intro r' l hl
    exact List.mem_append_left _ (htyped r' l hl)

/-- What the receive task has left to send is on its way already. -/
theorem behind_finish {r : κ} (h : Behind net s w) :
    Behind net (net.taskSystem.next s (.finish r)) w := by
  obtain ⟨hnodes, hsent, hsigned, hhandling, htyped⟩ := h
  have hsame : Function.update s.world.relays r (s.world.relays r) = s.world.relays :=
    Function.update_eq_self _ _
  refine ⟨?_, ?_, hsigned, ?_, htyped⟩
  · simp only [taskSystem, World.setRelay, hsame]
    exact hnodes
  · refine List.append_subset.mpr ⟨hsent, ?_⟩
    intro d hd
    obtain ⟨x, hx, rfl⟩ := List.mem_map.mp hd
    cases hp : s.handling r with
    | none =>
      rw [hp] at hx
      cases hx
    | some p =>
      rw [hp] at hx
      exact hhandling r p hp x hx
  · intro r' p hp x hx
    simp only [taskSystem, World.setRelay, hsame] at hp hx
    by_cases hr : r' = r
    · rw [hr, Function.update_self] at hp
      cases hp
    · rw [Function.update_of_ne hr] at hp
      exact hhandling r' p hp x hx

/-- When a line is cached, it is sent to whoever is in the map then. -/
theorem behind_type {r : κ} {now msgId : UInt64} {line : String} (h : Behind net s w) :
    Behind net (net.taskSystem.next s (.type r now msgId line))
      (net.next w (.console r now msgId line)) := by
  obtain ⟨hnodes, hsent, hsigned, hhandling, htyped⟩ := h
  rw [hnodes, next_with]
  refine ⟨rfl, ?_, ?_, ?_, ?_⟩
  · show s.world.sent ++ packets _ [] ⊆ w.sent ++ _
    exact List.append_subset.mpr ⟨List.subset_append_of_subset_left _ hsent, List.nil_subset _⟩
  · intro x
    show x ∈ s.world.signed ++ _ ↔ x ∈ w.signed ++ _
    rw [List.mem_append, List.mem_append, hsigned x]
    rfl
  · intro r' p hp x hx
    refine List.mem_append_left _ (hhandling r' p hp x ?_)
    by_cases hr : r' = r
    · subst hr
      simpa only [taskSystem, World.setRelay, Function.update_self] using hx
    · simpa only [taskSystem, World.setRelay, Function.update_of_ne hr] using hx
  · intro r' l hl
    by_cases hr : r' = r
    · subst hr
      simp only [taskSystem, Function.update_self, Option.some.injEq] at hl
      subst hl
      exact List.mem_append_right _ (List.mem_singleton_self _)
    · simp only [taskSystem, Function.update_of_ne hr] at hl
      exact List.mem_append_left _ (htyped r' l hl)

/-- When it is broadcast, it is sent once more, to whoever is in the map now. -/
theorem behind_shout {r : κ} {l : TypedLine} (h : Behind net s w) (hl : s.typed r = some l)
    (hcached : l.msgId ∈ (s.world.relays r).seen.set) :
    Behind net (net.taskSystem.next s (.shout r))
      (net.next w (.console r l.now l.msgId l.line)) := by
  obtain ⟨hnodes, hsent, hsigned, hhandling, htyped⟩ := h
  have hsame : Function.update s.world.relays r (s.world.relays r) = s.world.relays :=
    Function.update_eq_self _ _
  have hseen : ((s.world.relays r).seen.isNew l.msgId).2 = (s.world.relays r).seen := by
    rw [SeenIds.isNew_of_mem hcached]
  rw [hnodes, next_with]
  refine ⟨?_, ?_, ?_, ?_, ?_⟩
  · simp only [taskSystem, next, World.setRelay, consoleLine, hseen, hsame]
  · refine List.append_subset.mpr ⟨List.subset_append_of_subset_left _ hsent, ?_⟩
    rw [hl]
    exact List.subset_append_right _ _
  · intro x
    show x ∈ s.world.signed ↔ x ∈ w.signed ++ [net.lineSigning r l]
    rw [List.mem_append, List.mem_singleton, hsigned x]
    refine ⟨Or.inl, fun hx => hx.elim id ?_⟩
    rintro rfl
    exact htyped r l hl
  · intro r' p hp x hx
    simp only [taskSystem, World.setRelay, hsame] at hx
    exact List.mem_append_left _ (hhandling r' p hp x hx)
  · intro r' l' hl'
    by_cases hr : r' = r
    · simp only [taskSystem, hr, Function.update_self] at hl'
      cases hl'
    · simp only [taskSystem, Function.update_of_ne hr] at hl'
      exact List.mem_append_left _ (htyped r' l' hl')

theorem linesTyped_next {es : List (TaskWorldEvent ι κ)} {e : TaskWorldEvent ι κ}
    (h : LinesTyped es s) (he : e ∈ es) : LinesTyped es (net.taskSystem.next s e) := by
  intro r l hl
  cases e with
  | act _ | receive _ _ | finish _ => exact h r l hl
  | type r' now msgId line =>
    by_cases hr : r = r'
    · subst hr
      simp only [taskSystem, Function.update_self, Option.some.injEq] at hl
      subst hl
      exact he
    · simp only [taskSystem, Function.update_of_ne hr] at hl
      exact h r l hl
  | shout r' =>
    by_cases hr : r = r'
    · simp only [taskSystem, hr, Function.update_self] at hl
      cases hl
    · simp only [taskSystem, Function.update_of_ne hr] at hl
      exact h r l hl

/-- **The network in single steps simulates the network of tasks.** -/
theorem tasks_simulate (hok : OnNodes ok) (es : List (TaskWorldEvent ι κ)) :
    EventSystem.Simulates net.taskSystem net.system
      (fun s w => Behind net s w ∧ LinesTyped es s)
      (fun s e => (InSteps ok s e ∧ LinesCached s e) ∧ e ∈ es) ok (TaskSeenAs es) := by
  rintro s w e ⟨h, htyped⟩ hen ⟨⟨hoke, hcached⟩, he⟩
  have hnext : LinesTyped es (net.taskSystem.next s e) := linesTyped_next htyped he
  have hokw : ∀ e', ok s.world e' → ok w e' := by
    intro e' he'
    rw [h.nodes]
    exact (hok _ _ _ _).mp he'
  have henw : ∀ e', net.Enabled s.world e' → net.Enabled w e' := by
    intro e' he'
    rw [h.nodes]
    exact enabled_with h.sent he'
  cases e with
  | act e => exact Or.inr ⟨e, henw e hen.2, hokw e hoke, rfl, behind_act h hen.1, hnext⟩
  | receive r d =>
    exact Or.inr ⟨.relayRecv r d, henw (.relayRecv r d) hen.2, hokw _ hoke, rfl,
      behind_receive h, hnext⟩
  | finish r => exact Or.inl ⟨rfl, behind_finish h, hnext⟩
  | type r now msgId line =>
    exact Or.inr ⟨.console r now msgId line, trivial, hokw _ hoke, rfl, behind_type h, hnext⟩
  | shout r =>
    obtain ⟨l, hl⟩ := Option.isSome_iff_exists.mp hen
    exact Or.inr ⟨.console r l.now l.msgId l.line, trivial, hokw _ (hoke l hl),
      ⟨l.now, l.msgId, l.line, htyped r l hl, rfl⟩, behind_shout h hl (hcached l hl), hnext⟩

omit [DecidableEq ι] [DecidableEq κ] in
theorem behind_start (b : Boot ι κ) : Behind net (net.taskStart b) (net.start b) :=
  ⟨rfl, List.Subset.refl _, fun _ => Iff.rfl, nofun, nofun⟩

omit [DecidableEq ι] [DecidableEq κ] in
theorem onNodes_honest : OnNodes (Honest net) := by
  intro w l g e
  cases e <;> exact Iff.rfl

/-! ## Runs -/

/-- Every run of the tasks is seen as a run in single steps. -/
theorem exists_behind_run (hok : OnNodes ok) (b : Boot ι κ) {es : List (TaskWorldEvent ι κ)}
    (hrun : net.taskSystem.Always (fun s e => InSteps ok s e ∧ LinesCached s e)
      (net.taskStart b) es) :
    ∃ as, net.system.Always ok (net.start b) as ∧
      EventSystem.SeenIn (TaskSeenAs es) as es ∧
      Behind net (net.taskSystem.run (net.taskStart b) es)
        (net.system.run (net.start b) as) := by
  have hstart : LinesTyped es (net.taskStart b) := by
    intro r l hl
    cases hl
  have hmem := hrun.and (EventSystem.always_mem (List.Subset.refl es) hrun)
  obtain ⟨as, has, hseen, hbehind, -⟩ :=
    (tasks_simulate hok es).exists_run ⟨behind_start b, hstart⟩ hmem
  exact ⟨as, has, hseen, hbehind⟩

/-- **Every run of the tasks is a run in single steps**, however the tasks of each relay take
turns, as long as no line is evicted from the cache before it is broadcast.  Its events are
those of the tasks, in their order, where a datagram is handled when the receive task takes it
and a line counts when it is typed and again when it is broadcast; nothing else is injected.
It leads all nodes to the same states with the same payments, has signed the same, and has sent
everything that the tasks have sent. -/
theorem exists_step_run (net : Network P ι κ) (b : Boot ι κ) (es : List (TaskWorldEvent ι κ))
    (hrun : net.taskSystem.Always LinesCached (net.taskStart b) es) :
    ∃ as, net.system.Always (fun _ _ => True) (net.start b) as ∧
      EventSystem.SeenIn (TaskSeenAs es) as es ∧
      Behind net (net.taskSystem.run (net.taskStart b) es) (net.system.run (net.start b) as) :=
  exists_behind_run (fun _ _ _ _ => Iff.rfl) b
    (hrun.imp (fun _ e _ hcached => ⟨by cases e <;> simp [InSteps], hcached⟩))

/-- **Satoshis are conserved while the relays' tasks take turns.** -/
theorem tasks_sats_conserved [Fintype ι] (net : Network P ι κ) (b : Boot ι κ)
    (es : List (TaskWorldEvent ι κ))
    (hnames : ∀ i j id, (net.client i).IsMe id → (net.client j).IsMe id → i = j)
    (htotal : ∑ i, ((net.start b).clients i).balance < 2 ^ 64)
    (hrun : net.taskSystem.Always (fun s e => InSteps (Honest net) s e ∧ LinesCached s e)
      (net.taskStart b) es) :
    let w := (net.taskSystem.run (net.taskStart b) es).world
    ∑ i, (w.clients i).balance + ((w.debits - w.credits).map Payment.sats).sum =
        ∑ i, ((net.start b).clients i).balance ∧ w.credits ≤ w.debits := by
  intro w
  obtain ⟨as, has, -, hbehind⟩ := exists_behind_run onNodes_honest b hrun
  obtain ⟨hkept, hbooks⟩ := kept_run b hnames htotal has
  have hnodes := hbehind.nodes
  rw [hnodes] at hkept hbooks
  exact ⟨hbooks, hkept.credits_le⟩

end Steps

/-! ## A run between alice and bob -/

/-- While the relay holds alice's payment, bob is removed from its map and a line is typed on
its console; the payment goes to him all the same. -/
def tasksRun : List (TaskWorldEvent (Fin 2) (Fin 1)) :=
  let payer : Fin 2 := ⟨0, Nat.two_pos⟩
  let payee : Fin 2 := ⟨1, Nat.one_lt_two⟩
  let hub : Fin 1 := ⟨0, Nat.one_pos⟩
  let relay : SocketAddr := .v4 0x0A000001 12345
  [.act (.register payee 0),
    .receive hub
      ⟨.v4 2 40000, relay, .register ⟨.v4 0 40000, "bob", relay, "relay", 0, some "1Bob"⟩⟩,
    .act (.pay payer 0 7 "bob 5"),
    .receive hub ⟨.v4 1 40000, relay, .payment fiveForBob⟩, .type hub 0 9 "hello",
    .act (.repeer hub ∅), .shout hub, .finish hub,
    .act (.clientRecv payee 0 ⟨relay, .v4 2 40000, .payment fiveForBob⟩)]

theorem tasksRun_in_steps :
    ∃ as, aliceAndBob.system.Always (fun _ _ => True) (aliceAndBob.start aliceAndBobBoot) as ∧
      EventSystem.SeenIn (TaskSeenAs tasksRun) as tasksRun ∧
      Behind aliceAndBob
        (aliceAndBob.taskSystem.run (aliceAndBob.taskStart aliceAndBobBoot) tasksRun)
        (aliceAndBob.system.run (aliceAndBob.start aliceAndBobBoot) as) :=
  exists_step_run aliceAndBob aliceAndBobBoot tasksRun (by decide +kernel)

theorem tasksRun_conserved :
    let start := aliceAndBob.start aliceAndBobBoot
    let w := (aliceAndBob.taskSystem.run (aliceAndBob.taskStart aliceAndBobBoot) tasksRun).world
    ∑ i, (w.clients i).balance + ((w.debits - w.credits).map Payment.sats).sum =
        ∑ i, (start.clients i).balance ∧ w.credits ≤ w.debits :=
  tasks_sats_conserved aliceAndBob aliceAndBobBoot tasksRun aliceAndBob_names
    (by decide +kernel) (by decide +kernel)

end Network
end Zeta
