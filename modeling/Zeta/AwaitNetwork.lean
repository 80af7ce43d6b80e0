import Zeta.ClientCalls
import Zeta.SharedWallet

/-!
# The network of tasks

Here all tasks of all nodes take turns, those of the clients at every `await`: a datagram is
received while the main task waits for the lock on the wallet, a payment is made while the
receive task writes the file, and relays and other clients go on meanwhile.

The network of calls, in which a client handles a datagram or a command in one step,
simulates it (`calls_simulate`).  A client is kept there at the calls that its tasks have
made so far; the rest of the network does the same here and there, except that what a call
sends is on its way there before the task gets so far.
-/

namespace Zeta

/-- The tasks of the clients, the relays with where their tasks stand, and the datagrams. -/
structure AwaitWorld (ι κ : Type) where
  pools : ι → TaskPool Task SharedState
  addr : ι → SocketAddr
  relays : κ → RelayState
  handling : κ → Option Pending
  typed : κ → Option TypedLine
  /-- Every datagram sent so far. -/
  sent : List Datagram

/-- What happens in the network of tasks. -/
inductive AwaitEvent (ι κ : Type) where
  /-- Anything but a step of a client's task: registrations, the relays, outsiders. -/
  | other (e : TaskWorldEvent ι κ)
  /-- The receive task of client `i` takes a datagram. -/
  | receive (i : ι) (now : UInt64) (d : Datagram)
  /-- The main task of client `i` reads `/pay args`. -/
  | pay (i : ι) (now paymentId : UInt64) (args : String)
  /-- It reads a line of text. -/
  | say (i : ι) (now msgId : UInt64) (text : String)
  /-- A task of client `i` is asked for the balance. -/
  | balance (i : ι) (t : Task)
  /-- A task of client `i` takes the next step of its program. -/
  | step (i : ι) (t : Task)

/-- The call that an event starts, and the task that is to make it. -/
def AwaitEvent.call {ι κ : Type} : AwaitEvent ι κ → Option (Task × WorldEvent ι κ)
  | .receive i now d => some (.receive, .clientRecv i now d)
  | .pay i now paymentId args => some (.main, .pay i now paymentId args)
  | .say i now msgId text => some (.main, .say i now msgId text)
  | .other _ | .balance _ _ | .step _ _ => none

/-- What an event is if it is none of a client's task. -/
def AwaitEvent.elsewhere {ι κ : Type} : AwaitEvent ι κ → Option (TaskWorldEvent ι κ)
  | .other e => some e
  | .receive _ _ _ | .pay _ _ _ _ | .say _ _ _ _ | .balance _ _ | .step _ _ => none

namespace AwaitWorld
variable {ι κ : Type}

/-- The network as one in which only the relays have tasks, without the history. -/
def tasks (s : AwaitWorld ι κ) : TaskWorld ι κ where
  world :=
    { clients := fun i => (s.pools i).shared.client
      addr := s.addr
      relays := s.relays
      sent := s.sent
      debited := []
      credited := []
      signed := [] }
  handling := s.handling
  typed := s.typed

/-- The relays and the datagrams go on as in `t`. -/
def withTasks (s : AwaitWorld ι κ) (t : TaskWorld ι κ) : AwaitWorld ι κ :=
  { s with
    relays := t.world.relays
    handling := t.handling
    typed := t.typed
    sent := t.world.sent }

/-- Task `t` of client `i` is given a program. -/
def startTask [DecidableEq ι] (s : AwaitWorld ι κ) (i : ι) (t : Task)
    (p : TaskProgram SharedState) : AwaitWorld ι κ :=
  { s with
    pools := Function.update s.pools i
      { s.pools i with prog := Function.update (s.pools i).prog t p } }

/-- The tasks of client `i` go on to `pool`, and what they handed to the socket goes out. -/
def setPool [DecidableEq ι] (s : AwaitWorld ι κ) (i : ι) (pool : TaskPool Task SharedState) :
    AwaitWorld ι κ :=
  { s with
    pools := Function.update s.pools i pool
    sent := s.sent ++
      packets (s.addr i) (pool.shared.sent.drop (s.pools i).shared.sent.length) }

end AwaitWorld

/-- The event is none of a client's receive task and main task, and no restart. -/
def TaskWorldEvent.Elsewhere {ι κ : Type} : TaskWorldEvent ι κ → Prop
  | .act e => Network.Elsewhere e
  | _ => True

namespace Network

section Statement
variable {P : Platform} {ι κ : Type} [DecidableEq ι] [DecidableEq κ] (net : Network P ι κ)

/-- The network of tasks.  A task is given a program when it is done with the one before. -/
def awaitSystem : EventSystem (AwaitWorld ι κ) (AwaitEvent ι κ) where
  Enabled s
    | .other e => e.Elsewhere ∧ net.taskSystem.Enabled s.tasks e
    | .receive i _ d =>
      ((s.pools i).prog .receive).isDone = true ∧
        (s.pools i).shared.client.receiving = true ∧ d ∈ s.sent ∧ d.dst = s.addr i
    | .pay i _ _ _ | .say i _ _ _ => ((s.pools i).prog .main).isDone = true
    | .balance i t => t ≠ .receive ∧ ((s.pools i).prog t).isDone = true
    | .step i t => (clientTasks P (net.client i)).Enabled (s.pools i) (.step t)
  next s
    | .other e => s.withTasks (net.taskSystem.next s.tasks e)
    | .receive i now d => s.startTask i .receive (handleMsgProgram P (net.client i) now d.msg)
    | .pay i now paymentId args =>
      s.startTask i .main (doPayProgram P (net.client i) now paymentId args)
    | .say i now msgId text =>
      s.startTask i .main (sendMsgProgram P (net.client i) now msgId text)
    | .balance i t => s.startTask i t readBalanceProgram
    | .step i t =>
      s.setPool i ((clientTasks P (net.client i)).next (s.pools i) (.step t))

/-- All nodes have just been started, and no task has anything to do. -/
def awaitStart (b : Boot ι κ) : AwaitWorld ι κ where
  pools i := TaskPool.idle (tasksStart P (net.client i) (b.localAddr i) (b.file i))
  addr := b.addr
  relays := b.relays
  handling _ := none
  typed _ := none
  sent := []

/-- A condition on the steps of the network of calls, on the steps of the tasks: for a client
it is asked as its task takes a datagram. -/
def InCalls (ok : World ι κ → WorldEvent ι κ → Prop) (mayReceive : ι → Message → SeenIds → Prop)
    (s : AwaitWorld ι κ) : AwaitEvent ι κ → Prop
  | .other e => InSteps ok s.tasks e ∧ LinesCached s.tasks e
  | .receive i _ d => mayReceive i d.msg (s.pools i).shared.client.seen
  | _ => True

/-- A call that was started on task `t` of client `i`, when `es` is all that happens. -/
def Started (es : List (AwaitEvent ι κ)) (i : ι) (t : Task) (e : TaskWorldEvent ι κ) : Prop :=
  IsCall i e ∧ ∃ e' ∈ es, ∃ c, e'.call = some (t, c) ∧ e = .act c

/-- **What an event is seen as in calls**, when `es` is all that happens: a task may make a
call at one of its steps. -/
def CallSeenAs (es : List (AwaitEvent ι κ)) :
    AwaitEvent ι κ → Option (TaskWorldEvent ι κ) → Prop
  | .other e, a => a = some e
  | .step i t, a => ∀ c ∈ a, Started es i t c
  | .receive _ _ _, a | .pay _ _ _ _, a | .say _ _ _ _, a | .balance _ _, a => a = none

/-- **What an event is seen as in whole calls**: a step of a client's task as a call that was
started on it, if at all, and all else as in single steps. -/
def AwaitSeenAs (es : List (AwaitEvent ι κ)) : AwaitEvent ι κ → Option (WorldEvent ι κ) → Prop
  | .other e, a => TaskSeenAs (es.filterMap AwaitEvent.elsewhere) e a
  | .step i t, a => ∀ c ∈ a, Started es i t (.act c)
  | .receive _ _ _, a | .pay _ _ _ _, a | .say _ _ _ _, a | .balance _ _, a => a = none

instance : (e : WorldEvent ι κ) → Decidable (Elsewhere e)
  | .pay _ _ _ _ | .say _ _ _ _ | .clientRecv _ _ _ | .restart _ _ _ => isFalse id
  | .register _ _ | .relayRecv _ _ | .console _ _ _ _ | .federate _ _ | .repeer _ _
  | .inject _ => isTrue trivial

instance : (e : TaskWorldEvent ι κ) → Decidable e.Elsewhere
  | .act e => inferInstanceAs (Decidable (Elsewhere e))
  | .receive _ _ | .finish _ | .type _ _ _ _ | .shout _ => isTrue trivial

instance (s : AwaitWorld ι κ) :
    (e : AwaitEvent ι κ) → Decidable (net.awaitSystem.Enabled s e)
  | .other e => inferInstanceAs (Decidable (e.Elsewhere ∧ net.taskSystem.Enabled s.tasks e))
  | .receive _ _ _ => inferInstanceAs (Decidable (_ = true ∧ _ = true ∧ _ ∧ _))
  | .pay _ _ _ _ | .say _ _ _ _ => inferInstanceAs (Decidable (_ = true))
  | .balance _ _ => inferInstanceAs (Decidable (_ ≠ _ ∧ _ = true))
  | .step i t => TaskPool.decidableStep (MayRun P (net.client i)) (s.pools i) t

instance (ok : World ι κ → WorldEvent ι κ → Prop) (mayReceive : ι → Message → SeenIds → Prop)
    [∀ w e, Decidable (ok w e)] [∀ i msg seen, Decidable (mayReceive i msg seen)]
    (s : AwaitWorld ι κ) : (e : AwaitEvent ι κ) → Decidable (InCalls ok mayReceive s e)
  | .other e => inferInstanceAs (Decidable (InSteps ok s.tasks e ∧ LinesCached s.tasks e))
  | .receive _ _ _ => inferInstanceAs (Decidable (mayReceive _ _ _))
  | .pay _ _ _ _ | .say _ _ _ _ | .balance _ _ | .step _ _ => isTrue trivial

end Statement

variable {P : Platform} {ι κ : Type} [DecidableEq ι] [DecidableEq κ] {net : Network P ι κ}
  {ok : World ι κ → WorldEvent ι κ → Prop} {mayReceive : ι → Message → SeenIds → Prop} {i : ι}
  {es : List (AwaitEvent ι κ)} {s : AwaitWorld ι κ} {a : TaskWorld ι κ} {e : TaskWorldEvent ι κ}

/-- **The network of tasks as seen in calls**, when `es` is all that happens. -/
structure Awaited (net : Network P ι κ) (ok : World ι κ → WorldEvent ι κ → Prop)
    (es : List (AwaitEvent ι κ)) (s : AwaitWorld ι κ) (a : TaskWorld ι κ) : Prop where
  addr : a.world.addr = s.addr
  relays : a.world.relays = s.relays
  handling : a.handling = s.handling
  typed : a.typed = s.typed
  sent : s.sent ⊆ a.world.sent
  kept : ∀ i, (net.clientCalls ok i).Kept (Started es i) (s.pools i) a

/-! ## What a step leaves alone -/

/-- Client `i` and its payments are the same. -/
structure Untouched (i : ι) (a a' : TaskWorld ι κ) : Prop where
  client : a'.world.clients i = a.world.clients i
  debits : amountsOf i a'.world.debited = amountsOf i a.world.debited
  credits : amountsOf i a'.world.credited = amountsOf i a.world.credited

/-- A step keeps what a client that it leaves alone agrees on with the network of calls. -/
theorem kept_untouched (hmay : Undemanding ok mayReceive) {pool : TaskPool Task SharedState}
    {Call : Task → TaskWorldEvent ι κ → Prop} (h : (net.clientCalls ok i).Kept Call pool a)
    (hen : net.taskSystem.Enabled a e) (hok : InSteps ok a e ∧ LinesCached a e)
    (hsame : Untouched i a (net.taskSystem.next a e)) :
    (net.clientCalls ok i).Kept Call pool (net.taskSystem.next a e) := by
  refine h.elsewhere hen hok ⟨?_, ?_, ?_, ?_, ?_⟩ rfl fun t => ?_
  · exact (congrArg (·.app.wallet) hsame.client).trans h.rel.wallet
  · exact (congrArg ClientState.localAddr hsame.client).trans h.rel.localAddr
  · exact hsame.debits.trans h.rel.debits
  · exact hsame.credits.trans h.rel.credits
  · show packets ((net.taskSystem.next a e).world.addr i) _ ⊆ _
    rw [addr_next_of_allowed hmay hok.1]
    exact List.Subset.trans h.rel.sent (sent_subset_next a e)
  · exact congrArg (fun c : ClientState =>
      if t = .receive then some (c.seen, c.receiving) else none) hsame.client

/-- A step elsewhere leaves all clients alone. -/
theorem untouched_elsewhere (he : e.Elsewhere) (i : ι) :
    Untouched i a (net.taskSystem.next a e) := by
  cases e with
  | act e =>
    cases e with
    | register j now => exact ⟨congrFun (Function.update_eq_self _ _) i, rfl, rfl⟩
    | pay _ _ _ _ | say _ _ _ _ | clientRecv _ _ _ | restart _ _ _ => exact he.elim
    | relayRecv _ _ | console _ _ _ _ | federate _ _ | repeer _ _ | inject _ =>
      exact ⟨rfl, rfl, rfl⟩
  | receive _ _ | finish _ | type _ _ _ _ | shout _ => exact ⟨rfl, rfl, rfl⟩

/-- The payments of another client. -/
theorem amountsOf_of_ne {i j : ι} (hij : i ≠ j) (l : List (ι × Payment)) (ps : List Payment) :
    amountsOf j (l ++ ps.map fun p => (i, p)) = amountsOf j l := by
  simp [amountsOf, List.filter_map, Function.comp_def, hij]

variable (net a) in
/-- A call of a client leaves the others alone, and the relays. -/
theorem untouched_call (he : IsCall i e) :
    (∀ j, j ≠ i → Untouched j a (net.taskSystem.next a e)) ∧
      (net.taskSystem.next a e).world.relays = a.world.relays ∧
      (net.taskSystem.next a e).handling = a.handling ∧
      (net.taskSystem.next a e).typed = a.typed := by
  cases e with
  | act e =>
    cases e with
    | pay j now paymentId args =>
      obtain rfl : j = i := he
      refine ⟨fun k hk => ⟨Function.update_of_ne hk _ _, ?_, rfl⟩, rfl, rfl, rfl⟩
      exact amountsOf_of_ne hk.symm _ _
    | say j now msgId text =>
      obtain rfl : j = i := he
      exact ⟨fun k hk => ⟨Function.update_of_ne hk _ _, rfl, rfl⟩, rfl, rfl, rfl⟩
    | clientRecv j now d =>
      obtain rfl : j = i := he
      refine ⟨fun k hk => ⟨Function.update_of_ne hk _ _, rfl, ?_⟩, rfl, rfl, rfl⟩
      exact amountsOf_of_ne hk.symm _ _
    | register _ _ | restart _ _ _ | relayRecv _ _ | console _ _ _ _ | federate _ _
    | repeer _ _ | inject _ => exact he.elim
  | receive _ _ | finish _ | type _ _ _ _ | shout _ => exact he.elim

/-! ## The simulation -/

/-- A step elsewhere can be taken there as well, and does the same to the relays. -/
theorem relays_elsewhere (h : Awaited net ok es s a) (he : e.Elsewhere)
    (hen : net.taskSystem.Enabled s.tasks e) :
    let t := net.taskSystem.next s.tasks e
    let a' := net.taskSystem.next a e
    net.taskSystem.Enabled a e ∧ a'.world.relays = t.world.relays ∧ a'.handling = t.handling ∧
      a'.typed = t.typed ∧ t.world.sent ⊆ a'.world.sent := by
  obtain ⟨haddr, hrelays, hhandling, htyped, hsent, hkept⟩ := h
  have hlocal : ∀ i, (a.world.clients i).localAddr = (s.pools i).shared.client.localAddr :=
    fun i => (hkept i).rel.localAddr
  obtain ⟨⟨clients, addr, relays, sent, debited, credited, signed⟩, handling, typed⟩ := a
  dsimp only at haddr hrelays hhandling htyped hsent hlocal
  subst haddr hrelays hhandling htyped
  have hmore : ∀ l : List Datagram, s.sent ++ l ⊆ sent ++ l := fun l =>
    List.append_subset.mpr ⟨List.subset_append_of_subset_left _ hsent,
      List.subset_append_right _ _⟩
  cases e with
  | act e =>
    cases e with
    | register i now =>
      have hsame : register P (net.client i) now (clients i) =
          register P (net.client i) now (s.pools i).shared.client := by
        rw [register, hlocal, register]
      refine ⟨hen, rfl, rfl, rfl, ?_⟩
      show s.sent ++ packets _ (register P (net.client i) now (s.pools i).shared.client) ⊆
        sent ++ packets _ (register P (net.client i) now (clients i))
      rw [hsame]
      exact hmore _
    | pay _ _ _ _ | say _ _ _ _ | clientRecv _ _ _ | restart _ _ _ => exact he.elim
    | relayRecv _ _ | console _ _ _ _ => exact hen.1.elim
    | federate _ _ | repeer _ _ | inject _ => exact ⟨hen, rfl, rfl, rfl, hmore _⟩
  | receive r d => exact ⟨⟨hen.1, hsent hen.2.1, hen.2.2⟩, rfl, rfl, rfl, hmore _⟩
  | finish _ | type _ _ _ _ | shout _ => exact ⟨hen, rfl, rfl, rfl, hmore _⟩

/-- A step that is allowed here is allowed there. -/
theorem allowed_elsewhere (hmay : Undemanding ok mayReceive) (h : Awaited net ok es s a)
    (he : e.Elsewhere) (hok : InSteps ok s.tasks e ∧ LinesCached s.tasks e) :
    InSteps ok a e ∧ LinesCached a e := by
  obtain ⟨hin, hcached⟩ := hok
  have hok' : ∀ e', Elsewhere e' → ok s.tasks.world e' → ok a.world e' :=
    hmay.elsewhere s.tasks.world a.world
  cases e with
  | act e => exact ⟨hok' e he hin, trivial⟩
  | receive r d => exact ⟨hok' (.relayRecv r d) trivial hin, trivial⟩
  | finish r => exact ⟨trivial, trivial⟩
  | type r now msgId line => exact ⟨hok' (.console r now msgId line) trivial hin, trivial⟩
  | shout r =>
    have htyped : a.typed r = s.tasks.typed r := congrFun h.typed r
    refine ⟨?_, ?_⟩
    · intro l hl
      rw [htyped] at hl
      exact hok' (.console r l.now l.msgId l.line) trivial (hin l hl)
    · intro l hl
      rw [htyped] at hl
      rw [h.relays]
      exact hcached l hl

/-- **A step elsewhere.** -/
theorem awaited_elsewhere (hmay : Undemanding ok mayReceive) (h : Awaited net ok es s a)
    (he : e.Elsewhere) (hen : net.taskSystem.Enabled s.tasks e)
    (hok : InSteps ok s.tasks e ∧ LinesCached s.tasks e) :
    net.taskSystem.Enabled a e ∧ (InSteps ok a e ∧ LinesCached a e) ∧
      Awaited net ok es (net.awaitSystem.next s (.other e)) (net.taskSystem.next a e) := by
  obtain ⟨hen', hrelays, hhandling, htyped, hsent⟩ := relays_elsewhere h he hen
  have hok' := allowed_elsewhere hmay h he hok
  exact ⟨hen', hok',
    { addr := (addr_next_of_allowed hmay hok'.1).trans h.addr
      relays := hrelays
      handling := hhandling
      typed := htyped
      sent := hsent
      kept := fun i => kept_untouched hmay (h.kept i) hen' hok' (untouched_elsewhere he i) }⟩

/-- A task of a client is given a program. -/
theorem awaited_start (h : Awaited net ok es s a) {t : Task}
    (hdone : ((s.pools i).prog t).isDone = true) {p : TaskProgram SharedState}
    {c : Option (TaskWorldEvent ι κ)} {K : TaskWorld ι κ → Prop} (hcall : ∀ e ∈ c, Started es i t e)
    (hstable : (net.clientCalls ok i).Stable K) (hK : K a)
    (hp : p.Makes (net.clientCalls ok i) t ⟨c, none,
      ((net.clientCalls ok i).own t (s.pools i).shared,
        (net.clientCalls ok i).own t (s.pools i).shared), K⟩) :
    Awaited net ok es (s.startTask i t p) a := by
  refine { h with kept := ?_ }
  refine (Function.forall_update_iff s.pools (fun j pool =>
    (net.clientCalls ok j).Kept (Started es j) pool a)).mpr ⟨?_, fun j _ => h.kept j⟩
  exact (h.kept i).start (TaskProgram.eq_done_of_isDone hdone) hcall hstable hK hp

/-- Knowing nothing. -/
theorem stable_true : (net.clientCalls ok i).Stable fun _ => True := fun _ _ _ _ _ => trivial

/-- **The receive task takes a datagram.** -/
theorem awaited_receive (hmay : Undemanding ok mayReceive) (h : Awaited net ok es s a)
    {now : UInt64} {d : Datagram} (hen : net.awaitSystem.Enabled s (.receive i now d))
    (hd : mayReceive i d.msg (s.pools i).shared.client.seen) (he : .receive i now d ∈ es) :
    Awaited net ok es (net.awaitSystem.next s (.receive i now d)) a := by
  obtain ⟨hdone, hreceiving, hsent, hdst⟩ := hen
  refine awaited_start (c := some (.act (.clientRecv i now d))) h hdone ?_
    (stable_deliverable hmay d) ⟨h.sent hsent, hdst.trans (congrFun h.addr i).symm⟩ ?_
  · rintro e ⟨⟩
    exact ⟨rfl, _, he, _, rfl, rfl⟩
  · have hown : (net.clientCalls ok i).own .receive (s.pools i).shared =
        some ((s.pools i).shared.client.seen, true) := congrArg some (Prod.ext rfl hreceiving)
    rw [hown]
    exact makes_handleMsg hmay hd

/-- What a client's task hands to the socket is on its way there. -/
theorem awaited_setPool (h : Awaited net ok es s a) {pool : TaskPool Task SharedState}
    {a' : TaskWorld ι κ} (haddr : a'.world.addr = a.world.addr)
    (hrelays : a'.world.relays = a.world.relays ∧ a'.handling = a.handling ∧ a'.typed = a.typed)
    (hsent : a.world.sent ⊆ a'.world.sent)
    (hkept : (net.clientCalls ok i).Kept (Started es i) pool a')
    (hothers : ∀ j, j ≠ i → (net.clientCalls ok j).Kept (Started es j) (s.pools j) a') :
    Awaited net ok es (s.setPool i pool) a' where
  addr := haddr.trans h.addr
  relays := hrelays.1.trans h.relays
  handling := hrelays.2.1.trans h.handling
  typed := hrelays.2.2.trans h.typed
  sent := by
    have hpool : packets (a'.world.addr i) pool.shared.sent ⊆ a'.world.sent := hkept.rel.sent
    rw [haddr, h.addr] at hpool
    refine List.append_subset.mpr ⟨List.Subset.trans h.sent hsent, ?_⟩
    exact List.Subset.trans (List.map_subset _ (List.drop_subset _ _)) hpool
  kept := (Function.forall_update_iff s.pools (fun j pool =>
    (net.clientCalls ok j).Kept (Started es j) pool a')).mpr ⟨hkept, hothers⟩

/-- **A task takes a step.** -/
theorem awaited_step (hmay : Undemanding ok mayReceive) (h : Awaited net ok es s a) {t : Task}
    (hen : net.awaitSystem.Enabled s (.step i t)) :
    let s' := net.awaitSystem.next s (.step i t)
    Awaited net ok es s' a ∨ ∃ e, net.taskSystem.Enabled a e ∧
      (InSteps ok a e ∧ LinesCached a e) ∧ Started es i t e ∧
      Awaited net ok es s' (net.taskSystem.next a e) := by
  rcases (h.kept i).step hen with hkept | ⟨e, hcall, hen', hok', hkept⟩
  · exact Or.inl (awaited_setPool h rfl ⟨rfl, rfl, rfl⟩ (List.Subset.refl _) hkept
      (fun j _ => h.kept j))
  · obtain ⟨huntouched, hrelays⟩ := untouched_call net a hcall.1
    refine Or.inr ⟨e, hen', hok', hcall, ?_⟩
    exact awaited_setPool h (addr_next_of_allowed hmay hok'.1) hrelays (sent_subset_next a e) hkept
      (fun j hj => kept_untouched hmay (h.kept j) hen' hok' (huntouched j hj))

/-- **The network of calls simulates the network of tasks.** -/
theorem calls_simulate (hmay : Undemanding ok mayReceive) (es : List (AwaitEvent ι κ)) :
    EventSystem.Simulates net.awaitSystem net.taskSystem (Awaited net ok es)
      (fun s e => InCalls ok mayReceive s e ∧ e ∈ es)
      (fun a e => InSteps ok a e ∧ LinesCached a e) (CallSeenAs es) := by
  rintro s a e h hen ⟨hok, he⟩
  cases e with
  | other e =>
    obtain ⟨hen', hok', hnext⟩ := awaited_elsewhere hmay h hen.1 hen.2 hok
    exact Or.inr ⟨e, hen', hok', rfl, hnext⟩
  | receive i now d => exact Or.inl ⟨rfl, awaited_receive hmay h hen hok he⟩
  | pay i now paymentId args =>
    refine Or.inl ⟨rfl,
      awaited_start h hen ?_ stable_true trivial (makes_doPay hmay paymentId args)⟩
    rintro e ⟨⟩
    exact ⟨rfl, _, he, _, rfl, rfl⟩
  | say i now msgId text =>
    refine Or.inl ⟨rfl,
      awaited_start h hen ?_ stable_true trivial (makes_sendMsg hmay msgId text)⟩
    rintro e ⟨⟩
    exact ⟨rfl, _, he, _, rfl, rfl⟩
  | balance i t =>
    exact Or.inl ⟨rfl, awaited_start (c := none) h hen.2 (by simp) stable_true trivial
      makes_readBalance⟩
  | step i t =>
    rcases awaited_step hmay h hen with hstay | ⟨e, hen', hok', hcall, hnext⟩
    · refine Or.inl ⟨?_, hstay⟩
      rintro c ⟨⟩
    · refine Or.inr ⟨e, hen', hok', ?_, hnext⟩
      rintro c ⟨⟩
      exact hcall

/-- Tasks that have nothing to do. -/
theorem awaited_start_idle (b : Boot ι κ) :
    Awaited net ok es (net.awaitStart b) (net.taskStart b) where
  addr := rfl
  relays := rfl
  handling := rfl
  typed := rfl
  sent := List.Subset.refl _
  kept _ := CallSpec.kept_idle ⟨rfl, rfl, rfl, rfl, List.Subset.refl _⟩ trivial fun _ => rfl

/-! ## Runs -/

/-- No client is restarted. -/
def KeepsRunning (_ : World ι κ) : WorldEvent ι κ → Prop
  | .restart _ _ _ => False
  | _ => True

omit [DecidableEq ι] [DecidableEq κ] in
theorem undemanding_keepsRunning :
    Undemanding (KeepsRunning (ι := ι) (κ := κ)) fun _ _ _ => True where
  pay _ _ _ _ _ := trivial
  say _ _ _ _ _ := trivial
  recv _ _ _ _ _ := trivial
  restart _ _ _ _ h := h
  elsewhere _ _ e _ h := by cases e <;> exact h

omit [DecidableEq ι] [DecidableEq κ] in
theorem onNodes_keepsRunning : OnNodes (KeepsRunning (ι := ι) (κ := κ)) := by
  intro w l g e
  cases e <;> exact Iff.rfl

/-- The message makes a client that has these ids cached forget none. -/
def EvictsNone (net : Network P ι κ) (i : ι) (msg : Message) (seen : SeenIds) : Prop :=
  (dedupKey (net.client i) msg).bind seen.evicted = none

instance (i : ι) (msg : Message) (seen : SeenIds) : Decidable (EvictsNone net i msg seen) :=
  inferInstanceAs (Decidable (_ = none))

omit [DecidableEq ι] [DecidableEq κ] in
theorem undemanding_honest : Undemanding (Honest net) (EvictsNone net) where
  pay _ _ _ _ _ := trivial
  say _ _ _ _ _ := trivial
  recv _ _ _ _ h _ := h
  restart _ _ _ _ h := h
  elsewhere w w' e he h := by
    cases e with
    | clientRecv _ _ _ => exact he.elim
    | pay _ _ _ _ | say _ _ _ _ | register _ _ | relayRecv _ _ | console _ _ _ _
    | federate _ _ | repeer _ _ | restart _ _ _ | inject _ => exact h

/-- **What whole calls have in common with calls in many steps.** -/
structure InWholeCalls (s : AwaitWorld ι κ) (w : World ι κ) : Prop where
  wallet : ∀ i, (w.clients i).app.wallet = (s.pools i).shared.client.app.wallet
  debits : ∀ i, amountsOf i w.debited = (s.pools i).shared.debits
  credits : ∀ i, amountsOf i w.credited = (s.pools i).shared.credits
  /-- A receive task that has nothing to do has cached the same ids. -/
  cache : ∀ i, ((s.pools i).prog .receive).isDone = true →
    (w.clients i).seen = (s.pools i).shared.client.seen ∧
      (w.clients i).receiving = (s.pools i).shared.client.receiving
  addr : w.addr = s.addr
  relays : w.relays = s.relays
  sent : s.sent ⊆ w.sent

theorem inWholeCalls_of_awaited {w : World ι κ} (h : Awaited net ok es s a) (hw : Behind net a w) :
    InWholeCalls s w := by
  obtain ⟨hnodes, hsent, -, -, -⟩ := hw
  rw [hnodes]
  exact
    { wallet := fun i => (h.kept i).rel.wallet
      debits := fun i => (h.kept i).rel.debits
      credits := fun i => (h.kept i).rel.credits
      cache := by
        intro i hdone
        obtain ⟨st, hst⟩ := (h.kept i).tasks .receive
        rw [TaskProgram.eq_done_of_isDone hdone] at hst
        exact Prod.mk.inj (Option.some.inj hst.of_done.2.symm)
      addr := h.addr
      relays := h.relays
      sent := List.Subset.trans h.sent hsent }

/-- A line that is broadcast has not been evicted from the cache since it was typed. -/
def AwaitLinesCached (s : AwaitWorld ι κ) : AwaitEvent ι κ → Prop
  | .other e => LinesCached s.tasks e
  | _ => True

instance (s : AwaitWorld ι κ) : (e : AwaitEvent ι κ) → Decidable (AwaitLinesCached s e)
  | .other e => inferInstanceAs (Decidable (LinesCached s.tasks e))
  | .receive _ _ _ | .pay _ _ _ _ | .say _ _ _ _ | .balance _ _ | .step _ _ => isTrue trivial

omit [DecidableEq ι] [DecidableEq κ] in
/-- What is not seen in calls is not seen in whole calls. -/
theorem awaitSeenAs_of_unseen (e : AwaitEvent ι κ) (h : CallSeenAs es e none) :
    AwaitSeenAs es e none := by
  cases e with
  | other e => cases h
  | step i t => rintro c ⟨⟩
  | receive _ _ _ | pay _ _ _ _ | say _ _ _ _ | balance _ _ => rfl

omit [DecidableEq ι] [DecidableEq κ] in
/-- What a call is seen as in single steps is seen of the tasks. -/
theorem awaitSeenAs_of_seen {bs : List (TaskWorldEvent ι κ)}
    (hbs : EventSystem.SeenIn (CallSeenAs es) bs es) (e : AwaitEvent ι κ)
    (b : TaskWorldEvent ι κ) (x : Option (WorldEvent ι κ)) (hb : CallSeenAs es e (some b))
    (hx : TaskSeenAs bs b x) : AwaitSeenAs es e x := by
  cases e with
  | receive _ _ _ | pay _ _ _ _ | say _ _ _ _ | balance _ _ => cases hb
  | step i t =>
    obtain ⟨hcall, e', he', c, hc, rfl⟩ := hb b rfl
    obtain rfl : x = some c := hx
    rintro c' ⟨⟩
    exact ⟨hcall, e', he', c, hc, rfl⟩
  | other e =>
    obtain rfl : b = e := Option.some.inj hb
    cases b with
    | act _ | receive _ _ | finish _ | type _ _ _ _ => exact hx
    | shout r =>
      obtain ⟨now, msgId, line, htyped, rfl⟩ := hx
      refine ⟨now, msgId, line, ?_, rfl⟩
      -- The line was typed on the relay's console.
      obtain ⟨e', he', hseen⟩ := hbs.exists_mem htyped
      cases e' with
      | other e' =>
        obtain rfl : .type r now msgId line = e' := Option.some.inj hseen
        exact List.mem_filterMap.mpr ⟨_, he', rfl⟩
      | step i t => exact (hseen _ rfl).1.elim
      | receive _ _ _ | pay _ _ _ _ | say _ _ _ _ | balance _ _ => cases hseen

/-- Every run is seen as one in whole calls. -/
theorem exists_awaited_run (hmay : Undemanding ok mayReceive) (hok : OnNodes ok) (b : Boot ι κ)
    (hrun : net.awaitSystem.Always (InCalls ok mayReceive) (net.awaitStart b) es) :
    ∃ as, net.system.Always ok (net.start b) as ∧ EventSystem.SeenIn (AwaitSeenAs es) as es ∧
      InWholeCalls (net.awaitSystem.run (net.awaitStart b) es)
        (net.system.run (net.start b) as) := by
  obtain ⟨bs, hbs, hseen, hawaited⟩ := (calls_simulate hmay es).exists_run (awaited_start_idle b)
    (hrun.and (EventSystem.always_mem (List.Subset.refl es) hrun))
  obtain ⟨as, has, hseen', hbehind⟩ := exists_behind_run hok b hbs
  exact ⟨as, has, hseen.trans awaitSeenAs_of_unseen (awaitSeenAs_of_seen hseen) hseen',
    inWholeCalls_of_awaited hawaited hbehind⟩

/-- A run in which no line is evicted from the cache before it is broadcast restarts no client. -/
theorem keepsRunning_of_linesCached {b : Boot ι κ}
    (hrun : net.awaitSystem.Always AwaitLinesCached (net.awaitStart b) es) :
    net.awaitSystem.Always (InCalls KeepsRunning fun _ _ _ => True) (net.awaitStart b) es := by
  refine hrun.imp fun s e hen hcached => ?_
  cases e with
  | other e =>
    refine ⟨?_, hcached⟩
    cases e with
    | act e =>
      cases e with
      | restart _ _ _ => exact hen.1.elim
      | pay _ _ _ _ | say _ _ _ _ | register _ _ | clientRecv _ _ _ | relayRecv _ _
      | console _ _ _ _ | federate _ _ | repeer _ _ | inject _ => trivial
    | receive _ _ | finish _ | type _ _ _ _ => trivial
    | shout _ => exact fun _ _ => trivial
  | receive _ _ _ | pay _ _ _ _ | say _ _ _ _ | balance _ _ | step _ _ => trivial

/-- The amounts of the payments of all clients. -/
theorem sum_amountsOf [Fintype ι] (l : List (ι × Payment)) :
    ∑ i, (amountsOf i l : Multiset UInt64) =
      ((l.map Prod.snd : List Payment) : Multiset Payment).map Payment.amount := by
  induction l with
  | nil => simp [amountsOf]
  | cons x l ih =>
    have hcons : ∀ i, (amountsOf i (x :: l) : Multiset UInt64) =
        (if x.1 = i then {x.2.amount} else 0) + (amountsOf i l : Multiset UInt64) := by
      intro i
      by_cases hi : x.1 = i <;> simp [amountsOf, hi]
    simp only [hcons, Finset.sum_add_distrib, ih]
    simp

end Network

/-- What all clients have debited. -/
def AwaitWorld.debits {ι κ : Type} [Fintype ι] (s : AwaitWorld ι κ) : Multiset UInt64 :=
  ∑ i, ((s.pools i).shared.debits : Multiset UInt64)

/-- What all clients have been credited. -/
def AwaitWorld.credits {ι κ : Type} [Fintype ι] (s : AwaitWorld ι κ) : Multiset UInt64 :=
  ∑ i, ((s.pools i).shared.credits : Multiset UInt64)

namespace Network
variable {P : Platform} {ι κ : Type} [DecidableEq ι] [DecidableEq κ]

/-- **Satoshis are conserved at every `await`.**  However the tasks of the clients and of the
relays take turns: as long as nobody forges a message, restarts a client or makes a cache
forget an id, the balances and the amounts debited but not credited always add up to what the
clients started with. -/
theorem awaits_sats_conserved [Fintype ι] (net : Network P ι κ) (b : Boot ι κ)
    (es : List (AwaitEvent ι κ))
    (hnames : ∀ i j id, (net.client i).IsMe id → (net.client j).IsMe id → i = j)
    (htotal : ∑ i, ((net.start b).clients i).balance < 2 ^ 64)
    (hrun : net.awaitSystem.Always (InCalls (Honest net) (EvictsNone net))
      (net.awaitStart b) es) :
    let s := net.awaitSystem.run (net.awaitStart b) es
    ∑ i, (s.pools i).shared.client.balance + ((s.debits - s.credits).map UInt64.toNat).sum =
        ∑ i, ((net.start b).clients i).balance ∧ s.credits ≤ s.debits := by
  intro s
  obtain ⟨as, has, -, hwhole⟩ := exists_awaited_run undemanding_honest onNodes_honest b hrun
  obtain ⟨hkept, hbooks⟩ := kept_run b hnames htotal has
  generalize net.system.run (net.start b) as = w at *
  have hdebits : s.debits = w.debits.map Payment.amount := by
    rw [AwaitWorld.debits, World.debits, ← sum_amountsOf]
    exact Finset.sum_congr rfl (fun i _ => by rw [hwhole.debits i])
  have hcredits : s.credits = w.credits.map Payment.amount := by
    rw [AwaitWorld.credits, World.credits, ← sum_amountsOf]
    exact Finset.sum_congr rfl (fun i _ => by rw [hwhole.credits i])
  have hbalance : ∀ i, (s.pools i).shared.client.balance = (w.clients i).balance := by
    intro i
    rw [ClientState.balance, ClientState.balance, hwhole.wallet i]
  obtain ⟨pending, hpending⟩ := Multiset.le_iff_exists_add.mp hkept.credits_le
  have howed : s.debits = s.credits + pending.map Payment.amount := by
    rw [hdebits, hcredits, hpending, Multiset.map_add]
  refine ⟨?_, howed ▸ Multiset.le_add_right _ _⟩
  rw [howed, add_tsub_cancel_left, Multiset.map_map]
  simp only [hbalance]
  rw [← hbooks, Escrow.total]
  congr 2
  show _ = (w.debits - w.credits).map Payment.sats
  rw [hpending, add_tsub_cancel_left]
  rfl

/-! ## A run between alice and bob -/

/-- Alice's payment goes out before her task is through with it.  A request to bob's web server
has the lock on his wallet when it arrives, and bob writes a text while he is credited. -/
def awaitRun : List (AwaitEvent (Fin 2) (Fin 1)) :=
  let payer : Fin 2 := ⟨0, Nat.two_pos⟩
  let payee : Fin 2 := ⟨1, Nat.one_lt_two⟩
  let hub : Fin 1 := ⟨0, Nat.one_pos⟩
  let relay : SocketAddr := .v4 0x0A000001 12345
  [.other (.act (.register payee 0)),
    .other (.receive hub
      ⟨.v4 2 40000, relay, .register ⟨.v4 0 40000, "bob", relay, "relay", 0, some "1Bob"⟩⟩),
    .pay payer 0 7 "bob 5"] ++
  List.replicate 8 (.step payer .main) ++
  [.other (.receive hub ⟨.v4 1 40000, relay, .payment fiveForBob⟩), .other (.finish hub),
    .balance payee (.web 0), .step payee (.web 0),
    .receive payee 0 ⟨relay, .v4 2 40000, .payment fiveForBob⟩, .step payee .receive,
    .step payee (.web 0), .say payee 0 9 "hello", .step payee (.web 0)] ++
  List.replicate 3 (.step payee .receive) ++ [.step payee .main, .step payer .main]

theorem awaitRun_conserved :
    let s := aliceAndBob.awaitSystem.run (aliceAndBob.awaitStart aliceAndBobBoot) awaitRun
    ∑ i, (s.pools i).shared.client.balance + ((s.debits - s.credits).map UInt64.toNat).sum =
        ∑ i, ((aliceAndBob.start aliceAndBobBoot).clients i).balance ∧ s.credits ≤ s.debits :=
  awaits_sats_conserved aliceAndBob aliceAndBobBoot awaitRun aliceAndBob_names
    (by decide +kernel) (by decide +kernel)

end Network
end Zeta
