import Zeta.AtomicCalls
import Zeta.Tasks
import Zeta.RelayTasks

/-!
# The calls of a client

The programs of a client's tasks make their calls at one action each: `handle_msg` where it
asks the cache, unless it goes on to credit a payment, and then where the wallet is changed;
`do_pay` where the wallet is changed; `send_msg` at its beginning.  What comes later was
settled then: the datagrams to send are on their way in the network of calls already.

The cache and the flag of the receive task are its own.  Between the two moments of a
payment they are ahead of those in the network of calls.
-/

namespace Zeta

/-- The amount of a debit. -/
def WalletOp.debited : WalletOp → Option UInt64
  | .debit amount => some amount
  | .credit _ => none

/-- The amount of a credit. -/
def WalletOp.credited : WalletOp → Option UInt64
  | .credit amount => some amount
  | .debit _ => none

/-- The amounts debited so far, in their order. -/
def SharedState.debits (s : SharedState) : List UInt64 := s.log.filterMap WalletOp.debited

/-- The amounts credited so far. -/
def SharedState.credits (s : SharedState) : List UInt64 := s.log.filterMap WalletOp.credited

namespace Network

section Statement
variable {P : Platform} {ι κ : Type} [DecidableEq ι] [DecidableEq κ] (net : Network P ι κ)

/-- The amounts of the payments of client `i`. -/
def amountsOf (i : ι) (payments : List (ι × Payment)) : List UInt64 :=
  (payments.filter (fun x => x.1 = i)).map (fun x => x.2.amount)

/-- **What the tasks of client `i` and the network of calls agree on** whatever they do: the
wallet, its changes, and all that was sent is on its way. -/
structure Agree (i : ι) (s : SharedState) (a : TaskWorld ι κ) : Prop where
  wallet : (a.world.clients i).app.wallet = s.client.app.wallet
  localAddr : (a.world.clients i).localAddr = s.client.localAddr
  debits : amountsOf i a.world.debited = s.debits
  credits : amountsOf i a.world.credited = s.credits
  sent : packets (a.world.addr i) s.sent ⊆ a.world.sent

variable (ok : World ι κ → WorldEvent ι κ → Prop)

/-- The calls of client `i`, in a network of which `ok` allows the steps. -/
def clientCalls (i : ι) :
    CallSpec Task SharedState Wallet Unit (Option (SeenIds × Bool)) (TaskWorld ι κ)
      (TaskWorldEvent ι κ) where
  system := net.taskSystem
  allowed a e := InSteps ok a e ∧ LinesCached a e
  view s := s.client.app.wallet
  view' _ := ()
  Linked _ _ := True
  own t s := if t = .receive then some (s.client.seen, s.client.receiving) else none
  own' t a :=
    if t = .receive then some ((a.world.clients i).seen, (a.world.clients i).receiving)
    else none
  Rel := Agree i

/-- Where a call of a client stands. -/
abbrev CallStanding (ι κ : Type) :=
  Standing Wallet Unit (Option (SeenIds × Bool)) (TaskWorld ι κ) (TaskWorldEvent ι κ)

/-- The steps that are calls of client `i`. -/
def IsCall (i : ι) : TaskWorldEvent ι κ → Prop
  | .act (.pay j _ _ _) | .act (.say j _ _ _) | .act (.clientRecv j _ _) => j = i
  | _ => False

/-- The event is no call of a client, nor does it end one. -/
def Elsewhere : WorldEvent ι κ → Prop
  | .pay _ _ _ _ | .say _ _ _ _ | .clientRecv _ _ _ | .restart _ _ _ => False
  | _ => True

/-- Which steps are allowed does not depend on anything that a call finds changed when it is
made: a client may always pay and write, what it may receive depends on its cache alone, none
is restarted, and for the rest it does not matter where the clients stand. -/
structure Undemanding (mayReceive : ι → Message → SeenIds → Prop) : Prop where
  pay : ∀ w i now paymentId args, ok w (.pay i now paymentId args)
  say : ∀ w i now msgId text, ok w (.say i now msgId text)
  recv : ∀ w i now d, mayReceive i d.msg (w.clients i).seen → ok w (.clientRecv i now d)
  restart : ∀ w i addr localAddr, ¬ ok w (.restart i addr localAddr)
  elsewhere : ∀ w w' e, Elsewhere e → ok w e → ok w' e

end Statement

section Calls
variable {P : Platform} {ι κ : Type} [DecidableEq ι] [DecidableEq κ] {net : Network P ι κ}
  {ok : World ι κ → WorldEvent ι κ → Prop} {mayReceive : ι → Message → SeenIds → Prop} {i : ι}
  {s s' : SharedState} {a : TaskWorld ι κ}

/-! ## What lasts -/

/-- What is on its way stays there. -/
theorem sent_subset_next (a : TaskWorld ι κ) (e : TaskWorldEvent ι κ) :
    a.world.sent ⊆ (net.taskSystem.next a e).world.sent := by
  cases e with
  | act e =>
    show a.world.sent ⊆ (net.next a.world e).sent
    rw [sent_eq_append_emits]
    exact List.subset_append_left _ _
  | receive _ _ | finish _ | type _ _ _ _ | shout _ => exact List.subset_append_left _ _

/-- Only a restart changes an address. -/
theorem addr_next_of_allowed (hok : Undemanding ok mayReceive) {e : TaskWorldEvent ι κ}
    (h : InSteps ok a e) : (net.taskSystem.next a e).world.addr = a.world.addr := by
  cases e with
  | act e =>
    cases e with
    | restart j addr localAddr => exact absurd h (hok.restart _ _ _ _)
    | pay _ _ _ _ | say _ _ _ _ | register _ _ | clientRecv _ _ _ | relayRecv _ _
    | console _ _ _ _ | federate _ _ | repeer _ _ | inject _ => rfl
  | receive _ _ | finish _ | type _ _ _ _ | shout _ => rfl

/-- What is on its way from client `i` stays so. -/
theorem stable_onWay (hok : Undemanding ok mayReceive) (sends : Sends) :
    (net.clientCalls ok i).Stable fun a => packets (a.world.addr i) sends ⊆ a.world.sent := by
  intro a e _ hallowed h
  show packets ((net.taskSystem.next a e).world.addr i) sends ⊆ _
  rw [addr_next_of_allowed hok hallowed.1]
  exact List.Subset.trans h (sent_subset_next a e)

/-- A datagram for client `i` can be delivered to it. -/
def Deliverable (i : ι) (d : Datagram) (a : TaskWorld ι κ) : Prop :=
  d ∈ a.world.sent ∧ d.dst = a.world.addr i

theorem stable_deliverable (hok : Undemanding ok mayReceive) (d : Datagram) :
    (net.clientCalls ok i).Stable (Deliverable i d) := by
  rintro a e _ hallowed ⟨hd, hdst⟩
  refine ⟨sent_subset_next a e hd, ?_⟩
  show d.dst = (net.taskSystem.next a e).world.addr i
  rw [addr_next_of_allowed hok hallowed.1]
  exact hdst

/-! ## What a call does -/

@[simp] theorem amountsOf_append (l l' : List (ι × Payment)) :
    amountsOf i (l ++ l') = amountsOf i l ++ amountsOf i l' := by
  simp [amountsOf]

@[simp] theorem amountsOf_own (ps : List Payment) :
    amountsOf i (ps.map fun p => (i, p)) = ps.map Payment.amount := by
  simp [amountsOf, List.filter_map, Function.comp_def]

omit [DecidableEq κ] in
/-- Nothing has changed that they agree on. -/
theorem Agree.congr (h : Agree i s a) (hwallet : s'.client.app.wallet = s.client.app.wallet)
    (hlocal : s'.client.localAddr = s.client.localAddr) (hlog : s'.log = s.log)
    (hsent : s'.sent = s.sent) : Agree i s' a where
  wallet := h.wallet.trans hwallet.symm
  localAddr := h.localAddr.trans hlocal.symm
  debits := by
    rw [SharedState.debits, hlog]
    exact h.debits
  credits := by
    rw [SharedState.credits, hlog]
    exact h.credits
  sent := hsent ▸ h.sent

/-- What the change from `s` to `s'` has in common with a call that leads client `i` to the
state `c` with these payments. -/
structure SameChange (s s' : SharedState) (c : ClientState) (debited credited : List Payment) :
    Prop where
  wallet : c.app.wallet = s'.client.app.wallet
  localAddr : c.localAddr = s'.client.localAddr
  debits : s'.debits = s.debits ++ debited.map Payment.amount
  credits : s'.credits = s.credits ++ credited.map Payment.amount
  sent : s'.sent = s.sent

omit [DecidableEq κ] in
theorem Agree.called (h : Agree i s a) (w : World ι κ) (sends : Sends)
    (debited credited : List Payment)
    (hchange : SameChange s s' (w.clients i) debited credited)
    (haddr : w.addr = a.world.addr)
    (hsent : w.sent = a.world.sent ++ packets (a.world.addr i) sends)
    (hdebited : w.debited = a.world.debited ++ debited.map fun p => (i, p))
    (hcredited : w.credited = a.world.credited ++ credited.map fun p => (i, p)) :
    Agree i s' { a with world := w } ∧
      packets (w.addr i) sends ⊆ w.sent := by
  refine ⟨⟨hchange.wallet, hchange.localAddr, ?_, ?_, ?_⟩, ?_⟩
  · rw [hchange.debits, ← h.debits]
    show amountsOf i w.debited = _
    rw [hdebited, amountsOf_append, amountsOf_own]
  · rw [hchange.credits, ← h.credits]
    show amountsOf i w.credited = _
    rw [hcredited, amountsOf_append, amountsOf_own]
  · show packets (w.addr i) s'.sent ⊆ w.sent
    rw [haddr, hchange.sent, hsent]
    exact List.subset_append_of_subset_left _ h.sent
  · rw [haddr, hsent]
    exact List.subset_append_right _ _

section Made
variable (hok : Undemanding ok mayReceive) {now : UInt64} {held : Option (Wallet × Unit)}
  {here : Option (SeenIds × Bool)} {K : TaskWorld ι κ → Prop} {sends : Sends}
include hok

/-- **A datagram is handled** at the action from `s` to `s'`, if `handle_msg` changes the same
in every state of the client in which it may find it. -/
theorem stepsAt_recv {d : Datagram} {seen : SeenIds} (hmay : mayReceive i d.msg seen)
    (hcall : ∀ c : ClientState, c.seen = seen → c.app.wallet = s.client.app.wallet →
      c.localAddr = s.client.localAddr → c.receiving = true →
      SameChange s s' (handleMsg P (net.client i) now d.msg c).state []
          ((handleMsg P (net.client i) now d.msg c).exit.payments d.msg) ∧
        (handleMsg P (net.client i) now d.msg c).sends = sends ∧
        ((handleMsg P (net.client i) now d.msg c).state.seen,
          (handleMsg P (net.client i) now d.msg c).state.receiving) =
            (s'.client.seen, s'.client.receiving))
    (h : Agree i s a)
    (hk : Standing.Knows (net.clientCalls ok i) .receive
      ⟨some (.act (.clientRecv i now d)), held, (here, some (seen, true)), Deliverable i d⟩ a) :
    Standing.StepsAt (net.clientCalls ok i) .receive
      ⟨some (.act (.clientRecv i now d)), held, (here, some (seen, true)), Deliverable i d⟩ s s'
      (.act (.clientRecv i now d)) (fun a => packets (a.world.addr i) sends ⊆ a.world.sent) ()
      (some (s'.client.seen, s'.client.receiving)) a := by
  obtain ⟨hdeliverable, -, hown⟩ := hk
  obtain ⟨hseen, hreceiving⟩ := Prod.mk.inj (Option.some.inj hown)
  obtain ⟨hchange, hsends, howns⟩ := hcall (a.world.clients i) hseen h.wallet h.localAddr hreceiving
  have hrecv : recvLoop P (net.client i) now d.msg (a.world.clients i) =
      handleMsg P (net.client i) now d.msg (a.world.clients i) := recvLoop_receiving hreceiving
  obtain ⟨hagree, honWay⟩ := h.called (net.next a.world (.clientRecv i now d)) sends [] _
    (by simpa only [next, World.setClient, Function.update_self, hrecv] using hchange) rfl
    (by simp only [next, World.setClient, hrecv, hsends]) (List.append_nil _).symm
    (by simp only [next, World.setClient, hrecv])
  refine ⟨⟨trivial, hdeliverable⟩, ⟨?_, trivial⟩, hagree, honWay, fun _ => rfl, fun _ => rfl,
    ?_, ?_⟩
  · exact hok.recv _ _ _ _ (hseen ▸ hmay)
  · show some (((net.next a.world (.clientRecv i now d)).clients i).seen,
      ((net.next a.world (.clientRecv i now d)).clients i).receiving) = _
    simp only [next, World.setClient, Function.update_self, hrecv]
    exact congrArg some howns
  · intro u hu
    show ite _ _ _ = ite _ _ _
    rw [if_neg hu, if_neg hu]

/-- **A payment is made** at the action from `s` to `s'`. -/
theorem stepsAt_pay {paymentId : UInt64} {args : String}
    (hcall : ∀ c : ClientState, c.app.wallet = s.client.app.wallet →
      c.localAddr = s.client.localAddr →
      SameChange s s' (doPay P (net.client i) now paymentId args c).state
          (doPay P (net.client i) now paymentId args c).exit.payments [] ∧
        (doPay P (net.client i) now paymentId args c).sends = sends)
    (h : Agree i s a) :
    Standing.StepsAt (net.clientCalls ok i) .main
      ⟨some (.act (.pay i now paymentId args)), held, (none, none), K⟩ s s'
      (.act (.pay i now paymentId args))
      (fun a => packets (a.world.addr i) sends ⊆ a.world.sent) () none a := by
  obtain ⟨hchange, hsends⟩ := hcall (a.world.clients i) h.wallet h.localAddr
  obtain ⟨hagree, honWay⟩ := h.called (net.next a.world (.pay i now paymentId args)) sends
    (doPay P (net.client i) now paymentId args (a.world.clients i)).exit.payments []
    (by simpa only [next, World.setClient, Function.update_self] using hchange) rfl
    (by simp only [next, World.setClient, hsends]) rfl (List.append_nil _).symm
  refine ⟨⟨trivial, trivial⟩, ⟨hok.pay _ _ _ _ _, trivial⟩, hagree, honWay, fun _ => rfl,
    fun _ => rfl, rfl, fun u _ => ?_⟩
  show ite _ (some (((net.next a.world (.pay i now paymentId args)).clients i).seen,
    ((net.next a.world (.pay i now paymentId args)).clients i).receiving)) _ = _
  simp only [next, World.setClient, Function.update_self, doPay_seen, doPay_receiving]
  rfl

/-- **A text is written** at an action that changes nothing here. -/
theorem stepsAt_say {msgId : UInt64} {text : String} (h : Agree i s a) :
    Standing.StepsAt (net.clientCalls ok i) .main
      ⟨some (.act (.say i now msgId text)), held, (none, none), K⟩ s s
      (.act (.say i now msgId text))
      (fun a => packets (a.world.addr i)
        (sendToRelays (.classic (classicOf P (net.client i) now msgId text s.client))
          (net.client i).relayAddrs) ⊆ a.world.sent) () none a := by
  have hsame : classicOf P (net.client i) now msgId text (a.world.clients i) =
      classicOf P (net.client i) now msgId text s.client := by
    rw [classicOf, h.localAddr, classicOf]
  obtain ⟨hagree, honWay⟩ := h.called (net.next a.world (.say i now msgId text))
    (sendToRelays (.classic (classicOf P (net.client i) now msgId text s.client))
      (net.client i).relayAddrs) [] []
    (by
      simp only [next, World.setClient, Function.update_self]
      exact ⟨h.wallet, h.localAddr, (List.append_nil _).symm, (List.append_nil _).symm, rfl⟩)
    rfl (by simp only [next, World.setClient, sendMsg, hsame]) (List.append_nil _).symm
    (List.append_nil _).symm
  refine ⟨⟨trivial, trivial⟩, ⟨hok.say _ _ _ _ _, trivial⟩, hagree, honWay, fun _ => rfl,
    fun _ => rfl, rfl, fun u _ => ?_⟩
  show ite _ (some (((net.next a.world (.say i now msgId text)).clients i).seen,
    ((net.next a.world (.say i now msgId text)).clients i).receiving)) _ = _
  simp only [next, World.setClient, Function.update_self, sendMsg_seen, sendMsg_receiving]
  rfl

end Made

/-! ## The parts of the programs -/

section Parts
variable {t : Task} {st : CallStanding ι κ} {next : TaskProgram SharedState}

/-- `push_message` changes nothing that they agree on. -/
theorem makes_pushMessage {msg : ChatMessage} (h : next.Makes (net.clientCalls ok i) t st) :
    (pushMessageProgram msg next).Makes (net.clientCalls ok i) t st :=
  TaskProgram.makes_silent (fun _ => rfl) (fun _ _ => rfl)
    (fun _ _ hagree _ => Agree.congr hagree rfl rfl rfl rfl) fun _ _ =>
  TaskProgram.makes_silent (fun _ => rfl) (fun _ _ => rfl)
    (fun _ _ hagree _ => Agree.congr hagree rfl rfl rfl rfl) fun _ _ => h

/-- Nor does `save_wallet`, which writes the file. -/
theorem makes_saveWallet {J : WalletJson} (h : next.Makes (net.clientCalls ok i) t st) :
    (saveWalletProgram J next).Makes (net.clientCalls ok i) t st :=
  TaskProgram.makes_silent (fun _ => rfl) (fun _ _ => rfl) (fun _ _ hagree _ => hagree)
    fun _ _ =>
  TaskProgram.makes_silent (fun _ => rfl) (fun _ _ => rfl)
    (fun _ _ hagree _ => Agree.congr hagree rfl rfl rfl rfl) fun _ _ =>
  TaskProgram.makes_silent (fun _ => rfl) (fun _ _ => rfl)
    (fun _ _ hagree _ => Agree.congr hagree rfl rfl rfl rfl) fun _ _ => h

/-- Nor does `broadcast_wallet_update`. -/
theorem makes_walletUpdate (hheld : st.held = none)
    (h : next.Makes (net.clientCalls ok i) t st) :
    (walletUpdateProgram next).Makes (net.clientCalls ok i) t st :=
  ⟨hheld, fun _ _ =>
    TaskProgram.makes_silent (fun _ => rfl) (fun _ _ => rfl) (fun _ _ hagree _ => hagree)
      fun _ _ =>
    TaskProgram.makes_silent (fun _ => rfl) (fun _ _ => rfl)
      (fun _ _ hagree _ => Agree.congr hagree rfl rfl rfl rfl) fun _ _ =>
    TaskProgram.makes_unlock hheld h trivial⟩

/-- What a call sends is on its way already. -/
theorem makes_transmit {sends : Sends} (h : next.Makes (net.clientCalls ok i) t st)
    (hsends : ∀ a, st.Known a → packets (a.world.addr i) sends ⊆ a.world.sent) :
    (transmitProgram sends next).Makes (net.clientCalls ok i) t st := by
  refine TaskProgram.makes_silent (fun _ => rfl) (fun _ _ => rfl) ?_ fun _ _ => h
  intro s a hagree hk
  refine ⟨hagree.wallet, hagree.localAddr, hagree.debits, hagree.credits, ?_⟩
  rw [packets, List.map_append]
  exact List.append_subset.mpr ⟨hagree.sent, hsends a hk.1⟩

/-- The end of a program. -/
theorem makes_done {e : Option (TaskWorldEvent ι κ)} {o : Option (SeenIds × Bool)}
    {K : TaskWorld ι κ → Prop} :
    (TaskProgram.done).Makes (net.clientCalls ok i) t ⟨e, none, (o, o), K⟩ :=
  ⟨rfl, rfl⟩

end Parts

/-! ## The programs of the receive task -/

/-- The standing of the receive task as it takes a datagram. -/
def received (i : ι) (now : UInt64) (d : Datagram) (seen : SeenIds) : CallStanding ι κ :=
  ⟨some (.act (.clientRecv i now d)), none, (some (seen, true), some (seen, true)),
    Deliverable i d⟩

/-- The standing of the receive task with the wallet `g` under its lock, when it knows that the
payment is new: its own part is ahead. -/
def crediting (i : ι) (now : UInt64) (d : Datagram) (seen : SeenIds) (key : UInt64) (g : Wallet) :
    CallStanding ι κ :=
  ⟨some (.act (.clientRecv i now d)), some (g, ()),
    (some ((seen.isNew key).2, true), some (seen, true)), Deliverable i d⟩

section Receive
variable {now : UInt64} {d : Datagram} {seen : SeenIds} {key : UInt64}
  {next : TaskProgram SharedState}

/-- What the receive task sees of the cache. -/
theorem seen_of_sees {e : Option (TaskWorldEvent ι κ)} {held : Option (Wallet × Unit)}
    {o : SeenIds × Bool} {o' : Option (SeenIds × Bool)} {K : TaskWorld ι κ → Prop}
    (hs : Standing.Sees (net.clientCalls ok i) .receive ⟨e, held, (some o, o'), K⟩ s) :
    s.client.seen = o.1 ∧ s.client.receiving = o.2 :=
  Prod.mk.inj (Option.some.inj hs.2)

variable (next) in
/-- A key that is cached ends the call, and leaves everything as it is. -/
theorem makes_dedup_of_mem (hkey : key ∈ seen.set)
    (hs : (received i now d seen).Sees (net.clientCalls ok i) .receive s) :
    (∀ a : TaskWorld ι κ, Agree i s a → Agree i (s.dedup key) a) ∧
      (if (s.client.seen.isNew key).1 = false then TaskProgram.done else next).Makes
        (net.clientCalls ok i) .receive
        ((received i now d seen).acted (net.clientCalls ok i) .receive (s.dedup key)) := by
  obtain ⟨hseen, hreceiving⟩ := seen_of_sees hs
  refine ⟨fun a h => h.congr rfl rfl rfl rfl, ?_⟩
  rw [hseen, SeenIds.isNew_of_mem hkey, if_pos rfl]
  refine ⟨rfl, ?_⟩
  show some ((s.client.seen.isNew key).2, s.client.receiving) = some (seen, true)
  rw [hseen, SeenIds.isNew_of_mem hkey, hreceiving]

variable (hok : Undemanding ok mayReceive)
include hok

/-- A text or an acknowledgement is handled where the cache is asked. -/
theorem makes_dedup (hmay : mayReceive i d.msg seen)
    (hcall : key ∉ seen.set → ∀ c : ClientState, c.seen = seen →
      let r := handleMsg P (net.client i) now d.msg c
      r.state.app.wallet = c.app.wallet ∧ r.state.localAddr = c.localAddr ∧
        r.state.seen = (seen.isNew key).2 ∧ r.state.receiving = c.receiving ∧
        r.exit.payments d.msg = [] ∧ r.sends = [])
    (hnext : ∀ o K, next.Makes (net.clientCalls ok i) .receive ⟨none, none, (o, o), K⟩) :
    (dedupProgram key next).Makes (net.clientCalls ok i) .receive (received i now d seen) := by
  intro s hs
  refine ⟨⟨fun _ => rfl, fun u hu => (if_neg hu).trans (if_neg hu).symm⟩, ?_⟩
  by_cases hkey : key ∈ seen.set
  · obtain ⟨hagree, hdone⟩ := makes_dedup_of_mem next hkey hs
    exact Or.inl ⟨fun a h _ => hagree a h, hdone⟩
  · obtain ⟨hseen, hreceiving⟩ := seen_of_sees hs
    refine Or.inr ⟨_, _, (), some ((s.client.seen.isNew key).2, s.client.receiving), rfl,
      stable_onWay hok [], ?_, ?_⟩
    · intro a h hk
      refine stepsAt_recv hok hmay ?_ h hk
      intro c hc hwallet hlocal hrun
      obtain ⟨hw, hl, hsn, hr, hp, hsends⟩ := hcall hkey c hc
      rw [hp]
      refine ⟨⟨hw.trans hwallet, hl.trans hlocal, (List.append_nil _).symm,
        (List.append_nil _).symm, rfl⟩, hsends, ?_⟩
      rw [hsn, hr, hrun]
      show _ = ((s.client.seen.isNew key).2, s.client.receiving)
      rw [hseen, hreceiving]
    · show (if _ then _ else _ : TaskProgram SharedState).Makes _ _ _
      have hnew : (s.client.seen.isNew key).1 ≠ false := by
        rw [hseen]
        simp [hkey]
      rw [if_neg hnew]
      exact hnext _ _

theorem makes_handleClassic {src dst : SocketAddr} {m : Classic}
    (hmay : mayReceive i (.classic m) seen) :
    (handleClassicProgram P m).Makes (net.clientCalls ok i) .receive
      (received i now ⟨src, dst, .classic m⟩ seen) := by
  refine makes_dedup hok hmay ?_ ?_
  · rintro hkey c rfl
    show _ ∧ _
    rw [handleMsg]
    cases hv : verify P.ed m.publicKey m.srcId m.txt m.time m.msgId m.signature with
    | false =>
      rw [handleClassic_invalid hkey hv]
      exact ⟨rfl, rfl, rfl, rfl, rfl, rfl⟩
    | true =>
      rw [handleClassic_displayed hkey hv]
      exact ⟨rfl, rfl, rfl, rfl, rfl, rfl⟩
  · intro o K
    split
    · exact makes_done
    · exact makes_pushMessage makes_done

theorem makes_handlePaymentAck {src dst : SocketAddr} {k : PaymentAck}
    (hmay : mayReceive i (.paymentAck k) seen) :
    (handlePaymentAckProgram P (net.client i) now k).Makes (net.clientCalls ok i) .receive
      (received i now ⟨src, dst, .paymentAck k⟩ seen) := by
  rw [handlePaymentAckProgram]
  split
  · exact makes_done
  · rename_i hme
    have hme : (net.client i).IsMe k.toId :=
      Classical.not_not.mp (fun h => hme (((net.client i).not_isMe_iff).mpr h))
    refine makes_dedup hok hmay ?_ fun o K => makes_pushMessage makes_done
    rintro hkey c rfl
    show _ ∧ _
    rw [handleMsg, handlePaymentAck_acknowledged hme hkey]
    exact ⟨rfl, rfl, rfl, rfl, rfl, rfl⟩

section Payment
variable {src dst : SocketAddr} {p : Payment} {g : Wallet}

/-- The call is made where the task panics. -/
theorem makes_panic (hmay : mayReceive i (.payment p) seen) (hme : (net.client i).IsMe p.dstId)
    (hkey : paymentKey p.paymentId ∉ seen.set) (hc : credit P.build g p.amount = none) :
    (TaskProgram.act
      (fun s => { s with client := { s.client with receiving := false } })
      fun _ => .unlock .done).Makes (net.clientCalls ok i) .receive
        (crediting i now ⟨src, dst, .payment p⟩ seen (paymentKey p.paymentId) g) := by
  intro s hs
  have hg : s.client.app.wallet = g := hs.1 (g, ()) rfl
  obtain ⟨hseen, -⟩ := seen_of_sees hs
  refine ⟨⟨fun _ => rfl, fun u hu => (if_neg hu).trans (if_neg hu).symm⟩,
    Or.inr ⟨_, _, (), some (s.client.seen, false), rfl, stable_onWay hok [], ?_, (_, ()), rfl,
      trivial, makes_done⟩⟩
  intro a h hk
  refine stepsAt_recv hok hmay ?_ h hk
  rintro c rfl hwallet hlocal -
  have hcall : handleMsg P (net.client i) now (.payment p) c = _ :=
    handlePayment_panicked hme hkey (by rw [hwallet, hg]; exact hc)
  rw [hcall]
  refine ⟨⟨hwallet, hlocal, (List.append_nil _).symm, (List.append_nil _).symm, rfl⟩, rfl, ?_⟩
  exact Prod.ext hseen.symm rfl

/-- The call is made where the new wallet is stored, and what follows adds nothing to it. -/
theorem makes_storeCredit {w : Wallet} (hmay : mayReceive i (.payment p) seen)
    (hme : (net.client i).IsMe p.dstId) (hkey : paymentKey p.paymentId ∉ seen.set)
    (hc : credit P.build g p.amount = some w) :
    (storeWalletProgram w (.credit p.amount) <|
      saveWalletProgram P.json <|
      .unlock <|
      pushMessageProgram (p.entry now) <|
      walletUpdateProgram <|
      transmitProgram (sendToRelays (.paymentAck (p.ack (net.client i).peerId))
        (net.client i).relayAddrs) .done).Makes (net.clientCalls ok i) .receive
        (crediting i now ⟨src, dst, .payment p⟩ seen (paymentKey p.paymentId) g) := by
  intro s hs
  have hg : s.client.app.wallet = g := hs.1 (g, ()) rfl
  obtain ⟨hseen, hreceiving⟩ := seen_of_sees hs
  refine ⟨⟨fun hnone => absurd hnone (Option.some_ne_none _),
    fun u hu => (if_neg hu).trans (if_neg hu).symm⟩,
    Or.inr ⟨_, _, (), some (s.client.seen, s.client.receiving), rfl, stable_onWay hok (sendToRelays
      (.paymentAck (p.ack (net.client i).peerId)) (net.client i).relayAddrs), ?_, ?_⟩⟩
  · intro a h hk
    refine stepsAt_recv hok hmay ?_ h hk
    rintro c rfl hwallet hlocal hrun
    have hcall : handleMsg P (net.client i) now (.payment p) c = _ :=
      handlePayment_credited hme hkey (by rw [hwallet, hg]; exact hc)
    rw [hcall]
    refine ⟨⟨?_, hlocal, ?_, ?_, rfl⟩, rfl, Prod.ext hseen.symm (hrun.trans hreceiving.symm)⟩
    · simp [SharedState.mapApp]
    · simp [SharedState.debits, WalletOp.debited]
    · simp only [SharedState.credits, List.filterMap_append]
      rfl
  · refine makes_saveWallet ⟨_, rfl, trivial, ?_⟩
    refine makes_pushMessage (makes_walletUpdate rfl (makes_transmit makes_done ?_))
    intro a h
    exact h

/-- **A payment is handled where the wallet is changed**, or the task panics there. -/
theorem makes_handlePayment (hmay : mayReceive i (.payment p) seen) :
    (handlePaymentProgram P (net.client i) now p).Makes (net.clientCalls ok i) .receive
      (received i now ⟨src, dst, .payment p⟩ seen) := by
  rw [handlePaymentProgram]
  split
  · exact makes_done
  rename_i hme
  have hme : (net.client i).IsMe p.dstId :=
    Classical.not_not.mp (fun h => hme (((net.client i).not_isMe_iff).mpr h))
  intro s hs
  refine ⟨⟨fun _ => rfl, fun u hu => (if_neg hu).trans (if_neg hu).symm⟩, Or.inl ?_⟩
  by_cases hkey : paymentKey p.paymentId ∈ seen.set
  · obtain ⟨hagree, hdone⟩ := makes_dedup_of_mem _ hkey hs
    exact ⟨fun a h _ => hagree a h, hdone⟩
  refine ⟨fun a h _ => h.congr rfl rfl rfl rfl, ?_⟩
  obtain ⟨hseen, hreceiving⟩ := seen_of_sees hs
  show (if _ then _ else _ : TaskProgram SharedState).Makes _ _ _
  rw [if_neg (by rw [hseen]; simp [hkey])]
  refine ⟨rfl, fun g _ => ?_⟩
  have hst : { (received i now ⟨src, dst, .payment p⟩ seen).acted (net.clientCalls ok i) .receive
      (s.dedup (paymentKey p.paymentId)) with held := some g } =
      crediting i now ⟨src, dst, .payment p⟩ seen (paymentKey p.paymentId) g.1 := by
    simp only [received, crediting, Standing.acted, clientCalls, SharedState.dedup, if_true,
      hseen, hreceiving]
  refine hst ▸ ?_
  refine TaskProgram.makes_silent (fun _ => rfl) (fun _ _ => rfl) (fun _ _ hagree _ => hagree)
    fun t ht => ?_
  have hg : t.client.app.wallet = g.1 := ht.1 (g.1, ()) rfl
  rw [hg]
  cases hc : credit P.build g.1 p.amount with
  | none => exact makes_panic hok hmay hme hkey hc
  | some w => exact makes_storeCredit hok hmay hme hkey hc

end Payment

/-- **`handle_msg`.** -/
theorem makes_handleMsg (hmay : mayReceive i d.msg seen) :
    (handleMsgProgram P (net.client i) now d.msg).Makes (net.clientCalls ok i) .receive
      (received i now d seen) := by
  obtain ⟨src, dst, msg⟩ := d
  cases msg with
  | classic m => exact makes_handleClassic hok hmay
  | payment p => exact makes_handlePayment hok hmay
  | paymentAck k => exact makes_handlePaymentAck hok hmay
  | register _ | connect _ | askForAddr _ | peerInfo _ _ => exact makes_done

end Receive

/-! ## The programs of the main task -/

section Main
variable (hok : Undemanding ok mayReceive) {now : UInt64}
include hok

/-- The payment is made where the new wallet is stored. -/
theorem makes_storeDebit {paymentId : UInt64} {args dst : String} {amount : UInt64} {g : Wallet}
    {K : TaskWorld ι κ → Prop}
    (hargs : ∀ c : ClientState, doPay P (net.client i) now paymentId args c =
      pay P (net.client i) now paymentId dst amount c) (hd : (debit g amount).1 = true) :
    (storeWalletProgram (debit g amount).2 (.debit amount) <|
      saveWalletProgram P.json <|
      .unlock <|
      transmitProgram (sendToRelays (.payment ⟨(net.client i).peerId, dst, amount, paymentId⟩)
        (net.client i).relayAddrs) <|
      pushMessageProgram (paymentSentEntry P (net.client i) now dst amount) <|
      walletUpdateProgram .done).Makes (net.clientCalls ok i) .main
        ⟨some (.act (.pay i now paymentId args)), some (g, ()), (none, none), K⟩ := by
  intro s hs
  have hg : s.client.app.wallet = g := hs.1 (g, ()) rfl
  refine ⟨⟨fun hnone => absurd hnone (Option.some_ne_none _), fun _ _ => rfl⟩,
    Or.inr ⟨_, _, (), none, rfl, stable_onWay hok (sendToRelays
      (.payment ⟨(net.client i).peerId, dst, amount, paymentId⟩) (net.client i).relayAddrs),
      ?_, ?_⟩⟩
  · intro a h _
    refine stepsAt_pay hok ?_ h
    intro c hwallet hlocal
    have hcd : (debit c.app.wallet amount).1 = true := by rw [hwallet, hg]; exact hd
    have hpay : pay P (net.client i) now paymentId dst amount c = _ :=
      if_neg (Bool.eq_false_iff.not_left.mpr hcd)
    rw [hargs c, hpay]
    refine ⟨⟨?_, hlocal, ?_, ?_, rfl⟩, rfl⟩
    · rw [hwallet, hg]
      rfl
    · simp only [SharedState.debits, List.filterMap_append]
      rfl
    · simp [SharedState.credits, WalletOp.credited]
  · refine makes_saveWallet ⟨_, rfl, trivial, ?_⟩
    refine makes_transmit (makes_pushMessage (makes_walletUpdate rfl makes_done)) ?_
    intro a h
    exact h

/-- **`do_pay`.** -/
theorem makes_doPay (paymentId : UInt64) (args : String) :
    (doPayProgram P (net.client i) now paymentId args).Makes (net.clientCalls ok i) .main
      ⟨some (.act (.pay i now paymentId args)), none, (none, none), fun _ => True⟩ := by
  unfold doPayProgram
  cases hsplit : splitSpace args.toList with
  | none => exact makes_done
  | some parts =>
    obtain ⟨dst, digits⟩ := parts
    cases hparse : parseU64 (trim digits) with
    | none => simpa only [hparse] using makes_done
    | some n =>
      simp only [hparse]
      split
      · rename_i hn
        refine ⟨rfl, fun g _ => ?_⟩
        refine TaskProgram.makes_silent (fun _ => rfl) (fun _ _ => rfl)
          (fun _ _ hagree _ => hagree) fun t ht => ?_
        have hg : t.client.app.wallet = g.1 := ht.1 g rfl
        rw [hg]
        cases hd : (debit g.1 n).1 with
        | false => exact ⟨_, rfl, trivial, makes_done⟩
        | true => exact makes_storeDebit hok (fun c => by simp [doPay, hsplit, hparse, hn]) hd
      · exact makes_done

/-- **`send_msg`** says its text where it begins. -/
theorem makes_sendMsg (msgId : UInt64) (text : String) :
    (sendMsgProgram P (net.client i) now msgId text).Makes (net.clientCalls ok i) .main
      ⟨some (.act (.say i now msgId text)), none, (none, none), fun _ => True⟩ := by
  intro s _
  refine ⟨⟨fun _ => rfl, fun _ _ => rfl⟩, Or.inr ⟨_, _, (), none, rfl, stable_onWay hok
    (sendToRelays (.classic (classicOf P (net.client i) now msgId text s.client))
      (net.client i).relayAddrs), fun a h _ => stepsAt_say hok h, ?_⟩⟩
  refine makes_transmit (makes_pushMessage makes_done) ?_
  intro a h
  exact h

omit hok in
/-- Reading the balance is no call. -/
theorem makes_readBalance {t : Task} {o : Option (SeenIds × Bool)} :
    readBalanceProgram.Makes (net.clientCalls ok i) t ⟨none, none, (o, o), fun _ => True⟩ :=
  ⟨rfl, fun _ _ => TaskProgram.makes_silent (fun _ => rfl) (fun _ _ => rfl)
    (fun _ _ hagree _ => hagree) fun _ _ => ⟨_, rfl, trivial, makes_done⟩⟩

end Main

end Calls

end Network
end Zeta
