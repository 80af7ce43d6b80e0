import Zeta.AtomicCalls
import Zeta.SendErrors
import Zeta.SharedWallet

/-!
# What is sent is in the file

`do_pay` and `handle_msg` change the wallet, save it, and only then send the payment or its
acknowledgement.  Here this order is kept through every interleaving of a client's tasks.

Seen this way a client is a durable wallet: a list of changes, each of which is committed at
the moment at which `save_wallet` has written the file.  The tasks are a run of it
(`durable_simulates`), and each change is that of a call that was started.  So whenever a
client is killed, what it finds when it is started again are the changes committed by then,
unless it was just being saved; and everything that it had sent about its money is among them,
in the order in which it was sent (`sent_is_durable`).
-/

namespace Zeta

/-- A change of the wallet, and the payment it is for. -/
inductive Commit where
  | paid (p : Payment)
  | credited (p : Payment)
  deriving DecidableEq

namespace Commit

/-- The change. -/
def op : Commit → WalletOp
  | .paid p => .debit p.amount
  | .credited p => .credit p.amount

/-- The task that makes it. -/
def task : Commit → Task
  | .paid _ => .main
  | .credited _ => .receive

/-- The wallet allows the change. -/
def Possible (b : Build) (w : Wallet) : Commit → Prop
  | .paid p => (debit w p.amount).1 = true
  | .credited p => (credit b w p.amount).isSome = true

/-- What is sent for it. -/
def sends {E : Ed25519} (ctx : ClientContext E) : Commit → Sends
  | .paid p => sendToRelays (.payment p) ctx.relayAddrs
  | .credited p => sendToRelays (.paymentAck (p.ack ctx.peerId)) ctx.relayAddrs

/-- The program is the call that makes the change: the payment was received, or `do_pay` read
it from its arguments. -/
def IsCall (P : Platform) (ctx : ClientContext P.ed) (q : TaskProgram SharedState) :
    Commit → Prop
  | .paid p => p.srcId = ctx.peerId ∧ ∃ now args, ValidArgs args p.dstId p.amount ∧
      q = doPayProgram P ctx now p.paymentId args
  | .credited p => ∃ now, q = handleMsgProgram P ctx now (.payment p)

/-- One of the actions starts the call that makes the change. -/
def AskedIn (P : Platform) (ctx : ClientContext P.ed) (as : List (TaskAction Task SharedState))
    (c : Commit) : Prop :=
  ∃ q, .start c.task q ∈ as ∧ c.IsCall P ctx q

end Commit

/-- The messages that a task sends about the money: payments, or acknowledgements. -/
def Task.announces : Task → Message → Bool
  | .main, .payment _ => true
  | .receive, .paymentAck _ => true
  | _, _ => false

/-- What task `t` has announced, of what was sent. -/
def announced (t : Task) (sends : Sends) : Sends := sends.filter fun x => t.announces x.2

/-- What is to be sent for these changes, one after the other. -/
def announcements {E : Ed25519} (ctx : ClientContext E) (cs : List Commit) : Sends :=
  cs.flatMap (Commit.sends ctx)

section Statement
variable (P : Platform) (ctx : ClientContext P.ed) (w : Wallet) (Asked : Commit → Prop)

/-- The wallet after these changes. -/
def committed (cs : List Commit) : Wallet := replay P.build w (cs.map Commit.op)

/-- **A durable wallet**, which starts as `w`. -/
def durableWallet : EventSystem (List Commit) Commit where
  Enabled cs c := c.Possible P.build (committed P w cs)
  next cs c := cs ++ [c]

/-- The changes made so far, in memory. -/
def Made (s : SharedState) (cs : List Commit) : Prop :=
  s.client.app.wallet = committed P w cs ∧ s.log = cs.map Commit.op

/-- **The changes `cs` are durable, and no others**: the file holds what they amount to, if it
has not just been truncated; at most one more has been made in memory, which was asked for; and
each task has announced a beginning of its own. -/
structure Durable (s : SharedState) (cs : List Commit) : Prop where
  file : s.client.walletFile = some [] ∨
    readWallet P.json s.client.walletFile = some (committed P w cs)
  memory : Made P w s cs ∨
    ∃ c, Asked c ∧ c.Possible P.build (committed P w cs) ∧ Made P w s (cs ++ [c])
  sent : ∀ t, announced t s.sent <+: announced t (announcements ctx cs)

/-- The client as the commits of its tasks. -/
def commits : CallSpec Task SharedState (Wallet × WalletFile × List WalletOp) (List Commit) Sends
    (List Commit) Commit where
  system := durableWallet P w
  allowed _ _ := True
  view s := (s.client.app.wallet, s.client.walletFile, s.log)
  view' cs := cs
  Linked g cs := g.1 = committed P w cs ∧ readWallet P.json g.2.1 = some g.1 ∧
    g.2.2 = cs.map Commit.op
  own t s := announced t s.sent
  own' t cs := announced t (announcements ctx cs)
  Rel := Durable P ctx w Asked

end Statement

section Announced
variable {E : Ed25519} {ctx : ClientContext E} {t : Task}

theorem announced_append (l l' : Sends) : announced t (l ++ l') = announced t l ++ announced t l' :=
  List.filter_append _ _

theorem announcements_snoc (cs : List Commit) (c : Commit) :
    announcements ctx (cs ++ [c]) = announcements ctx cs ++ c.sends ctx := by
  simp [announcements]

/-- All that is sent at once is announced, or nothing. -/
theorem announced_sendToRelays (msg : Message) (relays : List SocketAddr) :
    announced t (sendToRelays msg relays) =
      if t.announces msg = true then sendToRelays msg relays else [] := by
  unfold announced sendToRelays
  split
  · rename_i h
    exact List.filter_eq_self.mpr (by simp [h])
  · rename_i h
    exact List.filter_eq_nil_iff.mpr (by simp [h])

/-- A change is announced by the task that makes it, and by no other. -/
theorem announced_sends (c : Commit) :
    announced t (c.sends ctx) = if t = c.task then c.sends ctx else [] := by
  cases c <;> cases t <;> simp [Commit.sends, Commit.task, announced_sendToRelays, Task.announces]

end Announced

/-! ## The parts of the programs -/

section Parts
variable {P : Platform} {ctx : ClientContext P.ed} {w : Wallet} {Asked : Commit → Prop} {t : Task}
  {st : Standing (Wallet × WalletFile × List WalletOp) (List Commit) Sends (List Commit) Commit}
  {s s' : SharedState} {cs : List Commit} {next : TaskProgram SharedState}

/-- Nothing has changed that is durable. -/
theorem Durable.congr (h : Durable P ctx w Asked s cs)
    (hwallet : s'.client.app.wallet = s.client.app.wallet)
    (hfile : s'.client.walletFile = s.client.walletFile) (hlog : s'.log = s.log)
    (hsent : ∀ t, announced t s'.sent = announced t s.sent) : Durable P ctx w Asked s' cs where
  file := by rw [hfile]; exact h.file
  memory := by simp only [Made, hwallet, hlog]; exact h.memory
  sent t := by rw [hsent]; exact h.sent t

theorem Durable.log_prefix (h : Durable P ctx w Asked s cs) : cs.map Commit.op <+: s.log := by
  rcases h.memory with ⟨-, hlog⟩ | ⟨c, -, -, -, hlog⟩
  · rw [hlog]
  · rw [hlog, List.map_append]
    exact List.prefix_append _ _

theorem Durable.log_length (h : Durable P ctx w Asked s cs) : s.log.length ≤ cs.length + 1 := by
  rcases h.memory with ⟨-, hlog⟩ | ⟨c, -, -, -, hlog⟩
  · rw [hlog, List.length_map]
    exact Nat.le_succ _
  · rw [hlog, List.length_map, List.length_append, List.length_singleton]

/-- An action on the feed or the cache. -/
theorem commits_silent {f : SharedState → SharedState} {p : SharedState → TaskProgram SharedState}
    (hwallet : ∀ s, (f s).client.app.wallet = s.client.app.wallet)
    (hfile : ∀ s, (f s).client.walletFile = s.client.walletFile) (hlog : ∀ s, (f s).log = s.log)
    (hsent : ∀ s, (f s).sent = s.sent)
    (hp : ∀ s, st.Sees (commits P ctx w Asked) t s → (p s).Makes (commits P ctx w Asked) t st) :
    (TaskProgram.act f p).Makes (commits P ctx w Asked) t st := by
  refine TaskProgram.makes_silent ?_ ?_ ?_ hp
  · intro s
    exact Prod.ext (hwallet s) (Prod.ext (hfile s) (hlog s))
  · intro u s
    exact congrArg (announced u) (hsent s)
  · intro s cs h _
    exact h.congr (hwallet s) (hfile s) (hlog s) fun u => congrArg (announced u) (hsent s)

theorem commits_pushMessage {msg : ChatMessage} (h : next.Makes (commits P ctx w Asked) t st) :
    (pushMessageProgram msg next).Makes (commits P ctx w Asked) t st :=
  commits_silent (fun _ => rfl) (fun _ => rfl) (fun _ => rfl) (fun _ => rfl) fun _ _ =>
  commits_silent (fun _ => rfl) (fun _ => rfl) (fun _ => rfl) (fun _ => rfl) fun _ _ => h

theorem commits_walletUpdate (hheld : st.held = none)
    (h : next.Makes (commits P ctx w Asked) t st) :
    (walletUpdateProgram next).Makes (commits P ctx w Asked) t st :=
  ⟨hheld, fun _ hg =>
    commits_silent (fun _ => rfl) (fun _ => rfl) (fun _ => rfl) (fun _ => rfl) fun _ _ =>
    commits_silent (fun _ => rfl) (fun _ => rfl) (fun _ => rfl) (fun _ => rfl) fun _ _ =>
    TaskProgram.makes_unlock hheld h hg⟩

theorem commits_dedup {key : UInt64} (hdone : (TaskProgram.done).Makes (commits P ctx w Asked) t st)
    (h : next.Makes (commits P ctx w Asked) t st) :
    (dedupProgram key next).Makes (commits P ctx w Asked) t st := by
  refine commits_silent (fun _ => rfl) (fun _ => rfl) (fun _ => rfl) (fun _ => rfl) fun s _ => ?_
  split
  · exact hdone
  · exact h

/-- What is to be announced for a committed change is sent. -/
theorem commits_transmit {sends : Sends} {e : Option Commit} {o o' : Sends}
    {K : List Commit → Prop} (hothers : ∀ u, u ≠ t → announced u sends = [])
    (hpre : o ++ announced t sends <+: o')
    (h : next.Makes (commits P ctx w Asked) t ⟨e, none, (o ++ announced t sends, o'), K⟩) :
    (transmitProgram sends next).Makes (commits P ctx w Asked) t ⟨e, none, (o, o'), K⟩ := by
  rintro s ⟨-, hs⟩
  have hs : announced t s.sent = o := hs
  refine ⟨⟨fun _ => rfl, ?_⟩, Or.inl ⟨?_, ?_⟩⟩
  · intro u hu
    show announced u (s.sent ++ sends) = announced u s.sent
    rw [announced_append, hothers u hu, List.append_nil]
  · rintro cs ⟨hfile, hmemory, hsent⟩ ⟨-, -, hcs⟩
    have hcs : announced t (announcements ctx cs) = o' := hcs
    refine ⟨hfile, hmemory, fun u => ?_⟩
    show announced u (s.sent ++ sends) <+: _
    rw [announced_append]
    by_cases hu : u = t
    · subst hu
      rw [hs, hcs]
      exact hpre
    · rw [hothers u hu, List.append_nil]
      exact hsent u
  · have howned : announced t (s.sent ++ sends) = o ++ announced t sends := by
      rw [announced_append, hs]
    show next.Makes _ _ ⟨e, none, (announced t (s.sent ++ sends), o'), K⟩
    rw [howned]
    exact h

theorem committed_snoc (cs : List Commit) (c : Commit) :
    committed P w (cs ++ [c]) = c.op.apply P.build (committed P w cs) := by
  rw [committed, List.map_append, List.map_singleton, replay_snoc, committed]

section Save
variable {c : Commit} {v : Wallet} {log : List WalletOp} {o : Sends}

/-- Writing the file is the step. -/
theorem stepsAt_write (hv : v = committed P w (cs ++ [c])) (hlog : log = (cs ++ [c]).map Commit.op)
    (hpossible : c.Possible P.build (committed P w cs)) (hsv : s.client.app.wallet = v)
    (hs : s.log = log) {ds : List Commit} (h : Durable P ctx w Asked s ds)
    (hk : Standing.Knows (commits P ctx w Asked) c.task
      ⟨some c, some ((v, some [], log), cs), (o, o), fun _ => True⟩ ds) :
    Standing.StepsAt (commits P ctx w Asked) c.task
      ⟨some c, some ((v, some [], log), cs), (o, o), fun _ => True⟩ s
      (s.setFile (asBytes (P.json.toStringPretty v))) c (fun _ => True) (cs ++ [c])
      (o ++ c.sends ctx) ds := by
  obtain ⟨-, hds, hown⟩ := hk
  obtain rfl : ds = cs := hds ((v, some [], log), cs) rfl
  have hown : announced c.task (announcements ctx ds) = o := hown
  have hsnoc : ∀ t, announced t (announcements ctx (ds ++ [c])) =
      announced t (announcements ctx ds) ++ if t = c.task then c.sends ctx else [] := by
    intro t
    rw [announcements_snoc, announced_append, announced_sends]
  refine ⟨hpossible, trivial, ⟨Or.inr ?_, Or.inl ⟨?_, ?_⟩, ?_⟩, trivial, fun _ => rfl,
    fun hnone => absurd hnone (Option.some_ne_none _), ?_, ?_⟩
  · rw [hv]
    exact readWallet_saveWallet P.json _
  · exact hsv.trans hv
  · exact hs.trans hlog
  · intro t
    show announced t s.sent <+: announced t (announcements ctx (ds ++ [c]))
    rw [hsnoc]
    exact (h.sent t).trans (List.prefix_append _ _)
  · show announced c.task (announcements ctx (ds ++ [c])) = _
    rw [hsnoc, hown, if_pos rfl]
  · intro u hu
    show announced u (announcements ctx (ds ++ [c])) = announced u (announcements ctx ds)
    rw [hsnoc, if_neg hu, List.append_nil]

/-- **The change is committed when the file has been written.** -/
theorem commits_save {file : WalletFile} (hv : v = committed P w (cs ++ [c]))
    (hlog : log = (cs ++ [c]).map Commit.op) (hpossible : c.Possible P.build (committed P w cs))
    (hnext : next.Makes (commits P ctx w Asked) c.task
      ⟨none, none, (o, o ++ c.sends ctx), fun _ => True⟩) :
    (saveWalletProgram P.json (.unlock next)).Makes (commits P ctx w Asked) c.task
      ⟨some c, some ((v, file, log), cs), (o, o), fun _ => True⟩ := by
  refine commits_silent (fun _ => rfl) (fun _ => rfl) (fun _ => rfl) (fun _ => rfl)
    fun x hx => ?_
  obtain ⟨rfl, -⟩ := Prod.mk.inj (hx.1 ((v, file, log), cs) rfl)
  -- The file is truncated.
  rintro y ⟨hy, rfl⟩
  obtain ⟨hyv, hy⟩ := Prod.mk.inj (hy ((x.client.app.wallet, file, log), cs) rfl)
  obtain ⟨-, hylog⟩ := Prod.mk.inj hy
  refine ⟨⟨fun hnone => absurd hnone (Option.some_ne_none _), fun _ _ => rfl⟩,
    Or.inl ⟨fun ds h _ => ⟨Or.inl rfl, h.memory, h.sent⟩, ?_⟩⟩
  have hst : Standing.acted (commits P ctx w Asked) c.task
      ⟨some c, some ((x.client.app.wallet, file, log), cs),
        ((commits P ctx w Asked).own c.task y, (commits P ctx w Asked).own c.task y), fun _ => True⟩
        (y.setFile []) =
      ⟨some c, some ((x.client.app.wallet, some [], log), cs),
        ((commits P ctx w Asked).own c.task y, (commits P ctx w Asked).own c.task y),
        fun _ => True⟩ := by
    rw [← hyv, ← hylog]
    rfl
  rw [hst]
  -- It is written.
  rintro z ⟨hz, hzo⟩
  obtain ⟨hzv, hz⟩ := Prod.mk.inj (hz ((x.client.app.wallet, some [], log), cs) rfl)
  obtain ⟨-, hzlog⟩ := Prod.mk.inj hz
  refine ⟨⟨fun hnone => absurd hnone (Option.some_ne_none _), fun _ _ => rfl⟩,
    Or.inr ⟨c, fun _ => True, cs ++ [c], _, rfl, fun _ _ _ _ _ => trivial,
      fun ds h hk => stepsAt_write hv hlog hpossible hzv hzlog h hk, ?_⟩⟩
  refine ⟨_, rfl, ⟨hzv.trans hv, ?_, hzlog.trans hlog⟩, ?_⟩
  · show readWallet P.json (saveWallet P.json x.client.app.wallet) = some z.client.app.wallet
    rw [readWallet_saveWallet]
    exact congrArg some hzv.symm
  · show next.Makes _ _ ⟨none, none, ((commits P ctx w Asked).own c.task z, _), _⟩
    rw [hzo]
    exact hnext

/-- **The change is made and saved** in one section under the lock. -/
theorem commits_change {g : Wallet × WalletFile × List WalletOp} (hasked : Asked c)
    (hlinked : (commits P ctx w Asked).Linked g cs) (hpossible : c.Possible P.build g.1)
    (hv : c.op.apply P.build g.1 = v)
    (hnext : next.Makes (commits P ctx w Asked) c.task
      ⟨none, none, (o, o ++ c.sends ctx), fun _ => True⟩) :
    (storeWalletProgram v c.op (saveWalletProgram P.json (.unlock next))).Makes
      (commits P ctx w Asked) c.task ⟨some c, some (g, cs), (o, o), fun _ => True⟩ := by
  obtain ⟨hwallet, -, hlog⟩ := hlinked
  rintro s ⟨hs, rfl⟩
  obtain ⟨-, hs⟩ := Prod.mk.inj (hs (g, cs) rfl)
  obtain ⟨-, hslog⟩ := Prod.mk.inj hs
  refine ⟨⟨fun hnone => absurd hnone (Option.some_ne_none _), fun _ _ => rfl⟩, Or.inl ⟨?_, ?_⟩⟩
  · rintro ds h ⟨-, hds, -⟩
    obtain rfl : ds = cs := hds (g, cs) rfl
    refine ⟨h.file, Or.inr ⟨c, hasked, hwallet ▸ hpossible, ?_, ?_⟩, h.sent⟩
    · rw [committed_snoc, ← hwallet]
      exact hv.symm
    · show s.log ++ [c.op] = _
      rw [hslog, hlog, List.map_append, List.map_singleton]
  · refine commits_save ?_ ?_ (hwallet ▸ hpossible) hnext
    · rw [committed_snoc, ← hwallet]
      exact hv.symm
    · show s.log ++ [c.op] = _
      rw [hslog, hlog, List.map_append, List.map_singleton]

end Save

/-- What was committed is announced. -/
theorem commits_announce {c : Commit} {o : Sends} {K : List Commit → Prop}
    (hnext : ∀ o, next.Makes (commits P ctx w Asked) c.task ⟨none, none, (o, o), K⟩) :
    (transmitProgram (c.sends ctx) next).Makes (commits P ctx w Asked) c.task
      ⟨none, none, (o, o ++ c.sends ctx), K⟩ := by
  have hself : announced c.task (c.sends ctx) = c.sends ctx := by rw [announced_sends, if_pos rfl]
  refine commits_transmit (fun u hu => by rw [announced_sends, if_neg hu]) ?_ ?_
  · rw [hself]
  · rw [hself]
    exact hnext _

/-- The end of a program. -/
theorem commits_done {e : Option Commit} {o : Sends} {K : List Commit → Prop} :
    (TaskProgram.done).Makes (commits P ctx w Asked) t ⟨e, none, (o, o), K⟩ :=
  ⟨rfl, rfl⟩

end Parts

/-! ## The programs -/

section Programs
variable {P : Platform} {ctx : ClientContext P.ed} {w : Wallet} {Asked : Commit → Prop}
  {now : UInt64} {o : Sends}

theorem commits_handlePayment {p : Payment} (hasked : Asked (.credited p)) :
    (handlePaymentProgram P ctx now p).Makes (commits P ctx w Asked) .receive
      ⟨some (.credited p), none, (o, o), fun _ => True⟩ := by
  rw [handlePaymentProgram]
  split
  · exact commits_done
  refine commits_dedup commits_done ⟨rfl, ?_⟩
  rintro ⟨g, cs⟩ hlinked
  refine commits_silent (fun _ => rfl) (fun _ => rfl) (fun _ => rfl) (fun _ => rfl)
    fun s hs => ?_
  have hg : s.client.app.wallet = g.1 := congrArg Prod.fst (hs.1 (g, cs) rfl)
  rw [hg]
  cases hc : credit P.build g.1 p.amount with
  | none =>
    exact commits_silent (fun _ => rfl) (fun _ => rfl) (fun _ => rfl) (fun _ => rfl)
      fun _ _ => ⟨(g, cs), rfl, hlinked, commits_done⟩
  | some v =>
    have hv : (Commit.credited p).op.apply P.build g.1 = v := by
      show (credit P.build g.1 p.amount).getD g.1 = v
      rw [hc]
      rfl
    have hpossible : (Commit.credited p).Possible P.build g.1 := by
      show (credit P.build g.1 p.amount).isSome = true
      rw [hc]
      rfl
    refine commits_change (c := .credited p) hasked hlinked hpossible hv ?_
    refine commits_pushMessage (commits_walletUpdate rfl ?_)
    exact commits_announce (c := .credited p) fun _ => commits_done

theorem commits_pay {paymentId : UInt64} {dst : String} {amount : UInt64}
    (hasked : Asked (.paid ⟨ctx.peerId, dst, amount, paymentId⟩)) :
    (payProgram P ctx now paymentId dst amount).Makes (commits P ctx w Asked) .main
      ⟨some (.paid ⟨ctx.peerId, dst, amount, paymentId⟩), none, (o, o), fun _ => True⟩ := by
  refine ⟨rfl, ?_⟩
  rintro ⟨g, cs⟩ hlinked
  refine commits_silent (fun _ => rfl) (fun _ => rfl) (fun _ => rfl) (fun _ => rfl)
    fun s hs => ?_
  have hg : s.client.app.wallet = g.1 := congrArg Prod.fst (hs.1 (g, cs) rfl)
  rw [hg]
  cases hd : (debit g.1 amount).1 with
  | false => exact ⟨(g, cs), rfl, hlinked, commits_done⟩
  | true =>
    refine commits_change (c := .paid ⟨ctx.peerId, dst, amount, paymentId⟩) hasked hlinked hd
      rfl ?_
    refine commits_announce (c := .paid ⟨ctx.peerId, dst, amount, paymentId⟩) fun _ => ?_
    exact commits_pushMessage (commits_walletUpdate rfl commits_done)

/-- A payment that `do_pay` reads from its arguments is committed by it, and nothing else. -/
theorem commits_doPay {paymentId : UInt64} {args : String}
    (hasked : ∀ c : Commit, c.task = .main →
      c.IsCall P ctx (doPayProgram P ctx now paymentId args) → Asked c) :
    ∃ e : Option Commit, (∀ c ∈ e, Asked c) ∧
      (doPayProgram P ctx now paymentId args).Makes (commits P ctx w Asked) .main
        ⟨e, none, (o, o), fun _ => True⟩ := by
  by_cases hvalid : ∃ dst amount, ValidArgs args dst amount
  · obtain ⟨dst, amount, hvalid⟩ := hvalid
    have hpaid : Asked (.paid ⟨ctx.peerId, dst, amount, paymentId⟩) :=
      hasked _ rfl ⟨rfl, now, args, hvalid, rfl⟩
    refine ⟨some (.paid ⟨ctx.peerId, dst, amount, paymentId⟩), ?_, ?_⟩
    · intro c hc
      obtain rfl := Option.some.inj hc
      exact hpaid
    · obtain ⟨d, a, hsplit, rfl, hparse, hpos⟩ := hvalid
      have hgt : amount > 0 := UInt64.lt_iff_toNat_lt.mpr hpos
      simp only [doPayProgram, hsplit, hparse, hgt, if_true]
      exact commits_pay hpaid
  · refine ⟨none, by simp, ?_⟩
    unfold doPayProgram
    split
    · exact commits_done
    · rename_i d a hsplit
      split
      · exact commits_done
      · rename_i n hparse
        split
        · rename_i hn
          exact absurd ⟨_, n, d, a, hsplit, rfl, hparse, UInt64.lt_iff_toNat_lt.mp hn⟩ hvalid
        · exact commits_done

/-- **Every program of the tasks commits its change**, or ends without. -/
theorem commits_of_mayRun {s : SharedState} {t : Task} {p : TaskProgram SharedState}
    (h : MayRun P ctx s t p)
    (hasked : ∀ c : Commit, c.task = t → c.IsCall P ctx p → Asked c) :
    ∃ e : Option Commit, (∀ c ∈ e, Asked c) ∧
      p.Makes (commits P ctx w Asked) t ⟨e, none, (o, o), fun _ => True⟩ := by
  have hbalance : ∀ t, readBalanceProgram.Makes (commits P ctx w Asked) t
      ⟨none, none, (o, o), fun _ => True⟩ := fun t =>
    ⟨rfl, fun g hg => commits_silent (fun _ => rfl) (fun _ => rfl) (fun _ => rfl)
      (fun _ => rfl) fun _ _ => ⟨g, rfl, hg, commits_done⟩⟩
  cases t with
  | receive =>
    obtain ⟨-, now, msg, rfl⟩ := h
    cases msg with
    | payment p =>
      have hcredited : Asked (.credited p) := hasked _ rfl ⟨now, rfl⟩
      refine ⟨some (.credited p), ?_, commits_handlePayment hcredited⟩
      intro c hc
      obtain rfl := Option.some.inj hc
      exact hcredited
    | classic m =>
      refine ⟨none, by simp, commits_dedup commits_done ?_⟩
      split
      · exact commits_done
      · exact commits_pushMessage commits_done
    | paymentAck k =>
      refine ⟨none, by simp, ?_⟩
      show (handlePaymentAckProgram P ctx now k).Makes _ _ _
      rw [handlePaymentAckProgram]
      split
      · exact commits_done
      · exact commits_dedup commits_done (commits_pushMessage commits_done)
    | register _ | connect _ | askForAddr _ | peerInfo _ _ => exact ⟨none, by simp, commits_done⟩
  | main =>
    rcases h with ⟨now, paymentId, args, rfl⟩ | ⟨now, msgId, text, rfl⟩ | rfl
    · exact commits_doPay hasked
    · refine ⟨none, by simp, commits_silent (fun _ => rfl) (fun _ => rfl) (fun _ => rfl)
        (fun _ => rfl) fun s _ => ?_⟩
      have hnone : ∀ t, announced t (sendToRelays (.classic (classicOf P ctx now msgId text
          s.client)) ctx.relayAddrs) = [] := by
        intro t
        rw [announced_sendToRelays, if_neg (by cases t <;> simp [Task.announces])]
      refine commits_transmit (fun t _ => hnone t) ?_ ?_
      · rw [hnone, List.append_nil]
      · rw [hnone, List.append_nil]
        exact commits_pushMessage commits_done
    · exact ⟨none, by simp, hbalance .main⟩
  | web n =>
    obtain rfl := h
    exact ⟨none, by simp, hbalance (.web n)⟩

/-- **A client is a durable wallet**, whose changes are those of the calls started. -/
theorem durable_simulates (as : List (TaskAction Task SharedState)) :
    EventSystem.Simulates (clientTasks P ctx) (durableWallet P w)
      ((commits P ctx w (Commit.AskedIn P ctx as)).Kept fun _ => Commit.AskedIn P ctx as)
      (fun _ a => a ∈ as) (fun _ c => True ∧ ∃ _ : Task, c.AskedIn P ctx as)
      (fun _ _ => True) := by
  refine CallSpec.simulates fun x t p hmay hstart => commits_of_mayRun hmay ?_
  rintro c rfl hcall
  exact ⟨p, hstart, hcall⟩

end Programs

/-! ## Runs -/

/-- The state of a durable wallet is its history. -/
theorem run_durableWallet (P : Platform) (w : Wallet) (cs ds : List Commit) :
    (durableWallet P w).run ds cs = ds ++ cs := by
  induction cs generalizing ds with
  | nil => exact (List.append_nil ds).symm
  | cons c cs ih =>
    rw [EventSystem.run_cons, ih]
    exact List.append_assoc ds [c] cs

/-- Whatever the tasks of a client have done so far, there are changes that are durable. -/
theorem exists_durable {P : Platform} {ctx : ClientContext P.ed} {localAddr : SocketAddr}
    {file : WalletFile} {as : List (TaskAction Task SharedState)}
    (has : (clientTasks P ctx).Always (fun _ _ => True)
      (TaskPool.idle (tasksStart P ctx localAddr file)) as) :
    ∃ cs, (durableWallet P (startup P ctx localAddr file).app.wallet).Always
        (fun _ c => c.AskedIn P ctx as) [] cs ∧
      (commits P ctx (startup P ctx localAddr file).app.wallet (Commit.AskedIn P ctx as)).Kept
        (fun _ => Commit.AskedIn P ctx as)
        ((clientTasks P ctx).run (TaskPool.idle (tasksStart P ctx localAddr file)) as) cs := by
  have hstart : (commits P ctx (startup P ctx localAddr file).app.wallet
      (Commit.AskedIn P ctx as)).Kept (fun _ => Commit.AskedIn P ctx as)
      (TaskPool.idle (tasksStart P ctx localAddr file)) [] :=
    CallSpec.kept_idle
      ⟨Or.inr (saved_startup localAddr file), Or.inl ⟨rfl, rfl⟩, fun _ => List.prefix_refl _⟩
      ⟨rfl, saved_startup localAddr file, rfl⟩ fun _ => rfl
  obtain ⟨cs, hcs, -, hkept⟩ := (durable_simulates as).exists_run hstart
    (EventSystem.always_mem (List.Subset.refl as) has)
  rw [run_durableWallet, List.nil_append] at hkept
  exact ⟨cs, hcs.imp fun _ _ _ ⟨_, _, hasked⟩ => hasked, hkept⟩

/-- **The log has one entry for each call that paid or credited.**  Once all tasks of a client
are done, the changes of its wallet are, in the order in which the lock was taken, those of
calls that were started, each possible after the ones before; and the payments and the
acknowledgements sent are exactly those of these calls, in the same order. -/
theorem log_of_calls (P : Platform) (ctx : ClientContext P.ed) (localAddr : SocketAddr)
    (file : WalletFile) (as : List (TaskAction Task SharedState))
    (has : (clientTasks P ctx).Always (fun _ _ => True)
      (TaskPool.idle (tasksStart P ctx localAddr file)) as) :
    let s := (clientTasks P ctx).run (TaskPool.idle (tasksStart P ctx localAddr file)) as
    let w := (startup P ctx localAddr file).app.wallet
    (∀ t, s.prog t = .done) →
    ∃ cs, (durableWallet P w).Always (fun _ c => c.AskedIn P ctx as) [] cs ∧
      s.shared.log = cs.map Commit.op ∧ s.shared.client.app.wallet = committed P w cs ∧
      ∀ t, announced t s.shared.sent = announced t (announcements ctx cs) := by
  intro s w hdone
  obtain ⟨cs, hcs, hkept⟩ := exists_durable has
  have hended : ∀ t, s.holder ≠ some t ∧
      announced t s.shared.sent = announced t (announcements ctx cs) := by
    intro t
    obtain ⟨st, hst⟩ := hkept.tasks t
    rw [hdone t] at hst
    exact hst.of_done
  have hfree : s.holder = none := by
    cases hh : s.holder with
    | none => rfl
    | some t => exact absurd hh (hended t).1
  obtain ⟨hwallet, -, hlog⟩ := hkept.free hfree
  exact ⟨cs, hcs, hlog, hwallet, fun t => (hended t).2⟩

/-- **What is sent is in the file.**  However the tasks of a client are interleaved, there are
at any time changes of the wallet, each possible after the ones before and made by a call that
was started, such that

* the client started again finds the wallet after these changes, unless a task holds the lock
  and has truncated the file;
* at most the last change of the wallet is not among them, and none while the lock is free;
* the payments sent so far, and the acknowledgements sent so far, are those of a beginning of
  them, and of all of them once the task that sends them is done. -/
theorem sent_is_durable (P : Platform) (ctx : ClientContext P.ed) (localAddr : SocketAddr)
    (file : WalletFile) (as : List (TaskAction Task SharedState))
    (has : (clientTasks P ctx).Always (fun _ _ => True)
      (TaskPool.idle (tasksStart P ctx localAddr file)) as) :
    let s := (clientTasks P ctx).run (TaskPool.idle (tasksStart P ctx localAddr file)) as
    let w := (startup P ctx localAddr file).app.wallet
    ∃ cs, (durableWallet P w).Always (fun _ c => c.AskedIn P ctx as) [] cs ∧
      ((s.holder ≠ none ∧ s.shared.client.walletFile = some []) ∨ ∀ localAddr',
        (startup P ctx localAddr' s.shared.client.walletFile).app.wallet = committed P w cs) ∧
      cs.map Commit.op <+: s.shared.log ∧ s.shared.log.length ≤ cs.length + 1 ∧
      (s.holder = none → s.shared.log = cs.map Commit.op) ∧
      ∀ t, announced t s.shared.sent <+: announced t (announcements ctx cs) ∧
        (s.prog t = .done →
          announced t s.shared.sent = announced t (announcements ctx cs)) := by
  intro s w
  obtain ⟨cs, hcs, hkept⟩ := exists_durable has
  have hdurable : Durable P ctx w (Commit.AskedIn P ctx as) s.shared cs := hkept.rel
  have hfound : readWallet P.json s.shared.client.walletFile = some (committed P w cs) →
      ∀ localAddr', (startup P ctx localAddr' s.shared.client.walletFile).app.wallet =
        committed P w cs := by
    intro hread localAddr'
    show (loadOrCreateWallet P.json s.shared.client.walletFile ctx.myBtc).1 = _
    rw [loadOrCreateWallet, hread]
  refine ⟨cs, hcs, ?_, hdurable.log_prefix, hdurable.log_length, ?_, ?_⟩
  · by_cases hfree : s.holder = none
    · obtain ⟨hwallet, hread, -⟩ := hkept.free hfree
      exact Or.inr (hfound (hread.trans (congrArg some hwallet)))
    · rcases hdurable.file with htruncated | hread
      · exact Or.inl ⟨hfree, htruncated⟩
      · exact Or.inr (hfound hread)
  · intro hfree
    exact (hkept.free hfree).2.2
  · intro t
    refine ⟨hdurable.sent t, fun hdone => ?_⟩
    obtain ⟨st, hst⟩ := hkept.tasks t
    rw [hdone] at hst
    exact hst.of_done.2

/-- Alice is killed when her payment is saved but not sent, and the credit is not saved. -/
def killedTasks : List (TaskAction Task SharedState) :=
  bothTasks ++ (schedule.take 11).map .step

theorem killedTasks_run :
    (clientTasks samplePlatform alice).Always (fun _ _ => True) aliceTasks killedTasks := by
  refine EventSystem.always_append.mpr ⟨?_, by decide +kernel⟩
  exact ⟨⟨rfl, Or.inl ⟨0, 7, "bob 3", rfl⟩⟩, trivial,
    ⟨rfl, rfl, 0, .payment fourForAlice, rfl⟩, trivial, trivial⟩

theorem killedTasks_durable :
    let s := (clientTasks samplePlatform alice).run aliceTasks killedTasks
    let w := (aliceStart 5).app.wallet
    ∃ cs, (durableWallet samplePlatform w).Always
        (fun _ c => c.AskedIn samplePlatform alice killedTasks) [] cs ∧
      ((s.holder ≠ none ∧ s.shared.client.walletFile = some []) ∨ ∀ localAddr',
        (startup samplePlatform alice localAddr' s.shared.client.walletFile).app.wallet =
          committed samplePlatform w cs) ∧
      cs.map Commit.op <+: s.shared.log ∧ s.shared.log.length ≤ cs.length + 1 ∧
      (s.holder = none → s.shared.log = cs.map Commit.op) ∧
      ∀ t, announced t s.shared.sent <+: announced t (announcements alice cs) ∧
        (s.prog t = .done →
          announced t s.shared.sent = announced t (announcements alice cs)) :=
  sent_is_durable samplePlatform alice (.v4 0 40000)
    (saveWallet plainJson { balance := 5, address := "1Alice" }) killedTasks killedTasks_run

end Zeta
