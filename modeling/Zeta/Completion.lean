import Zeta.AwaitNetwork
import Zeta.TaskProgress
import Mathlib.Algebra.Ring.Nat

/-!
# Every call comes to its end

In the network of tasks a call can be anywhere between two `await`s.  Here the clients get
no more to do and their tasks go on, in whatever order the runtime picks.  No handler takes
more than a fixed number of steps (`AwaitEvent.limit`), so the tasks go on for so many steps
and no more.  They cannot wait for each other in a circle; so in the end all of them are
done, with every wallet in its file, and the network is that of whole calls.
-/

namespace Zeta

/-! ## How long a handler takes -/

section Limits
variable {P : Platform} {ctx : ClientContext P.ed} {now : UInt64} {n : ℕ}
  {next : TaskProgram SharedState}

theorem endsWithin_pushMessage (msg : ChatMessage) (h : next.EndsWithin n) :
    (pushMessageProgram msg next).EndsWithin (n + 2) := fun _ _ => h

theorem endsWithin_walletUpdate (h : next.EndsWithin n) :
    (walletUpdateProgram next).EndsWithin (n + 4) := fun _ _ => h

theorem endsWithin_saveWallet (J : WalletJson) (h : next.EndsWithin n) :
    (saveWalletProgram J next).EndsWithin (n + 3) := fun _ _ _ => h

theorem endsWithin_dedup (key : UInt64) (h : next.EndsWithin n) :
    (dedupProgram key next).EndsWithin (n + 1) := by
  intro s
  show TaskProgram.EndsWithin (if (s.client.seen.isNew key).1 = false then .done else next) n
  split
  · trivial
  · exact h

/-- A payment that is credited takes longest. -/
theorem endsWithin_handleMsg (msg : Message) : (handleMsgProgram P ctx now msg).EndsWithin 15 := by
  cases msg with
  | classic m =>
    refine endsWithin_dedup (n := 14) _ ?_
    split
    · trivial
    · exact endsWithin_pushMessage (n := 12) _ trivial
  | payment p =>
    show (handlePaymentProgram P ctx now p).EndsWithin 15
    unfold handlePaymentProgram
    split
    · trivial
    · refine endsWithin_dedup (n := 14) _ fun s => ?_
      dsimp only
      split
      · exact fun _ => trivial
      · refine fun _ => endsWithin_saveWallet (n := 8) _ ?_
        exact endsWithin_pushMessage (n := 5) _ (endsWithin_walletUpdate (n := 1) fun _ => trivial)
  | paymentAck a =>
    show (handlePaymentAckProgram P ctx now a).EndsWithin 15
    unfold handlePaymentAckProgram
    split
    · trivial
    · exact endsWithin_dedup (n := 14) _ (endsWithin_pushMessage (n := 12) _ trivial)
  | register _ | connect _ | askForAddr _ | peerInfo _ _ => trivial

theorem endsWithin_pay (paymentId : UInt64) (dst : String) (amount : UInt64) :
    (payProgram P ctx now paymentId dst amount).EndsWithin 14 := by
  intro s
  dsimp only
  split
  · trivial
  · refine fun _ => endsWithin_saveWallet (n := 8) _ ?_
    exact fun _ => endsWithin_pushMessage (n := 4) _ (endsWithin_walletUpdate (n := 0) trivial)

theorem endsWithin_doPay (paymentId : UInt64) (args : String) :
    (doPayProgram P ctx now paymentId args).EndsWithin 14 := by
  unfold doPayProgram
  split
  · trivial
  · split
    · trivial
    · split
      · exact endsWithin_pay paymentId _ _
      · trivial

theorem endsWithin_sendMsg (msgId : UInt64) (text : String) :
    (sendMsgProgram P ctx now msgId text).EndsWithin 4 :=
  fun _ _ => endsWithin_pushMessage (n := 0) _ trivial

theorem endsWithin_readBalance : readBalanceProgram.EndsWithin 3 := fun _ => trivial

end Limits

/-- How many steps a handler takes at most, which this event starts. -/
def AwaitEvent.limit {ι κ : Type} : AwaitEvent ι κ → ℕ
  | .receive _ _ _ => 15
  | .pay _ _ _ _ => 14
  | .say _ _ _ _ => 4
  | .balance _ _ => 3
  | .other _ | .step _ _ => 0

/-- The event is a step of a client's task. -/
def AwaitEvent.isStep {ι κ : Type} : AwaitEvent ι κ → Bool
  | .step _ _ => true
  | .other _ | .receive _ _ _ | .pay _ _ _ _ | .say _ _ _ _ | .balance _ _ => false

namespace Network

variable {P : Platform} {ι κ : Type} [DecidableEq ι] [DecidableEq κ] {net : Network P ι κ}
  {i : ι} {s : AwaitWorld ι κ} {e : AwaitEvent ι κ}

/-! ## The tasks of one client -/

/-- For the tasks of one client an event is a step of theirs, or nothing. -/
theorem pool_next (i : ι) (hen : net.awaitSystem.Enabled s e) :
    (net.awaitSystem.next s e).pools i = s.pools i ∨
      ∃ x, (clientTasks P (net.client i)).Enabled (s.pools i) x ∧
        (net.awaitSystem.next s e).pools i =
          (clientTasks P (net.client i)).next (s.pools i) x := by
  have hstart : ∀ (j : ι) (t : Task) (p : TaskProgram SharedState),
      ((s.pools j).prog t).isDone = true → MayRun P (net.client j) (s.pools j).shared t p →
      (s.startTask j t p).pools i = s.pools i ∨
        ∃ x, (clientTasks P (net.client i)).Enabled (s.pools i) x ∧
          (s.startTask j t p).pools i = (clientTasks P (net.client i)).next (s.pools i) x := by
    intro j t p hdone hmay
    by_cases hj : i = j
    · subst hj
      exact Or.inr ⟨.start t p, ⟨TaskProgram.eq_done_of_isDone hdone, hmay⟩,
        Function.update_self _ _ _⟩
    · exact Or.inl (Function.update_of_ne hj _ _)
  cases e with
  | other e => exact Or.inl rfl
  | receive j now d => exact hstart j _ _ hen.1 ⟨hen.2.1, now, d.msg, rfl⟩
  | pay j now paymentId args => exact hstart j _ _ hen (Or.inl ⟨now, paymentId, args, rfl⟩)
  | say j now msgId text => exact hstart j _ _ hen (Or.inr (Or.inl ⟨now, msgId, text, rfl⟩))
  | balance j t =>
    refine hstart j _ _ hen.2 ?_
    cases t with
    | receive => exact absurd rfl hen.1
    | main => exact Or.inr (Or.inr rfl)
    | web n => rfl
  | step j t =>
    by_cases hj : i = j
    · subst hj
      exact Or.inr ⟨.step t, hen, Function.update_self _ _ _⟩
    · exact Or.inl (Function.update_of_ne hj _ _)

/-- The tasks of a client keep to the lock on its wallet. -/
def KeepsLock (net : Network P ι κ) (b : Boot ι κ) (s : AwaitWorld ι κ) : Prop :=
  ∀ i, ∃ owes answers, TaskPool.Kept
    (walletLock P (startup P (net.client i) (b.localAddr i) (b.file i)).app.wallet) (s.pools i)
    owes answers

theorem keepsLock_next {b : Boot ι κ} (h : KeepsLock net b s)
    (hen : net.awaitSystem.Enabled s e) : KeepsLock net b (net.awaitSystem.next s e) := by
  intro i
  rcases pool_next i hen with heq | ⟨x, hx, heq⟩
  · rw [heq]
    exact h i
  · rw [heq]
    exact TaskPool.kept_next (fun _ _ _ hmay => sound_of_mayRun hmay) (h i) hx

theorem keepsLock_run {b : Boot ι κ} {ok : AwaitWorld ι κ → AwaitEvent ι κ → Prop}
    {es : List (AwaitEvent ι κ)} (hrun : net.awaitSystem.Always ok (net.awaitStart b) es) :
    KeepsLock net b (net.awaitSystem.run (net.awaitStart b) es) :=
  EventSystem.invariant_run (fun _ _ h hen _ => keepsLock_next h hen) hrun fun _ =>
    ⟨_, _, TaskPool.kept_idle resource_start (Or.inl rfl)⟩

/-! ## The tasks of all clients -/

/-- What the tasks have left to do. -/
def programs (s : AwaitWorld ι κ) (x : ι × Task) : TaskProgram SharedState :=
  (s.pools x.1).prog x.2

omit [DecidableEq κ] in
/-- One task goes on to another program. -/
theorem programs_update {s' : AwaitWorld ι κ} {pool : TaskPool Task SharedState} {t : Task}
    {p : TaskProgram SharedState} (hpools : s'.pools = Function.update s.pools i pool)
    (hpool : pool.prog = Function.update (s.pools i).prog t p) :
    programs s' = Function.update (programs s) (i, t) p := by
  funext ⟨j, u⟩
  rw [programs, hpools]
  by_cases hj : j = i
  · subst hj
    rw [Function.update_self, hpool]
    by_cases hu : u = t
    · rw [hu, Function.update_self, Function.update_self]
    · rw [Function.update_of_ne hu, Function.update_of_ne (fun h => hu (Prod.mk.inj h).2)]
      rfl
  · rw [Function.update_of_ne hj, Function.update_of_ne (fun h => hj (Prod.mk.inj h).1)]
    rfl

/-- A step of a task leaves it with less. -/
theorem programs_step {t : Task} (hen : net.awaitSystem.Enabled s (.step i t)) :
    ∃ p, programs (net.awaitSystem.next s (.step i t)) =
        Function.update (programs s) (i, t) p ∧ p.Follows (programs s (i, t)) := by
  obtain ⟨p, hprog, hfollows⟩ := TaskPool.follows_of_step hen
  exact ⟨p, programs_update rfl hprog, hfollows⟩

omit [DecidableEq κ] in
/-- A handler that is started has all its steps before it. -/
theorem stepsLeft_startTask {left : Multiset (ι × Task)} {t : Task} {p : TaskProgram SharedState}
    {n : ℕ} (h : StepsLeft (programs s) left) (hp : p.EndsWithin n) :
    StepsLeft (programs (s.startTask i t p)) (left + Multiset.replicate n (i, t)) := by
  have hprograms : programs (s.startTask i t p) = Function.update (programs s) (i, t) p :=
    programs_update rfl rfl
  rw [hprograms]
  exact h.start hp

/-- An event that starts a handler gives the tasks so many steps, and a step takes one. -/
theorem stepsLeft_next (hen : net.awaitSystem.Enabled s e) {left : Multiset (ι × Task)}
    (h : StepsLeft (programs s) left) :
    ∃ left', StepsLeft (programs (net.awaitSystem.next s e)) left' ∧
      e.isStep.toNat + left'.card = left.card + e.limit := by
  have hstart : ∀ (j : ι) (t : Task) (p : TaskProgram SharedState) (n : ℕ), p.EndsWithin n →
      ∃ left', StepsLeft (programs (s.startTask j t p)) left' ∧
        false.toNat + left'.card = left.card + n :=
    fun j t p n hp => ⟨_, stepsLeft_startTask h hp, by simp⟩
  cases e with
  | other e => exact ⟨left, h, by simp [AwaitEvent.isStep, AwaitEvent.limit]⟩
  | receive j now d => exact hstart _ _ _ _ (endsWithin_handleMsg d.msg)
  | pay j now paymentId args => exact hstart _ _ _ _ (endsWithin_doPay paymentId args)
  | say j now msgId text => exact hstart _ _ _ _ (endsWithin_sendMsg msgId text)
  | balance j t => exact hstart _ _ _ _ endsWithin_readBalance
  | step j t =>
    obtain ⟨p, hp, hfollows⟩ := programs_step hen
    obtain ⟨hmem, hleft⟩ := h.step hfollows
    refine ⟨left.erase (j, t), by rw [hp]; exact hleft, ?_⟩
    have hcard := Multiset.card_erase_add_one hmem
    simp only [AwaitEvent.isStep, AwaitEvent.limit, Bool.toNat_true]
    omega

/-- **The steps of a run and those that are left** are what the handlers that it starts may
take. -/
theorem exists_stepsLeft {b : Boot ι κ} {es : List (AwaitEvent ι κ)}
    (hrun : net.awaitSystem.Always (fun _ _ => True) (net.awaitStart b) es) :
    ∃ left, StepsLeft (programs (net.awaitSystem.run (net.awaitStart b) es)) left ∧
      es.countP AwaitEvent.isStep + left.card = (es.map AwaitEvent.limit).sum := by
  induction es using List.reverseRecOn with
  | nil => exact ⟨0, fun _ => trivial, rfl⟩
  | append_singleton es e ih =>
    rw [EventSystem.always_snoc] at hrun
    obtain ⟨left, hleft, hsum⟩ := ih hrun.1
    obtain ⟨left', hleft', hnext⟩ := stepsLeft_next hrun.2.1 hleft
    rw [EventSystem.run_snoc]
    refine ⟨left', hleft', ?_⟩
    have hone : [e].countP AwaitEvent.isStep = e.isStep.toNat := by cases e <;> rfl
    rw [List.countP_append, hone, List.map_append, List.sum_append, List.map_singleton,
      List.sum_singleton]
    omega

/-- The steps that the tasks go on to take are among those that the handlers have left. -/
theorem steps_le_limits {b : Boot ι κ} {es : List (AwaitEvent ι κ)} {ts : List (ι × Task)}
    (hrun : net.awaitSystem.Always (fun _ _ => True) (net.awaitStart b) es)
    (hts : net.awaitSystem.Always (fun _ _ => True)
      (net.awaitSystem.run (net.awaitStart b) es) (ts.map fun x => .step x.1 x.2)) :
    es.countP AwaitEvent.isStep + ts.length ≤ (es.map AwaitEvent.limit).sum := by
  obtain ⟨left, -, hsum⟩ := exists_stepsLeft (EventSystem.always_append.mpr ⟨hrun, hts⟩)
  have hsteps : (ts.map fun x => (.step x.1 x.2 : AwaitEvent ι κ)).countP AwaitEvent.isStep =
      ts.length := by
    rw [List.countP_map]
    exact List.countP_eq_length.mpr fun _ _ => rfl
  have hlimits : ((ts.map fun x => (.step x.1 x.2 : AwaitEvent ι κ)).map
      AwaitEvent.limit).sum = 0 := by
    simp [Function.comp_def, AwaitEvent.limit]
  rw [List.countP_append, hsteps, List.map_append, List.sum_append, hlimits] at hsum
  omega

/-- **When no task can go on, all are done**, the locks are free and the files are written. -/
theorem done_of_stuck {b : Boot ι κ} (h : KeepsLock net b s)
    (hstuck : ∀ i t, ¬ net.awaitSystem.Enabled s (.step i t)) (i : ι) :
    (∀ t, (s.pools i).prog t = .done) ∧
      readWallet P.json (s.pools i).shared.client.walletFile =
        some (s.pools i).shared.client.app.wallet := by
  obtain ⟨owes, answers, hkept⟩ := h i
  have hdone : ∀ t, (s.pools i).prog t = .done := by
    intro t
    by_contra ht
    obtain ⟨u, hu⟩ := hkept.exists_ready ht
    exact hstuck i u hu
  refine ⟨hdone, ?_⟩
  have hfree : (s.pools i).holder = none := by
    cases hh : (s.pools i).holder with
    | none => rfl
    | some t => exact absurd hh (hkept.of_done (hdone t)).1
  exact (hkept.free hfree).1.1

/-! ## Runs -/

/-- **Every call comes to its end.**  After any run of the network of tasks, the tasks of the
clients take no more steps than the handlers that were started have left, in whatever order
they take them.  And whenever none can go on, all of them are done and every wallet is in its
file; and some run in whole calls leads every client to the same wallet, the same cache and a
receive task in the same state. -/
theorem every_call_ends (net : Network P ι κ) (b : Boot ι κ) (es : List (AwaitEvent ι κ))
    (hrun : net.awaitSystem.Always AwaitLinesCached (net.awaitStart b) es) :
    let s := net.awaitSystem.run (net.awaitStart b) es
    (∀ ts : List (ι × Task),
      net.awaitSystem.Always (fun _ _ => True) s (ts.map fun x => .step x.1 x.2) →
      es.countP AwaitEvent.isStep + ts.length ≤ (es.map AwaitEvent.limit).sum) ∧
    ((∀ i t, ¬ net.awaitSystem.Enabled s (.step i t)) →
      (∀ i t, (s.pools i).prog t = .done) ∧
      ∃ as, net.system.Always KeepsRunning (net.start b) as ∧
        EventSystem.SeenIn (AwaitSeenAs es) as es ∧
        let w := net.system.run (net.start b) as
        InWholeCalls s w ∧ ∀ i, (w.clients i).seen = (s.pools i).shared.client.seen ∧
          (w.clients i).receiving = (s.pools i).shared.client.receiving ∧
          readWallet P.json (s.pools i).shared.client.walletFile =
            some (w.clients i).app.wallet) := by
  intro s
  refine ⟨fun ts hts => ?_, fun hstuck => ?_⟩
  · exact steps_le_limits (hrun.imp fun _ _ _ _ => trivial) hts
  · have hend := done_of_stuck (keepsLock_run hrun) hstuck
    obtain ⟨as, has, hseen, hwhole⟩ := exists_awaited_run undemanding_keepsRunning
      onNodes_keepsRunning b (keepsRunning_of_linesCached hrun)
    refine ⟨fun i => (hend i).1, as, has, hseen, hwhole, fun i => ?_⟩
    obtain ⟨hdone, hread⟩ := hend i
    obtain ⟨hseen, hreceiving⟩ := hwhole.cache i (by rw [hdone]; rfl)
    exact ⟨hseen, hreceiving, by rw [hread, hwhole.wallet i]⟩

/-! ## A run between alice and bob -/

/-- The tasks that `awaitRun` leaves in the middle of their calls go on to the end. -/
def finishedRun : List (AwaitEvent (Fin 2) (Fin 1)) :=
  let payer : Fin 2 := ⟨0, Nat.two_pos⟩
  let payee : Fin 2 := ⟨1, Nat.one_lt_two⟩
  awaitRun ++ List.replicate 5 (.step payer .main) ++ List.replicate 11 (.step payee .receive) ++
    List.replicate 3 (.step payee .main)

/-- Where it leads. -/
def finished : AwaitWorld (Fin 2) (Fin 1) :=
  aliceAndBob.awaitSystem.run (aliceAndBob.awaitStart aliceAndBobBoot) finishedRun

theorem finished_done (i : Fin 2) (t : Task) : ((finished.pools i).prog t).isDone = true := by
  have hknown : ∀ i : Fin 2, ∀ t ∈ [Task.receive, .main, .web 0],
      ((finished.pools i).prog t).isDone = true := by decide +kernel
  cases t with
  | receive => exact hknown i .receive (by simp)
  | main => exact hknown i .main (by simp)
  | web n =>
    cases n with
    | zero => exact hknown i (.web 0) (by simp)
    | succ n => exact Fin.cases rfl (Fin.cases rfl fun j => j.elim0) i

theorem finishedRun_ends :
    (∀ i t, (finished.pools i).prog t = .done) ∧
    ∃ as, aliceAndBob.system.Always KeepsRunning (aliceAndBob.start aliceAndBobBoot) as ∧
      EventSystem.SeenIn (AwaitSeenAs finishedRun) as finishedRun ∧
      let w := aliceAndBob.system.run (aliceAndBob.start aliceAndBobBoot) as
      InWholeCalls finished w ∧ ∀ i,
        (w.clients i).seen = (finished.pools i).shared.client.seen ∧
        (w.clients i).receiving = (finished.pools i).shared.client.receiving ∧
        readWallet samplePlatform.json (finished.pools i).shared.client.walletFile =
          some (w.clients i).app.wallet := by
  refine (every_call_ends aliceAndBob aliceAndBobBoot finishedRun (by decide +kernel)).2 ?_
  intro i t hen
  have hready : (finished.pools i).Ready t ((finished.pools i).prog t) := hen
  rw [TaskProgram.eq_done_of_isDone (finished_done i t)] at hready
  exact hready

end Network
end Zeta
