import Zeta.Tasks
import Zeta.SamplePlatform

/-!
# One wallet, several tasks

The receive task credits the wallet and the main task debits it, each in a critical
section of its own, and each in a later one tells the pages what the wallet is now.  The
lock guards the wallet, its file and the order of these announcements.

* Whenever the lock is free, the file holds the wallet, and both are what the changes made
  so far amount to, in the order in which the lock was taken: no change is lost
  (`wallet_kept`).
* The announcements report wallets in the order in which they were, and once all tasks are
  done the last one reports the last wallet (`announcements_in_order`).
-/

namespace Zeta

/-- A change of the wallet. -/
def WalletOp.apply (b : Build) (w : Wallet) : WalletOp → Wallet
  | .credit amount => (Zeta.credit b w amount).getD w
  | .debit amount => (Zeta.debit w amount).2

/-- What changes amount to, one after the other. -/
def replay (b : Build) (w : Wallet) (log : List WalletOp) : Wallet :=
  log.foldl (WalletOp.apply b) w

/-- The wallets announced to the pages so far. -/
def AppState.walletUpdates (a : AppState) : List Wallet :=
  a.events.filterMap (fun e => match e.data with
    | .wallet w => some w
    | .message _ => none)

/-- What the lock on the wallet guards. -/
structure Guarded where
  wallet : Wallet
  file : WalletFile
  log : List WalletOp
  updates : List Wallet

/-- The guarded part of the shared state. -/
def SharedState.guarded (s : SharedState) : Guarded where
  wallet := s.client.app.wallet
  file := s.client.walletFile
  log := s.log
  updates := s.client.app.walletUpdates

/-- The announcements report the states of the wallet, from `w` on, in their order. -/
def InOrder (b : Build) (w : Wallet) (log : List WalletOp) (updates : List Wallet) : Prop :=
  ∃ ks : List ℕ, ks.Pairwise (· ≤ ·) ∧ (∀ k ∈ ks, k ≤ log.length) ∧
    updates = ks.map (fun k => replay b w (log.take k))

section InOrder
variable {b : Build} {w : Wallet} {log : List WalletOp} {updates : List Wallet}

theorem replay_snoc (b : Build) (w : Wallet) (log : List WalletOp) (op : WalletOp) :
    replay b w (log ++ [op]) = op.apply b (replay b w log) := by
  simp [replay]

theorem inOrder_nil (b : Build) (w : Wallet) : InOrder b w [] [] :=
  ⟨[], List.Pairwise.nil, nofun, rfl⟩

/-- A new state leaves the order of the old ones alone. -/
theorem InOrder.snoc_op (h : InOrder b w log updates) (op : WalletOp) :
    InOrder b w (log ++ [op]) updates := by
  obtain ⟨ks, hsorted, hle, rfl⟩ := h
  refine ⟨ks, hsorted, ?_, ?_⟩
  · intro k hk
    have := hle k hk
    rw [List.length_append]
    omega
  · apply List.map_congr_left
    intro k hk
    rw [List.take_append_of_le_length (hle k hk)]

/-- The announcement of the present state comes last. -/
theorem InOrder.snoc_update (h : InOrder b w log updates) :
    InOrder b w log (updates ++ [replay b w log]) := by
  obtain ⟨ks, hsorted, hle, rfl⟩ := h
  refine ⟨ks ++ [log.length], ?_, ?_, ?_⟩
  · refine List.pairwise_append.mpr ⟨hsorted, List.pairwise_singleton _ _, ?_⟩
    intro k hk n hn
    rw [List.mem_singleton.mp hn]
    exact hle k hk
  · intro k hk
    rcases List.mem_append.mp hk with hold | hnew
    · exact hle k hold
    · rw [List.mem_singleton.mp hnew]
  · simp

end InOrder

/-- **What the lock on the wallet is for.** -/
def walletLock (P : Platform) (w : Wallet) : LockSpec SharedState Guarded where
  view := SharedState.guarded
  Resource g := readWallet P.json g.file = some g.wallet ∧ g.wallet = replay P.build w g.log ∧
    InOrder P.build w g.log g.updates
  Guarantee g := InOrder P.build w g.log g.updates
  Settled g := g.log = [] ∨ g.updates.getLast? = some g.wallet
  guarantee_of_resource _ h := h.2.2

/-! ## The parts of the programs -/

section Parts
variable {P : Platform} {w : Wallet} {next : TaskProgram SharedState} {owes : Bool}

@[simp] theorem guarded_sendMessage (s : SharedState) (msg : ChatMessage) :
    (s.mapApp (AppState.sendEvent (AppState.messageEvent msg))).guarded = s.guarded := by
  simp [SharedState.guarded, SharedState.mapApp, AppState.walletUpdates, AppState.sendEvent,
    AppState.messageEvent]

@[simp] theorem guarded_sendWallet (s : SharedState) (v : Wallet) :
    (s.mapApp (AppState.sendEvent (AppState.walletEvent v))).guarded =
      { s.guarded with updates := s.guarded.updates ++ [v] } := by
  simp [SharedState.guarded, SharedState.mapApp, AppState.walletUpdates, AppState.sendEvent,
    AppState.walletEvent]

@[simp] theorem guarded_setFile (s : SharedState) (bytes : List UInt8) :
    (s.setFile bytes).guarded = { s.guarded with file := some bytes } := rfl

theorem sound_pushMessageProgram {msg : ChatMessage}
    (h : next.Sound (walletLock P w) (.outside owes)) :
    (pushMessageProgram msg next).Sound (walletLock P w) (.outside owes) :=
  fun _ => ⟨rfl, fun s => ⟨guarded_sendMessage s msg, h⟩⟩

theorem sound_transmitProgram {sends : Sends}
    (h : next.Sound (walletLock P w) (.outside owes)) :
    (transmitProgram sends next).Sound (walletLock P w) (.outside owes) :=
  fun _ => ⟨rfl, h⟩

theorem sound_dedupProgram {key : UInt64}
    (h : next.Sound (walletLock P w) (.outside false)) :
    (dedupProgram key next).Sound (walletLock P w) (.outside false) := by
  intro s
  refine ⟨rfl, ?_⟩
  show TaskProgram.Sound _ (if _ then _ else _) _
  split
  · rfl
  · exact h

/-- An announcement settles the state. -/
theorem sound_walletUpdateProgram (h : next.Sound (walletLock P w) (.outside false)) :
    (walletUpdateProgram next).Sound (walletLock P w) (.outside owes) := by
  rintro g ⟨hfile, hreplay, horder⟩ s rfl
  refine ⟨horder, ?_⟩
  intro s' hs'
  have hview : (walletLock P w).view (s'.mapApp (AppState.sendEvent
      (AppState.walletEvent s.client.app.wallet))) =
        { s.guarded with updates := s.guarded.updates ++ [s.guarded.wallet] } := by
    have hsame : s'.guarded = s.guarded := hs'
    show SharedState.guarded _ = _
    rw [guarded_sendWallet, hsame]
    rfl
  have horder' : InOrder P.build w s.guarded.log (s.guarded.updates ++ [s.guarded.wallet]) := by
    have hwallet : s.guarded.wallet = replay P.build w s.guarded.log := hreplay
    rw [hwallet]
    exact horder.snoc_update
  rw [hview]
  refine ⟨horder', ⟨hfile, hreplay, horder'⟩, false, ?_, h⟩
  exact fun _ => Or.inl (Or.inr List.getLast?_concat)

/-- A change of the wallet that is stored and saved has yet to be announced. -/
theorem sound_storeWalletProgram {g : Guarded} {answers : Prop} (op : WalletOp)
    (hr : (walletLock P w).Resource g)
    (h : next.Sound (walletLock P w) (.outside true)) :
    (storeWalletProgram (op.apply P.build g.wallet) op
      (saveWalletProgram P.json (.unlock next))).Sound (walletLock P w) (.inside g answers) := by
  obtain ⟨-, hreplay, horder⟩ := hr
  have horder' : InOrder P.build w (g.log ++ [op]) g.updates := horder.snoc_op op
  rintro s rfl
  refine ⟨horder', ?_⟩
  intro s₁ hs₁
  refine ⟨by rw [id, hs₁]; exact horder', ?_⟩
  -- Nobody else writes the wallet or its file before the lock is released.
  have h₁ : s₁.guarded = ⟨op.apply P.build s.guarded.wallet, s.guarded.file,
      s.guarded.log ++ [op], s.guarded.updates⟩ := hs₁
  intro s₂ hs₂
  have h₂ : s₂.guarded = s₁.guarded := hs₂
  refine ⟨?_, ?_⟩
  · show InOrder _ _ (s₂.setFile []).guarded.log (s₂.setFile []).guarded.updates
    rw [guarded_setFile, h₂, h₁]
    exact horder'
  intro s₃ hs₃
  have h₃ : s₃.guarded = (s₂.setFile []).guarded := hs₃
  have hwallet : s₁.client.app.wallet = op.apply P.build s.guarded.wallet :=
    congrArg Guarded.wallet h₁
  have hview : (walletLock P w).view
      (s₃.setFile (asBytes (P.json.toStringPretty s₁.client.app.wallet))) =
        ⟨op.apply P.build s.guarded.wallet,
          saveWallet P.json (op.apply P.build s.guarded.wallet),
          s.guarded.log ++ [op], s.guarded.updates⟩ := by
    show SharedState.guarded _ = _
    rw [guarded_setFile, h₃, guarded_setFile, h₂, h₁, hwallet]
    rfl
  rw [hview]
  refine ⟨horder', ⟨readWallet_saveWallet P.json _, ?_, horder'⟩, true, fun _ => Or.inr rfl, h⟩
  rw [replay_snoc]
  exact congrArg (fun v => op.apply P.build v) hreplay

end Parts

/-! ## The programs -/

section Programs
variable {P : Platform} {ctx : ClientContext P.ed} {w : Wallet} {now : UInt64}

theorem sound_readBalanceProgram :
    readBalanceProgram.Sound (walletLock P w) (.outside false) := by
  rintro g hr s rfl
  exact ⟨hr.2.2, TaskProgram.sound_unlock_done hr⟩

theorem sound_sendMsgProgram (msgId : UInt64) (text : String) :
    (sendMsgProgram P ctx now msgId text).Sound (walletLock P w) (.outside false) := by
  intro s
  exact ⟨rfl, sound_transmitProgram (sound_pushMessageProgram rfl)⟩

theorem sound_payProgram (paymentId : UInt64) (dst : String) (amount : UInt64) :
    (payProgram P ctx now paymentId dst amount).Sound (walletLock P w) (.outside false) := by
  rintro g hr s rfl
  refine ⟨hr.2.2, ?_⟩
  show TaskProgram.Sound _ (if _ then _ else _) _
  split
  · exact TaskProgram.sound_unlock_done hr
  · exact sound_storeWalletProgram (.debit amount) hr
      (sound_transmitProgram (sound_pushMessageProgram (sound_walletUpdateProgram rfl)))

theorem sound_doPayProgram (paymentId : UInt64) (args : String) :
    (doPayProgram P ctx now paymentId args).Sound (walletLock P w) (.outside false) := by
  unfold doPayProgram
  split
  · rfl
  · split
    · rfl
    · split
      · exact sound_payProgram paymentId _ _
      · rfl

theorem sound_handleClassicProgram (m : Classic) :
    (handleClassicProgram P m).Sound (walletLock P w) (.outside false) := by
  apply sound_dedupProgram
  split
  · rfl
  · exact sound_pushMessageProgram rfl

theorem sound_handlePaymentProgram (p : Payment) :
    (handlePaymentProgram P ctx now p).Sound (walletLock P w) (.outside false) := by
  unfold handlePaymentProgram
  split
  · rfl
  · apply sound_dedupProgram
    rintro g hr s rfl
    refine ⟨hr.2.2, ?_⟩
    dsimp only
    split
    · -- The panic leaves the wallet and its file as they are.
      intro s' hs'
      have hview : (walletLock P w).view
          { s' with client := { s'.client with receiving := false } } = s.guarded := hs'
      rw [hview]
      exact ⟨hr.2.2, TaskProgram.sound_unlock_done hr⟩
    · rename_i v hc
      have hv : v = (WalletOp.credit p.amount).apply P.build s.guarded.wallet := by
        have hc' : credit P.build s.guarded.wallet p.amount = some v := hc
        rw [WalletOp.apply, hc', Option.getD_some]
      rw [hv]
      exact sound_storeWalletProgram (.credit p.amount) hr (sound_pushMessageProgram
        (sound_walletUpdateProgram (sound_transmitProgram rfl)))

theorem sound_handlePaymentAckProgram (a : PaymentAck) :
    (handlePaymentAckProgram P ctx now a).Sound (walletLock P w) (.outside false) := by
  unfold handlePaymentAckProgram
  split
  · rfl
  · exact sound_dedupProgram (sound_pushMessageProgram rfl)

theorem sound_handleMsgProgram (msg : Message) :
    (handleMsgProgram P ctx now msg).Sound (walletLock P w) (.outside false) := by
  cases msg with
  | classic m => exact sound_handleClassicProgram m
  | payment p => exact sound_handlePaymentProgram p
  | paymentAck a => exact sound_handlePaymentAckProgram a
  | register _ | connect _ | askForAddr _ | peerInfo _ _ => rfl

/-- **Every program of every task keeps to what the lock is for.** -/
theorem sound_of_mayRun {s : SharedState} {t : Task} {p : TaskProgram SharedState}
    (h : MayRun P ctx s t p) : p.Sound (walletLock P w) (.outside false) := by
  cases t with
  | receive =>
    obtain ⟨-, now, msg, rfl⟩ := h
    exact sound_handleMsgProgram msg
  | main =>
    rcases h with ⟨now, paymentId, args, rfl⟩ | ⟨now, msgId, text, rfl⟩ | rfl
    · exact sound_doPayProgram paymentId args
    · exact sound_sendMsgProgram msgId text
    · exact sound_readBalanceProgram
  | web n =>
    obtain rfl : p = readBalanceProgram := h
    exact sound_readBalanceProgram

/-! ## Runs -/

variable {localAddr : SocketAddr} {file : WalletFile}

theorem resource_start :
    (walletLock P (startup P ctx localAddr file).app.wallet).Resource
      (tasksStart P ctx localAddr file).guarded :=
  ⟨saved_startup localAddr file, rfl, inOrder_nil _ _⟩

end Programs

/-- **Memory and disk agree, and no change is lost.**  However the tasks of a client are
interleaved, whenever the lock on the wallet is free its file holds the wallet, and the
wallet is what the credits and debits made so far amount to, in the order in which the
lock was taken. -/
theorem wallet_kept (P : Platform) (ctx : ClientContext P.ed) (localAddr : SocketAddr)
    (file : WalletFile) (as : List (TaskAction Task SharedState))
    (has : (clientTasks P ctx).Always (fun _ _ => True)
      (TaskPool.idle (tasksStart P ctx localAddr file)) as) :
    let s := (clientTasks P ctx).run (TaskPool.idle (tasksStart P ctx localAddr file)) as
    s.holder = none →
      readWallet P.json s.shared.client.walletFile = some s.shared.client.app.wallet ∧
      s.shared.client.app.wallet =
        replay P.build (startup P ctx localAddr file).app.wallet s.shared.log := by
  intro s hfree
  have hr := TaskPool.resource_of_free (fun _ _ _ h => sound_of_mayRun h) resource_start
    (Or.inl rfl) has hfree
  exact ⟨hr.1, hr.2.1⟩

/-- Four satoshis for alice. -/
def fourForAlice : Payment := { srcId := "bob", dstId := "alice", amount := 4, paymentId := 8 }

/-- Alice, who has five satoshis, pays bob three while she receives four. -/
def bothTasks : List (TaskAction Task SharedState) :=
  [.start .main (doPayProgram samplePlatform alice 0 7 "bob 3"),
    .start .receive (handleMsgProgram samplePlatform alice 0 (.payment fourForAlice))]

/-- The order in which the two tasks take their steps. -/
def schedule : List Task :=
  List.replicate 3 .main ++ [.receive] ++ List.replicate 4 .main ++ List.replicate 8 .receive ++
    List.replicate 5 .main ++ [.receive] ++ List.replicate 2 .main ++ List.replicate 5 .receive

instance (s : TaskPool Task SharedState) (ts : List Task) :
    Decidable ((clientTasks samplePlatform alice).Always (fun _ _ => True) s (ts.map .step)) :=
  TaskPool.decidableSteps _ s ts

/-- The tasks of alice before they begin. -/
def aliceTasks : TaskPool Task SharedState :=
  TaskPool.idle (tasksStart samplePlatform alice (.v4 0 40000)
    (saveWallet plainJson { balance := 5, address := "1Alice" }))

/-- The tasks of alice after the run. -/
def aliceTasksDone : TaskPool Task SharedState :=
  (clientTasks samplePlatform alice).run aliceTasks (bothTasks ++ schedule.map .step)

theorem bothTasks_run :
    (clientTasks samplePlatform alice).Always (fun _ _ => True) aliceTasks
      (bothTasks ++ schedule.map .step) := by
  refine EventSystem.always_append.mpr ⟨?_, by decide +kernel⟩
  exact ⟨⟨rfl, Or.inl ⟨0, 7, "bob 3", rfl⟩⟩, trivial,
    ⟨rfl, rfl, 0, .payment fourForAlice, rfl⟩, trivial, trivial⟩

theorem bothTasks_done (t : Task) : aliceTasksDone.prog t = .done := by
  cases t with
  | receive => exact TaskProgram.eq_done_of_isDone (by decide +kernel)
  | main => exact TaskProgram.eq_done_of_isDone (by decide +kernel)
  | web n =>
    have hn : Task.web n ∉ schedule := by simp [schedule]
    rw [aliceTasksDone, EventSystem.run_append]
    exact TaskPool.prog_steps_of_not_mem hn

theorem bothTasks_kept :
    readWallet plainJson aliceTasksDone.shared.client.walletFile =
        some aliceTasksDone.shared.client.app.wallet ∧
      aliceTasksDone.shared.client.app.wallet =
        replay .release (aliceStart 5).app.wallet aliceTasksDone.shared.log :=
  wallet_kept samplePlatform alice (.v4 0 40000)
    (saveWallet plainJson { balance := 5, address := "1Alice" }) _ bothTasks_run
    (by decide +kernel)

/-- **The announcements are in order, and the last one is true.**  However the tasks of a
client are interleaved, the wallets announced are states of the wallet in their order; and
once all tasks are done, if the wallet was changed at all, the last one announced is the
wallet. -/
theorem announcements_in_order (P : Platform) (ctx : ClientContext P.ed)
    (localAddr : SocketAddr) (file : WalletFile) (as : List (TaskAction Task SharedState))
    (has : (clientTasks P ctx).Always (fun _ _ => True)
      (TaskPool.idle (tasksStart P ctx localAddr file)) as) :
    let s := (clientTasks P ctx).run (TaskPool.idle (tasksStart P ctx localAddr file)) as
    InOrder P.build (startup P ctx localAddr file).app.wallet s.shared.log
        s.shared.client.app.walletUpdates ∧
      ((∀ t, s.prog t = .done) → s.shared.log ≠ [] →
        s.shared.client.app.walletUpdates.getLast? = some s.shared.client.app.wallet) := by
  intro s
  refine ⟨?_, ?_⟩
  · exact TaskPool.guarantee_of_run (fun _ _ _ h => sound_of_mayRun h) resource_start
      (Or.inl rfl) has
  · intro hdone hlog
    have hsettled := TaskPool.settled_of_done (fun _ _ _ h => sound_of_mayRun h) resource_start
      (Or.inl rfl) has hdone
    exact hsettled.resolve_left hlog

theorem bothTasks_announced :
    aliceTasksDone.shared.client.app.walletUpdates.getLast? =
      some aliceTasksDone.shared.client.app.wallet :=
  (announcements_in_order samplePlatform alice (.v4 0 40000)
    (saveWallet plainJson { balance := 5, address := "1Alice" }) _ bothTasks_run).2
    bothTasks_done (by decide +kernel)

end Zeta
