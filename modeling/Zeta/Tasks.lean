import Zeta.NetworkSteps
import Zeta.LockedTasks

/-!
# The tasks of a client

Elsewhere a handler is one step.  Here it is the program of a task, whose atomic actions
interleave with those of the other tasks at every `await`: the receive task runs
`handle_msg`, the main task `do_pay` and `send_msg`, and the tasks of the web server read
the balance.  What they share is the `AppState`, with the wallet under its mutex, and the
wallet file, which `save_wallet` truncates before it writes it.

Run without interruption, a program does what the handler does
(`exec_handleMsgProgram`, `exec_doPayProgram`, `exec_sendMsgProgram`).
-/

namespace Zeta

/-- A change of the wallet that was made. -/
inductive WalletOp where
  | credit (amount : UInt64)
  | debit (amount : UInt64)
  deriving DecidableEq

/-- What the tasks of a client share.  `sent` is what they handed to the socket; `log`, the
changes of the wallet in the order in which they were made, is history. -/
structure SharedState where
  client : ClientState
  sent : Sends
  log : List WalletOp

namespace SharedState

/-- A change of the `AppState`. -/
def mapApp (f : AppState → AppState) (s : SharedState) : SharedState :=
  { s with client := { s.client with app := f s.client.app } }

/-- The wallet file gets these contents. -/
def setFile (bytes : List UInt8) (s : SharedState) : SharedState :=
  { s with client := { s.client with walletFile := some bytes } }

end SharedState

namespace AppState

/-- The event that `push_message` sends. -/
def messageEvent (msg : ChatMessage) : SseEvent where
  eventType := if msg.msgType = "message" then "message" else "payment"
  data := .message msg

/-- The event that `broadcast_wallet_update` sends. -/
def walletEvent (w : Wallet) : SseEvent where
  eventType := "wallet_update"
  data := .wallet w

/-- `self.messages.write().await`, and the entry is pushed. -/
def pushEntry (msg : ChatMessage) (a : AppState) : AppState :=
  { a with messages := retain a.messages msg }

/-- `self.events_tx.send(..)`. -/
def sendEvent (e : SseEvent) (a : AppState) : AppState := { a with events := a.events ++ [e] }

end AppState

/-! ## The parts of the programs -/

/-- `AppState::push_message`. -/
def pushMessageProgram (msg : ChatMessage) (next : TaskProgram SharedState) :
    TaskProgram SharedState :=
  .act (fun s => s.mapApp (AppState.pushEntry msg)) fun _ =>
  .act (fun s => s.mapApp (AppState.sendEvent (AppState.messageEvent msg))) fun _ => next

/-- `AppState::broadcast_wallet_update`: the wallet is read and sent under the lock. -/
def walletUpdateProgram (next : TaskProgram SharedState) : TaskProgram SharedState :=
  .lock <|
  .act id fun s =>
  .act (SharedState.mapApp (AppState.sendEvent (AppState.walletEvent s.client.app.wallet)))
    fun _ =>
  .unlock next

/-- `save_wallet`: the wallet is serialised, the file truncated and written. -/
def saveWalletProgram (J : WalletJson) (next : TaskProgram SharedState) :
    TaskProgram SharedState :=
  .act id fun s =>
  .act (SharedState.setFile []) fun _ =>
  .act (SharedState.setFile (asBytes (J.toStringPretty s.client.app.wallet))) fun _ => next

/-- The wallet is changed through the guard. -/
def storeWalletProgram (w : Wallet) (op : WalletOp) (next : TaskProgram SharedState) :
    TaskProgram SharedState :=
  .act (fun s => { s.mapApp (fun a => { a with wallet := w }) with log := s.log ++ [op] })
    fun _ => next

/-- Messages are handed to the socket. -/
def transmitProgram (sends : Sends) (next : TaskProgram SharedState) :
    TaskProgram SharedState :=
  .act (fun s => { s with sent := s.sent ++ sends }) fun _ => next

/-- `if !ctx.seen.lock().await.is_new(key) { return; }` -/
def dedupProgram (key : UInt64) (next : TaskProgram SharedState) : TaskProgram SharedState :=
  .act (fun s => { s with client := { s.client with seen := (s.client.seen.isNew key).2 } })
    fun s => if (s.client.seen.isNew key).1 = false then .done else next

/-! ## The programs -/

section Programs
variable (P : Platform) (ctx : ClientContext P.ed) (now : UInt64)

/-- `handle_msg`, on a `Classic`. -/
def handleClassicProgram (m : Classic) : TaskProgram SharedState :=
  dedupProgram m.msgId <|
  if verify P.ed m.publicKey m.srcId m.txt m.time m.msgId m.signature = false then .done
  else pushMessageProgram m.entry .done

/-- `handle_msg`, on a `Payment`. -/
def handlePaymentProgram (p : Payment) : TaskProgram SharedState :=
  if p.dstId ≠ ctx.peerId ∧ p.dstId ≠ ctx.myFp ∧ p.dstId ≠ ctx.myBtc then .done
  else
    dedupProgram (paymentKey p.paymentId) <|
    .lock <|
    .act id fun s =>
    match credit P.build s.client.app.wallet p.amount with
    -- The panic ends the task; the guard is dropped.
    | none =>
      .act (fun s => { s with client := { s.client with receiving := false } }) fun _ =>
      .unlock .done
    | some w =>
      storeWalletProgram w (.credit p.amount) <|
      saveWalletProgram P.json <|
      .unlock <|
      pushMessageProgram (p.entry now) <|
      walletUpdateProgram <|
      transmitProgram (sendToRelays (.paymentAck (p.ack ctx.peerId)) ctx.relayAddrs) .done

/-- `handle_msg`, on a `PaymentAck`. -/
def handlePaymentAckProgram (a : PaymentAck) : TaskProgram SharedState :=
  if a.toId ≠ ctx.peerId ∧ a.toId ≠ ctx.myFp ∧ a.toId ≠ ctx.myBtc then .done
  else dedupProgram (ackKey a.paymentId) <| pushMessageProgram (a.entry now) .done

/-- `handle_msg`. -/
def handleMsgProgram (msg : Message) : TaskProgram SharedState :=
  match msg with
  | .classic m => handleClassicProgram P m
  | .payment p => handlePaymentProgram P ctx now p
  | .paymentAck a => handlePaymentAckProgram P ctx now a
  | _ => .done

/-- `do_pay` once its arguments are read. -/
def payProgram (paymentId : UInt64) (dst : String) (amount : UInt64) : TaskProgram SharedState :=
  .lock <|
  .act id fun s =>
  if (debit s.client.app.wallet amount).1 = false then .unlock .done
  else
    storeWalletProgram (debit s.client.app.wallet amount).2 (.debit amount) <|
    saveWalletProgram P.json <|
    .unlock <|
    transmitProgram
      (sendToRelays (.payment { srcId := ctx.peerId, dstId := dst, amount, paymentId })
        ctx.relayAddrs) <|
    pushMessageProgram (paymentSentEntry P ctx now dst amount) <|
    walletUpdateProgram .done

/-- `do_pay`. -/
def doPayProgram (paymentId : UInt64) (args : String) : TaskProgram SharedState :=
  match splitSpace args.toList with
  | none => .done
  | some (dst, amount) =>
    match parseU64 (trim amount) with
    | none => .done
    | some n =>
      if n > 0 then payProgram P ctx now paymentId (String.ofList (trim dst)) n else .done

/-- `send_msg`. -/
def sendMsgProgram (msgId : UInt64) (text : String) : TaskProgram SharedState :=
  .act id fun s =>
  transmitProgram
    (sendToRelays (.classic (classicOf P ctx now msgId text s.client)) ctx.relayAddrs) <|
  pushMessageProgram (ownEntry P ctx now text) .done

/-- `/balance`, and `api_info`: the balance is read under the lock. -/
def readBalanceProgram : TaskProgram SharedState := .lock <| .act id fun _ => .unlock .done

end Programs

/-! ## The tasks -/

/-- The tasks of a client. -/
inductive Task where
  | receive
  | main
  /-- A request to the web server. -/
  | web (n : ℕ)
  deriving DecidableEq

section Tasks
variable (P : Platform) (ctx : ClientContext P.ed)

/-- What each task runs, over and over. -/
def MayRun (s : SharedState) : Task → TaskProgram SharedState → Prop
  | .receive, p => s.client.receiving = true ∧ ∃ now msg, p = handleMsgProgram P ctx now msg
  | .main, p =>
    (∃ now paymentId args, p = doPayProgram P ctx now paymentId args) ∨
    (∃ now msgId text, p = sendMsgProgram P ctx now msgId text) ∨
    p = readBalanceProgram
  | .web _, p => p = readBalanceProgram

/-- The tasks of a client, interleaved. -/
def clientTasks : EventSystem (TaskPool Task SharedState) (TaskAction Task SharedState) :=
  TaskPool.system (MayRun P ctx)

/-- `main_client` as its tasks are spawned. -/
def tasksStart (localAddr : SocketAddr) (file : WalletFile) : SharedState where
  client := startup P ctx localAddr file
  sent := []
  log := []

end Tasks

/-! ## The programs without interruption -/

/-- The result of a handler as a change of the shared state. -/
def SharedState.after (s : SharedState) (client : ClientState) (sends : Sends)
    (log : List WalletOp) : SharedState where
  client := client
  sent := s.sent ++ sends
  log := s.log ++ log

section Exec
variable {s : SharedState} {next : TaskProgram SharedState}

@[simp] theorem exec_pushMessageProgram (msg : ChatMessage) :
    (pushMessageProgram msg next).exec s =
      next.exec (s.mapApp (fun a => a.pushMessage msg)) := rfl

@[simp] theorem exec_walletUpdateProgram :
    (walletUpdateProgram next).exec s = next.exec (s.mapApp AppState.broadcastWalletUpdate) :=
  rfl

@[simp] theorem exec_saveWalletProgram (J : WalletJson) :
    (saveWalletProgram J next).exec s =
      next.exec (s.setFile (asBytes (J.toStringPretty s.client.app.wallet))) := rfl

@[simp] theorem exec_storeWalletProgram (w : Wallet) (op : WalletOp) :
    (storeWalletProgram w op next).exec s =
      next.exec { s.mapApp (fun a => { a with wallet := w }) with log := s.log ++ [op] } := rfl

@[simp] theorem exec_transmitProgram (sends : Sends) :
    (transmitProgram sends next).exec s = next.exec { s with sent := s.sent ++ sends } := rfl

/-- The cache afterwards. -/
def SharedState.dedup (s : SharedState) (key : UInt64) : SharedState :=
  { s with client := { s.client with seen := (s.client.seen.isNew key).2 } }

theorem exec_dedupProgram_of_mem {key : UInt64} (h : key ∈ s.client.seen.set) :
    (dedupProgram key next).exec s = s := by
  simp [dedupProgram, SeenIds.isNew_of_mem h, h]

theorem exec_dedupProgram_of_not_mem {key : UInt64} (h : key ∉ s.client.seen.set) :
    (dedupProgram key next).exec s = next.exec (s.dedup key) := by
  simp [dedupProgram, SharedState.dedup, h]

end Exec

variable {P : Platform} {ctx : ClientContext P.ed} {now : UInt64} {s : SharedState}

theorem exec_handleClassicProgram (m : Classic) :
    (handleClassicProgram P m).exec s =
      s.after (handleClassic P m s.client).state (handleClassic P m s.client).sends [] := by
  by_cases hk : m.msgId ∈ s.client.seen.set
  · rw [handleClassicProgram, exec_dedupProgram_of_mem hk, handleClassic_duplicate hk]
    simp [SharedState.after]
  · rw [handleClassicProgram, exec_dedupProgram_of_not_mem hk]
    cases hv : verify P.ed m.publicKey m.srcId m.txt m.time m.msgId m.signature with
    | false =>
      rw [handleClassic_invalid hk hv]
      simp [SharedState.after, SharedState.dedup]
    | true =>
      rw [handleClassic_displayed hk hv]
      simp [SharedState.after, SharedState.dedup, SharedState.mapApp]

theorem exec_handlePaymentProgram (p : Payment) :
    (handlePaymentProgram P ctx now p).exec s =
      s.after (handlePayment P ctx now p s.client).state (handlePayment P ctx now p s.client).sends
        (((handlePayment P ctx now p s.client).exit.payments (.payment p)).map
          (fun p => .credit p.amount)) := by
  by_cases hme : ctx.IsMe p.dstId
  · rw [handlePaymentProgram, if_neg (by rw [ctx.not_isMe_iff]; exact fun h => h hme)]
    by_cases hk : paymentKey p.paymentId ∈ s.client.seen.set
    · rw [exec_dedupProgram_of_mem hk, handlePayment_duplicate hme hk]
      simp [SharedState.after, ClientExit.payments]
    · rw [exec_dedupProgram_of_not_mem hk]
      cases hc : credit P.build s.client.app.wallet p.amount with
      | none =>
        rw [handlePayment_panicked hme hk hc]
        simp [SharedState.after, SharedState.dedup, ClientExit.payments, hc]
      | some w =>
        rw [handlePayment_credited hme hk hc]
        simp [SharedState.after, SharedState.dedup, SharedState.mapApp, SharedState.setFile,
          ClientExit.payments, hc, saveWallet, AppState.pushMessage,
          AppState.broadcastWalletUpdate]
  · rw [handlePaymentProgram, if_pos ((ctx.not_isMe_iff).mpr hme), handlePayment_notForMe hme]
    simp [SharedState.after, ClientExit.payments]

theorem exec_handlePaymentAckProgram (a : PaymentAck) :
    (handlePaymentAckProgram P ctx now a).exec s =
      s.after (handlePaymentAck P ctx now a s.client).state
        (handlePaymentAck P ctx now a s.client).sends [] := by
  by_cases hme : ctx.IsMe a.toId
  · rw [handlePaymentAckProgram, if_neg (by rw [ctx.not_isMe_iff]; exact fun h => h hme)]
    by_cases hk : ackKey a.paymentId ∈ s.client.seen.set
    · rw [exec_dedupProgram_of_mem hk, handlePaymentAck_duplicate hme hk]
      simp [SharedState.after]
    · rw [exec_dedupProgram_of_not_mem hk, handlePaymentAck_acknowledged hme hk]
      simp [SharedState.after, SharedState.dedup, SharedState.mapApp]
  · rw [handlePaymentAckProgram, if_pos ((ctx.not_isMe_iff).mpr hme),
      handlePaymentAck_notForMe hme]
    simp [SharedState.after]

/-- Only a payment is credited. -/
theorem payments_of_not_payment {msg : Message} (h : ∀ p, msg ≠ .payment p)
    {exit : ClientExit} : exit.payments msg = [] := by
  cases msg with
  | payment p => exact absurd rfl (h p)
  | register _ | connect _ | askForAddr _ | peerInfo _ _ | classic _ | paymentAck _ =>
    cases exit <;> rfl

/-- **`handle_msg` without interruption.** -/
theorem exec_handleMsgProgram (msg : Message) :
    (handleMsgProgram P ctx now msg).exec s =
      s.after (handleMsg P ctx now msg s.client).state (handleMsg P ctx now msg s.client).sends
        (((handleMsg P ctx now msg s.client).exit.payments msg).map
          (fun p => .credit p.amount)) := by
  cases msg with
  | register _ | connect _ | askForAddr _ | peerInfo _ _ =>
    simp [handleMsgProgram, handleMsg, SharedState.after, ClientExit.payments]
  | classic m =>
    rw [payments_of_not_payment (fun _ => Message.noConfusion)]
    exact exec_handleClassicProgram m
  | payment p => exact exec_handlePaymentProgram p
  | paymentAck a =>
    rw [payments_of_not_payment (fun _ => Message.noConfusion)]
    exact exec_handlePaymentAckProgram a

theorem exec_payProgram (paymentId : UInt64) (dst : String) (amount : UInt64) :
    (payProgram P ctx now paymentId dst amount).exec s =
      s.after (pay P ctx now paymentId dst amount s.client).state
        (pay P ctx now paymentId dst amount s.client).sends
        ((pay P ctx now paymentId dst amount s.client).exit.payments.map
          (fun p => .debit p.amount)) := by
  cases hd : (debit s.client.app.wallet amount).1 with
  | false => simp [payProgram, pay, hd, SharedState.after, PayExit.payments]
  | true =>
    simp [payProgram, pay, hd, SharedState.after, SharedState.mapApp, SharedState.setFile,
      PayExit.payments, saveWallet, paymentSentEntry, AppState.pushMessage,
      AppState.broadcastWalletUpdate]

/-- **`do_pay` without interruption.** -/
theorem exec_doPayProgram (paymentId : UInt64) (args : String) :
    (doPayProgram P ctx now paymentId args).exec s =
      s.after (doPay P ctx now paymentId args s.client).state
        (doPay P ctx now paymentId args s.client).sends
        ((doPay P ctx now paymentId args s.client).exit.payments.map
          (fun p => .debit p.amount)) := by
  have hrefused : s = s.after s.client [] [] := by simp [SharedState.after]
  unfold doPayProgram doPay
  cases splitSpace args.toList with
  | none => exact hrefused
  | some parts =>
    dsimp only
    cases parseU64 (trim parts.2) with
    | none => exact hrefused
    | some n =>
      dsimp only
      split
      · exact exec_payProgram paymentId _ n
      · exact hrefused

/-- **`send_msg` without interruption.** -/
theorem exec_sendMsgProgram (msgId : UInt64) (text : String) :
    (sendMsgProgram P ctx now msgId text).exec s =
      s.after (sendMsg P ctx now msgId text s.client).1
        (sendMsg P ctx now msgId text s.client).2 [] := by
  simp [sendMsgProgram, sendMsg, SharedState.after, SharedState.mapApp, ownEntry]

end Zeta
