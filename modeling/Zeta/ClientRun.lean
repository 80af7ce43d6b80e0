import Zeta.ClientSteps
import Zeta.EventSystem

/-!
# Runs of one client

A running client has two tasks that act: the receive task takes datagrams from the
socket, the main task executes the user's commands (`TaskEvent`).  Whatever they
do, the process may be stopped and started again, which reloads the wallet from
its file and begins with an empty cache (`ClientEvent`).

Datagrams arrive in any order, any number of times, and with any contents: a run
is an arbitrary list of events.  The clock readings and random ids that the
handlers draw are part of the event.
-/

namespace Zeta

/-- What the tasks of a running client do. -/
inductive TaskEvent where
  /-- The receive task handles a datagram. -/
  | recv (now : UInt64) (msg : Message)
  /-- `/pay args`, which draws `paymentId` if it gets that far. -/
  | pay (now paymentId : UInt64) (args : String)
  /-- A line of text. -/
  | say (now msgId : UInt64) (text : String)

/-- What happens to a client. -/
inductive ClientEvent where
  | task (e : TaskEvent)
  /-- The process ends and is started again, with a socket of its own. -/
  | restart (localAddr : SocketAddr)

variable (P : Platform) (ctx : ClientContext P.ed)

/-- The client after one event of its tasks. -/
def taskStep (s : ClientState) : TaskEvent → ClientState
  | .recv now msg => (recvLoop P ctx now msg s).state
  | .pay now paymentId args => (doPay P ctx now paymentId args s).state
  | .say now msgId text => (sendMsg P ctx now msgId text s).1

/-- A running client. -/
def running : EventSystem ClientState TaskEvent where
  Enabled _ _ := True
  next := taskStep P ctx

/-- A client that may be restarted. -/
def client : EventSystem ClientState ClientEvent where
  Enabled _ _ := True
  next s
    | .task e => taskStep P ctx s e
    | .restart localAddr => startup P ctx localAddr s.walletFile

variable {P ctx} {s : ClientState}

@[simp] theorem running_next (s : ClientState) (e : TaskEvent) :
    (running P ctx).next s e = taskStep P ctx s e := rfl

@[simp] theorem client_next_task (s : ClientState) (e : TaskEvent) :
    (client P ctx).next s (.task e) = taskStep P ctx s e := rfl

@[simp] theorem client_next_restart (s : ClientState) (localAddr : SocketAddr) :
    (client P ctx).next s (.restart localAddr) = startup P ctx localAddr s.walletFile := rfl

theorem recvLoop_receiving {now : UInt64} {msg : Message} (h : s.receiving = true) :
    recvLoop P ctx now msg s = handleMsg P ctx now msg s := by
  simp [recvLoop, h]

theorem recvLoop_stopped {now : UInt64} {msg : Message} (h : s.receiving = false) :
    recvLoop P ctx now msg s = ⟨.ignored, s, []⟩ := by
  simp [recvLoop, h]

/-- A client displays a text exactly if it is running, has not seen the id, and the
signature verifies. -/
theorem displayed_iff {now : UInt64} {m : Classic} :
    (recvLoop P ctx now (.classic m) s).exit = .displayed ↔
      verify P.ed m.publicKey m.srcId m.txt m.time m.msgId m.signature = true ∧
        s.receiving = true ∧ m.msgId ∉ s.seen.set := by
  cases hrun : s.receiving with
  | false => simp [recvLoop_stopped hrun]
  | true =>
    rw [recvLoop_receiving hrun, handleMsg]
    by_cases hk : m.msgId ∈ s.seen.set
    · simp [handleClassic_duplicate hk, hk]
    · cases hv : verify P.ed m.publicKey m.srcId m.txt m.time m.msgId m.signature with
      | false => simp [handleClassic_invalid hk hv]
      | true => simp [handleClassic_displayed hk hv, hk]

/-! ## What the commands leave alone -/

@[simp] theorem doPay_seen (now paymentId : UInt64) (args : String) :
    (doPay P ctx now paymentId args s).state.seen = s.seen := by
  rcases doPay_cases P ctx now paymentId args s with
    ⟨p, h⟩ | ⟨-, h, -⟩
  · exact h.seen
  · rw [h]

@[simp] theorem doPay_receiving (now paymentId : UInt64) (args : String) :
    (doPay P ctx now paymentId args s).state.receiving = s.receiving := by
  rcases doPay_cases P ctx now paymentId args s with
    ⟨p, h⟩ | ⟨-, h, -⟩
  · exact h.receiving
  · rw [h]

@[simp] theorem sendMsg_seen (now msgId : UInt64) (text : String) :
    (sendMsg P ctx now msgId text s).1.seen = s.seen := rfl

@[simp] theorem sendMsg_receiving (now msgId : UInt64) (text : String) :
    (sendMsg P ctx now msgId text s).1.receiving = s.receiving := rfl

@[simp] theorem sendMsg_wallet (now msgId : UInt64) (text : String) :
    (sendMsg P ctx now msgId text s).1.app.wallet = s.app.wallet := rfl

/-! ## The wallet file -/

/-- The wallet file holds the wallet in memory. -/
def ClientState.Saved (J : WalletJson) (s : ClientState) : Prop :=
  readWallet J s.walletFile = some s.app.wallet

theorem saved_startup (localAddr : SocketAddr) (file : WalletFile) :
    (startup P ctx localAddr file).Saved P.json :=
  readWallet_loadOrCreateWallet P.json file ctx.myBtc

/-- A saved wallet survives a restart. -/
theorem startup_wallet {s : ClientState} (h : s.Saved P.json) (localAddr : SocketAddr) :
    (startup P ctx localAddr s.walletFile).app.wallet = s.app.wallet := by
  simp only [startup, loadOrCreateWallet_of_readWallet P.json h]

/-- **No task leaves the wallet file behind.** -/
theorem saved_taskStep {e : TaskEvent} (h : s.Saved P.json) :
    (taskStep P ctx s e).Saved P.json := by
  cases e with
  | say now msgId text => exact h
  | pay now paymentId args =>
    rcases doPay_cases P ctx now paymentId args s with
      ⟨p, hp⟩ | ⟨-, hstate, -⟩
    · rw [taskStep, ClientState.Saved, hp.wallet, hp.walletFile, readWallet_saveWallet]
    · rw [taskStep, hstate]
      exact h
  | recv now msg =>
    cases hrun : s.receiving with
    | false =>
      rw [taskStep, recvLoop_stopped hrun]
      exact h
    | true =>
      rw [taskStep, recvLoop_receiving hrun]
      rcases handleMsg_cases P ctx now msg s with
        ⟨p, w, -, hc⟩ | ⟨-, hwallet, hfile, -⟩
      · rw [ClientState.Saved, hc.wallet, hc.walletFile, readWallet_saveWallet]
      · rw [ClientState.Saved, hwallet, hfile]
        exact h

end Zeta
