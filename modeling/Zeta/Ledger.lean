import Zeta.ClientRun
import Zeta.SamplePlatform

/-!
# The ledger of one client

The books of a running client: what it starts with, what it receives, what it
spends.  `debit` refuses to go below zero.  `credit` adds whatever amount a
datagram names and checks nothing: it wraps in a release build, and in a debug
build it panics, which ends the receive task.

The books balance over the natural numbers exactly as long as no accepted payment
takes the balance to `2^64` (`exactLedger_iff`).
-/

namespace Zeta

/-- The amount a `do_pay` debited. -/
def PayExit.spent : PayExit → ℕ
  | .sent p => p.amount.toNat
  | _ => 0

section Books
variable {P : Platform} (ctx : ClientContext P.ed)

/-- The amount of the payment the client accepts in this event. -/
def received (s : ClientState) : TaskEvent → ℕ
  | .recv _ (.payment p) => if s.receiving = true ∧ Accepts ctx s p then p.amount.toNat else 0
  | _ => 0

/-- The event is no payment that takes the balance to `2^64` or beyond. -/
def NoOverflow (s : ClientState) : TaskEvent → Prop
  | .recv _ (.payment p) =>
    s.receiving = true → Accepts ctx s p → s.balance + p.amount.toNat < 2 ^ 64
  | _ => True

variable (P)

/-- The amount the client's user spends in this event. -/
def spent (s : ClientState) : TaskEvent → ℕ
  | .pay now paymentId args => (doPay P ctx now paymentId args s).exit.spent
  | _ => 0

/-- This event's entry in the books is exact. -/
def ExactStep (s : ClientState) (e : TaskEvent) : Prop :=
  spent P ctx s e + (taskStep P ctx s e).balance = s.balance + received ctx s e

/-- The books of a run balance. -/
structure ExactLedger (s : ClientState) (es : List TaskEvent) : Prop where
  /-- What was spent and what is left is what there was and what was received. -/
  balance : (running P ctx).sumAlong (spent P ctx) s es + ((running P ctx).run s es).balance =
    s.balance + (running P ctx).sumAlong (received ctx) s es
  /-- No step wraps. -/
  exact : (running P ctx).Always (ExactStep P ctx) s es
  /-- No step panics. -/
  receiving : (running P ctx).Always
    (fun s e => s.receiving = true → (taskStep P ctx s e).receiving = true) s es
  /-- Receiving never lowers the balance. -/
  monotone : (running P ctx).Always
    (fun s e => ∀ now msg, e = .recv now msg → s.balance ≤ (taskStep P ctx s e).balance) s es

end Books

variable {P : Platform} {ctx : ClientContext P.ed} {now : UInt64} {s : ClientState}

@[simp] theorem spent_recv (msg : Message) : spent P ctx s (.recv now msg) = 0 := rfl

@[simp] theorem received_pay (paymentId : UInt64) (args : String) :
    received ctx s (.pay now paymentId args) = 0 := rfl

/-! ## One event -/

/-- What becomes of the balance when a payment is accepted. -/
theorem balance_of_accepts {p : Payment} (h : Accepts ctx s p) :
    (handleMsg P ctx now (.payment p) s).state.balance =
      ((credit P.build s.app.wallet p.amount).getD s.app.wallet).balance.toNat := by
  cases hc : credit P.build s.app.wallet p.amount with
  | none =>
    obtain ⟨hme, hnew⟩ := h
    simp [ClientState.balance, handleMsg, handlePayment_panicked hme hnew hc]
  | some w =>
    rw [ClientState.balance, (creditedBy_of_accepts P now h hc).wallet]
    rfl

/-- A datagram that is no payment to accept does not change the balance. -/
theorem balance_of_not_received {msg : Message}
    (h : ∀ p, msg = .payment p → ¬ (s.receiving = true ∧ Accepts ctx s p)) :
    (recvLoop P ctx now msg s).state.balance = s.balance := by
  cases hrun : s.receiving with
  | false => rw [recvLoop_stopped hrun]
  | true =>
    obtain ⟨-, hwallet, -⟩ := handleMsg_of_not_accepts P ctx now
      (s := s) (fun p hp ha => h p hp ⟨hrun, ha⟩)
    rw [recvLoop_receiving hrun, ClientState.balance, hwallet]
    rfl

theorem received_of_not {msg : Message}
    (h : ∀ p, msg = .payment p → ¬ (s.receiving = true ∧ Accepts ctx s p)) :
    received ctx s (.recv now msg) = 0 := by
  cases msg with
  | payment p => exact if_neg (h p rfl)
  | classic _ | paymentAck _ | register _ | connect _ | askForAddr _ | peerInfo _ _ => rfl

/-- A `/pay` is always exact. -/
theorem exactStep_pay (paymentId : UInt64) (args : String) :
    ExactStep P ctx s (.pay now paymentId args) := by
  rcases doPay_cases P ctx now paymentId args s with
    ⟨p, hp⟩ | ⟨hexit, hstate, -⟩
  · have hd := debit_balance hp.debited
    simp only [ExactStep, spent, hp.exit, PayExit.spent, taskStep, ClientState.balance, hp.wallet,
      received_pay]
    omega
  · have hspent : spent P ctx s (.pay now paymentId args) = 0 := by
      cases he : (doPay P ctx now paymentId args s).exit with
      | sent p => exact absurd he (hexit p)
      | usage | invalidAmount | insufficientBalance => simp only [spent, he, PayExit.spent]
    rw [ExactStep, hspent, taskStep, hstate, received_pay]
    omega

/-- A received payment as an entry in the books. -/
theorem exactStep_accepted (P : Platform) {ctx : ClientContext P.ed} (now : UInt64) {p : Payment}
    (hrun : s.receiving = true) (h : Accepts ctx s p) :
    received ctx s (.recv now (.payment p)) = p.amount.toNat ∧
      (taskStep P ctx s (.recv now (.payment p))).balance =
        ((credit P.build s.app.wallet p.amount).getD s.app.wallet).balance.toNat := by
  refine ⟨if_pos ⟨hrun, h⟩, ?_⟩
  rw [taskStep, recvLoop_receiving hrun]
  exact balance_of_accepts h

/-- An event that is no accepted payment is exact. -/
theorem exactStep_of_not {e : TaskEvent}
    (h : ∀ now p, e = .recv now (.payment p) → ¬ (s.receiving = true ∧ Accepts ctx s p)) :
    ExactStep P ctx s e := by
  cases e with
  | pay now paymentId args => exact exactStep_pay paymentId args
  | say now msgId text =>
    simp [ExactStep, spent, received, taskStep, ClientState.balance]
  | recv now msg =>
    have hmsg : ∀ p, msg = .payment p → ¬ (s.receiving = true ∧ Accepts ctx s p) := by
      rintro p rfl
      exact h now p rfl
    rw [ExactStep, received_of_not hmsg, taskStep, balance_of_not_received hmsg, spent_recv]
    omega

theorem accepted_or_not (ctx : ClientContext P.ed) (s : ClientState) (e : TaskEvent) :
    (∃ now p, e = .recv now (.payment p) ∧ s.receiving = true ∧ Accepts ctx s p) ∨
    (∀ now p, e = .recv now (.payment p) → ¬ (s.receiving = true ∧ Accepts ctx s p)) := by
  by_cases h : ∃ now p, e = .recv now (.payment p) ∧ s.receiving = true ∧ Accepts ctx s p
  · exact Or.inl h
  · exact Or.inr (fun now p he ha => h ⟨now, p, he, ha⟩)

/-- No event books more than it should. -/
theorem ledger_step_le (s : ClientState) (e : TaskEvent) :
    spent P ctx s e + (taskStep P ctx s e).balance ≤ s.balance + received ctx s e := by
  rcases accepted_or_not ctx s e with ⟨now, p, rfl, hrun, hacc⟩ | h
  · obtain ⟨hrec, hbal⟩ := exactStep_accepted P now hrun hacc
    rw [hrec, hbal, spent_recv, Nat.zero_add]
    exact credit_le _ _ _
  · exact (exactStep_of_not h).le

/-- **An event is booked exactly if and only if it does not overflow.** -/
theorem exactStep_iff (e : TaskEvent) : ExactStep P ctx s e ↔ NoOverflow ctx s e := by
  rcases accepted_or_not ctx s e with ⟨now, p, rfl, hrun, hacc⟩ | h
  · obtain ⟨hrec, hbal⟩ := exactStep_accepted P now hrun hacc
    rw [ExactStep, hrec, hbal, spent_recv, Nat.zero_add, ClientState.balance, credit_exact_iff]
    exact ⟨fun hlt _ _ => hlt, fun hlt => hlt hrun hacc⟩
  · refine iff_of_true (exactStep_of_not h) ?_
    cases e with
    | recv now msg =>
      cases msg with
      | payment p => exact fun hrun hacc => absurd ⟨hrun, hacc⟩ (h now p rfl)
      | classic _ | paymentAck _ | register _ | connect _ | askForAddr _ | peerInfo _ _ =>
        trivial
    | pay _ _ _ | say _ _ _ => trivial

/-- An event that does not overflow does not end the receive task. -/
theorem receiving_of_noOverflow {e : TaskEvent} (h : NoOverflow ctx s e)
    (hrun : s.receiving = true) : (taskStep P ctx s e).receiving = true := by
  cases e with
  | pay now paymentId args => rw [taskStep, doPay_receiving, hrun]
  | say now msgId text => rw [taskStep, sendMsg_receiving, hrun]
  | recv now msg =>
    rw [taskStep, recvLoop_receiving hrun]
    by_cases hacc : ∃ p, msg = .payment p ∧ Accepts ctx s p
    · obtain ⟨p, rfl, hp⟩ := hacc
      rw [(creditedBy_of_accepts P now hp (credit_of_lt (h hrun hp))).receiving, hrun]
    · obtain ⟨-, -, -, hrecv, -⟩ := handleMsg_of_not_accepts P ctx now
        (fun p hp ha => hacc ⟨p, hp, ha⟩)
      rw [hrecv, hrun]

/-- A datagram that is booked exactly does not lower the balance. -/
theorem balance_le_of_exactStep {msg : Message} (h : ExactStep P ctx s (.recv now msg)) :
    s.balance ≤ (taskStep P ctx s (.recv now msg)).balance := by
  rw [ExactStep, spent_recv, Nat.zero_add] at h
  rw [h]
  exact Nat.le_add_right _ _

/-! ## A run -/

/-- **The ledger of a run is exact if and only if no accepted payment overflows.** -/
theorem exactLedger_iff (P : Platform) (ctx : ClientContext P.ed) (s : ClientState)
    (es : List TaskEvent) :
    ExactLedger P ctx s es ↔ (running P ctx).Always (NoOverflow ctx) s es := by
  constructor
  · intro h
    exact h.exact.imp (fun _ e _ he => (exactStep_iff e).mp he)
  · intro h
    have hexact : (running P ctx).Always (ExactStep P ctx) s es :=
      h.imp (fun s e _ he => (exactStep_iff e).mpr he)
    refine ⟨?_, hexact, h.imp (fun s e _ he hrun => receiving_of_noOverflow he hrun), ?_⟩
    · exact (EventSystem.sumAlong_eq_iff_always_eq (M := running P ctx)
        (fun _ _ => trivial) ledger_step_le).mpr hexact
    · refine hexact.imp ?_
      rintro s e - he now msg rfl
      exact balance_le_of_exactStep he

/-! ## A payment that overflows -/

/-- The largest amount there is, for bob. -/
def hugeForBob : Payment :=
  { srcId := "mallory", dstId := "bob", amount := 0xFFFF_FFFF_FFFF_FFFF, paymentId := 9 }

/-- The same program in a debug build. -/
def debugPlatform : Platform := { samplePlatform with build := .debug }

/-- **Receiving money loses it.**  Bob owns one satoshi; the payment wraps his balance
to zero in a release build, and ends his receive task in a debug build. -/
theorem huge_payment_not_exact :
    let es : List TaskEvent := [.recv 0 (.payment hugeForBob)]
    (¬ ExactLedger samplePlatform bob (bobStart 1) es ∧
      ((running samplePlatform bob).run (bobStart 1) es).balance = 0) ∧
    (¬ ExactLedger debugPlatform bob (bobStart 1) es ∧
      ((running debugPlatform bob).run (bobStart 1) es).receiving = false) :=
  ⟨⟨fun h => absurd h.balance (by decide +kernel), by decide +kernel⟩,
    ⟨fun h => absurd h.balance (by decide +kernel), by decide +kernel⟩⟩

end Zeta
