import Zeta.ClientRun
import Zeta.SamplePlatform

/-!
# How often a payment is credited

A client recognises a payment it has credited by its key in the cache.  The cache
is bounded and is not saved with the wallet, so the client forgets a key when
10 000 newer ids have pushed it out, and when it is restarted.  Between two
credits of the same payment it must have forgotten it: a payment is credited at
most once more often than that (`credits_le_one_add_forgets`).
-/

namespace Zeta

section Counts
variable {P : Platform} (ctx : ClientContext P.ed) (paymentId : UInt64)

/-- Counts the credits of the payment. -/
def credits (s : ClientState) : ClientEvent → ℕ
  | .task (.recv now (.payment p)) =>
    if p.paymentId = paymentId ∧ (recvLoop P ctx now (.payment p) s).exit = .credited then 1 else 0
  | _ => 0

/-- Counts how often the client forgets a payment it has seen: it is restarted, or
handles a message that evicts the payment's key. -/
def forgets (s : ClientState) : ClientEvent → ℕ
  | .task (.recv _ msg) =>
    if s.receiving ∧ evictedBy ctx msg s = some (paymentKey paymentId) then 1 else 0
  | .restart _ => if paymentKey paymentId ∈ s.seen.set then 1 else 0
  | _ => 0

/-- `1` while the client has not seen the payment. -/
def unpaid (s : ClientState) : ℕ := if paymentKey paymentId ∈ s.seen.set then 0 else 1

end Counts

variable {P : Platform} {ctx : ClientContext P.ed} {paymentId : UInt64} {s : ClientState}

theorem unpaid_le_one (paymentId : UInt64) (s : ClientState) : unpaid paymentId s ≤ 1 := by
  unfold unpaid
  split <;> omega

theorem unpaid_congr {s' : ClientState} (h : s'.seen = s.seen) :
    unpaid paymentId s' = unpaid paymentId s := by
  rw [unpaid, unpaid, h]

/-- A credit finds the key unknown and leaves it cached. -/
theorem credited_unpaid {now : UInt64} {p : Payment}
    (h : (handleMsg P ctx now (.payment p) s).exit = .credited) :
    unpaid p.paymentId s = 1 ∧
      unpaid p.paymentId (handleMsg P ctx now (.payment p) s).state = 0 := by
  rcases handleMsg_cases P ctx now (.payment p) s with
    ⟨q, w, hq, hc⟩ | ⟨hn, -⟩
  · obtain rfl := Message.payment.inj hq
    have hnew : paymentKey p.paymentId ∉ s.seen.set := hc.accepts.2
    refine ⟨by simp [unpaid, hnew], ?_⟩
    have hkey : dedupKey ctx (.payment p) = some (paymentKey p.paymentId) := by
      simp [dedupKey, hc.accepts.1]
    simp [unpaid, handleMsg_seen, hkey]
  · exact absurd h hn

/-- A datagram either does not credit the payment, or is one that does. -/
theorem credits_cases (ctx : ClientContext P.ed) (paymentId now : UInt64) (msg : Message)
    (hrun : s.receiving = true) :
    credits ctx paymentId s (.task (.recv now msg)) = 0 ∨
    ∃ p, msg = .payment p ∧ p.paymentId = paymentId ∧
      (handleMsg P ctx now msg s).exit = .credited ∧
      credits ctx paymentId s (.task (.recv now msg)) = 1 := by
  cases msg with
  | payment p =>
    simp only [credits, recvLoop_receiving hrun]
    split
    · rename_i h
      exact Or.inr ⟨p, rfl, h.1, h.2, rfl⟩
    · exact Or.inl rfl
  | classic _ | paymentAck _ | register _ | connect _ | askForAddr _ | peerInfo _ _ =>
    exact Or.inl rfl

/-- A cached key stays cached unless the message evicts it. -/
theorem unpaid_handleMsg_le {now : UInt64} {msg : Message} (hrun : s.receiving = true) :
    unpaid paymentId (handleMsg P ctx now msg s).state ≤
      unpaid paymentId s + forgets ctx paymentId s (.task (.recv now msg)) := by
  have hone := unpaid_le_one paymentId (handleMsg P ctx now msg s).state
  by_cases hin : paymentKey paymentId ∈ s.seen.set
  · rcases mem_seen_handleMsg P ctx now msg hin with hstay | hev
    · simp [unpaid, hstay]
    · have hforget : forgets ctx paymentId s (.task (.recv now msg)) = 1 := by
        simp [forgets, hrun, hev]
      omega
  · have hself : unpaid paymentId s = 1 := if_neg hin
    omega

/-- **One event pays for a credit with the client's ignorance of the payment, which
only forgetting restores.** -/
theorem unpaid_step (e : ClientEvent) :
    credits ctx paymentId s e + unpaid paymentId ((client P ctx).next s e) ≤
      unpaid paymentId s + forgets ctx paymentId s e := by
  cases e with
  | restart localAddr =>
    -- A restart forgets the payment if it was cached; otherwise it was unpaid before.
    have hone := unpaid_le_one paymentId (startup P ctx localAddr s.walletFile)
    have hsum : unpaid paymentId s + forgets ctx paymentId s (.restart localAddr) = 1 := by
      unfold unpaid forgets
      split <;> rfl
    simp only [credits, client_next_restart]
    omega
  | task e =>
    cases e with
    | pay now id args =>
      simp only [credits, forgets, client_next_task, taskStep]
      rw [unpaid_congr (doPay_seen now id args)]
      omega
    | say now id text =>
      simp only [credits, forgets, client_next_task, taskStep]
      rw [unpaid_congr (sendMsg_seen now id text)]
      omega
    | recv now msg =>
      simp only [client_next_task, taskStep]
      cases hrun : s.receiving with
      | false =>
        have hstop : recvLoop P ctx now msg s = ⟨.ignored, s, []⟩ := recvLoop_stopped hrun
        have hcredits : credits ctx paymentId s (.task (.recv now msg)) = 0 := by
          cases msg <;> simp [credits, recvLoop_stopped hrun]
        rw [hcredits, hstop, Nat.zero_add]
        exact Nat.le_add_right _ _
      | true =>
        rw [recvLoop_receiving hrun]
        rcases credits_cases ctx paymentId now msg hrun with
          hnone | ⟨p, rfl, rfl, hexit, hone⟩
        · rw [hnone, Nat.zero_add]
          exact unpaid_handleMsg_le hrun
        · -- The key was unknown before the credit, and is cached now.
          obtain ⟨hbefore, hafter⟩ := credited_unpaid hexit
          omega

/-- **A payment is credited at most once more often than the client forgets it**, in
every run of datagrams, commands and restarts; in particular at most once while it
is neither restarted nor evicts the payment's key. -/
theorem credits_le_one_add_forgets (P : Platform) (ctx : ClientContext P.ed) (paymentId : UInt64)
    (s : ClientState) (es : List ClientEvent) :
    (client P ctx).sumAlong (credits ctx paymentId) s es ≤
      1 + (client P ctx).sumAlong (forgets ctx paymentId) s es := by
  have hrun : (client P ctx).Always (fun _ _ => True) s es :=
    EventSystem.always_true (fun _ _ => trivial)
  have hacc : (client P ctx).sumAlong (credits ctx paymentId) s es +
      unpaid paymentId ((client P ctx).run s es) ≤
      unpaid paymentId s + (client P ctx).sumAlong (forgets ctx paymentId) s es :=
    EventSystem.sumAlong_le_of_potential (fun _ e _ _ => unpaid_step e) hrun
  have hone := unpaid_le_one paymentId s
  omega

/-! ## A payment credited twice -/

/-- The payment arrives. -/
def fiveArrive : ClientEvent := .task (.recv 0 (.payment fiveForBob))

/-- The payment arrives, bob is restarted, and a copy of the payment arrives. -/
def restartRun : List ClientEvent := [fiveArrive, .restart (.v4 0 40001), fiveArrive]

/-- Unsigned texts with these ids arrive. -/
def forgedArrive (ids : List UInt64) : List ClientEvent :=
  ids.map (fun id => .task (.recv 0 (.classic (forged id))))

/-- As many ids as a client's cache has places. -/
def manyIds : List UInt64 := (List.range 10000).map UInt64.ofNat

/-- The payment arrives, then unsigned texts that fill the cache, then a copy of the
payment. -/
def evictionRun : List ClientEvent := fiveArrive :: forgedArrive manyIds ++ [fiveArrive]

/-- Texts change the cache of a client and nothing that matters to a payment. -/
theorem run_forgedArrive (P : Platform) (ctx : ClientContext P.ed) (ids : List UInt64)
    (h : s.receiving = true) :
    ((client P ctx).run s (forgedArrive ids)).seen = s.seen.after ids ∧
      ((client P ctx).run s (forgedArrive ids)).app.wallet = s.app.wallet ∧
      ((client P ctx).run s (forgedArrive ids)).receiving = true := by
  induction ids generalizing s with
  | nil => exact ⟨rfl, rfl, h⟩
  | cons id ids ih =>
    have hno : ∀ p, Message.classic (forged id) = .payment p → ¬ Accepts ctx s p := nofun
    obtain ⟨-, hwallet, -, hrecv, -⟩ := handleMsg_of_not_accepts P ctx 0 hno
    have hseen : (handleMsg P ctx 0 (.classic (forged id)) s).state.seen =
        (s.seen.isNew id).2 := handleMsg_seen _
    obtain ⟨hseen', hwallet', hrecv'⟩ := ih (hrecv.trans h)
    have hstep : (client P ctx).run s (forgedArrive (id :: ids)) =
        (client P ctx).run (handleMsg P ctx 0 (.classic (forged id)) s).state
          (forgedArrive ids) := by
      rw [← recvLoop_receiving h]
      rfl
    rw [hstep]
    exact ⟨by rw [hseen', hseen, SeenIds.after_cons], hwallet'.trans hwallet, hrecv'⟩

theorem credits_forgedArrive (P : Platform) (ctx : ClientContext P.ed) (paymentId : UInt64)
    (s : ClientState) (ids : List UInt64) :
    (client P ctx).sumAlong (credits ctx paymentId) s (forgedArrive ids) = 0 := by
  induction ids generalizing s with
  | nil => rfl
  | cons id ids ih =>
    show 0 + (client P ctx).sumAlong (credits ctx paymentId) _ (forgedArrive ids) = 0
    rw [ih, Nat.zero_add]

/-- The key of the payment and the ids of the texts are all different. -/
theorem nodup_manyIds : (paymentKey fiveForBob.paymentId :: manyIds).Nodup := by
  have hlt : ∀ i ∈ List.range 10000, (UInt64.ofNat i).toNat = i := by
    intro i hi
    have hi' := List.mem_range.mp hi
    rw [UInt64.toNat_ofNat']
    exact Nat.mod_eq_of_lt (by omega)
  refine List.nodup_cons.mpr ⟨?_, ?_⟩
  · intro hmem
    obtain ⟨i, hi, he⟩ := List.mem_map.mp hmem
    have hkey : (paymentKey fiveForBob.paymentId).toNat = 0xFFFF_FFFF_0000_0007 := by decide
    rw [← he, hlt i hi] at hkey
    have hi' := List.mem_range.mp hi
    omega
  · refine List.Nodup.map_on ?_ List.nodup_range
    intro i hi j hj he
    rw [← hlt i hi, ← hlt j hj, he]

/-- Bob, once the payment has been credited. -/
def bobPaid : ClientState :=
  (handleMsg samplePlatform bob 0 (.payment fiveForBob) (bobStart 0)).state

/-- Once the texts have filled the cache, a copy of the payment is accepted. -/
theorem accepts_after_manyIds :
    Accepts bob ((client samplePlatform bob).run bobPaid (forgedArrive manyIds)) fiveForBob := by
  have hqueue : bobPaid.seen.queue = [paymentKey fiveForBob.paymentId] := by decide
  have hmax : Nat.max 1 bobPaid.seen.max ≤ manyIds.length := by
    rw [manyIds, List.length_map, List.length_range]
    decide
  refine ⟨bob.isMe_peerId, ?_⟩
  rw [(run_forgedArrive samplePlatform bob manyIds (s := bobPaid) (by decide)).1]
  exact SeenIds.not_mem_after hqueue nodup_manyIds hmax

/-- When bob accepts the payment again, he has ten satoshis. -/
theorem credited_again (hrecv : s.receiving = true) (hbalance : s.app.wallet.balance = 5)
    (hacc : Accepts bob s fiveForBob) :
    (recvLoop samplePlatform bob 0 (.payment fiveForBob) s).exit = .credited ∧
      (recvLoop samplePlatform bob 0 (.payment fiveForBob) s).state.app.wallet.balance = 10 := by
  have hcredit : credit samplePlatform.build s.app.wallet fiveForBob.amount =
      some { s.app.wallet with balance := s.app.wallet.balance + 5 } := by
    apply credit_of_lt
    rw [hbalance]
    decide
  have hagain := creditedBy_of_accepts samplePlatform 0 hacc hcredit
  rw [recvLoop_receiving hrecv]
  refine ⟨hagain.exit, ?_⟩
  rw [hagain.wallet]
  show s.app.wallet.balance + 5 = 10
  rw [hbalance]
  rfl

/-- **A payment is credited twice**, one that alice sent with a single `/pay`: when its
recipient is restarted between two copies of it, and when 10 000 other ids arrive
between them. -/
theorem payment_credited_twice :
    (doPay samplePlatform alice 0 7 "bob 5" (aliceStart 5)).exit = .sent fiveForBob ∧
    ((client samplePlatform bob).sumAlong (credits bob 7) (bobStart 0) restartRun = 2 ∧
      ((client samplePlatform bob).run (bobStart 0) restartRun).app.wallet.balance = 10) ∧
    ((client samplePlatform bob).sumAlong (credits bob 7) (bobStart 0) evictionRun = 2 ∧
      ((client samplePlatform bob).run (bobStart 0) evictionRun).app.wallet.balance = 10) := by
  refine ⟨by decide +kernel, by decide +kernel, ?_⟩
  have hpaid : (client samplePlatform bob).next (bobStart 0) fiveArrive = bobPaid := by
    rw [fiveArrive, client_next_task, taskStep, recvLoop_receiving rfl, bobPaid]
  have hfirst : credits bob 7 (bobStart 0) fiveArrive = 1 := by decide +kernel
  -- The run of the texts is too long to compute: what it does to the cache and to the
  -- wallet is known from the lemmas above.
  obtain ⟨-, hwallet, hrecv⟩ := run_forgedArrive samplePlatform bob manyIds
    (s := bobPaid) (by decide)
  have hacc := accepts_after_manyIds
  have hsum := credits_forgedArrive samplePlatform bob 7 bobPaid manyIds
  rw [evictionRun, List.cons_append, EventSystem.sumAlong_cons, EventSystem.sumAlong_append,
    EventSystem.run_cons, EventSystem.run_append, hpaid, hfirst, hsum]
  generalize (client samplePlatform bob).run bobPaid (forgedArrive manyIds) = full at *
  have hbalance : full.app.wallet.balance = 5 := by
    rw [hwallet]
    decide +kernel
  obtain ⟨hexit, hten⟩ := credited_again hrecv hbalance hacc
  constructor
  · rw [EventSystem.sumAlong_cons, EventSystem.sumAlong_nil, fiveArrive, credits,
      if_pos ⟨rfl, hexit⟩]
  · rw [EventSystem.run_cons, EventSystem.run_nil, fiveArrive, client_next_task, taskStep]
    exact hten

end Zeta
