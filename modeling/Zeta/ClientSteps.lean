import Zeta.Client

/-!
# What one client handler does

The equations of `handleMsg` branch by branch, and from them the two facts every
later module reads: which id a message presents to the cache (`dedupKey`), and
what a message does to the wallet (`handleMsg_cases`).
-/

namespace Zeta

variable {P : Platform} {ctx : ClientContext P.ed} {now : UInt64} {s : ClientState}

/-! ## A `Classic` -/

theorem handleClassic_duplicate {m : Classic} (h : m.msgId ∈ s.seen.set) :
    handleClassic P m s = ⟨.duplicate, s, []⟩ := by
  simp [handleClassic, SeenIds.isNew_of_mem h]

theorem handleClassic_invalid {m : Classic} (h : m.msgId ∉ s.seen.set)
    (hv : verify P.ed m.publicKey m.srcId m.txt m.time m.msgId m.signature = false) :
    handleClassic P m s =
      ⟨.invalidSignature, { s with seen := (s.seen.isNew m.msgId).2 }, []⟩ := by
  simp [handleClassic, h, hv]

/-- The feed entry of a `Classic` that is displayed. -/
def Classic.entry (m : Classic) : ChatMessage where
  fromId := m.srcId
  fingerprint := fingerprint m.publicKey
  text := m.txt
  timestamp := m.time
  msgType := "message"

theorem handleClassic_displayed {m : Classic} (h : m.msgId ∉ s.seen.set)
    (hv : verify P.ed m.publicKey m.srcId m.txt m.time m.msgId m.signature = true) :
    handleClassic P m s =
      ⟨.displayed,
        { s with seen := (s.seen.isNew m.msgId).2, app := s.app.pushMessage m.entry }, []⟩ := by
  simp [handleClassic, h, hv, Classic.entry]

/-- A client signs its own texts. -/
theorem verify_classicOf (hE : P.ed.Correct) (ctx : ClientContext P.ed) (now msgId : UInt64)
    (text : String) (s : ClientState) :
    let m := classicOf P ctx now msgId text s
    verify P.ed m.publicKey m.srcId m.txt m.time m.msgId m.signature = true :=
  verify_sign hE _ _ _ _ _

/-! ## A `Payment` -/

theorem handlePayment_notForMe {p : Payment} (h : ¬ ctx.IsMe p.dstId) :
    handlePayment P ctx now p s = ⟨.notForMe, s, []⟩ := by
  simp only [handlePayment, ctx.not_isMe_iff, h, not_false_eq_true, if_true]

theorem handlePayment_duplicate {p : Payment} (hme : ctx.IsMe p.dstId)
    (h : paymentKey p.paymentId ∈ s.seen.set) :
    handlePayment P ctx now p s = ⟨.duplicate, s, []⟩ := by
  simp only [handlePayment, ctx.not_isMe_iff, hme, not_true_eq_false, if_false,
    SeenIds.isNew_of_mem h, if_true]

theorem handlePayment_panicked {p : Payment} (hme : ctx.IsMe p.dstId)
    (h : paymentKey p.paymentId ∉ s.seen.set)
    (hc : credit P.build s.app.wallet p.amount = none) :
    handlePayment P ctx now p s =
      ⟨.panicked,
        { s with seen := (s.seen.isNew (paymentKey p.paymentId)).2, receiving := false }, []⟩ := by
  simp [handlePayment, ctx.not_isMe_iff, hme, h, hc]

/-- The acknowledgement of a payment. -/
def Payment.ack (p : Payment) (peerId : String) : PaymentAck where
  paymentId := p.paymentId
  fromId := peerId
  toId := p.srcId

/-- The feed entry of a payment received. -/
def Payment.entry (p : Payment) (now : UInt64) : ChatMessage where
  fromId := p.srcId
  fingerprint := ""
  text := toString p.amount.toNat
  timestamp := now
  msgType := "payment_received"

theorem handlePayment_credited {p : Payment} {w : Wallet} (hme : ctx.IsMe p.dstId)
    (h : paymentKey p.paymentId ∉ s.seen.set)
    (hc : credit P.build s.app.wallet p.amount = some w) :
    handlePayment P ctx now p s =
      ⟨.credited,
        { s with
          seen := (s.seen.isNew (paymentKey p.paymentId)).2
          app := ({ s.app with wallet := w }.pushMessage (p.entry now)).broadcastWalletUpdate
          walletFile := saveWallet P.json w },
        sendToRelays (.paymentAck (p.ack ctx.peerId)) ctx.relayAddrs⟩ := by
  simp [handlePayment, ctx.not_isMe_iff, hme, h, hc, Payment.ack, Payment.entry]

/-! ## A `PaymentAck` -/

theorem handlePaymentAck_notForMe {a : PaymentAck} (h : ¬ ctx.IsMe a.toId) :
    handlePaymentAck P ctx now a s = ⟨.notForMe, s, []⟩ := by
  simp only [handlePaymentAck, ctx.not_isMe_iff, h, not_false_eq_true, if_true]

theorem handlePaymentAck_duplicate {a : PaymentAck} (hme : ctx.IsMe a.toId)
    (h : ackKey a.paymentId ∈ s.seen.set) :
    handlePaymentAck P ctx now a s = ⟨.duplicate, s, []⟩ := by
  simp only [handlePaymentAck, ctx.not_isMe_iff, hme, not_true_eq_false, if_false,
    SeenIds.isNew_of_mem h, if_true]

/-- The feed entry of a confirmed payment. -/
def PaymentAck.entry (a : PaymentAck) (now : UInt64) : ChatMessage where
  fromId := a.fromId
  fingerprint := ""
  text := ""
  timestamp := now
  msgType := "payment_ack"

theorem handlePaymentAck_acknowledged {a : PaymentAck} (hme : ctx.IsMe a.toId)
    (h : ackKey a.paymentId ∉ s.seen.set) :
    handlePaymentAck P ctx now a s =
      ⟨.acknowledged,
        { s with
          seen := (s.seen.isNew (ackKey a.paymentId)).2
          app := s.app.pushMessage (a.entry now) }, []⟩ := by
  simp [handlePaymentAck, ctx.not_isMe_iff, hme, h, PaymentAck.entry]

/-! ## The cache -/

/-- The id `handle_msg` presents to the cache for this message, if it gets that
far: the signature of a `Classic` is checked after this, the recipient of a
payment or acknowledgement before. -/
def dedupKey (ctx : ClientContext P.ed) : Message → Option UInt64
  | .classic m => some m.msgId
  | .payment p => if ctx.IsMe p.dstId then some (paymentKey p.paymentId) else none
  | .paymentAck a => if ctx.IsMe a.toId then some (ackKey a.paymentId) else none
  | _ => none

/-- A message with a key is of one of the three kinds, and addressed to the client if
it is addressed at all. -/
theorem dedupKey_cases {msg : Message} {k : UInt64} (hk : dedupKey ctx msg = some k) :
    (∃ m, msg = .classic m ∧ m.msgId = k) ∨
    (∃ p, msg = .payment p ∧ ctx.IsMe p.dstId ∧ paymentKey p.paymentId = k) ∨
    (∃ a, msg = .paymentAck a ∧ ctx.IsMe a.toId ∧ ackKey a.paymentId = k) := by
  cases msg with
  | classic m => exact Or.inl ⟨m, rfl, Option.some.inj hk⟩
  | payment p =>
    by_cases hme : ctx.IsMe p.dstId
    · simp only [dedupKey, hme, if_true, Option.some.injEq] at hk
      exact Or.inr (Or.inl ⟨p, rfl, hme, hk⟩)
    · simp [dedupKey, hme] at hk
  | paymentAck a =>
    by_cases hme : ctx.IsMe a.toId
    · simp only [dedupKey, hme, if_true, Option.some.injEq] at hk
      exact Or.inr (Or.inr ⟨a, rfl, hme, hk⟩)
    · simp [dedupKey, hme] at hk
  | register _ | connect _ | askForAddr _ | peerInfo _ _ => cases hk

/-- A message whose key is cached is dropped, and leaves no trace. -/
theorem handleMsg_of_mem {msg : Message} {k : UInt64} (hk : dedupKey ctx msg = some k)
    (h : k ∈ s.seen.set) : handleMsg P ctx now msg s = ⟨.duplicate, s, []⟩ := by
  -- For each of the three kinds the handler's own duplicate branch.
  rcases dedupKey_cases hk with ⟨m, rfl, rfl⟩ | ⟨p, rfl, hme, rfl⟩ | ⟨a, rfl, hme, rfl⟩
  · exact handleClassic_duplicate h
  · exact handlePayment_duplicate hme h
  · exact handlePaymentAck_duplicate hme h

/-- **The cache after a message**: what `is_new` makes of the message's key. -/
theorem handleMsg_seen (msg : Message) :
    (handleMsg P ctx now msg s).state.seen =
      match dedupKey ctx msg with
      | none => s.seen
      | some k => (s.seen.isNew k).2 := by
  cases msg with
  | classic m =>
    simp only [handleMsg, handleClassic, dedupKey]
    split
    · rfl
    · split <;> rfl
  | payment p =>
    by_cases hme : ctx.IsMe p.dstId
    · simp only [handleMsg, handlePayment, dedupKey, ctx.not_isMe_iff, hme, not_true_eq_false,
        if_false, if_true]
      split
      · rfl
      · cases credit P.build s.app.wallet p.amount <;> rfl
    · simp [handleMsg, handlePayment_notForMe hme, dedupKey, hme]
  | paymentAck a =>
    by_cases hme : ctx.IsMe a.toId
    · simp only [handleMsg, handlePaymentAck, dedupKey, ctx.not_isMe_iff, hme,
        not_true_eq_false, if_false, if_true]
      split <;> rfl
    · simp [handleMsg, handlePaymentAck_notForMe hme, dedupKey, hme]
  | register _ | connect _ | askForAddr _ | peerInfo _ _ => rfl

/-- The id this message pushes out of the cache, if it pushes one out. -/
def evictedBy (ctx : ClientContext P.ed) (msg : Message) (s : ClientState) : Option UInt64 :=
  (dedupKey ctx msg).bind s.seen.evicted

/-- A cached id stays cached unless this message evicts it. -/
theorem mem_seen_handleMsg (P : Platform) (ctx : ClientContext P.ed) (now : UInt64)
    (msg : Message) {x : UInt64} (h : x ∈ s.seen.set) :
    x ∈ (handleMsg P ctx now msg s).state.seen.set ∨ evictedBy ctx msg s = some x := by
  rw [handleMsg_seen]
  cases hk : dedupKey ctx msg with
  | none => exact Or.inl h
  | some k =>
    rcases SeenIds.mem_isNew_or_evicted k h with hm | he
    · exact Or.inl hm
    · right
      show (dedupKey ctx msg).bind s.seen.evicted = some x
      rw [hk]
      exact he

/-! ## The wallet -/

/-- A payment the client takes for its own and has not cached: `handle_msg` goes on
to credit it. -/
def Accepts (ctx : ClientContext P.ed) (s : ClientState) (p : Payment) : Prop :=
  ctx.IsMe p.dstId ∧ paymentKey p.paymentId ∉ s.seen.set

instance (s : ClientState) (p : Payment) : Decidable (Accepts ctx s p) :=
  inferInstanceAs (Decidable (_ ∧ _))

/-- A message that is no payment to accept leaves the wallet, its file, the receive
task and the network alone. -/
theorem handleMsg_of_not_accepts (P : Platform) (ctx : ClientContext P.ed) (now : UInt64)
    {msg : Message}
    (h : ∀ p, msg = .payment p → ¬ Accepts ctx s p) :
    (handleMsg P ctx now msg s).exit ≠ .credited ∧
      (handleMsg P ctx now msg s).state.app.wallet = s.app.wallet ∧
      (handleMsg P ctx now msg s).state.walletFile = s.walletFile ∧
      (handleMsg P ctx now msg s).state.receiving = s.receiving ∧
      (handleMsg P ctx now msg s).sends = [] := by
  cases msg with
  | classic m =>
    simp only [handleMsg, handleClassic]
    split
    · simp
    · split <;> simp
  | payment p =>
    by_cases hme : ctx.IsMe p.dstId
    · have hk : paymentKey p.paymentId ∈ s.seen.set :=
        Classical.not_not.mp (fun hk => h p rfl ⟨hme, hk⟩)
      simp [handleMsg, handlePayment_duplicate hme hk]
    · simp [handleMsg, handlePayment_notForMe hme]
  | paymentAck a =>
    simp only [handleMsg, handlePaymentAck]
    split
    · simp
    · split <;> simp
  | register _ | connect _ | askForAddr _ | peerInfo _ _ => simp [handleMsg]

/-- What a `handle_msg` that credited `p` did. -/
structure CreditedBy (ctx : ClientContext P.ed) (s : ClientState) (r : Handled) (p : Payment)
    (w : Wallet) : Prop where
  accepts : Accepts ctx s p
  credit : credit P.build s.app.wallet p.amount = some w
  exit : r.exit = .credited
  wallet : r.state.app.wallet = w
  walletFile : r.state.walletFile = saveWallet P.json w
  receiving : r.state.receiving = s.receiving
  sends : r.sends = sendToRelays (.paymentAck (p.ack ctx.peerId)) ctx.relayAddrs

/-- An accepted payment that does not overflow is credited. -/
theorem creditedBy_of_accepts (P : Platform) {ctx : ClientContext P.ed} (now : UInt64)
    {p : Payment} {w : Wallet} (h : Accepts ctx s p)
    (hc : credit P.build s.app.wallet p.amount = some w) :
    CreditedBy ctx s (handleMsg P ctx now (.payment p) s) p w := by
  obtain ⟨hme, hnew⟩ := h
  have heq : handleMsg P ctx now (.payment p) s = _ := handlePayment_credited hme hnew hc
  rw [heq]
  exact ⟨⟨hme, hnew⟩, hc, rfl, rfl, rfl, rfl, rfl⟩

/-- **A message either credits a payment or leaves the wallet, its file and the
network alone.** -/
theorem handleMsg_cases (P : Platform) (ctx : ClientContext P.ed) (now : UInt64)
    (msg : Message) (s : ClientState) :
    (∃ p w, msg = .payment p ∧ CreditedBy ctx s (handleMsg P ctx now msg s) p w) ∨
    ((handleMsg P ctx now msg s).exit ≠ .credited ∧
      (handleMsg P ctx now msg s).state.app.wallet = s.app.wallet ∧
      (handleMsg P ctx now msg s).state.walletFile = s.walletFile ∧
      (handleMsg P ctx now msg s).sends = []) := by
  by_cases hacc : ∃ p, msg = .payment p ∧ Accepts ctx s p
  · obtain ⟨p, rfl, hp⟩ := hacc
    cases hc : credit P.build s.app.wallet p.amount with
    | none =>
      obtain ⟨hme, hnew⟩ := hp
      exact Or.inr (by simp [handleMsg, handlePayment_panicked hme hnew hc])
    | some w => exact Or.inl ⟨p, w, rfl, creditedBy_of_accepts P now hp hc⟩
  · obtain ⟨hexit, hwallet, hfile, -, hsends⟩ := handleMsg_of_not_accepts P ctx now
      (fun p hp ha => hacc ⟨p, hp, ha⟩)
    exact Or.inr ⟨hexit, hwallet, hfile, hsends⟩

/-! ## The `/pay` command -/

/-- The digit loop computes the number its digits write, as long as it fits. -/
theorem parseDigits_eq {digits : List Char} {acc : Nat} (hd : ∀ c ∈ digits, c.isDigit = true)
    (hlt : Nat.ofDigitChars 10 digits acc < 2 ^ 64) :
    parseDigits acc digits = some (Nat.ofDigitChars 10 digits acc) := by
  induction digits generalizing acc with
  | nil => simp [parseDigits]
  | cons c cs ih =>
    have hstep : Nat.ofDigitChars 10 (c :: cs) acc =
        Nat.ofDigitChars 10 cs (acc * 10 + (c.toNat - 48)) := by
      rw [Nat.ofDigitChars_cons, Nat.mul_comm]
      rfl
    rw [hstep] at hlt ⊢
    -- The accumulator only grows, so it fits as well.
    have hacc : acc * 10 + (c.toNat - 48) < 2 ^ 64 := by
      rw [Nat.ofDigitChars_eq_ofDigitChars_zero] at hlt
      have hpow : 1 ≤ 10 ^ cs.length := Nat.one_le_pow _ _ (by omega)
      have := Nat.le_mul_of_pos_left (acc * 10 + (c.toNat - 48)) hpow
      omega
    simp only [parseDigits, hd c List.mem_cons_self, if_true, hacc]
    exact ih (fun x hx => hd x (List.mem_cons_of_mem _ hx)) hlt

/-- A `u64` printed in decimal is read back. -/
theorem parseDigits_toDigits (n : UInt64) :
    parseDigits 0 (Nat.toDigits 10 n.toNat) = some n.toNat := by
  rw [parseDigits_eq (fun c hc => Nat.isDigit_of_mem_toDigits (by omega) (by omega) hc)]
  · rw [Nat.ofDigitChars_ten_toDigits]
  · rw [Nat.ofDigitChars_ten_toDigits]
    exact n.toNat_lt

/-- `do_pay` refuses its arguments, or pays a positive amount. -/
theorem doPay_eq (P : Platform) (ctx : ClientContext P.ed) (now paymentId : UInt64)
    (args : String) (s : ClientState) :
    doPay P ctx now paymentId args s = ⟨.usage, s, []⟩ ∨
    doPay P ctx now paymentId args s = ⟨.invalidAmount, s, []⟩ ∨
    ∃ dst n, 0 < n.toNat ∧
      doPay P ctx now paymentId args s = pay P ctx now paymentId dst n s := by
  unfold doPay
  cases splitSpace args.toList with
  | none => exact Or.inl rfl
  | some parts =>
    dsimp only
    cases parseU64 (trim parts.2) with
    | none => exact Or.inr (Or.inl rfl)
    | some n =>
      dsimp only
      split
      · rename_i hn
        exact Or.inr (Or.inr ⟨_, n, UInt64.lt_iff_toNat_lt.mp hn, rfl⟩)
      · exact Or.inr (Or.inl rfl)

/-- The feed entry of a text that the client sends. -/
def ownEntry (P : Platform) (ctx : ClientContext P.ed) (now : UInt64) (text : String) :
    ChatMessage where
  fromId := ctx.peerId ++ " (vous)"
  fingerprint := fingerprint ctx.publicKey
  text := text
  timestamp := now
  msgType := "message"

/-- The feed entry of a payment made. -/
def paymentSentEntry (P : Platform) (ctx : ClientContext P.ed) (now : UInt64) (dst : String)
    (amount : UInt64) : ChatMessage where
  fromId := ctx.peerId ++ " (vous)"
  fingerprint := ""
  text := toString amount.toNat ++ " → " ++ dst
  timestamp := now
  msgType := "payment_sent"

/-- What a `do_pay` that got as far as a debit did: it sent one payment of its own,
debited and saved, and touched nothing else. -/
structure PaidBy (ctx : ClientContext P.ed) (paymentId : UInt64) (s : ClientState) (r : Paid)
    (p : Payment) : Prop where
  exit : r.exit = .sent p
  srcId : p.srcId = ctx.peerId
  paymentId : p.paymentId = paymentId
  positive : 0 < p.amount.toNat
  debited : (debit s.app.wallet p.amount).1 = true
  wallet : r.state.app.wallet = (debit s.app.wallet p.amount).2
  walletFile : r.state.walletFile = saveWallet P.json (debit s.app.wallet p.amount).2
  seen : r.state.seen = s.seen
  receiving : r.state.receiving = s.receiving
  sends : r.sends = sendToRelays (.payment p) ctx.relayAddrs

/-- **`do_pay` either sends one payment, or leaves the state and the network
alone.** -/
theorem doPay_cases (P : Platform) (ctx : ClientContext P.ed) (now paymentId : UInt64)
    (args : String) (s : ClientState) :
    (∃ p, PaidBy ctx paymentId s (doPay P ctx now paymentId args s) p) ∨
    ((∀ p, (doPay P ctx now paymentId args s).exit ≠ .sent p) ∧
      (doPay P ctx now paymentId args s).state = s ∧
      (doPay P ctx now paymentId args s).sends = []) := by
  rcases doPay_eq P ctx now paymentId args s with
    h | h | ⟨dst, n, hn, h⟩
  · exact Or.inr (by simp [h])
  · exact Or.inr (by simp [h])
  · rw [h]
    cases hd : (debit s.app.wallet n).1 with
    | false => exact Or.inr (by simp [pay, hd])
    | true =>
      refine Or.inl ⟨⟨ctx.peerId, dst, n, paymentId⟩, ?_⟩
      constructor <;> simp [pay, hd, hn]

end Zeta
