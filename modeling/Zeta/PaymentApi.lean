import Zeta.Web

/-!
# What the payment API promises

`api_pay` answers `ok: true` before anybody has looked at the balance or the destination,
and even when nobody will: the answer is the same once the loop that executes the
commands has ended.  The page tells the user that the money has been sent.  The answer is
true exactly if every request finds a usable destination, the balance it needs and a relay
that is sent the payment when its turn comes, and its turn does come
(`payments_truthful_iff`).
-/

namespace Zeta

/-- The payment a command asks for. -/
def UiCommand.request : UiCommand → Option PayReq
  | .pay dstId amount => some { dstId, amount }
  | .sendMessage _ => none

/-- The payments that wait in the channel of a loop that still runs. -/
def UiNode.waiting (s : UiNode) : List PayReq :=
  if s.looping then s.queue.filterMap UiCommand.request else []

/-- **The API has told the truth**: every request it answered `ok: true` was honored, in
order, or is waiting for a loop that still runs. -/
def Truthful (s : UiNode) : Prop := s.answered = s.honored ++ s.waiting

instance (s : UiNode) : Decidable (Truthful s) :=
  inferInstanceAs (Decidable (s.answered = s.honored ++ s.waiting))

/-- A destination `do_pay` does not cut or trim. -/
def UsableDestination (dstId : String) : Prop :=
  ' ' ∉ dstId.toList ∧ trim dstId.toList = dstId.toList

/-- A payment whose turn comes has a usable destination and finds its amount in the
wallet, and one of the sends to the relays succeeds; the console does not end before the
payments that wait, and no payment is asked for after the loop has ended. -/
def Payable (relayAddrs : List SocketAddr) (s : UiNode) : UiEvent → Prop
  | .command _ _ results => ∀ dstId amount queue, s.queue = .pay dstId amount :: queue →
      UsableDestination dstId ∧ amount.toNat ≤ s.client.balance ∧ SomeTaken relayAddrs results
  | .eof => s.waiting = []
  | .apiPay body => s.looping = true ∨ body.amount = 0
  | _ => True

/-! ## `do_pay` on the arguments of a command -/

theorem splitSpace_append {dst rest : List Char} (h : ' ' ∉ dst) :
    splitSpace (dst ++ ' ' :: rest) = some (dst, rest) := by
  have hne : ∀ c ∈ dst, decide (c ≠ ' ') = true := by
    intro c hc
    apply decide_eq_true
    rintro rfl
    exact h hc
  rw [splitSpace, List.dropWhile_append_of_pos hne, List.takeWhile_append_of_pos hne]
  simp

theorem not_mem_of_splitSpace {args dst rest : List Char}
    (h : splitSpace args = some (dst, rest)) : ' ' ∉ dst := by
  unfold splitSpace at h
  split at h
  · cases h
  · obtain ⟨rfl, -⟩ := Prod.mk.inj (Option.some.inj h)
    intro hmem
    exact absurd (List.mem_takeWhile_imp hmem) (by simp)

theorem trim_sublist (l : List Char) : (trim l).Sublist l :=
  (List.rdropWhile_prefix _ _).sublist.trans (List.dropWhile_sublist _)

theorem trim_of_not_whitespace {l : List Char} (h : ∀ c ∈ l, isWhitespace c = false) :
    trim l = l := by
  have hdrop : l.dropWhile isWhitespace = l := by
    rw [List.dropWhile_eq_self_iff]
    intro hl
    simp [h _ (List.getElem_mem hl)]
  rw [trim, hdrop, List.rdropWhile_eq_self_iff]
  intro hl
  simp [h _ (List.getLast_mem hl)]

theorem isWhitespace_of_isDigit {c : Char} (h : c.isDigit = true) : isWhitespace c = false := by
  have hrange : 48 ≤ c.toNat ∧ c.toNat ≤ 57 := by
    simpa [Char.isDigit, Char.le_def, UInt32.le_iff_toNat_le] using h
  simp only [isWhitespace, Bool.or_eq_false_iff, Bool.and_eq_false_iff, decide_eq_false_iff_not]
  omega

/-- A `u64` printed in decimal is parsed back. -/
theorem parseU64_toDigits (n : UInt64) : parseU64 (Nat.toDigits 10 n.toNat) = some n := by
  have hdigit : ∀ c ∈ Nat.toDigits 10 n.toNat, c.isDigit = true :=
    fun c hc => Nat.isDigit_of_mem_toDigits (by omega) (by omega) hc
  have hparse := parseDigits_toDigits n
  cases hd : Nat.toDigits 10 n.toNat with
  | nil => exact absurd hd Nat.toDigits_ne_nil
  | cons c cs =>
    have hplus : c ≠ '+' := by
      rintro rfl
      exact absurd (hdigit '+' (by rw [hd]; exact List.mem_cons_self)) (by decide)
    rw [hd] at hparse
    simp [parseU64, hplus, hparse]

theorem payArgs_toList (dstId : String) (amount : UInt64) :
    (payArgs dstId amount).toList = dstId.toList ++ ' ' :: Nat.toDigits 10 amount.toNat := by
  simp [payArgs, String.toList_append]

variable {P : Platform} {ctx : ClientContext P.ed} {s : ClientState} {now id : UInt64}
  {results : SendResults}

/-- A destination without a space reaches `do_pay` trimmed. -/
theorem doPayOver_payArgs {dstId : String} {amount : UInt64} (hspace : ' ' ∉ dstId.toList)
    (hpos : 0 < amount.toNat) :
    doPayOver P ctx now results id (payArgs dstId amount) s =
      payOver P ctx now results id (String.ofList (trim dstId.toList)) amount s := by
  have hdigits : trim (Nat.toDigits 10 amount.toNat) = Nat.toDigits 10 amount.toNat :=
    trim_of_not_whitespace (fun c hc =>
      isWhitespace_of_isDigit (Nat.isDigit_of_mem_toDigits (by omega) (by omega) hc))
  have hgt : amount > 0 := UInt64.lt_iff_toNat_lt.mpr hpos
  simp only [doPayOver, payArgs_toList, splitSpace_append hspace, hdigits, parseU64_toDigits, hgt,
    if_true]

/-- The destination of a payment is the one `do_pay` read. -/
theorem dstId_of_payOver_sent {dst : String} {amount : UInt64} {p : Payment}
    (h : (payOver P ctx now results id dst amount s).exit = .sent p) : p.dstId = dst := by
  unfold payOver at h
  cases hd : (debit s.app.wallet amount).1 with
  | false => simp [hd] at h
  | true =>
    simp only [hd, Bool.true_eq_false, if_false, PayExit.sent.injEq] at h
    rw [← h]

/-- No payment goes to a destination with a space. -/
theorem not_mem_dstId_of_sent {args : String} {p : Payment}
    (h : (doPayOver P ctx now results id args s).exit = .sent p) : ' ' ∉ p.dstId.toList := by
  unfold doPayOver at h
  cases hsplit : splitSpace args.toList with
  | none => simp [hsplit] at h
  | some parts =>
    obtain ⟨dst, amount⟩ := parts
    simp only [hsplit] at h
    cases hparse : parseU64 (trim amount) with
    | none => simp [hparse] at h
    | some n =>
      simp only [hparse] at h
      by_cases hn : n > 0
      · rw [if_pos hn] at h
        rw [dstId_of_payOver_sent h, String.toList_ofList]
        intro hmem
        exact not_mem_of_splitSpace hsplit ((trim_sublist dst).subset hmem)
      · simp [hn] at h

/-- A destination with a space is cut there, so no payment goes to it as it is. -/
theorem not_mem_of_honors {body : PayReq} {args : String}
    (h : Honors body s (doPayOver P ctx now results id args s)) : ' ' ∉ body.dstId.toList := by
  obtain ⟨-, hexit⟩ := h
  split at hexit
  · rename_i p hp
    rw [← hexit.1]
    exact not_mem_dstId_of_sent hp
  · exact hexit.elim

/-- A payment is made as asked for if the destination is the one that was asked for, the
balance suffices, and a send succeeds. -/
theorem honors_payOver_iff {body : PayReq} {dst : String} :
    Honors body s (payOver P ctx now results id dst body.amount s) ↔
      dst = body.dstId ∧ body.amount.toNat ≤ s.balance ∧ SomeTaken ctx.relayAddrs results := by
  cases hd : (debit s.app.wallet body.amount).1 with
  | false =>
    have hlt : ¬ body.amount.toNat ≤ s.balance := by
      rw [debit_fst] at hd
      exact of_decide_eq_false hd
    refine iff_of_false ?_ (fun h => hlt h.2.1)
    rintro ⟨-, hexit⟩
    simp [payOver, hd] at hexit
  | true =>
    have hle : body.amount.toNat ≤ s.balance := by
      rw [debit_fst] at hd
      exact of_decide_eq_true hd
    have hbalance : (payOver P ctx now results id dst body.amount s).state.balance +
        body.amount.toNat = s.balance := by
      simp only [payOver, hd, Bool.true_eq_false, if_false]
      exact debit_balance hd
    constructor
    · rintro ⟨-, hexit⟩
      simp only [payOver, hd, Bool.true_eq_false, if_false] at hexit
      exact ⟨hexit.1, hle, exists_mem_sendToRelaysOver.mp hexit.2.2⟩
    · rintro ⟨hdst, -, htaken⟩
      refine ⟨hbalance, ?_⟩
      simp only [payOver, hd, Bool.true_eq_false, if_false]
      exact ⟨hdst, trivial, exists_mem_sendToRelaysOver.mpr htaken⟩

/-- **A command is honored exactly if its destination is usable, the balance suffices and a
send succeeds.** -/
theorem honors_iff {dstId : String} {amount : UInt64} (hpos : 0 < amount.toNat) :
    Honors ⟨dstId, amount⟩ s (doPayOver P ctx now results id (payArgs dstId amount) s) ↔
      UsableDestination dstId ∧ amount.toNat ≤ s.balance ∧ SomeTaken ctx.relayAddrs results := by
  by_cases hspace : ' ' ∈ dstId.toList
  · exact iff_of_false (fun h => not_mem_of_honors h hspace) (fun h => h.1.1 hspace)
  · have htrim : String.ofList (trim dstId.toList) = dstId ↔ trim dstId.toList = dstId.toList := by
      rw [← String.toList_inj, String.toList_ofList]
    have hpay : Honors ⟨dstId, amount⟩ s
        (payOver P ctx now results id (String.ofList (trim dstId.toList)) amount s) ↔
          String.ofList (trim dstId.toList) = dstId ∧ amount.toNat ≤ s.balance ∧
            SomeTaken ctx.relayAddrs results := honors_payOver_iff
    rw [doPayOver_payArgs hspace hpos, hpay, htrim]
    exact and_congr_left' ⟨fun h => ⟨hspace, h⟩, fun h => h.2⟩

/-- The command came through: a datagram left the client that carries a payment of exactly
this amount to exactly this destination. -/
def Emits (dstId : String) (amount : UInt64) (r : Paid) : Prop :=
  ∃ x ∈ r.sends, ∃ p, x.2 = .payment p ∧ p.dstId = dstId ∧ p.amount = amount

/-- What is honored is emitted. -/
theorem emits_of_honors {dstId : String} {amount : UInt64} {r : Paid}
    (h : Honors ⟨dstId, amount⟩ s r) : Emits dstId amount r := by
  obtain ⟨-, hexit⟩ := h
  split at hexit
  · rename_i p hp
    obtain ⟨hdst, hamount, x, hx, hmsg⟩ := hexit
    exact ⟨x, hx, p, hmsg, hdst, hamount⟩
  · exact hexit.elim

/-- What `do_pay` sends is the payment that it made. -/
theorem sent_of_mem_sends {args : String} {x : SocketAddr × Message}
    (h : x ∈ (doPayOver P ctx now results id args s).sends) :
    ∃ p, (doPayOver P ctx now results id args s).exit = .sent p ∧ x.2 = .payment p ∧
      SomeTaken ctx.relayAddrs results := by
  have hpay : ∀ dst amount, x ∈ (payOver P ctx now results id dst amount s).sends →
      ∃ p, (payOver P ctx now results id dst amount s).exit = .sent p ∧ x.2 = .payment p ∧
        SomeTaken ctx.relayAddrs results := by
    intro dst amount hx
    cases hd : (debit s.app.wallet amount).1 with
    | false => simp [payOver, hd] at hx
    | true =>
      have hexit : (payOver P ctx now results id dst amount s).exit =
          .sent ⟨ctx.peerId, dst, amount, id⟩ := by
        simp [payOver, hd]
      simp only [payOver, hd, Bool.true_eq_false, if_false] at hx
      have hmem := (sendToRelaysOver_sublist _ _ _).subset hx
      obtain ⟨relay, -, hrelay⟩ := List.mem_map.mp hmem
      have hmsg : x.2 = .payment ⟨ctx.peerId, dst, amount, id⟩ := by rw [← hrelay]
      exact ⟨_, hexit, hmsg, exists_mem_sendToRelaysOver.mp ⟨x, hx, hmsg⟩⟩
  unfold doPayOver at h ⊢
  split at h
  · cases h
  · split at h
    · cases h
    · split at h
      · rename_i hn
        simp only [hn, if_true]
        exact hpay _ _ h
      · cases h

/-- **A payment command survives the round trip through a string if and only if its
destination holds no space and no white space at its ends, and one of the sends to the relays
succeeds**, for every amount that the wallet has. -/
theorem pay_command_emits_iff (P : Platform) (ctx : ClientContext P.ed) (s : ClientState)
    (now id : UInt64) (results : SendResults) (dstId : String) (amount : UInt64)
    (hpos : 0 < amount.toNat) (hbalance : amount.toNat ≤ s.balance) :
    Emits dstId amount (doPayOver P ctx now results id (payArgs dstId amount) s) ↔
      UsableDestination dstId ∧ SomeTaken ctx.relayAddrs results := by
  constructor
  · rintro ⟨x, hx, p, hmsg, rfl, -⟩
    obtain ⟨q, hexit, hq, htaken⟩ := sent_of_mem_sends hx
    obtain rfl : p = q := Message.payment.inj (hmsg.symm.trans hq)
    have hspace : ' ' ∉ p.dstId.toList := not_mem_dstId_of_sent hexit
    rw [doPayOver_payArgs hspace hpos] at hexit
    have htrim : p.dstId = String.ofList (trim p.dstId.toList) := dstId_of_payOver_sent hexit
    refine ⟨⟨hspace, ?_⟩, htaken⟩
    rw [← String.toList_ofList (l := trim p.dstId.toList), ← htrim]
  · rintro ⟨husable, htaken⟩
    exact emits_of_honors ((honors_iff hpos).mpr ⟨husable, hbalance, htaken⟩)

/-- Every send succeeds. -/
def allTaken : SendResults := fun _ => some 0

/-- Five satoshis for bob come through. -/
theorem pay_command_emits_bob :
    Emits "bob" 5
        (doPayOver samplePlatform alice 0 allTaken 7 (payArgs "bob" 5) (aliceStart 5)) ↔
      UsableDestination "bob" ∧ SomeTaken alice.relayAddrs allTaken :=
  pay_command_emits_iff samplePlatform alice (aliceStart 5) 0 7 allTaken "bob" 5 (by decide)
    (by decide +kernel)

/-- **A name with a space is not a destination**: "bob smith" is cut after "bob", and
"smith 5" is no amount. -/
theorem inner_space_refused :
    ¬ ∀ (s : ClientState) (dstId : String) (amount : UInt64), 0 < amount.toNat →
      amount.toNat ≤ s.balance → Emits dstId amount
        (doPayOver samplePlatform alice 0 allTaken 7 (payArgs dstId amount) s) := by
  intro h
  obtain ⟨x, hx, -⟩ := h (aliceStart 5) "bob smith" 5 (by decide) (by decide +kernel)
  have hnone : (doPayOver samplePlatform alice 0 allTaken 7 (payArgs "bob smith" 5)
      (aliceStart 5)).sends = [] := by
    decide +kernel
  rw [hnone] at hx
  cases hx

/-- White space at the end is trimmed: the payment goes to somebody else. -/
example :
    (doPayOver samplePlatform alice 0 allTaken 7 (payArgs "bob " 5) (aliceStart 5)).exit =
      .sent fiveForBob := by
  decide +kernel

/-! ## Runs -/

/-- `api_pay` lets no payment of nothing into the channel. -/
def UiNode.Positive (s : UiNode) : Prop :=
  ∀ dstId amount, .pay dstId amount ∈ s.queue → 0 < amount.toNat

theorem mem_send {s : UiNode} {cmd : Option UiCommand} {c : UiCommand} (h : c ∈ s.send cmd) :
    c ∈ s.queue ∨ cmd = some c := by
  unfold UiNode.send at h
  split at h
  · rcases List.mem_append.mp h with hold | hnew
    · exact Or.inl hold
    · exact Or.inr (Option.mem_toList.mp hnew)
  · exact Or.inl h

theorem positive_next {s : UiNode} {e : UiEvent} (h : s.Positive) :
    ((uiNode P ctx).next s e).Positive := by
  intro dstId amount hmem
  cases e with
  | line _ _ _ | eof | recv _ _ => exact h dstId amount hmem
  | apiSend text =>
    rcases mem_send hmem with hold | hnew
    · exact h dstId amount hold
    · unfold apiSend at hnew
      split at hnew <;> cases hnew
  | apiPay body =>
    rcases mem_send hmem with hold | hnew
    · exact h dstId amount hold
    · unfold apiPay at hnew
      split at hnew
      · cases hnew
      · rename_i hne
        cases hnew
        rw [← UInt64.toNat_inj] at hne
        exact Nat.pos_of_ne_zero hne
  | command now id results =>
    apply h dstId amount
    simp only [uiNode, UiNode.dequeue] at hmem
    cases hq : s.queue with
    | nil => simp [hq] at hmem
    | cons cmd queue =>
      cases cmd <;> simp [hq] at hmem <;> exact List.mem_cons_of_mem _ hmem

theorem waiting_of_looping {s : UiNode} (h : s.looping = true) :
    s.waiting = s.queue.filterMap UiCommand.request := if_pos h

theorem waiting_of_ended {s : UiNode} (h : s.looping = false) : s.waiting = [] := by
  simp [UiNode.waiting, h]

/-- A request that is answered. -/
theorem truthful_apiPay_iff {s : UiNode} (body : PayReq) (h : Truthful s) :
    Truthful ((uiNode P ctx).next s (.apiPay body)) ↔ s.looping = true ∨ body.amount = 0 := by
  unfold Truthful at h
  by_cases hzero : body.amount = 0
  · refine iff_of_true ?_ (Or.inr hzero)
    simpa [Truthful, uiNode, apiPay, hzero, UiNode.waiting, UiNode.send] using h
  · cases hloop : s.looping with
    | true =>
      -- The request waits behind those that waited already.
      rw [waiting_of_looping hloop] at h
      refine iff_of_true ?_ (Or.inl rfl)
      simp [Truthful, uiNode, apiPay, hzero, UiNode.waiting, UiNode.send, hloop, h,
        UiCommand.request]
    | false =>
      rw [waiting_of_ended hloop, List.append_nil] at h
      simp [Truthful, uiNode, apiPay, hzero, UiNode.waiting, hloop, h]

/-- A command that is executed. -/
theorem truthful_command_iff {s : UiNode} (hpos : s.Positive) (h : Truthful s)
    (hloop : s.looping = true) :
    Truthful ((uiNode P ctx).next s (.command now id results)) ↔
      Payable ctx.relayAddrs s (.command now id results) := by
  unfold Truthful at h
  rw [waiting_of_looping hloop] at h
  cases hq : s.queue with
  | nil => simp [Truthful, uiNode, UiNode.dequeue, UiNode.waiting, Payable, hq, hloop, h]
  | cons cmd queue =>
    cases cmd with
    | sendMessage text =>
      have hskip : (UiCommand.sendMessage text).request = none := rfl
      simp [Truthful, uiNode, UiNode.dequeue, UiNode.waiting, Payable, hq, hloop, h, hskip]
    | pay dstId amount =>
      have hamount := hpos dstId amount (by rw [hq]; exact List.mem_cons_self)
      have hpayable : Payable ctx.relayAddrs s (.command now id results) ↔
          UsableDestination dstId ∧ amount.toNat ≤ s.client.balance ∧
            SomeTaken ctx.relayAddrs results := by
        simp only [Payable, hq, List.cons.injEq, UiCommand.pay.injEq]
        constructor
        · exact fun hall => hall dstId amount queue ⟨⟨rfl, rfl⟩, rfl⟩
        · rintro hok _ _ _ ⟨⟨rfl, rfl⟩, -⟩
          exact hok
      have hrequest : (UiCommand.pay dstId amount).request = some ⟨dstId, amount⟩ := rfl
      have hhon : Honors ⟨dstId, amount⟩ s.client
          (doPayOver P ctx now results id (payArgs dstId amount) s.client) ↔ _ :=
        honors_iff hamount
      rw [hpayable, ← hhon]
      -- The request moves from the channel to the honored ones, or gets lost.
      by_cases hdone : Honors ⟨dstId, amount⟩ s.client
          (doPayOver P ctx now results id (payArgs dstId amount) s.client)
      · simp [Truthful, uiNode, UiNode.dequeue, UiNode.waiting, hq, hloop, h, hdone, hrequest]
      · simp [Truthful, uiNode, UiNode.dequeue, UiNode.waiting, hq, hloop, h, hdone, hrequest]

/-- **One step.** -/
theorem truthful_next_iff {s : UiNode} {e : UiEvent} (hpos : s.Positive) (h : Truthful s)
    (hen : (uiNode P ctx).Enabled s e) :
    Truthful ((uiNode P ctx).next s e) ↔ Payable ctx.relayAddrs s e := by
  cases e with
  | apiPay body => exact truthful_apiPay_iff body h
  | command now id results => exact truthful_command_iff hpos h hen.1
  | line _ _ _ | recv _ _ => exact iff_of_true h trivial
  | apiSend text =>
    refine iff_of_true ?_ trivial
    unfold Truthful at h
    cases hloop : s.looping with
    | true =>
      rw [waiting_of_looping hloop] at h
      have hskip : (UiCommand.sendMessage text).request = none := rfl
      by_cases hempty : trim text.toList = []
      · simp [Truthful, uiNode, apiSend, hempty, UiNode.waiting, UiNode.send, hloop, h]
      · simp [Truthful, uiNode, apiSend, hempty, UiNode.waiting, UiNode.send, hloop, h, hskip]
    | false =>
      rw [waiting_of_ended hloop] at h
      simp [Truthful, uiNode, UiNode.waiting, hloop, h]
  | eof =>
    -- What waits is lost.
    unfold Truthful at h
    simp [Truthful, uiNode, Payable, waiting_of_ended, h]

/-- **The payment API tells the truth if and only if every payment is payable when its
turn comes, and its turn comes.**  From any state of the client and in every interleaving
of requests, console lines, commands and datagrams, everything answered `ok: true` is
honored or still waiting, in every state of the run, if and only if no command finds an
unusable destination, too small a balance or no relay that takes the payment, the console
does not end before a payment that waits, and no payment is asked for after it ended. -/
theorem payments_truthful_iff (P : Platform) (ctx : ClientContext P.ed) (s : ClientState)
    (es : List UiEvent) :
    (uiNode P ctx).Always (fun s e => Truthful ((uiNode P ctx).next s e)) (uiStart s) es ↔
      (uiNode P ctx).Always (Payable ctx.relayAddrs) (uiStart s) es := by
  have hstart : (uiStart s).Positive := nofun
  exact EventSystem.always_next_iff (I := Truthful) (J := UiNode.Positive)
    (fun _ _ hpos _ => positive_next hpos)
    (fun _ _ hpos h hen => truthful_next_iff hpos h hen) hstart rfl

/-- **The page reports a payment that is not made**: alice has five satoshis, asks for a
payment of a thousand, and is told that it was sent. -/
theorem refused_after_ok :
    ¬ ∀ (s : ClientState) (es : List UiEvent),
      (uiNode samplePlatform alice).Always (fun _ _ => True) (uiStart s) es →
      (uiNode samplePlatform alice).Always
        (fun s e => Truthful ((uiNode samplePlatform alice).next s e)) (uiStart s) es := by
  intro h
  have hen : (uiNode samplePlatform alice).Always (fun _ _ => True) (uiStart (aliceStart 5))
      [.apiPay ⟨"bob", 1000⟩, .command 0 7 allTaken] :=
    ⟨fun _ _ => by decide, trivial, ⟨rfl, by decide⟩, trivial, trivial⟩
  have hrun := h (aliceStart 5) _ hen
  exact absurd hrun.2.2.2.1 (by decide +kernel)

end Zeta
