import Zeta.ClientRun
import Zeta.SamplePlatform

/-!
# Payments that no relay takes

`send_msg` of `UdpSocketExt` can fail: the message may not fit a datagram, or the socket
may refuse it.  `send_to_relays` discards the result and goes on to the next relay, and
`do_pay` has charged the wallet before.  So the sends decide what is on the network, and
nothing else: whether the wallet is charged depends on its balance alone
(`charge_ignores_sends`).
-/

namespace Zeta

/-- What the calls of `UdpSocketExt::send_msg` return, one after the other: the number of
bytes sent, or an error. -/
abbrev SendResults := ℕ → Option ℕ

/-- The results of the calls after the first. -/
def SendResults.tail (results : SendResults) : SendResults := fun k => results (k + 1)

/-- `send_to_relays`: the datagrams that the socket takes. -/
def sendToRelaysOver (msg : Message) : List SocketAddr → SendResults → Sends
  | [], _ => []
  | addr :: relays, results =>
    match results 0 with
    | some _ => (addr, msg) :: sendToRelaysOver msg relays results.tail
    -- `let _ =`
    | none => sendToRelaysOver msg relays results.tail

section Pay
variable (P : Platform) (ctx : ClientContext P.ed) (now : UInt64)

/-- `do_pay` once its arguments are read, over a socket that may fail. -/
def payOver (results : SendResults) (paymentId : UInt64) (dst : String) (amount : UInt64)
    (s : ClientState) : Paid :=
  let debited := debit s.app.wallet amount
  if debited.1 = false then ⟨.insufficientBalance, s, []⟩
  else
    -- Charged and saved before the first send.
    let s := { s with
      app := { s.app with wallet := debited.2 }
      walletFile := saveWallet P.json debited.2 }
    let p : Payment := { srcId := ctx.peerId, dstId := dst, amount, paymentId }
    let taken := sendToRelaysOver (.payment p) ctx.relayAddrs results
    let app := (s.app.pushMessage (paymentSentEntry P ctx now dst amount)).broadcastWalletUpdate
    ⟨.sent p, { s with app := app }, taken⟩

/-- `do_pay`, over a socket that may fail. -/
def doPayOver (results : SendResults) (paymentId : UInt64) (args : String) (s : ClientState) :
    Paid :=
  match splitSpace args.toList with
  | none => ⟨.usage, s, []⟩
  | some (dst, amount) =>
    match parseU64 (trim amount) with
    | none => ⟨.invalidAmount, s, []⟩
    | some n =>
      if n > 0 then payOver P ctx now results paymentId (String.ofList (trim dst)) n s
      else ⟨.invalidAmount, s, []⟩

end Pay

/-- `do_pay` reads this destination and this amount from its arguments. -/
def ValidArgs (args dst : String) (amount : UInt64) : Prop :=
  ∃ d a, splitSpace args.toList = some (d, a) ∧ String.ofList (trim d) = dst ∧
    parseU64 (trim a) = some amount ∧ 0 < amount.toNat

/-- A payment left wallet, file and feed as they were. -/
structure Uncharged (J : WalletJson) (before after : ClientState) : Prop where
  balance : after.balance = before.balance
  file : (readWallet J after.walletFile).map Wallet.balance =
    (readWallet J before.walletFile).map Wallet.balance
  feed : after.app.messages = before.app.messages

/-- A payment was charged, in memory and in the file, and shown in the feed. -/
structure Charged (J : WalletJson) (before after : ClientState) (amount : UInt64)
    (entry : ChatMessage) : Prop where
  balance : after.balance + amount.toNat = before.balance
  file : readWallet J after.walletFile = some after.app.wallet
  feed : after.app.messages = AppState.retain before.app.messages entry

variable {P : Platform} {ctx : ClientContext P.ed} {now paymentId amount : UInt64}
  {s : ClientState} {args dst : String}

/-! ## What the sends decide -/

theorem sendToRelaysOver_sublist (msg : Message) (relays : List SocketAddr)
    (results : SendResults) :
    (sendToRelaysOver msg relays results).Sublist (sendToRelays msg relays) := by
  induction relays generalizing results with
  | nil => exact List.Sublist.refl _
  | cons addr relays ih =>
    unfold sendToRelaysOver
    cases results 0 with
    | some n => exact (ih results.tail).cons_cons _
    | none => exact (ih results.tail).cons _

/-- Whether any of the relays is sent the message. -/
def SomeTaken (relays : List SocketAddr) (results : SendResults) : Prop :=
  ∃ k < relays.length, (results k).isSome = true

/-- A datagram leaves if one of the sends succeeds. -/
theorem exists_mem_sendToRelaysOver {msg : Message} {relays : List SocketAddr}
    {results : SendResults} :
    (∃ x ∈ sendToRelaysOver msg relays results, x.2 = msg) ↔ SomeTaken relays results := by
  induction relays generalizing results with
  | nil => simp [sendToRelaysOver, SomeTaken]
  | cons addr relays ih =>
    -- The first send, or one of the others.
    have hsplit : SomeTaken (addr :: relays) results ↔
        (results 0).isSome = true ∨ SomeTaken relays results.tail := by
      constructor
      · rintro ⟨k, hk, hresult⟩
        cases k with
        | zero => exact Or.inl hresult
        | succ k => exact Or.inr ⟨k, Nat.lt_of_succ_lt_succ hk, hresult⟩
      · rintro (hfirst | ⟨k, hk, hresult⟩)
        · exact ⟨0, Nat.zero_lt_succ _, hfirst⟩
        · exact ⟨k + 1, Nat.succ_lt_succ hk, hresult⟩
    rw [hsplit, ← ih]
    cases hfirst : results 0 with
    | some n => simp [sendToRelaysOver, hfirst]
    | none => simp [sendToRelaysOver, hfirst]

/-- A `do_pay` over a socket that may fail is `do_pay`, but for the datagrams the socket does
not take. -/
structure SameButSends (r r' : Paid) : Prop where
  exit : r.exit = r'.exit
  state : r.state = r'.state
  sends : r.sends.Sublist r'.sends

theorem SameButSends.refl (r : Paid) : SameButSends r r := ⟨rfl, rfl, List.Sublist.refl _⟩

theorem payOver_same (P : Platform) (ctx : ClientContext P.ed) (now : UInt64)
    (results : SendResults) (paymentId : UInt64) (dst : String) (amount : UInt64)
    (s : ClientState) :
    SameButSends (payOver P ctx now results paymentId dst amount s)
      (pay P ctx now paymentId dst amount s) := by
  cases hd : (debit s.app.wallet amount).1 with
  | false =>
    simp only [payOver, pay, hd, if_true]
    exact SameButSends.refl _
  | true =>
    simp only [payOver, pay, hd, Bool.true_eq_false, if_false]
    exact ⟨rfl, rfl, sendToRelaysOver_sublist _ _ _⟩

theorem doPayOver_same (P : Platform) (ctx : ClientContext P.ed) (now : UInt64)
    (results : SendResults) (paymentId : UInt64) (args : String) (s : ClientState) :
    SameButSends (doPayOver P ctx now results paymentId args s)
      (doPay P ctx now paymentId args s) := by
  unfold doPayOver doPay
  cases splitSpace args.toList with
  | none => exact SameButSends.refl _
  | some parts =>
    dsimp only
    cases parseU64 (trim parts.2) with
    | none => exact SameButSends.refl _
    | some n =>
      dsimp only
      split
      · exact payOver_same P ctx now results paymentId _ n s
      · exact SameButSends.refl _

/-! ## What the balance decides -/

theorem doPay_of_validArgs (h : ValidArgs args dst amount) :
    doPay P ctx now paymentId args s = pay P ctx now paymentId dst amount s := by
  obtain ⟨d, a, hsplit, rfl, hparse, hpos⟩ := h
  have hgt : amount > 0 := UInt64.lt_iff_toNat_lt.mpr hpos
  simp only [doPay, hsplit, hparse, hgt, if_true]

/-- A balance that suffices is charged. -/
theorem charged_pay (hle : amount.toNat ≤ s.balance) :
    Charged P.json s (pay P ctx now paymentId dst amount s).state amount
      (paymentSentEntry P ctx now dst amount) := by
  have hd : (debit s.app.wallet amount).1 = true := by
    rw [debit_fst]
    exact decide_eq_true hle
  have hpay : (pay P ctx now paymentId dst amount s).state =
      { s with
        app := ({ s.app with wallet := (debit s.app.wallet amount).2 }.pushMessage
          (paymentSentEntry P ctx now dst amount)).broadcastWalletUpdate
        walletFile := saveWallet P.json (debit s.app.wallet amount).2 } := by
    simp [pay, hd, paymentSentEntry]
  rw [hpay]
  exact ⟨debit_balance hd, readWallet_saveWallet _ _, rfl⟩

/-- A balance that does not suffice refuses the payment. -/
theorem pay_refused (hlt : s.balance < amount.toNat) :
    pay P ctx now paymentId dst amount s = ⟨.insufficientBalance, s, []⟩ := by
  have hd : (debit s.app.wallet amount).1 = false := by
    rw [debit_fst]
    exact decide_eq_false (Nat.not_le_of_lt hlt)
  simp [pay, hd]

/-- **The charge does not depend on the sends.**  For every wallet, all valid arguments and
every outcome of the sends, the amount is taken from the wallet and its file and shown
as sent if the balance suffices, and nothing happens if it does not. -/
theorem charge_ignores_sends (P : Platform) (ctx : ClientContext P.ed) (s : ClientState)
    (now paymentId : UInt64) (args dst : String) (amount : UInt64)
    (hargs : ValidArgs args dst amount) (results : SendResults) :
    (amount.toNat ≤ s.balance →
      Charged P.json s (doPayOver P ctx now results paymentId args s).state amount
        (paymentSentEntry P ctx now dst amount)) ∧
    (s.balance < amount.toNat →
      (doPayOver P ctx now results paymentId args s).state = s ∧
      (doPayOver P ctx now results paymentId args s).sends = []) := by
  have hsame := doPayOver_same P ctx now results paymentId args s
  rw [doPay_of_validArgs hargs] at hsame
  constructor
  · intro hle
    rw [hsame.state]
    exact charged_pay hle
  · intro hlt
    have hsends := hsame.sends
    rw [hsame.state]
    rw [pay_refused hlt] at hsends ⊢
    exact ⟨rfl, List.sublist_nil.mp hsends⟩

/-! ## A payment to nobody -/

/-- Every send fails. -/
def allFail : SendResults := fun _ => none

theorem validArgs_bob3 : ValidArgs "bob 3" "bob" 3 :=
  ⟨"bob".toList, "3".toList, by decide +kernel, by decide +kernel, by decide +kernel, by decide⟩

/-- Alice pays bob three satoshis, and no relay takes the payment. -/
theorem charge_bob3 :
    ((3 : UInt64).toNat ≤ (aliceStart 5).balance →
      Charged plainJson (aliceStart 5)
        (doPayOver samplePlatform alice 0 allFail 7 "bob 3" (aliceStart 5)).state 3
        (paymentSentEntry samplePlatform alice 0 "bob" 3)) ∧
    ((aliceStart 5).balance < (3 : UInt64).toNat →
      (doPayOver samplePlatform alice 0 allFail 7 "bob 3" (aliceStart 5)).state = aliceStart 5 ∧
      (doPayOver samplePlatform alice 0 allFail 7 "bob 3" (aliceStart 5)).sends = []) :=
  charge_ignores_sends samplePlatform alice (aliceStart 5) 0 7 "bob 3" "bob" 3 validArgs_bob3
    allFail

/-- **A payment that no relay takes is charged.** -/
theorem unsent_charged :
    ¬ ∀ (results : SendResults) (s : ClientState) (args dst : String) (amount : UInt64),
      ValidArgs args dst amount →
      (doPayOver samplePlatform alice 0 results 7 args s).sends = [] →
      Uncharged plainJson s (doPayOver samplePlatform alice 0 results 7 args s).state := by
  intro h
  have hunsent :
      (doPayOver samplePlatform alice 0 allFail 7 "bob 3" (aliceStart 5)).sends = [] := by
    decide +kernel
  have hcharged := (h allFail (aliceStart 5) "bob 3" "bob" 3 validArgs_bob3 hunsent).balance
  exact absurd hcharged (by decide +kernel)

end Zeta
