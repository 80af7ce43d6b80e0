import Zeta.ClientRun
import Zeta.SamplePlatform

/-!
# A crash while the wallet is saved

`save_wallet` writes the file in place: `std::fs::write` truncates it and then writes the
bytes, and a crash or a full disk may cut this short anywhere.  What is left on the disk
is what the next start reads, and a file that cannot be read counts as missing: it is
overwritten with an empty wallet.  So the only crashes that lose nothing are those before
the truncation and after the last byte (`recovers_iff`).
-/

namespace Zeta

/-- Where a call of `std::fs::write` is cut short. -/
inductive CrashPoint where
  /-- The file has not been opened. -/
  | beforeTruncate
  /-- The file has been truncated and `n` bytes have been written. -/
  | written (n : ℕ)
  deriving DecidableEq

/-- The file that `std::fs::write` leaves when it is cut short. -/
def CrashPoint.write (file : WalletFile) (data : List UInt8) : CrashPoint → WalletFile
  | .beforeTruncate => file
  | .written n => some (data.take n)

/-- `save_wallet`, cut short: the file afterwards. -/
def saveWalletUntil (J : WalletJson) (file : WalletFile) (w : Wallet) (cp : CrashPoint) :
    WalletFile :=
  cp.write file (asBytes (J.toStringPretty w))

/-- No proper beginning of the text printed for `w` is the text of a wallet. -/
def WalletJson.RejectsPrefixes (J : WalletJson) (w : Wallet) : Prop :=
  ∀ l, l <+: (J.toStringPretty w).toList → l ≠ (J.toStringPretty w).toList →
    J.fromStr (String.ofList l) = none

/-- **What a start must find after a crash**: the balance before or after the operation, in
a file that it leaves as it is. -/
structure Recovers (J : WalletJson) (address : String) (before after : Wallet)
    (file : WalletFile) : Prop where
  balance : (loadOrCreateWallet J file address).1.balance = before.balance ∨
    (loadOrCreateWallet J file address).1.balance = after.balance
  kept : (loadOrCreateWallet J file address).2 = file

section Save
variable (P : Platform) (ctx : ClientContext P.ed)

/-- The wallet that an event saves: a `do_pay` that debits, or a payment that is
credited. -/
def savedBy (s : ClientState) : TaskEvent → Option Wallet
  | .pay now paymentId args =>
    match (doPay P ctx now paymentId args s).exit with
    | .sent _ => some (doPay P ctx now paymentId args s).state.app.wallet
    | _ => none
  | .recv now msg =>
    match (recvLoop P ctx now msg s).exit with
    | .credited => some (recvLoop P ctx now msg s).state.app.wallet
    | _ => none
  | .say _ _ _ => none

end Save

/-! ## A file cut short -/

/-- A text whose bytes begin another is a beginning of it. -/
theorem prefix_of_asBytes_prefix {s t : String} (h : asBytes s <+: asBytes t) :
    s.toList <+: t.toList := by
  obtain ⟨rest, hrest⟩ := h
  apply List.isPrefix_of_utf8Encode_append_eq_utf8Encode ⟨rest.toArray⟩
  rw [String.utf8Encode_toList, String.utf8Encode_toList]
  apply ByteArray.ext
  apply Array.toList_inj.mp
  rw [ByteArray.data_append, Array.toList_append]
  exact hrest

variable {P : Platform} {ctx : ClientContext P.ed} {s : ClientState}

/-- A file that lacks its last bytes cannot be read. -/
theorem readWallet_take {J : WalletJson} {w : Wallet} (hJ : J.RejectsPrefixes w) {n : ℕ}
    (hn : n < (asBytes (J.toStringPretty w)).length) :
    readWallet J (some ((asBytes (J.toStringPretty w)).take n)) = none := by
  simp only [readWallet, Option.bind_some]
  cases htext : fromUtf8 ((asBytes (J.toStringPretty w)).take n) with
  | none => rfl
  | some text =>
    have hbytes := asBytes_of_fromUtf8 htext
    have hprefix : text.toList <+: (J.toStringPretty w).toList := by
      apply prefix_of_asBytes_prefix
      rw [hbytes]
      exact List.take_prefix _ _
    have hne : text.toList ≠ (J.toStringPretty w).toList := by
      intro he
      have hlen := congrArg List.length hbytes
      rw [String.toList_inj.mp he, List.length_take] at hlen
      omega
    have hnone := hJ text.toList hprefix hne
    rwa [String.ofList_toList] at hnone

/-- A file that cannot be read is replaced. -/
theorem loadOrCreateWallet_ne {J : WalletJson} {file : WalletFile}
    (h : readWallet J file = none) (address : String) :
    (loadOrCreateWallet J file address).2 ≠ file := by
  intro he
  have hread := readWallet_loadOrCreateWallet J file address
  rw [he, h] at hread
  cases hread

/-- **One save**, of `after` over a file that holds `before`. -/
theorem recovers_saveWalletUntil_iff {J : WalletJson} {before after : Wallet}
    {file : WalletFile} (hfile : readWallet J file = some before)
    (hJ : J.RejectsPrefixes after) (address : String) (cp : CrashPoint) :
    Recovers J address before after (saveWalletUntil J file after cp) ↔
      cp = .beforeTruncate ∨
        ∃ n, cp = .written n ∧ (asBytes (J.toStringPretty after)).length ≤ n := by
  cases cp with
  | beforeTruncate =>
    have hload := loadOrCreateWallet_of_readWallet J hfile address
    refine iff_of_true ⟨Or.inl ?_, ?_⟩ (Or.inl rfl)
    · rw [saveWalletUntil, CrashPoint.write, hload]
    · rw [saveWalletUntil, CrashPoint.write, hload]
  | written n =>
    by_cases hn : (asBytes (J.toStringPretty after)).length ≤ n
    · have hall : saveWalletUntil J file after (.written n) = saveWallet J after := by
        rw [saveWalletUntil, CrashPoint.write, List.take_of_length_le hn, saveWallet]
      have hload := loadOrCreateWallet_of_readWallet J (readWallet_saveWallet J after) address
      refine iff_of_true ⟨Or.inr ?_, ?_⟩ (Or.inr ⟨n, rfl, hn⟩)
      · rw [hall, hload]
      · rw [hall, hload]
    · constructor
      · intro hrec
        exact absurd hrec.kept (loadOrCreateWallet_ne (readWallet_take hJ (by omega)) address)
      · rintro (hcp | ⟨m, hcp, hm⟩)
        · cases hcp
        · cases hcp
          exact absurd hm hn

/-! ## A crash of the client -/

/-- What an event saves is the wallet it leaves, in memory and in the file. -/
theorem saved_of_savedBy {e : TaskEvent} {w : Wallet} (h : savedBy P ctx s e = some w) :
    (taskStep P ctx s e).app.wallet = w ∧
      (taskStep P ctx s e).walletFile = saveWallet P.json w := by
  cases e with
  | say now msgId text => cases h
  | pay now paymentId args =>
    simp only [savedBy] at h
    rcases doPay_cases P ctx now paymentId args s with ⟨p, hp⟩ | ⟨hexit, -, -⟩
    · rw [hp.exit, Option.some.injEq] at h
      refine ⟨h, ?_⟩
      rw [← h, taskStep, hp.walletFile, hp.wallet]
    · split at h
      · exact absurd ‹_› (hexit _)
      · cases h
  | recv now msg =>
    simp only [savedBy] at h
    cases hrun : s.receiving with
    | false =>
      rw [recvLoop_stopped hrun] at h
      cases h
    | true =>
      rw [recvLoop_receiving hrun] at h
      rcases handleMsg_cases P ctx now msg s with ⟨p, w', -, hc⟩ | ⟨hexit, -, -, -⟩
      · rw [hc.exit, Option.some.injEq] at h
        rw [taskStep, recvLoop_receiving hrun, ← h, hc.walletFile, hc.wallet]
        exact ⟨rfl, rfl⟩
      · split at h
        · exact absurd ‹_› hexit
        · cases h

/-- A client that runs, with restarts, keeps its wallet saved. -/
theorem saved_run {es : List ClientEvent} (h : s.Saved P.json) :
    ((client P ctx).run s es).Saved P.json := by
  have hstep : ∀ s e, s.Saved P.json → (client P ctx).Enabled s e → True →
      ((client P ctx).next s e).Saved P.json := by
    intro s e hs _ _
    cases e with
    | task e => exact saved_taskStep hs
    | restart localAddr => exact saved_startup localAddr s.walletFile
  exact EventSystem.invariant_run hstep (EventSystem.always_true (fun _ _ => trivial)) h

/-- **A crash while the wallet is saved is harmless if and only if it comes before the
truncation or after the last byte.**  In any state a client can reach, let an event save
the wallet `w`.  If nothing goes wrong, `w` is in memory and in the file; if the write is
cut short, the next start finds the balance before or after the event, in a file it can
read, exactly in these two cases. -/
theorem recovers_iff (P : Platform) (ctx : ClientContext P.ed) (localAddr : SocketAddr)
    (file : WalletFile) (es : List ClientEvent) (e : TaskEvent) (w : Wallet)
    (hw : savedBy P ctx ((client P ctx).run (startup P ctx localAddr file) es) e = some w)
    (hJ : P.json.RejectsPrefixes w) (cp : CrashPoint) :
    let s := (client P ctx).run (startup P ctx localAddr file) es
    ((taskStep P ctx s e).app.wallet = w ∧
      (taskStep P ctx s e).walletFile = saveWallet P.json w) ∧
    (Recovers P.json ctx.myBtc s.app.wallet w (saveWalletUntil P.json s.walletFile w cp) ↔
      cp = .beforeTruncate ∨
        ∃ n, cp = .written n ∧ (asBytes (P.json.toStringPretty w)).length ≤ n) := by
  intro s
  have hsaved : s.Saved P.json := saved_run (saved_startup localAddr file)
  exact ⟨saved_of_savedBy hw, recovers_saveWalletUntil_iff hsaved hJ ctx.myBtc cp⟩

/-- The wallet that alice, with five satoshis, saves when she pays three of them. -/
def twoLeft : Wallet where
  balance := 2
  address := "1Alice"

theorem plainJson_rejectsPrefixes : plainJson.RejectsPrefixes twoLeft := by
  intro l hprefix hne
  have htake : ∀ n < (plainJson.toStringPretty twoLeft).toList.length,
      plainJson.fromStr (String.ofList ((plainJson.toStringPretty twoLeft).toList.take n)) =
        none := by
    decide +kernel
  obtain ⟨rest, hrest⟩ := hprefix
  have hl : l = (plainJson.toStringPretty twoLeft).toList.take l.length := by
    rw [← hrest, List.take_left]
  have hlen : l.length < (plainJson.toStringPretty twoLeft).toList.length := by
    apply Nat.lt_of_not_le
    intro hle
    rw [List.take_of_length_le hle] at hl
    exact hne hl
  rw [hl]
  exact htake l.length hlen

theorem savedBy_bob3 :
    savedBy samplePlatform alice (aliceStart 5) (.pay 0 7 "bob 3") = some twoLeft := by
  decide +kernel

/-- Alice pays three satoshis, and half of the file is written. -/
theorem bob3_recovers_iff :
    savedBy samplePlatform alice (aliceStart 5) (.pay 0 7 "bob 3") = some twoLeft ∧
    plainJson.RejectsPrefixes twoLeft ∧
    ¬ Recovers plainJson alice.myBtc (aliceStart 5).app.wallet twoLeft
      (saveWalletUntil plainJson (aliceStart 5).walletFile twoLeft (.written 20)) := by
  refine ⟨savedBy_bob3, plainJson_rejectsPrefixes, ?_⟩
  have h := (recovers_iff samplePlatform alice (.v4 0 40000)
    (saveWallet plainJson { balance := 5, address := "1Alice" }) [] (.pay 0 7 "bob 3") twoLeft
    savedBy_bob3 plainJson_rejectsPrefixes (.written 20)).2
  intro hrec
  rcases h.mp hrec with hcp | ⟨n, hcp, hlen⟩
  · cases hcp
  · cases hcp
    exact absurd hlen (by decide +kernel)

/-- **A crash can take the whole balance**: alice has five satoshis and pays three, the
process dies between the truncation and the first byte, and the next start finds none. -/
theorem balance_lost :
    ¬ ∀ (es : List ClientEvent) (e : TaskEvent) (w : Wallet) (cp : CrashPoint),
      let s := (client samplePlatform alice).run (aliceStart 5) es
      savedBy samplePlatform alice s e = some w →
        Recovers plainJson alice.myBtc s.app.wallet w
          (saveWalletUntil plainJson s.walletFile w cp) := by
  intro h
  rcases (h [] (.pay 0 7 "bob 3") twoLeft (.written 0) savedBy_bob3).balance with
    hbefore | hafter
  · exact absurd hbefore (by decide +kernel)
  · exact absurd hafter (by decide +kernel)

end Zeta
