import Zeta.Message

/-!
# The wallet

`wallet.rs`: the balance kept in memory and the file `./{peer_id}_wallet.json`
it is written to.  `serde_json` is a parameter (`WalletJson`) of which only the
round trip is known.
-/

namespace Zeta

/-- How the program was compiled.  `cargo build` checks integer overflow and
panics on it; `cargo build --release` wraps. -/
inductive Build where
  | debug
  | release
  deriving DecidableEq

/-- `s.as_bytes()`. -/
def asBytes (s : String) : List UInt8 := s.toUTF8.data.toList

/-- `String::from_utf8`, the decoding step of `std::fs::read_to_string`. -/
def fromUtf8 (bytes : List UInt8) : Option String := String.fromUTF8? ⟨bytes.toArray⟩

theorem fromUtf8_asBytes (s : String) : fromUtf8 (asBytes s) = some s := by
  have hvalid : (⟨(asBytes s).toArray⟩ : ByteArray) = s.toByteArray := rfl
  simp only [fromUtf8, String.fromUTF8?, hvalid, s.isValidUTF8, dite_true]
  rfl

theorem asBytes_of_fromUtf8 {bytes : List UInt8} {text : String}
    (h : fromUtf8 bytes = some text) : asBytes text = bytes := by
  unfold fromUtf8 String.fromUTF8? at h
  split at h
  · rw [← Option.some.inj h]
    rfl
  · cases h

theorem asBytes_inj {s t : String} (h : asBytes s = asBytes t) : s = t := by
  have hs := fromUtf8_asBytes s
  rw [h, fromUtf8_asBytes] at hs
  exact (Option.some.inj hs).symm

theorem asBytes_append (s t : String) : asBytes (s ++ t) = asBytes s ++ asBytes t := by
  simp [asBytes, String.toUTF8]

theorem length_asBytes (s : String) : (asBytes s).length = s.utf8ByteSize := rfl

/-- `Wallet`. -/
structure Wallet where
  balance : UInt64
  address : String
  deriving DecidableEq

/-- `serde_json` on a `Wallet`: `to_string_pretty` and `from_str`. -/
structure WalletJson where
  toStringPretty : Wallet → String
  fromStr : String → Option Wallet
  fromStr_toStringPretty : ∀ w, fromStr (toStringPretty w) = some w

/-- The contents of `./{peer_id}_wallet.json`, `none` when the file is missing. -/
abbrev WalletFile := Option (List UInt8)

variable (J : WalletJson)

/-- `save_wallet`: the file afterwards. -/
def saveWallet (w : Wallet) : WalletFile := some (asBytes (J.toStringPretty w))

/-- What `load_or_create_wallet` makes of the file: a wallet if it can be read as
UTF-8 and parsed. -/
def readWallet (file : WalletFile) : Option Wallet :=
  (file.bind fromUtf8).bind J.fromStr

/-- `load_or_create_wallet`: the wallet, and the file afterwards. -/
def loadOrCreateWallet (file : WalletFile) (address : String) : Wallet × WalletFile :=
  match readWallet J file with
  | some wallet => (wallet, file)
  | none =>
    -- A file that is there but cannot be read is overwritten as well.
    let wallet : Wallet := { balance := 0, address }
    (wallet, saveWallet J wallet)

@[simp] theorem readWallet_saveWallet (w : Wallet) :
    readWallet J (saveWallet J w) = some w := by
  simp [readWallet, saveWallet, fromUtf8_asBytes, J.fromStr_toStringPretty]

/-- After startup the file parses to the wallet in memory, whatever it held. -/
theorem readWallet_loadOrCreateWallet (file : WalletFile) (address : String) :
    readWallet J (loadOrCreateWallet J file address).2 =
      some (loadOrCreateWallet J file address).1 := by
  unfold loadOrCreateWallet
  cases h : readWallet J file with
  | none => exact readWallet_saveWallet J _
  | some w => exact h

/-- A wallet that was saved is the one loaded next. -/
theorem loadOrCreateWallet_of_readWallet {file : WalletFile} {w : Wallet}
    (h : readWallet J file = some w) (address : String) :
    loadOrCreateWallet J file address = (w, file) := by
  simp [loadOrCreateWallet, h]

/-- `debit`: `false`, and an unchanged wallet, if the balance is insufficient. -/
def debit (w : Wallet) (amount : UInt64) : Bool × Wallet :=
  if w.balance < amount then (false, w)
  else (true, { w with balance := w.balance - amount })

/-- `credit`, an unguarded `+=`: `none` is the panic of a debug build. -/
def credit (b : Build) (w : Wallet) (amount : UInt64) : Option Wallet :=
  if b = .debug ∧ 2 ^ 64 ≤ w.balance.toNat + amount.toNat then none
  else some { w with balance := w.balance + amount }

theorem debit_fst (w : Wallet) (amount : UInt64) :
    (debit w amount).1 = decide (amount.toNat ≤ w.balance.toNat) := by
  unfold debit
  split
  · rename_i h
    rw [UInt64.lt_iff_toNat_lt] at h
    simp [h]
  · rename_i h
    rw [UInt64.lt_iff_toNat_lt] at h
    simpa using h

/-- A successful debit takes the amount off exactly. -/
theorem debit_balance {w : Wallet} {amount : UInt64} (h : (debit w amount).1 = true) :
    (debit w amount).2.balance.toNat + amount.toNat = w.balance.toNat := by
  have hle : amount.toNat ≤ w.balance.toNat := by simpa [debit_fst] using h
  have hlt : ¬ w.balance < amount := by
    rw [UInt64.lt_iff_toNat_lt]; omega
  have hle' : amount ≤ w.balance := UInt64.le_iff_toNat_le.mpr hle
  simp only [debit, hlt, if_false, UInt64.toNat_sub_of_le _ _ hle']
  omega

/-- Below the overflow, a credit adds the amount exactly, in either build. -/
theorem credit_of_lt {b : Build} {w : Wallet} {amount : UInt64}
    (h : w.balance.toNat + amount.toNat < 2 ^ 64) :
    credit b w amount = some { w with balance := w.balance + amount } := by
  have hn : ¬ (b = .debug ∧ 2 ^ 64 ≤ w.balance.toNat + amount.toNat) := by omega
  simp only [credit, hn, if_false]

/-- A credit that goes through adds the amount modulo `2^64`. -/
theorem credit_balance {b : Build} {w w' : Wallet} {amount : UInt64}
    (h : credit b w amount = some w') :
    w'.balance.toNat = (w.balance.toNat + amount.toNat) % 2 ^ 64 := by
  unfold credit at h
  split at h
  · cases h
  · rw [← Option.some.inj h]
    exact UInt64.toNat_add _ _

/-- A credit never adds more than the amount: it adds it, wraps, or panics and
leaves the wallet as it is. -/
theorem credit_le (b : Build) (w : Wallet) (amount : UInt64) :
    ((credit b w amount).getD w).balance.toNat ≤ w.balance.toNat + amount.toNat := by
  cases hc : credit b w amount with
  | none => exact Nat.le_add_right _ _
  | some w' =>
    rw [Option.getD_some, credit_balance hc]
    exact Nat.mod_le _ _

/-- **A credit is exact if and only if it does not overflow**, in either build. -/
theorem credit_exact_iff (b : Build) (w : Wallet) (amount : UInt64) :
    ((credit b w amount).getD w).balance.toNat = w.balance.toNat + amount.toNat ↔
      w.balance.toNat + amount.toNat < 2 ^ 64 := by
  constructor
  · intro h
    rw [← h]
    exact UInt64.toNat_lt _
  · intro h
    have hc := credit_of_lt (b := b) h
    rw [hc, Option.getD_some, credit_balance hc, Nat.mod_eq_of_lt h]

end Zeta
