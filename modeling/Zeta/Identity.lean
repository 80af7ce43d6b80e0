import Zeta.Wallet

/-!
# Identities and signatures

`identity.rs`.  The signature scheme of `ed25519_dalek` is a parameter; what the
module adds to it, the byte string that is signed and the checks `verify` makes
before it asks the scheme, is computed here.
-/

namespace Zeta

/-- The part of `ed25519_dalek` the program calls. -/
structure Ed25519 where
  SigningKey : Type
  VerifyingKey : Type
  verifyingKey : SigningKey → VerifyingKey
  toBytes : VerifyingKey → Vector UInt8 32
  fromBytes : Vector UInt8 32 → Option VerifyingKey
  sign : SigningKey → List UInt8 → Vector UInt8 64
  verify : VerifyingKey → List UInt8 → Vector UInt8 64 → Bool

/-- The scheme accepts what it signed. -/
def Ed25519.Correct (E : Ed25519) : Prop :=
  ∀ key data, ∃ vk, E.fromBytes (E.toBytes (E.verifyingKey key)) = some vk ∧
    E.verify vk data (E.sign key data) = true

/-- One lowercase hexadecimal digit. -/
def hexDigit (n : Nat) : Char := Char.ofNat (if n < 10 then 48 + n else 87 + n)

/-- `format!("{:02x}", b)`. -/
def hexByte (b : UInt8) : List Char := [hexDigit (b.toNat / 16), hexDigit (b.toNat % 16)]

/-- `fingerprint`: the first 8 bytes of the key in hexadecimal. -/
def fingerprint (publicKey : List UInt8) : String :=
  String.ofList ((publicKey.take 8).flatMap hexByte)

/-- The `n` low bytes of `x`, least significant first. -/
def leBytes : Nat → Nat → List UInt8
  | 0, _ => []
  | n + 1, x => UInt8.ofNat (x % 256) :: leBytes n (x / 256)

/-- `x.to_le_bytes()` of a `u64`. -/
def toLeBytes (x : UInt64) : List UInt8 := leBytes 8 x.toNat

/-- `build_signed_data`: the two strings and the two integers, one after the
other. -/
def buildSignedData (srcId txt : String) (time msgId : UInt64) : List UInt8 :=
  asBytes srcId ++ asBytes txt ++ toLeBytes time ++ toLeBytes msgId

/-- `<[u8; n]>::try_from(bytes)`. -/
def tryFrom (n : Nat) (bytes : List UInt8) : Option (Vector UInt8 n) :=
  if h : bytes.length = n then some ⟨bytes.toArray, by simpa using h⟩ else none

/-- `sign`. -/
def sign (E : Ed25519) (key : E.SigningKey) (srcId txt : String) (time msgId : UInt64) :
    List UInt8 :=
  (E.sign key (buildSignedData srcId txt time msgId)).toList

/-- `verify`. -/
def verify (E : Ed25519) (publicKey : List UInt8) (srcId txt : String)
    (time msgId : UInt64) (signature : List UInt8) : Bool :=
  match tryFrom 32 publicKey with
  | none => false
  | some pkBytes =>
    match tryFrom 64 signature with
    | none => false
    | some sigBytes =>
      match E.fromBytes pkBytes with
      | none => false
      | some vk => E.verify vk (buildSignedData srcId txt time msgId) sigBytes

/-! ## What the signed bytes determine -/

@[simp] theorem length_leBytes (n x : Nat) : (leBytes n x).length = n := by
  induction n generalizing x with
  | zero => rfl
  | succ n ih => simp [leBytes, ih]

theorem leBytes_inj {n x y : Nat} (h : leBytes n x = leBytes n y) :
    x % 256 ^ n = y % 256 ^ n := by
  induction n generalizing x y with
  | zero => simp [Nat.mod_one]
  | succ n ih =>
    simp only [leBytes, List.cons.injEq] at h
    obtain ⟨hbyte, hrest⟩ := h
    have hlow : x % 256 = y % 256 := by
      have := congrArg UInt8.toNat hbyte
      simpa using this
    have hhigh := ih hrest
    rw [Nat.pow_succ', Nat.mod_mul, Nat.mod_mul, hlow, hhigh]

@[simp] theorem length_toLeBytes (x : UInt64) : (toLeBytes x).length = 8 :=
  length_leBytes 8 x.toNat

theorem toLeBytes_inj {x y : UInt64} (h : toLeBytes x = toLeBytes y) : x = y := by
  have hmod := leBytes_inj h
  rw [Nat.mod_eq_of_lt (by exact x.toNat_lt), Nat.mod_eq_of_lt (by exact y.toNat_lt)] at hmod
  exact UInt64.toNat_inj.mp hmod

/-- **What a signature binds**: the two integers, and the two strings only as
their concatenation. -/
theorem buildSignedData_inj_iff {srcId srcId' txt txt' : String}
    {time time' msgId msgId' : UInt64} :
    buildSignedData srcId txt time msgId = buildSignedData srcId' txt' time' msgId' ↔
      srcId ++ txt = srcId' ++ txt' ∧ time = time' ∧ msgId = msgId' := by
  constructor
  · intro h
    unfold buildSignedData at h
    obtain ⟨h, hid⟩ := List.append_inj' h (by simp)
    obtain ⟨h, htime⟩ := List.append_inj' h (by simp)
    rw [← asBytes_append, ← asBytes_append] at h
    exact ⟨asBytes_inj h, toLeBytes_inj htime, toLeBytes_inj hid⟩
  · rintro ⟨h, rfl, rfl⟩
    unfold buildSignedData
    rw [← asBytes_append, ← asBytes_append, h]

/-- Two strings cut out of one text at the same place are the same two strings. -/
theorem append_cancel_of_utf8ByteSize {a a' b b' : String} (h : a ++ b = a' ++ b')
    (hlen : a.utf8ByteSize = a'.utf8ByteSize) : a = a' ∧ b = b' := by
  have hbytes : asBytes a ++ asBytes b = asBytes a' ++ asBytes b' := by
    rw [← asBytes_append, ← asBytes_append, h]
  obtain ⟨ha, hb⟩ := List.append_inj hbytes (by simpa [length_asBytes] using hlen)
  exact ⟨asBytes_inj ha, asBytes_inj hb⟩

/-! ## What `verify` reads -/

@[simp] theorem tryFrom_toList {n : Nat} (v : Vector UInt8 n) : tryFrom n v.toList = some v := by
  obtain ⟨bytes, hsize⟩ := v
  simp [tryFrom, hsize]

/-- What `sign` made with a key, `verify` accepts under that key. -/
theorem verify_sign {E : Ed25519} (hE : E.Correct) (key : E.SigningKey) (srcId txt : String)
    (time msgId : UInt64) :
    verify E (E.toBytes (E.verifyingKey key)).toList srcId txt time msgId
      (sign E key srcId txt time msgId) = true := by
  obtain ⟨vk, hvk, hok⟩ := hE key (buildSignedData srcId txt time msgId)
  simp [verify, sign, hvk, hok]

end Zeta
