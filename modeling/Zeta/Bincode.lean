import Zeta.Codec
import Zeta.Identity
import Zeta.Message

/-!
# The serialisation library

What `bincode` (version 1, with its default configuration) writes for the types that the
fields of a `Message` have.  The library is a parameter, `Bincode`: each of these types has
a codec whose values may be followed by anything, and which reads nothing but what it writes.
That holds of integers of fixed width, which are the default; the variable ones that `bincode`
also has are read from longer encodings, too.  A `SocketAddr` loses the flow label and the
scope of an IPv6 address.

`Bincode.fixint` is the documented format: integers of fixed width, least significant byte
first, a `u64` length before strings and vectors, a byte before an `Option`, and a `u32`
before the variant of an enum.
-/

namespace Zeta

/-- Lengths are written as a `u64`. -/
abbrev wireLimit : ℕ := 2 ^ 64

/-- What is left of an address that was sent. -/
def SocketAddr.onWire : SocketAddr → SocketAddr
  | .v4 ip port => .v4 ip port
  | .v6 ip port _ _ => .v6 ip port 0 0

/-- The part of `bincode` and of `serde` that the program uses. -/
structure Bincode where
  /-- The index of the variant of an enum. -/
  variant : Codec UInt8 wireLimit (id : UInt32 → UInt32)
  u8 : Codec UInt8 wireLimit (id : UInt8 → UInt8)
  u64 : Codec UInt8 wireLimit (id : UInt64 → UInt64)
  string : Codec UInt8 wireLimit (id : String → String)
  /-- `Vec<u8>` -/
  bytes : Codec UInt8 wireLimit (id : List UInt8 → List UInt8)
  /-- `Option<String>` -/
  optionString : Codec UInt8 wireLimit (id : Option String → Option String)
  socketAddr : Codec UInt8 wireLimit SocketAddr.onWire

/-! ## Integers -/

/-- The number that bytes write, least significant first. -/
def ofLeBytes : List UInt8 → ℕ
  | [] => 0
  | b :: bs => b.toNat + 256 * ofLeBytes bs

theorem ofLeBytes_lt (bs : List UInt8) : ofLeBytes bs < 256 ^ bs.length := by
  induction bs with
  | nil => simp [ofLeBytes]
  | cons b bs ih =>
    have hb : b.toNat < 256 := b.toNat_lt
    rw [ofLeBytes, List.length_cons, Nat.pow_succ']
    omega

theorem ofLeBytes_leBytes (n x : ℕ) : ofLeBytes (leBytes n x) = x % 256 ^ n := by
  induction n generalizing x with
  | zero => rw [leBytes, ofLeBytes, Nat.pow_zero, Nat.mod_one]
  | succ n ih =>
    have hlow : (UInt8.ofNat (x % 256)).toNat = x % 256 := by simp
    rw [leBytes, ofLeBytes, ih, hlow, Nat.pow_succ', Nat.mod_mul]

theorem leBytes_ofLeBytes (bs : List UInt8) : leBytes bs.length (ofLeBytes bs) = bs := by
  induction bs with
  | nil => rfl
  | cons b bs ih =>
    have hb : b.toNat < 256 := b.toNat_lt
    have hlow : (b.toNat + 256 * ofLeBytes bs) % 256 = b.toNat := by omega
    have hhigh : (b.toNat + 256 * ofLeBytes bs) / 256 = ofLeBytes bs := by omega
    rw [ofLeBytes, List.length_cons, leBytes, hlow, hhigh, ih, UInt8.ofNat_toNat]

/-- An integer type of `n` bytes, least significant byte first. -/
def leCodec {α : Type} (n : ℕ) (toNat : α → ℕ) (ofNat : ℕ → α) (hlt : ∀ a, toNat a < 256 ^ n)
    (hof : ∀ a, ofNat (toNat a) = a) (hto : ∀ x, x < 256 ^ n → toNat (ofNat x) = x) :
    Codec UInt8 wireLimit (id : α → α) :=
  Codec.fixed n (fun a => leBytes n (toNat a)) (fun bs => ofNat (ofLeBytes bs))
    (fun a => length_leBytes n (toNat a))
    (fun a => by rw [ofLeBytes_leBytes, Nat.mod_eq_of_lt (hlt a), hof])
    (fun bs hbs => by rw [hto _ (hbs ▸ ofLeBytes_lt bs), ← hbs, leBytes_ofLeBytes])

namespace Fixint

def u8 : Codec UInt8 wireLimit (id : UInt8 → UInt8) :=
  leCodec 1 UInt8.toNat UInt8.ofNat (fun a => a.toNat_lt) (fun _ => UInt8.ofNat_toNat)
    (fun _ h => Nat.mod_eq_of_lt h)

def u16 : Codec UInt8 wireLimit (id : UInt16 → UInt16) :=
  leCodec 2 UInt16.toNat UInt16.ofNat (fun a => a.toNat_lt) (fun _ => UInt16.ofNat_toNat)
    (fun _ h => Nat.mod_eq_of_lt h)

def u32 : Codec UInt8 wireLimit (id : UInt32 → UInt32) :=
  leCodec 4 UInt32.toNat UInt32.ofNat (fun a => a.toNat_lt) (fun _ => UInt32.ofNat_toNat)
    (fun _ h => Nat.mod_eq_of_lt h)

def u64 : Codec UInt8 wireLimit (id : UInt64 → UInt64) :=
  leCodec 8 UInt64.toNat UInt64.ofNat (fun a => a.toNat_lt) (fun _ => UInt64.ofNat_toNat)
    (fun _ h => Nat.mod_eq_of_lt h)

/-! ## Sequences of bytes -/

/-- `Vec<u8>` -/
def bytes : Codec UInt8 wireLimit (id : List UInt8 → List UInt8) :=
  Codec.counted u64 UInt64.ofNat UInt64.toNat (fun _ h => Nat.mod_eq_of_lt h)
    (fun _ => UInt64.ofNat_toNat)

def string : Codec UInt8 wireLimit (id : String → String) :=
  bytes.embed asBytes fromUtf8 fromUtf8_asBytes (fun _ _ => asBytes_of_fromUtf8)

/-! ## Options and addresses -/

section TwoVariants
variable {τ : Type} [DecidableEq τ]

/-- The tag of one of two variants. -/
def tagOf (zero one : τ) : Bool → τ
  | false => zero
  | true => one

/-- The variant that has this tag, if one has. -/
def ofTag (zero one t : τ) : Option Bool :=
  if t = zero then some false else if t = one then some true else none

theorem ofTag_eq_some_iff {zero one : τ} (hne : zero ≠ one) (t : τ) (b : Bool) :
    ofTag zero one t = some b ↔ tagOf zero one b = t := by
  unfold ofTag
  split
  · rename_i h
    subst h
    cases b with
    | false => exact iff_of_true rfl rfl
    | true => exact iff_of_false nofun hne.symm
  · rename_i hzero
    split
    · rename_i hone
      subst hone
      cases b with
      | false => exact iff_of_false nofun hne
      | true => exact iff_of_true rfl rfl
    · rename_i hone
      cases b with
      | false => exact iff_of_false nofun (Ne.symm hzero)
      | true => exact iff_of_false nofun (Ne.symm hone)

end TwoVariants

/-- Nothing at all. -/
def nothing : Codec UInt8 wireLimit (id : Unit → Unit) :=
  Codec.fixed 0 (fun _ => []) (fun _ => ()) (fun _ => rfl) (fun _ => rfl)
    (fun _ h => (List.length_eq_zero_iff.mp h).symm)

/-- What follows the tag of an `Option<String>`. -/
def OptionPayload : Bool → Type
  | false => Unit
  | true => String

def optionPayload :
    (tag : Bool) → Codec UInt8 wireLimit (id : OptionPayload tag → OptionPayload tag)
  | false => nothing
  | true => string

def optionString : Codec UInt8 wireLimit (id : Option String → Option String) :=
  (Codec.tagged u8 (tagOf 0 1) (ofTag 0 1) (ofTag_eq_some_iff (by decide)) optionPayload).embed
    (fun
      | none => ⟨false, ()⟩
      | some s => ⟨true, s⟩)
    (fun
      | ⟨false, _⟩ => some none
      | ⟨true, s⟩ => some (some s))
    (fun x => by cases x <;> rfl)
    (fun a x h => by
      obtain ⟨tag, payload⟩ := a
      cases tag with
      | false =>
        cases h
        rfl
      | true =>
        cases h
        rfl)

/-- The octets of an IP address, most significant first. -/
def octets (n : ℕ) : Codec UInt8 wireLimit (id : BitVec (8 * n) → BitVec (8 * n)) :=
  have hpow : 256 ^ n = 2 ^ (8 * n) := by rw [Nat.pow_mul]
  Codec.fixed n (fun ip => (leBytes n ip.toNat).reverse)
    (fun bs => BitVec.ofNat (8 * n) (ofLeBytes bs.reverse))
    (fun ip => by rw [List.length_reverse, length_leBytes])
    (fun ip => by
      rw [List.reverse_reverse, ofLeBytes_leBytes, hpow, Nat.mod_eq_of_lt ip.isLt,
        BitVec.ofNat_toNat, BitVec.setWidth_eq])
    (fun bs hbs => by
      have hlt := ofLeBytes_lt bs.reverse
      rw [List.length_reverse, hbs, hpow] at hlt
      have hback := leBytes_ofLeBytes bs.reverse
      rw [List.length_reverse, hbs] at hback
      rw [BitVec.toNat_ofNat, Nat.mod_eq_of_lt hlt, hback, List.reverse_reverse])

/-- The octets and the port of an address of either version. -/
def Endpoint : Bool → Type
  | false => BitVec 32 × UInt16
  | true => BitVec 128 × UInt16

def endpoint : (version : Bool) → Codec UInt8 wireLimit (id : Endpoint version → Endpoint version)
  | false => (octets 4).pair u16
  | true => (octets 16).pair u16

def socketAddr : Codec UInt8 wireLimit SocketAddr.onWire :=
  (Codec.tagged u32 (tagOf 0 1) (ofTag 0 1) (ofTag_eq_some_iff (by decide)) endpoint).embed
    (fun
      | .v4 ip port => ⟨false, (ip, port)⟩
      | .v6 ip port _ _ => ⟨true, (ip, port)⟩)
    (fun
      | ⟨false, endpoint⟩ => some (.v4 endpoint.1 endpoint.2)
      | ⟨true, endpoint⟩ => some (.v6 endpoint.1 endpoint.2 0 0))
    (fun x => by cases x <;> rfl)
    (fun a x h => by
      obtain ⟨version, endpoint⟩ := a
      cases version with
      | false =>
        cases h
        rfl
      | true =>
        cases h
        rfl)

end Fixint

/-- The documented format of `bincode` 1, and of `serde` for an address. -/
def Bincode.fixint : Bincode where
  variant := Fixint.u32
  u8 := Fixint.u8
  u64 := Fixint.u64
  string := Fixint.string
  bytes := Fixint.bytes
  optionString := Fixint.optionString
  socketAddr := Fixint.socketAddr

/-- Port 12345 of 10.0.0.1. -/
example : Fixint.socketAddr.encode (.v4 0x0A000001 12345) = [0, 0, 0, 0, 10, 0, 0, 1, 57, 48] := by
  decide

end Zeta
