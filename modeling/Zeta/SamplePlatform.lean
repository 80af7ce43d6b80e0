import Zeta.Network

/-!
# A platform that computes

The libraries of a `Platform` are parameters.  This module gives one choice of
them that evaluates, for the runs on concrete inputs elsewhere: a wallet file in
the format `serde_json` prints for an address without characters to escape, and
a keyed checksum in place of Ed25519, which like it accepts exactly what the key
signed.  Over these libraries it sets up two clients, "alice" and "bob", and a relay
between them.
-/

namespace Zeta

/-- The rest of `l` after the prefix `p`. -/
def stripPrefix (p l : List Char) : Option (List Char) :=
  if p.isPrefixOf l then some (l.drop p.length) else none

@[simp] theorem stripPrefix_append (p l : List Char) : stripPrefix p (p ++ l) = some l := by
  have hp : p.isPrefixOf (p ++ l) = true := List.isPrefixOf_iff_prefix.mpr (List.prefix_append p l)
  simp [stripPrefix, hp]

namespace PlainJson

/-- The text before the balance. -/
def head : List Char := "\x7b\n  \"balance\": ".toList

/-- The text between the balance and the address. -/
def middle : List Char := ',' :: "\n  \"address\": \"".toList

/-- The text after the address. -/
def tail : List Char := "\"\n\x7d".toList

/-- The wallet in the format of `to_string_pretty`. -/
def print (w : Wallet) : String :=
  String.ofList
    (head ++ (Nat.toDigits 10 w.balance.toNat ++ (middle ++ (w.address.toList ++ tail))))

/-- The wallet a text of that format describes. -/
def parse (text : String) : Option Wallet := do
  let rest ← stripPrefix head text.toList
  let balance ← parseDigits 0 (rest.takeWhile Char.isDigit)
  let rest ← stripPrefix middle (rest.dropWhile Char.isDigit)
  let address := rest.take (rest.length - tail.length)
  if address ++ tail = rest then
    some { balance := UInt64.ofNat balance, address := String.ofList address }
  else none

/-- The digits end where the text after them begins. -/
theorem span_digits {digits : List Char} (rest : List Char) (hd : ∀ c ∈ digits, c.isDigit = true) :
    (digits ++ (middle ++ rest)).takeWhile Char.isDigit = digits ∧
      (digits ++ (middle ++ rest)).dropWhile Char.isDigit = middle ++ rest := by
  have hcomma : Char.isDigit ',' = false := by decide
  rw [List.takeWhile_append_of_pos hd, List.dropWhile_append_of_pos hd, middle, List.cons_append,
    List.takeWhile_cons_of_neg (by simp [hcomma]), List.dropWhile_cons_of_neg (by simp [hcomma]),
    List.append_nil]
  exact ⟨rfl, rfl⟩

theorem parse_print (w : Wallet) : parse (print w) = some w := by
  have hdigits : ∀ c ∈ Nat.toDigits 10 w.balance.toNat, c.isDigit = true :=
    fun c hc => Nat.isDigit_of_mem_toDigits (by omega) (by omega) hc
  obtain ⟨htake, hdrop⟩ := span_digits (w.address.toList ++ tail) hdigits
  simp [parse, print, htake, hdrop, parseDigits_toDigits]

end PlainJson

/-- `serde_json` on wallets whose address needs no escape. -/
def plainJson : WalletJson where
  toStringPretty := PlainJson.print
  fromStr := PlainJson.parse
  fromStr_toStringPretty := PlainJson.parse_print

/-- The checksum of `data` under a key. -/
def checksum (key : UInt8) (data : List UInt8) : UInt8 :=
  data.foldl (fun h b => 31 * h + b) key

/-- A signature scheme that signs with a keyed checksum. -/
def checksumScheme : Ed25519 where
  SigningKey := UInt8
  VerifyingKey := Vector UInt8 32
  verifyingKey key := Vector.replicate 32 key
  toBytes vk := vk
  fromBytes bytes := some bytes
  sign key data := Vector.replicate 64 (checksum key data)
  verify vk data sig := sig = Vector.replicate 64 (checksum (vk[0]) data)

theorem checksumScheme_correct : checksumScheme.Correct := by
  intro key data
  exact ⟨_, rfl, decide_eq_true rfl⟩

/-- A release build of the program over the sample libraries. -/
def samplePlatform : Platform where
  build := .release
  ed := checksumScheme
  json := plainJson

/-! ## Two clients -/

/-- A client called "alice". -/
def alice : ClientContext samplePlatform.ed where
  peerId := "alice"
  signingKey := (1 : UInt8)
  myBtc := "1Alice"
  relayAddrs := [.v4 0x0A000001 12345]

/-- A client called "bob". -/
def bob : ClientContext samplePlatform.ed where
  peerId := "bob"
  signingKey := (2 : UInt8)
  myBtc := "1Bob"
  relayAddrs := [.v4 0x0A000001 12345]

/-- Alice's start, with this balance in her file. -/
def aliceStart (balance : UInt64) : ClientState :=
  startup samplePlatform alice (.v4 0 40000)
    (saveWallet plainJson { balance, address := "1Alice" })

/-- Bob's start, with this balance in his file. -/
def bobStart (balance : UInt64) : ClientState :=
  startup samplePlatform bob (.v4 0 40000) (saveWallet plainJson { balance, address := "1Bob" })

/-- Five satoshis for bob. -/
def fiveForBob : Payment := { srcId := "alice", dstId := "bob", amount := 5, paymentId := 7 }

/-- A text that alice wrote and signed, with a given id. -/
def aliceText (msgId : UInt64) : Classic :=
  classicOf samplePlatform alice 0 msgId "hello" (aliceStart 5)

/-- An unsigned text with a given id. -/
def forged (msgId : UInt64) : Classic where
  srcAddr := .unspecified
  srcId := "mallory"
  dstAddr := .unspecified
  dstId := "all"
  txt := ""
  time := 0
  msgId := msgId
  ttl := 0
  publicKey := []
  signature := []

/-! ## A network -/

/-- A relay without federation. -/
def sampleRelay : RelayContext samplePlatform.ed where
  peerId := "relay"
  signingKey := (9 : UInt8)
  addr := .v4 0x0A000001 12345
  peerRelays := []

/-- Alice, bob and a relay. -/
def aliceAndBob : Network samplePlatform (Fin 2) (Fin 1) where
  client i := if i = 0 then alice else bob
  relay _ := sampleRelay

/-- They share no identifier. -/
theorem Network.aliceAndBob_names (i j : Fin 2) (id : String) (hi : (aliceAndBob.client i).IsMe id)
    (hj : (aliceAndBob.client j).IsMe id) : i = j := by
  have hdiff : ∀ i j : Fin 2, ∀ id ∈ [(aliceAndBob.client i).peerId,
      (aliceAndBob.client i).myFp, (aliceAndBob.client i).myBtc],
      (aliceAndBob.client j).IsMe id → i = j := by decide +kernel
  exact hdiff i j id (by simpa [ClientContext.IsMe] using hi) hj

/-- They are started; alice has five satoshis, bob has none. -/
def aliceAndBobBoot : Boot (Fin 2) (Fin 1) where
  addr i := if i = 0 then .v4 1 40000 else .v4 2 40000
  localAddr _ := .v4 0 40000
  file i := if i = 0 then saveWallet plainJson { balance := 5, address := "1Alice" } else none
  relays _ := relayStartup

/-- Bob registers, alice pays him five satoshis through the relay, and he is handed her
payment twice. -/
def paymentRun : List (WorldEvent (Fin 2) (Fin 1)) :=
  let relay : SocketAddr := .v4 0x0A000001 12345
  let arrival : WorldEvent (Fin 2) (Fin 1) :=
    .clientRecv 1 0 ⟨relay, .v4 2 40000, .payment fiveForBob⟩
  [.register 1 0,
    .relayRecv 0
      ⟨.v4 2 40000, relay, .register ⟨.v4 0 40000, "bob", relay, "relay", 0, some "1Bob"⟩⟩,
    .pay 0 0 7 "bob 5", .relayRecv 0 ⟨.v4 1 40000, relay, .payment fiveForBob⟩,
    arrival, arrival]

/-- Then alice registers too, and bob's acknowledgement reaches her through the relay. -/
def ackRun : List (WorldEvent (Fin 2) (Fin 1)) :=
  let relay : SocketAddr := .v4 0x0A000001 12345
  let ack : Message := .paymentAck { fromId := "bob", toId := "alice", paymentId := 7 }
  paymentRun ++
    [.register 0 0,
    .relayRecv 0
      ⟨.v4 1 40000, relay, .register ⟨.v4 0 40000, "alice", relay, "relay", 0, some "1Alice"⟩⟩,
    .relayRecv 0 ⟨.v4 2 40000, relay, ack⟩, .clientRecv 0 0 ⟨relay, .v4 1 40000, ack⟩]

/-- Bob registers, and a text of alice's reaches him through the relay. -/
def textRun : List (WorldEvent (Fin 2) (Fin 1)) :=
  let relay : SocketAddr := .v4 0x0A000001 12345
  [.register 1 0,
    .relayRecv 0
      ⟨.v4 2 40000, relay, .register ⟨.v4 0 40000, "bob", relay, "relay", 0, some "1Bob"⟩⟩,
    .say 0 0 7 "hello", .relayRecv 0 ⟨.v4 1 40000, relay, .classic (aliceText 7)⟩,
    .clientRecv 1 0 ⟨relay, .v4 2 40000, .classic (aliceText 7).forwarded⟩]

end Zeta
