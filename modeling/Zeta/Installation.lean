import Zeta.Keys
import Zeta.Lives

/-!
# An installation

A client has three files: its identity, its Bitcoin key and its wallet.  Each start loads them
in this order, and makes what it does not find.  It may be killed while it does so, and while
it writes a file.

Still there is one identity (`one_identity`): all the lives that get past the two keys have the
same keys.  So the texts of an installation are all signed by one key, its registrations all
name one address, and the wallet is always that of this address.
-/

namespace Zeta

/-- `SigningKey::from_bytes` and `to_bytes`. -/
structure SeedBytes (E : Ed25519) where
  fromBytes : Vector UInt8 32 → E.SigningKey
  toBytes : E.SigningKey → Vector UInt8 32
  fromBytes_toBytes : ∀ key, fromBytes (toBytes key) = key

section Load
variable {E : Ed25519} (S : SeedBytes E)

/-- The key in `./{peer_id}_identity`, if it holds one. -/
def readIdentity (file : KeyFile) : Option E.SigningKey :=
  (file.bind (tryFrom 32)).map S.fromBytes

/-- `load_or_generate_keypair`: the key, and the file afterwards; `random` is the key it
draws if it needs one. -/
def loadOrGenerateKeypair (file : KeyFile) (random : E.SigningKey) : E.SigningKey × KeyFile :=
  match readIdentity S file with
  | some key => (key, file)
  | none => (random, some (S.toBytes random).toList)

/-- `load_or_generate_keypair`, cut short: the file afterwards. -/
def generateKeypairUntil (file : KeyFile) (random : E.SigningKey) (cp : CrashPoint) : KeyFile :=
  match readIdentity S file with
  | some _ => file
  | none => cp.write file (S.toBytes random).toList

/-- What is loaded is in the file afterwards. -/
@[simp] theorem readIdentity_loadOrGenerateKeypair (file : KeyFile) (random : E.SigningKey) :
    readIdentity S (loadOrGenerateKeypair S file random).2 =
      some (loadOrGenerateKeypair S file random).1 := by
  unfold loadOrGenerateKeypair
  cases h : readIdentity S file with
  | none => simp [readIdentity, S.fromBytes_toBytes]
  | some key => exact h

theorem loadOrGenerateKeypair_of_readIdentity {file : KeyFile} {key : E.SigningKey}
    (h : readIdentity S file = some key) (random : E.SigningKey) :
    loadOrGenerateKeypair S file random = (key, file) := by
  simp [loadOrGenerateKeypair, h]

end Load

/-- `load_or_generate_btc_key`, cut short: the file afterwards. -/
def generateBtcKeyUntil (L : BtcLibrary) (file : KeyFile) (random : L.SecretKey)
    (cp : CrashPoint) : KeyFile :=
  match readBtcKey L file with
  | some _ => file
  | none => cp.write file (L.toBytes random)

theorem loadOrGenerateBtcKey_of_readBtcKey {L : BtcLibrary} {file : KeyFile} {key : L.SecretKey}
    (h : readBtcKey L file = some key) (random : L.SecretKey) :
    loadOrGenerateBtcKey L file random = (key, file) := by
  simp [loadOrGenerateBtcKey, h]

/-- The keys of a client. -/
structure ClientKeys (P : Platform) (L : BtcLibrary) where
  signing : P.ed.SigningKey
  btc : L.SecretKey

/-- What an installation leaves: its two key files, the rest, and the keys of all the lives that
got past them. -/
structure Installation (P : Platform) (L : BtcLibrary) where
  identity : KeyFile
  btcKey : KeyFile
  remains : Remains
  used : List (ClientKeys P L)

/-- One start, with the keys that it would draw. -/
inductive StartEvent (P : Platform) (L : BtcLibrary) where
  /-- It is killed in `load_or_generate_keypair`. -/
  | identity (random : ClientKeys P L) (cp : CrashPoint)
  /-- It is killed in `load_or_generate_btc_key`. -/
  | btcKey (random : ClientKeys P L) (cp : CrashPoint)
  /-- It has both its keys. -/
  | life (random : ClientKeys P L) (l : Life)

section Statement
variable (P : Platform) (L : BtcLibrary) (S : SeedBytes P.ed) (peerId : String)
  (relayAddrs : List SocketAddr)

/-- The context of a client with these keys. -/
def contextOf (keys : ClientKeys P L) : ClientContext P.ed where
  peerId
  signingKey := keys.signing
  myBtc := btcAddress L (L.publicKey keys.btc)
  relayAddrs

/-- The keys that a start finds or makes. -/
def loadedKeys (r : Installation P L) (random : ClientKeys P L) : ClientKeys P L where
  signing := (loadOrGenerateKeypair S r.identity random.signing).1
  btc := (loadOrGenerateBtcKey L r.btcKey random.btc).1

/-- The starts of a client, one after the other. -/
def installation : EventSystem (Installation P L) (StartEvent P L) where
  Enabled r
    | .identity _ _ => True
    | .btcKey _ _ => True
    | .life random l =>
      (lives P (contextOf P L peerId relayAddrs (loadedKeys P L S r random))).Enabled r.remains l
  next r
    | .identity random cp =>
      { r with identity := generateKeypairUntil S r.identity random.signing cp }
    | .btcKey random cp =>
      { r with
        identity := (loadOrGenerateKeypair S r.identity random.signing).2
        btcKey := generateBtcKeyUntil L r.btcKey random.btc cp }
    | .life random l =>
      { identity := (loadOrGenerateKeypair S r.identity random.signing).2
        btcKey := (loadOrGenerateBtcKey L r.btcKey random.btc).2
        remains := (lives P (contextOf P L peerId relayAddrs
          (loadedKeys P L S r random))).next r.remains l
        used := r.used ++ [loadedKeys P L S r random] }

/-- The wallet file is the client's own: a wallet in it is that of the key in the key file. -/
def OwnWallet (btcKey : KeyFile) (wallet : WalletFile) : Prop :=
  ∀ w, readWallet P.json wallet = some w →
    ∃ key, readBtcKey L btcKey = some key ∧ w.address = btcAddress L (L.publicKey key)

/-- **The lives so far were those of a client with these keys**, which are in the files. -/
structure LivedAs (wallet : WalletFile) (r : Installation P L) (keys : ClientKeys P L) :
    Prop where
  identity : readIdentity S r.identity = some keys.signing
  btcKey : readBtcKey L r.btcKey = some keys.btc
  used : ∀ u ∈ r.used, u = keys
  own : (foundWallet P (contextOf P L peerId relayAddrs keys) wallet).address =
    btcAddress L (L.publicKey keys.btc)
  lived : ∃ ls, (lives P (contextOf P L peerId relayAddrs keys)).Always (fun _ _ => True)
      (firstRemains wallet) ls ∧
    (lives P (contextOf P L peerId relayAddrs keys)).run (firstRemains wallet) ls = r.remains

/-- No life has got past the keys. -/
structure Unused (wallet : WalletFile) (r : Installation P L) : Prop where
  used : r.used = []
  remains : r.remains = firstRemains wallet
  own : OwnWallet P L r.btcKey wallet

end Statement

/-! ## One start -/

section Step
variable {P : Platform} {L : BtcLibrary} {S : SeedBytes P.ed} {peerId : String}
  {relayAddrs : List SocketAddr} {wallet : WalletFile} {r : Installation P L}
  {keys : ClientKeys P L}

/-- What is in the files is loaded. -/
theorem LivedAs.loadedKeys (h : LivedAs P L S peerId relayAddrs wallet r keys)
    (random : ClientKeys P L) : loadedKeys P L S r random = keys := by
  simp only [Zeta.loadedKeys, loadOrGenerateKeypair_of_readIdentity S h.identity,
    loadOrGenerateBtcKey_of_readBtcKey h.btcKey]

/-- A key that is there is not touched. -/
theorem LivedAs.step (h : LivedAs P L S peerId relayAddrs wallet r keys) {e : StartEvent P L}
    (hen : (installation P L S peerId relayAddrs).Enabled r e) :
    LivedAs P L S peerId relayAddrs wallet ((installation P L S peerId relayAddrs).next r e)
      keys := by
  have hidentity : ∀ random, readIdentity S (loadOrGenerateKeypair S r.identity random).2 =
      some keys.signing := by
    intro random
    rw [loadOrGenerateKeypair_of_readIdentity S h.identity]
    exact h.identity
  cases e with
  | identity random cp =>
    refine ⟨?_, h.btcKey, h.used, h.own, h.lived⟩
    show readIdentity S (generateKeypairUntil S r.identity random.signing cp) = _
    simp only [generateKeypairUntil, h.identity]
  | btcKey random cp =>
    refine ⟨hidentity random.signing, ?_, h.used, h.own, h.lived⟩
    show readBtcKey L (generateBtcKeyUntil L r.btcKey random.btc cp) = _
    simp only [generateBtcKeyUntil, h.btcKey]
  | life random l =>
    have hen : (lives P (contextOf P L peerId relayAddrs
      (Zeta.loadedKeys P L S r random))).Enabled r.remains l := hen
    rw [h.loadedKeys random] at hen
    obtain ⟨ls, hls, hrun⟩ := h.lived
    refine ⟨hidentity random.signing, ?_, ?_, h.own, ls ++ [l], ?_, ?_⟩
    · show readBtcKey L (loadOrGenerateBtcKey L r.btcKey random.btc).2 = _
      rw [loadOrGenerateBtcKey_of_readBtcKey h.btcKey]
      exact h.btcKey
    · intro u hu
      rcases List.mem_append.mp hu with hold | hnew
      · exact h.used u hold
      · rw [List.mem_singleton.mp hnew, h.loadedKeys]
    · rw [EventSystem.always_snoc, hrun]
      exact ⟨hls, hen, trivial⟩
    · rw [EventSystem.run_snoc, hrun]
      show _ = (lives P (contextOf P L peerId relayAddrs
        (Zeta.loadedKeys P L S r random))).next r.remains l
      rw [h.loadedKeys]

/-- While the wallet is the client's own, the wallet found is that of the keys loaded. -/
theorem address_foundWallet (h : OwnWallet P L r.btcKey wallet) (random : ClientKeys P L) :
    (foundWallet P (contextOf P L peerId relayAddrs (loadedKeys P L S r random)) wallet).address =
      btcAddress L (L.publicKey (loadedKeys P L S r random).btc) := by
  cases hread : readWallet P.json wallet with
  | none => simp [foundWallet, loadOrCreateWallet, hread, contextOf]
  | some w =>
    obtain ⟨key, hkey, haddress⟩ := h w hread
    have hloaded : (loadedKeys P L S r random).btc = key := by
      simp only [loadedKeys, loadOrGenerateBtcKey_of_readBtcKey hkey]
    simp only [foundWallet, loadOrCreateWallet, hread]
    rw [haddress, hloaded]

/-- The first life that gets past the keys settles them. -/
theorem Unused.step (h : Unused P L wallet r) {e : StartEvent P L}
    (hen : (installation P L S peerId relayAddrs).Enabled r e) :
    Unused P L wallet ((installation P L S peerId relayAddrs).next r e) ∨
      ∃ keys, LivedAs P L S peerId relayAddrs wallet
        ((installation P L S peerId relayAddrs).next r e) keys := by
  cases e with
  | identity random cp => exact Or.inl ⟨h.used, h.remains, h.own⟩
  | btcKey random cp =>
    refine Or.inl ⟨h.used, h.remains, fun w hw => ?_⟩
    -- The key of a wallet that is there can be read, so it is not replaced.
    obtain ⟨key, hkey, haddress⟩ := h.own w hw
    refine ⟨key, ?_, haddress⟩
    show readBtcKey L (generateBtcKeyUntil L r.btcKey random.btc cp) = _
    simp only [generateBtcKeyUntil, hkey]
  | life random l =>
    refine Or.inr ⟨loadedKeys P L S r random, ?_, ?_, ?_, address_foundWallet h.own random, [l],
      ?_, ?_⟩
    · exact readIdentity_loadOrGenerateKeypair S r.identity random.signing
    · exact readBtcKey_loadOrGenerateBtcKey L r.btcKey random.btc
    · intro u hu
      have hu : u ∈ r.used ++ [loadedKeys P L S r random] := hu
      rw [h.used, List.nil_append] at hu
      exact List.mem_singleton.mp hu
    · rw [EventSystem.always_cons, ← h.remains]
      exact ⟨hen, trivial, trivial⟩
    · rw [← h.remains]
      rfl

end Step

/-- **An installation is one client.**  Start it and kill it as often as you like, also while it
makes its keys or its wallet.  Of the keys of any life that got past them:

* no such life had others, and the next start will find the same;
* all that the installation did are the lives of one client with these keys;
* the wallet is that of the address of these keys, at first and at the end. -/
theorem one_identity (P : Platform) (L : BtcLibrary) (S : SeedBytes P.ed) (peerId : String)
    (relayAddrs : List SocketAddr) (identity btcKey : KeyFile) (wallet : WalletFile)
    (hown : OwnWallet P L btcKey wallet)
    (hJ : ∀ key balance, P.json.RejectsPrefixes
      { balance, address := btcAddress L (L.publicKey key) })
    (es : List (StartEvent P L))
    (hes : (installation P L S peerId relayAddrs).Always (fun _ _ => True)
      ⟨identity, btcKey, firstRemains wallet, []⟩ es) :
    let r := (installation P L S peerId relayAddrs).run
      ⟨identity, btcKey, firstRemains wallet, []⟩ es
    ∀ keys ∈ r.used,
      (∀ keys' ∈ r.used, keys' = keys) ∧
      (∀ random, loadedKeys P L S r random = keys) ∧
      let ctx := contextOf P L peerId relayAddrs keys
      (∃ ls, (lives P ctx).Always (fun _ _ => True) (firstRemains wallet) ls ∧
        (lives P ctx).run (firstRemains wallet) ls = r.remains) ∧
      (foundWallet P ctx wallet).address = ctx.myBtc ∧
      (foundWallet P ctx r.remains.file).address = ctx.myBtc := by
  intro r keys hkeys
  have hinv : Unused P L wallet r ∨ ∃ keys, LivedAs P L S peerId relayAddrs wallet r keys := by
    refine EventSystem.invariant_run (I := fun r => Unused P L wallet r ∨
      ∃ keys, LivedAs P L S peerId relayAddrs wallet r keys) ?_ hes (Or.inl ⟨rfl, rfl, hown⟩)
    rintro r e (h | ⟨keys, h⟩) hen -
    · exact h.step hen
    · exact Or.inr ⟨keys, h.step hen⟩
  rcases hinv with h | ⟨keys', h⟩
  · rw [h.used] at hkeys
    cases hkeys
  · obtain rfl := h.used keys hkeys
    obtain ⟨ls, hls, hrun⟩ := h.lived
    refine ⟨h.used, h.loadedKeys, ⟨ls, hls, hrun⟩, h.own, ?_⟩
    have hfound : (foundWallet P (contextOf P L peerId relayAddrs keys) wallet).address =
        (contextOf P L peerId relayAddrs keys).myBtc := h.own
    obtain ⟨as, has⟩ := exists_accounted hfound (hJ keys.btc) hls
    rw [← hrun, ← has.wallet, address_account]
    exact hfound

/-! ## Alice installs the program -/

/-- The 32 bytes of a key of the checksum. -/
def checksumSeed : SeedBytes checksumScheme where
  fromBytes seed := seed.get ⟨0, Nat.zero_lt_succ 31⟩
  toBytes key := Vector.replicate 32 key
  fromBytes_toBytes _ := rfl

/-- What alice would draw at her `b`-th start. -/
def aliceDraws (b : UInt8) : ClientKeys samplePlatform checksumBtc where
  signing := b
  btc := btcKey b

/-- The file of her first identity is cut short, then that of her first Bitcoin key.  Her third
life saves the payment of bob, and her fourth begins. -/
def aliceStarts : List (StartEvent samplePlatform checksumBtc) :=
  [.identity (aliceDraws 1) (.written 20),
    .btcKey (aliceDraws 2) (.written 31),
    .life (aliceDraws 3) (.running (.v4 0 40000)
      (.start .receive (handleMsgProgram samplePlatform (contextOf samplePlatform checksumBtc
        "alice" [.v4 0x0A000001 12345] ⟨(2 : UInt8), btcKey 3⟩) 0 (.payment fourForAlice)) ::
        (List.replicate 7 Task.receive).map .step) 0 []),
    .life (aliceDraws 4) (.starting .beforeTruncate)]

/-- A new installation. -/
def aliceNew : Installation samplePlatform checksumBtc where
  identity := none
  btcKey := none
  remains := firstRemains none
  used := []

/-- An address of the sample library has no quote. -/
theorem quote_not_mem_btcAddress (pubkey : checksumBtc.PublicKey) :
    '"' ∉ (btcAddress checksumBtc pubkey).toList := by
  have hdigit : ∀ n < 16, hexDigit n ≠ '"' := by decide
  have hbyte : ∀ b : UInt8, '"' ∉ hexByte b := by
    intro b hb
    have hlt := b.toNat_lt
    rcases List.mem_cons.mp hb with hhigh | hlow
    · exact hdigit _ (by omega) hhigh.symm
    · exact hdigit _ (by omega) (List.mem_singleton.mp hlow).symm
  obtain ⟨bytes, hbytes⟩ : ∃ bytes : List UInt8,
      btcAddress checksumBtc pubkey = String.ofList (bytes.flatMap hexByte) := ⟨_, rfl⟩
  intro h
  rw [hbytes, String.toList_ofList] at h
  obtain ⟨b, -, hb⟩ := List.mem_flatMap.mp h
  exact hbyte b hb

instance (keys : ClientKeys samplePlatform checksumBtc) (s : TaskPool Task SharedState)
    (ts : List Task) :
    Decidable ((clientTasks samplePlatform (contextOf samplePlatform checksumBtc "alice"
      [.v4 0x0A000001 12345] keys)).Always (fun _ _ => True) s (ts.map .step)) :=
  TaskPool.decidableSteps _ s ts

theorem aliceStarts_run :
    (installation samplePlatform checksumBtc checksumSeed "alice" [.v4 0x0A000001 12345]).Always
      (fun _ _ => True) aliceNew aliceStarts := by
  refine ⟨trivial, trivial, trivial, trivial, ⟨⟨⟨rfl, ?_⟩, trivial, ?_⟩, List.nil_sublist _⟩,
    trivial, trivial, trivial, trivial⟩
  · exact ⟨rfl, 0, .payment fourForAlice, rfl⟩
  · decide +kernel

theorem aliceStarts_one_identity :
    let r := (installation samplePlatform checksumBtc checksumSeed "alice"
      [.v4 0x0A000001 12345]).run aliceNew aliceStarts
    ∀ keys ∈ r.used,
      (∀ keys' ∈ r.used, keys' = keys) ∧
      (∀ random, loadedKeys samplePlatform checksumBtc checksumSeed r random = keys) ∧
      let ctx := contextOf samplePlatform checksumBtc "alice" [.v4 0x0A000001 12345] keys
      (∃ ls, (lives samplePlatform ctx).Always (fun _ _ => True) (firstRemains none) ls ∧
        (lives samplePlatform ctx).run (firstRemains none) ls = r.remains) ∧
      (foundWallet samplePlatform ctx none).address = ctx.myBtc ∧
      (foundWallet samplePlatform ctx r.remains.file).address = ctx.myBtc := by
  have hown : OwnWallet samplePlatform checksumBtc none none := by
    intro w hread
    cases hread
  exact one_identity samplePlatform checksumBtc checksumSeed "alice" [.v4 0x0A000001 12345] none
    none none hown (fun _ _ => rejectsPrefixes_of_address (quote_not_mem_btcAddress _))
    aliceStarts aliceStarts_run

end Zeta
