import Zeta.ClientRun
import Zeta.SamplePlatform

/-!
# The Bitcoin key and the wallet's address

At startup a client loads its Bitcoin key and its wallet from two files, and replaces either
if it cannot be read.  The address derived from the key is what it shows, registers with
its relays and compares with the destination of a payment; the wallet carries an address
of its own, which `load_or_create_wallet` takes from the file without a look at the key.
The two agree exactly if the file names the address of the key (`addresses_agree_iff`),
and then they go on agreeing for as long as nobody else touches the files
(`addresses_agree_run`).
-/

namespace Zeta

/-- The parts of `k256`, `bitcoin_hashes` and `bs58` that the program calls. -/
structure BtcLibrary where
  SecretKey : Type
  PublicKey : Type
  publicKey : SecretKey → PublicKey
  fromSlice : List UInt8 → Option SecretKey
  toBytes : SecretKey → List UInt8
  fromSlice_toBytes : ∀ key, fromSlice (toBytes key) = some key
  /-- `to_encoded_point(true)`. -/
  toEncodedPoint : PublicKey → List UInt8
  hash160 : List UInt8 → Vector UInt8 20
  sha256d : List UInt8 → Vector UInt8 32
  /-- `bs58::encode`. -/
  bs58 : List UInt8 → String

/-- The contents of `./{peer_id}_btc_key`, `none` when the file is missing. -/
abbrev KeyFile := Option (List UInt8)

section Keys
variable (L : BtcLibrary)

/-- The key in the file, if it holds one. -/
def readBtcKey (file : KeyFile) : Option L.SecretKey := file.bind L.fromSlice

/-- `load_or_generate_btc_key`: the key, and the file afterwards; `random` is the key it
draws if it needs one. -/
def loadOrGenerateBtcKey (file : KeyFile) (random : L.SecretKey) : L.SecretKey × KeyFile :=
  match readBtcKey L file with
  | some key => (key, file)
  | none => (random, some (L.toBytes random))

/-- `btc_address`. -/
def btcAddress (pubkey : L.PublicKey) : String :=
  let h160 := L.hash160 (L.toEncodedPoint pubkey)
  let payload := 0x00 :: h160.toList
  let checksum := L.sha256d payload
  L.bs58 (payload ++ checksum.toList.take 4)

/-- What is loaded is in the file afterwards. -/
@[simp] theorem readBtcKey_loadOrGenerateBtcKey (file : KeyFile) (random : L.SecretKey) :
    readBtcKey L (loadOrGenerateBtcKey L file random).2 =
      some (loadOrGenerateBtcKey L file random).1 := by
  unfold loadOrGenerateBtcKey
  cases h : readBtcKey L file with
  | none => exact L.fromSlice_toBytes random
  | some key => exact h

theorem loadOrGenerateBtcKey_fst (file : KeyFile) (random : L.SecretKey) :
    (loadOrGenerateBtcKey L file random).1 = (readBtcKey L file).getD random := by
  unfold loadOrGenerateBtcKey
  cases readBtcKey L file <;> rfl

end Keys

/-! ## Startup -/

/-- What a client is started with. -/
structure ClientOpts (E : Ed25519) where
  peerId : String
  signingKey : E.SigningKey
  relayAddrs : List SocketAddr

/-- A client after its startup. -/
structure StartedClient (P : Platform) (L : BtcLibrary) where
  btcKey : L.SecretKey
  keyFile : KeyFile
  /-- `AppState::btc_address`. -/
  btcAddress : String
  ctx : ClientContext P.ed
  state : ClientState

section Startup
variable (P : Platform) (L : BtcLibrary) (opts : ClientOpts P.ed)

/-- `main_client` up to its loop. -/
def mainClient (random : L.SecretKey) (localAddr : SocketAddr) (keyFile : KeyFile)
    (walletFile : WalletFile) : StartedClient P L :=
  let loaded := loadOrGenerateBtcKey L keyFile random
  let myBtc := Zeta.btcAddress L (L.publicKey loaded.1)
  let ctx : ClientContext P.ed :=
    { peerId := opts.peerId, signingKey := opts.signingKey, myBtc,
      relayAddrs := opts.relayAddrs }
  { btcKey := loaded.1
    keyFile := loaded.2
    btcAddress := myBtc
    ctx
    state := startup P ctx localAddr walletFile }

/-- What happens to a client whose files nobody else touches. -/
inductive ProcessEvent (L : BtcLibrary) where
  | task (e : TaskEvent)
  /-- The process ends and is started again; `random` is the key it would draw. -/
  | restart (random : L.SecretKey) (localAddr : SocketAddr)

/-- A client that may be restarted, with both its files. -/
def process : EventSystem (StartedClient P L) (ProcessEvent L) where
  Enabled _ _ := True
  next r
    | .task e => { r with state := taskStep P r.ctx r.state e }
    | .restart random localAddr =>
      mainClient P L opts random localAddr r.keyFile r.state.walletFile

end Startup

/-- **There is one address**: the wallet's, the one shown, the one of the key, the one
registered with the relays, and the one a payment's destination is compared with. -/
structure AddressesAgree {P : Platform} {L : BtcLibrary} (r : StartedClient P L) : Prop where
  wallet : r.state.app.wallet.address = r.btcAddress
  derived : r.btcAddress = btcAddress L (L.publicKey r.btcKey)
  registered : ∀ now, ∀ x ∈ register P r.ctx now r.state, ∃ reg : Register,
    x.2 = .register reg ∧ reg.btcAddress = some r.btcAddress
  tested : r.ctx.myBtc = r.btcAddress

variable {P : Platform} {L : BtcLibrary} {opts : ClientOpts P.ed} {r : StartedClient P L}

/-- All but the wallet take the address from the key. -/
theorem addressesAgree_iff_wallet (random : L.SecretKey) (localAddr : SocketAddr)
    (keyFile : KeyFile) (walletFile : WalletFile) :
    AddressesAgree (mainClient P L opts random localAddr keyFile walletFile) ↔
      (loadOrCreateWallet P.json walletFile
        (btcAddress L (L.publicKey ((readBtcKey L keyFile).getD random)))).1.address =
        btcAddress L (L.publicKey ((readBtcKey L keyFile).getD random)) := by
  rw [← loadOrGenerateBtcKey_fst]
  constructor
  · exact fun h => h.wallet
  · intro hwallet
    refine ⟨hwallet, rfl, ?_, rfl⟩
    intro now x hx
    obtain ⟨relay, -, rfl⟩ := List.mem_map.mp hx
    exact ⟨_, rfl, rfl⟩

/-- **The addresses agree after startup if and only if the wallet file cannot be read or
names the address of the key**, where the key is the one in the key file, or the one
drawn if the file holds none. -/
theorem addresses_agree_iff (P : Platform) (L : BtcLibrary) (opts : ClientOpts P.ed)
    (random : L.SecretKey) (localAddr : SocketAddr) (keyFile : KeyFile)
    (walletFile : WalletFile) :
    AddressesAgree (mainClient P L opts random localAddr keyFile walletFile) ↔
      ∀ w, readWallet P.json walletFile = some w →
        w.address = btcAddress L (L.publicKey ((readBtcKey L keyFile).getD random)) := by
  rw [addressesAgree_iff_wallet, loadOrCreateWallet]
  cases readWallet P.json walletFile with
  | none => simp
  | some w => simp

/-! ## Restarts -/

/-- No task changes the address of the wallet. -/
theorem taskStep_address {ctx : ClientContext P.ed} (s : ClientState) (e : TaskEvent) :
    (taskStep P ctx s e).app.wallet.address = s.app.wallet.address := by
  cases e with
  | say now msgId text => rfl
  | pay now paymentId args =>
    rcases doPay_cases P ctx now paymentId args s with ⟨p, hp⟩ | ⟨-, hstate, -⟩
    · rw [taskStep, hp.wallet, debit]
      split <;> rfl
    · rw [taskStep, hstate]
  | recv now msg =>
    cases hrun : s.receiving with
    | false => rw [taskStep, recvLoop_stopped hrun]
    | true =>
      rw [taskStep, recvLoop_receiving hrun]
      rcases handleMsg_cases P ctx now msg s with ⟨p, w, -, hc⟩ | ⟨-, hwallet, -, -⟩
      · have hcredit := hc.credit
        unfold credit at hcredit
        split at hcredit
        · cases hcredit
        · rw [hc.wallet, ← Option.some.inj hcredit]
      · rw [hwallet]

/-- **The invariant**: the addresses agree, and both files hold what is in memory. -/
structure KeysKept (r : StartedClient P L) : Prop where
  agree : AddressesAgree r
  keyFile : readBtcKey L r.keyFile = some r.btcKey
  saved : r.state.Saved P.json

theorem keysKept_next (h : KeysKept r) (e : ProcessEvent L) :
    KeysKept ((process P L opts).next r e) := by
  cases e with
  | task e =>
    refine ⟨⟨?_, h.agree.derived, ?_, h.agree.tested⟩, h.keyFile, saved_taskStep h.saved⟩
    · exact (taskStep_address r.state e).trans h.agree.wallet
    · intro now x hx
      obtain ⟨relay, -, rfl⟩ := List.mem_map.mp hx
      exact ⟨_, rfl, congrArg some h.agree.tested⟩
  | restart random localAddr =>
    refine ⟨?_, readBtcKey_loadOrGenerateBtcKey L r.keyFile random,
      saved_startup localAddr r.state.walletFile⟩
    refine (addresses_agree_iff P L opts random localAddr r.keyFile r.state.walletFile).mpr ?_
    intro w hw
    rw [h.saved, Option.some.injEq] at hw
    rw [h.keyFile, Option.getD_some, ← hw, h.agree.wallet, h.agree.derived]

/-- **Once the addresses agree they do so for ever**, whatever the client does and however
often it is restarted. -/
theorem addresses_agree_run {random : L.SecretKey} {localAddr : SocketAddr} {keyFile : KeyFile}
    {walletFile : WalletFile}
    (h : AddressesAgree (mainClient P L opts random localAddr keyFile walletFile))
    (es : List (ProcessEvent L)) :
    AddressesAgree ((process P L opts).run
      (mainClient P L opts random localAddr keyFile walletFile) es) := by
  have hstart : KeysKept (mainClient P L opts random localAddr keyFile walletFile) :=
    ⟨h, readBtcKey_loadOrGenerateBtcKey L keyFile random, saved_startup localAddr walletFile⟩
  have hrun : (process P L opts).Always (fun _ _ => True)
      (mainClient P L opts random localAddr keyFile walletFile) es :=
    EventSystem.always_true (fun _ _ => trivial)
  exact (EventSystem.invariant_run (I := KeysKept) (fun _ e hr _ _ => keysKept_next hr e) hrun
    hstart).agree

/-! ## A lost key -/

/-- A library whose hashes are checksums. -/
def checksumBtc : BtcLibrary where
  SecretKey := Vector UInt8 32
  PublicKey := Vector UInt8 32
  publicKey key := key
  fromSlice := tryFrom 32
  toBytes key := key.toList
  fromSlice_toBytes := tryFrom_toList
  toEncodedPoint pubkey := 0x02 :: pubkey.toList
  hash160 data := Vector.replicate 20 (checksum 0 data)
  sha256d data := Vector.replicate 32 (checksum 1 data)
  bs58 bytes := String.ofList (bytes.flatMap hexByte)

/-- Alice's options. -/
def aliceOpts : ClientOpts samplePlatform.ed where
  peerId := "alice"
  signingKey := (1 : UInt8)
  relayAddrs := [.v4 0x0A000001 12345]

/-- A key that ends in this byte. -/
def btcKey (b : UInt8) : checksumBtc.SecretKey := (Vector.replicate 31 (0 : UInt8)).push b

/-- Alice starts for the first time, and draws a key. -/
def aliceFirst : StartedClient samplePlatform checksumBtc :=
  mainClient samplePlatform checksumBtc aliceOpts (btcKey 1) (.v4 0 40000) none none

/-- She starts again without the file of her key. -/
def aliceAgain : StartedClient samplePlatform checksumBtc :=
  mainClient samplePlatform checksumBtc aliceOpts (btcKey 2) (.v4 0 40000) none
    aliceFirst.state.walletFile

/-- **A wallet outlives its key**: it was created for one key, the file of the key is gone, and
the client starts with another. -/
theorem address_of_lost_key :
    ¬ ∀ (random : checksumBtc.SecretKey) (localAddr : SocketAddr) (keyFile : KeyFile)
        (walletFile : WalletFile),
      AddressesAgree
        (mainClient samplePlatform checksumBtc aliceOpts random localAddr keyFile walletFile) := by
  intro h
  have hagree : aliceAgain.state.app.wallet.address = aliceAgain.btcAddress := (h _ _ _ _).wallet
  have hdiff : aliceAgain.state.app.wallet.address ≠ aliceAgain.btcAddress := by decide +kernel
  exact hdiff hagree

end Zeta
