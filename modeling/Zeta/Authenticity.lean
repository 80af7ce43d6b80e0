import Zeta.NetworkSteps
import Zeta.SamplePlatform

/-!
# Who wrote a text

A text is accepted, displayed or forwarded, only if its signature verifies.  Nobody can
make such a signature for bytes that the owner of the key did not sign.  But the signed
bytes are the author's id and the text one after the other, with nothing between them:
they do not say where the id ends.  What is accepted under an honest key is what its
owner signed exactly as far as the id it carries has the length of the owner's id
(`authentic_iff`).
-/

namespace Zeta

/-- The bytes that were signed. -/
def Signing.bytes (σ : Signing) : List UInt8 := buildSignedData σ.srcId σ.txt σ.time σ.msgId

/-- **The signed bytes are injective only between authors of one length.** -/
theorem buildSignedData_eq_imp_eq_iff {srcId srcId' txt txt' : String}
    {time time' msgId msgId' : UInt64}
    (h : buildSignedData srcId txt time msgId = buildSignedData srcId' txt' time' msgId') :
    (srcId, txt, time, msgId) = (srcId', txt', time', msgId') ↔
      srcId.utf8ByteSize = srcId'.utf8ByteSize := by
  obtain ⟨hcat, htime, hid⟩ := buildSignedData_inj_iff.mp h
  constructor
  · intro he
    rw [(Prod.mk.inj he).1]
  · intro hlen
    obtain ⟨rfl, rfl⟩ := append_cancel_of_utf8ByteSize hcat hlen
    rw [htime, hid]

namespace Network

variable {P : Platform} {ι κ : Type} {net : Network P ι κ} {w : World ι κ}
  {e : WorldEvent ι κ} {n : ι ⊕ κ}

/-- The public key of a node. -/
def nodeKey (net : Network P ι κ) : ι ⊕ κ → List UInt8
  | .inl i => (net.client i).publicKey
  | .inr r => (net.relay r).publicKey

/-- The id under which a node signs. -/
def nodeId (net : Network P ι κ) : ι ⊕ κ → String
  | .inl i => (net.client i).peerId
  | .inr r => (net.relay r).peerId

/-- If the message is a text under the key of node `n` that verifies, its bytes have been
signed with that key. -/
def SignedMessage (net : Network P ι κ) (n : ι ⊕ κ) (w : World ι κ) : Message → Prop
  | .classic m => m.publicKey = net.nodeKey n →
      verify P.ed m.publicKey m.srcId m.txt m.time m.msgId m.signature = true →
      ∃ σ ∈ w.signed, σ.publicKey = m.publicKey ∧ σ.bytes = m.signing.bytes
  | _ => True

/-- **The assumption on Ed25519**: what an outsider injects verifies under the key of node
`n` only if the owner of the key signed its bytes. -/
def Unforged (net : Network P ι κ) (n : ι ⊕ κ) (w : World ι κ) : WorldEvent ι κ → Prop
  | .inject d => SignedMessage net n w d.msg
  | _ => True

instance (w : World ι κ) : (msg : Message) → Decidable (SignedMessage net n w msg)
  | .classic m => inferInstanceAs (Decidable (m.publicKey = net.nodeKey n →
      verify P.ed m.publicKey m.srcId m.txt m.time m.msgId m.signature = true →
      ∃ σ ∈ w.signed, σ.publicKey = m.publicKey ∧ σ.bytes = m.signing.bytes))
  | .payment _ | .paymentAck _ | .register _ | .connect _ | .askForAddr _ | .peerInfo _ _ =>
    isTrue trivial

instance (w : World ι κ) : (e : WorldEvent ι κ) → Decidable (Unforged net n w e)
  | .inject d => inferInstanceAs (Decidable (SignedMessage net n w d.msg))
  | .pay _ _ _ _ | .say _ _ _ _ | .register _ _ | .clientRecv _ _ _ | .relayRecv _ _
  | .console _ _ _ _ | .federate _ _ | .repeer _ _ | .restart _ _ _ => isTrue trivial

/-- The text is displayed by a client, or forwarded by a relay, in this step. -/
def AcceptsText (net : Network P ι κ) (w : World ι κ) (e : WorldEvent ι κ) (m : Classic) :
    Prop :=
  (∃ i now d, e = .clientRecv i now d ∧ d.msg = .classic m ∧
    (recvLoop P (net.client i) now d.msg (w.clients i)).exit = .displayed) ∨
  (∃ r d, e = .relayRecv r d ∧ d.msg = .classic m ∧
    (handleMessage P d.msg d.src (w.relays r)).exit = .broadcast)

/-- Every text accepted under the key of `n` is one that was signed with it: author, text,
time and id. -/
def Authentic (net : Network P ι κ) (n : ι ⊕ κ) (w : World ι κ) (e : WorldEvent ι κ) : Prop :=
  ∀ m, AcceptsText net w e m → m.publicKey = net.nodeKey n → m.signing ∈ w.signed

/-- The text is about to be accepted: it verifies, and reaches a client or relay that has
not seen its id, in the case of the relay with hops left. -/
def Acceptable (P : Platform) (w : World ι κ) (e : WorldEvent ι κ) (m : Classic) : Prop :=
  verify P.ed m.publicKey m.srcId m.txt m.time m.msgId m.signature = true ∧
  ((∃ i now d, e = .clientRecv i now d ∧ d.msg = .classic m ∧
      (w.clients i).receiving = true ∧ m.msgId ∉ (w.clients i).seen.set) ∨
    (∃ r d, e = .relayRecv r d ∧ d.msg = .classic m ∧
      m.msgId ∉ (w.relays r).seen.set ∧ m.ttl > 0))

/-- Every text about to be accepted under the key of `n` carries an author of the length of
`n`'s id. -/
def OwnLength (net : Network P ι κ) (n : ι ⊕ κ) (w : World ι κ) (e : WorldEvent ι κ) : Prop :=
  ∀ m, Acceptable P w e m → m.publicKey = net.nodeKey n →
    m.srcId.utf8ByteSize = (net.nodeId n).utf8ByteSize

/-- All texts on their way have been signed, and every signature is by a node in its own
name. -/
structure AllSigned (net : Network P ι κ) (n : ι ⊕ κ) (w : World ι κ) : Prop where
  sent : ∀ d ∈ w.sent, SignedMessage net n w d.msg
  signed : ∀ σ ∈ w.signed, ∃ n', σ.publicKey = net.nodeKey n' ∧ σ.srcId = net.nodeId n'

theorem allSigned_start (b : Boot ι κ) : AllSigned net n (net.start b) :=
  ⟨fun _ hd => absurd hd List.not_mem_nil, fun _ hσ => absurd hσ List.not_mem_nil⟩

/-- A relay forwards a text exactly if it has not seen the id, the signature verifies, and
there are hops left. -/
theorem forwarded_iff {sender : SocketAddr} {s : RelayState} {m : Classic} :
    (handleMessage P (.classic m) sender s).exit = .broadcast ↔
      verify P.ed m.publicKey m.srcId m.txt m.time m.msgId m.signature = true ∧
        m.msgId ∉ s.seen.set ∧ m.ttl > 0 := by
  rw [handleMessage]
  constructor
  · intro h
    rcases relayClassic_cases P m sender s with
      ⟨hnew, hv, ht, -, -⟩ | ⟨hno, -⟩
    · exact ⟨hv, hnew, ht⟩
    · exact absurd h hno
  · rintro ⟨hv, hnew, ht⟩
    rw [relayClassic_broadcast hnew hv ht]

theorem acceptsText_iff {m : Classic} : AcceptsText net w e m ↔ Acceptable P w e m := by
  constructor
  · rintro (⟨i, now, d, rfl, hm, hexit⟩ | ⟨r, d, rfl, hm, hexit⟩)
    · rw [hm, displayed_iff] at hexit
      obtain ⟨hv, hnew⟩ := hexit
      exact ⟨hv, Or.inl ⟨i, now, d, rfl, hm, hnew⟩⟩
    · rw [hm, forwarded_iff] at hexit
      obtain ⟨hv, hnew⟩ := hexit
      exact ⟨hv, Or.inr ⟨r, d, rfl, hm, hnew⟩⟩
  · rintro ⟨hv, ⟨i, now, d, rfl, hm, hnew⟩ | ⟨r, d, rfl, hm, hnew⟩⟩
    · exact Or.inl ⟨i, now, d, rfl, hm, by rw [hm, displayed_iff]; exact ⟨hv, hnew⟩⟩
    · exact Or.inr ⟨r, d, rfl, hm, by rw [hm, forwarded_iff]; exact ⟨hv, hnew⟩⟩

/-- What is about to be accepted was on its way. -/
theorem sent_of_acceptable {m : Classic} (hen : net.Enabled w e) (h : Acceptable P w e m) :
    ∃ d ∈ w.sent, d.msg = .classic m := by
  obtain ⟨-, ⟨i, now, d, rfl, hm, -⟩ | ⟨r, d, rfl, hm, -⟩⟩ := h
  · exact ⟨d, hen.1, hm⟩
  · exact ⟨d, hen.1, hm⟩

/-- **A text about to be accepted was signed as it is if and only if its author has the
length of the owner's id.** -/
theorem signing_mem_iff (h : AllSigned net n w) (hen : net.Enabled w e) {m : Classic}
    (howner : ∀ n', net.nodeKey n' = net.nodeKey n → net.nodeId n' = net.nodeId n)
    (hacc : Acceptable P w e m) (hkey : m.publicKey = net.nodeKey n) :
    m.signing ∈ w.signed ↔ m.srcId.utf8ByteSize = (net.nodeId n).utf8ByteSize := by
  have hown : ∀ σ ∈ w.signed, σ.publicKey = m.publicKey → σ.srcId = net.nodeId n := by
    intro σ hσ hpk
    obtain ⟨n', hk, hid⟩ := h.signed σ hσ
    rw [hid]
    exact howner n' (by rw [← hk, hpk, hkey])
  constructor
  · intro hmem
    exact congrArg String.utf8ByteSize (hown _ hmem rfl)
  · intro hlen
    obtain ⟨d, hd, hm⟩ := sent_of_acceptable hen hacc
    have hsigned : SignedMessage net n w (.classic m) := hm ▸ h.sent d hd
    obtain ⟨σ, hσ, hpk, hbytes⟩ := hsigned hkey hacc.1
    -- The bytes were signed under the owner's id, which fixes where the id ends.
    have hsize : σ.srcId.utf8ByteSize = m.srcId.utf8ByteSize := by rw [hown σ hσ hpk, hlen]
    have htuple := (buildSignedData_eq_imp_eq_iff hbytes).mpr hsize
    simp only [Classic.signing, Prod.mk.injEq] at htuple
    obtain ⟨hsrc, htxt, htime, hid⟩ := htuple
    have hsame : σ = m.signing := by
      rw [Classic.signing, ← hpk, ← hsrc, ← htxt, ← htime, ← hid]
    exact hsame ▸ hσ

/-! ## Steps -/

section Steps
variable [DecidableEq ι] [DecidableEq κ]

/-- Signatures are made by nodes in their own names. -/
theorem signed_next {σ : Signing} (h : σ ∈ (net.next w e).signed) :
    σ ∈ w.signed ∨ ∃ n', σ.publicKey = net.nodeKey n' ∧ σ.srcId = net.nodeId n' := by
  cases e with
  | say i now msgId text =>
    rcases List.mem_append.mp h with hold | hnew
    · exact Or.inl hold
    · rw [List.mem_singleton.mp hnew]
      exact Or.inr ⟨.inl i, rfl, rfl⟩
  | console r now msgId line =>
    rcases List.mem_append.mp h with hold | hnew
    · exact Or.inl hold
    · rw [List.mem_singleton.mp hnew]
      exact Or.inr ⟨.inr r, rfl, rfl⟩
  | pay _ _ _ _ | register _ _ | clientRecv _ _ _ | relayRecv _ _ | federate _ _ | repeer _ _
  | restart _ _ _ | inject _ => exact Or.inl h

theorem mem_signed_next {σ : Signing} (h : σ ∈ w.signed) : σ ∈ (net.next w e).signed := by
  cases e with
  | say _ _ _ _ | console _ _ _ _ => exact List.mem_append_left _ h
  | pay _ _ _ _ | register _ _ | clientRecv _ _ _ | relayRecv _ _ | federate _ _ | repeer _ _
  | restart _ _ _ | inject _ => exact h

theorem signedMessage_next {msg : Message} (h : SignedMessage net n w msg) :
    SignedMessage net n (net.next w e) msg := by
  cases msg with
  | classic m =>
    intro hkey hv
    obtain ⟨σ, hσ, hpk, hbytes⟩ := h hkey hv
    exact ⟨σ, mem_signed_next hσ, hpk, hbytes⟩
  | payment _ | paymentAck _ | register _ | connect _ | askForAddr _ | peerInfo _ _ => trivial

/-- **The invariant is preserved**, as long as no signature is forged. -/
theorem allSigned_step (h : AllSigned net n w) (hen : net.Enabled w e)
    (hok : Unforged net n w e) : AllSigned net n (net.next w e) := by
  constructor
  · intro d hd
    rcases sent_origin hen hd with hold | rfl | horigin
    · exact signedMessage_next (h.sent d hold)
    · exact signedMessage_next hok
    · generalize d.msg = msg at horigin
      cases horigin with
      | written hsigned => exact fun _ _ => ⟨_, hsigned, rfl, rfl⟩
      | relayed hold hmsg => exact hmsg ▸ signedMessage_next (h.sent _ hold)
      | @forwarded d m hold hm =>
        -- The hop limit is no part of what is signed.
        have hsigned : SignedMessage net n w (.classic m) := hm ▸ h.sent d hold
        show SignedMessage net n (net.next w e) (.classic m)
        exact signedMessage_next hsigned
      | paid _ | acknowledged _ | registered | answered => trivial
  · intro σ hσ
    rcases signed_next hσ with hold | hown
    · exact h.signed σ hold
    · exact hown

/-! ## Runs -/

/-- **Texts are authentic if and only if their authors have the right length.**  Let no
signature under the key of node `n` be forged, and let only nodes of the same id share
the key.  Then in every run, every text accepted under this key was signed with it as it
is if and only if every such text carries an author of the length of `n`'s id.  The
signed bytes themselves determine the text between authors of one length, and only then. -/
theorem authentic_iff (net : Network P ι κ) (b : Boot ι κ) (es : List (WorldEvent ι κ))
    (n : ι ⊕ κ) (howner : ∀ n', net.nodeKey n' = net.nodeKey n → net.nodeId n' = net.nodeId n)
    (hrun : net.system.Always (Unforged net n) (net.start b) es) :
    (net.system.Always (Authentic net n) (net.start b) es ↔
      net.system.Always (OwnLength net n) (net.start b) es) ∧
    ∀ srcId txt time msgId srcId' txt' time' msgId',
      buildSignedData srcId txt time msgId = buildSignedData srcId' txt' time' msgId' →
      ((srcId, txt, time, msgId) = (srcId', txt', time', msgId') ↔
        srcId.utf8ByteSize = srcId'.utf8ByteSize) := by
  have hiff : net.system.Always
      (fun w e => Authentic net n w e ↔ OwnLength net n w e) (net.start b) es := by
    refine EventSystem.always_of_invariant (fun _ _ hI hen hok => allSigned_step hI hen hok)
      (fun w e hI hen _ => forall_congr' (fun m => ?_)) hrun (allSigned_start b)
    rw [acceptsText_iff]
    exact forall_congr' (fun hacc => forall_congr' (fun hkey =>
      signing_mem_iff hI hen howner hacc hkey))
  refine ⟨⟨?_, ?_⟩, fun _ _ _ _ _ _ _ _ => buildSignedData_eq_imp_eq_iff⟩
  · intro h
    exact (hiff.and h).imp (fun _ _ _ hok => hok.1.mp hok.2)
  · intro h
    exact (hiff.and h).imp (fun _ _ _ hok => hok.1.mpr hok.2)

end Steps

/-- In a run in which alice's text reaches bob through the relay, the texts under her key
are authentic if and only if their authors have the length of "alice". -/
theorem textRun_authentic_iff :
    aliceAndBob.system.Always (Authentic aliceAndBob (.inl 0))
        (aliceAndBob.start aliceAndBobBoot) textRun ↔
      aliceAndBob.system.Always (OwnLength aliceAndBob (.inl 0))
        (aliceAndBob.start aliceAndBobBoot) textRun :=
  (authentic_iff aliceAndBob aliceAndBobBoot textRun (.inl 0)
    (Sum.forall.mpr ⟨by decide +kernel, by decide +kernel⟩) (by decide +kernel)).1

/-! ## A text under another name -/

/-- Alice's text, with the border between her name and the text moved. -/
def misattributed : Classic := { aliceText 7 with srcId := "alic", txt := "ehello" }

/-- **A text is shown under a name that never wrote it.**  Alice signs "hello"; bob displays
"ehello" by "alic", under alice's key and with her signature. -/
theorem text_misattributed :
    let d : Datagram := ⟨.v4 3 3, .v4 2 40000, .classic misattributed⟩
    let start := aliceAndBob.start aliceAndBobBoot
    let es : List (WorldEvent (Fin 2) (Fin 1)) :=
      [.say 0 0 7 "hello", .inject d, .clientRecv 1 0 d]
    buildSignedData "alic" "ehello" 0 7 = buildSignedData "alice" "hello" 0 7 ∧
    aliceAndBob.system.Always (Unforged aliceAndBob (.inl 0)) start es ∧
    ((aliceAndBob.system.run start es).clients 1).app.messages = [misattributed.entry] ∧
    ¬ aliceAndBob.system.Always (Authentic aliceAndBob (.inl 0)) start es := by
  refine ⟨by decide +kernel, by decide +kernel, by decide +kernel, fun h => ?_⟩
  have hsigned := h.2.2.2.2.2.1 misattributed
    (Or.inl ⟨1, 0, _, rfl, rfl, by decide +kernel⟩) (by decide +kernel)
  exact absurd hsigned (by decide +kernel)

end Network
end Zeta
