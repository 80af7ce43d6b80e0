import Zeta.ClientRun
import Zeta.Relay
import Zeta.SamplePlatform

/-!
# Texts whose signature does not verify

A text with an invalid signature is neither displayed nor forwarded, but its id has
entered the cache by then.  An id that is cached already makes the text inert: it
changes nothing, and nobody can tell whether it arrived.  Any other invalid text can
be told from its absence: it suppresses a later message with its id.

So the invalid texts of a run do not interfere if and only if they find their ids
cached (`interference_iff`), for the feed and the wallet of a client as for the
datagrams that a relay sends.
-/

namespace Zeta

/-- The signature of the text does not verify. -/
def Classic.Invalid (E : Ed25519) (m : Classic) : Prop :=
  verify E m.publicKey m.srcId m.txt m.time m.msgId m.signature = false

instance (E : Ed25519) (m : Classic) : Decidable (m.Invalid E) :=
  inferInstanceAs (Decidable (_ = false))

variable {P : Platform} {ctx : ClientContext P.ed}

/-! ## A client -/

/-- The event receives an invalid text. -/
def TaskEvent.Invalid (E : Ed25519) : TaskEvent → Prop
  | .recv _ (.classic m) => m.Invalid E
  | _ => False

instance (E : Ed25519) : DecidablePred (TaskEvent.Invalid E)
  | .recv _ (.classic m) => inferInstanceAs (Decidable (m.Invalid E))
  | .recv _ (.payment _) | .recv _ (.paymentAck _) | .recv _ (.register _) | .recv _ (.connect _)
  | .recv _ (.askForAddr _) | .recv _ (.peerInfo _ _) | .pay _ _ _ | .say _ _ _ => isFalse id

/-- What a client produces: its feed and its wallet. -/
def ClientState.produced (s : ClientState) : List ChatMessage × Wallet :=
  (s.app.messages, s.app.wallet)

/-- The id of the text the event receives, if it receives one, is cached. -/
def TaskEvent.Cached (s : ClientState) : TaskEvent → Prop
  | .recv _ (.classic m) => s.receiving = true → m.msgId ∈ s.seen.set
  | _ => True

theorem taskStep_of_cached {s : ClientState} {e : TaskEvent} (hbad : e.Invalid P.ed)
    (h : e.Cached s) : taskStep P ctx s e = s := by
  cases e with
  | pay _ _ _ | say _ _ _ => cases hbad
  | recv now msg =>
    cases msg with
    | classic m =>
      rw [taskStep]
      cases hrun : s.receiving with
      | false => rw [recvLoop_stopped hrun]
      | true => rw [recvLoop_receiving hrun, handleMsg, handleClassic_duplicate (h hrun)]
    | payment _ | paymentAck _ | register _ | connect _ | askForAddr _ | peerInfo _ _ => cases hbad

/-- There is a sender whose acknowledgement would be seen in the feed. -/
theorem exists_ne_fromId (msgs : List ChatMessage) :
    ∃ id, ∀ m, msgs.getLast? = some m → m.fromId ≠ id := by
  cases msgs.getLast? with
  | none => exact ⟨"", nofun⟩
  | some m =>
    obtain ⟨id, hid⟩ : ∃ id, m.fromId ≠ id := by
      by_cases hempty : m.fromId = ""
      · exact ⟨"a", by rw [hempty]; decide⟩
      · exact ⟨"", hempty⟩
    refine ⟨id, ?_⟩
    intro m' hm'
    rw [← Option.some.inj hm']
    exact hid

/-- An acknowledgement by `fromId` whose key is `msgId`: it shows whether a client has that
id cached. -/
def probeAck (ctx : ClientContext P.ed) (msgId : UInt64) (fromId : String) : PaymentAck where
  paymentId := msgId ^^^ 0xFFFF_0000_FFFF_0000
  fromId := fromId
  toId := ctx.peerId

theorem ackKey_probeAck (msgId : UInt64) (fromId : String) :
    ackKey (probeAck ctx msgId fromId).paymentId = msgId := by
  rw [ackKey, probeAck, UInt64.xor_assoc, UInt64.xor_self, UInt64.xor_zero]

/-- A client that has the id cached drops the probe. -/
theorem taskStep_probe_of_mem {s : ClientState} {msgId : UInt64} {fromId : String}
    (hrun : s.receiving = true) (h : msgId ∈ s.seen.set) :
    taskStep P ctx s (.recv 0 (.paymentAck (probeAck ctx msgId fromId))) = s := by
  rw [taskStep, recvLoop_receiving hrun, handleMsg, handlePaymentAck_duplicate ctx.isMe_peerId]
  rw [ackKey_probeAck]
  exact h

/-- A client that has not displays it. -/
theorem app_probe_of_not_mem {s : ClientState} {msgId : UInt64} {fromId : String}
    (hrun : s.receiving = true) (h : msgId ∉ s.seen.set) :
    (taskStep P ctx s (.recv 0 (.paymentAck (probeAck ctx msgId fromId)))).app =
      s.app.pushMessage ((probeAck ctx msgId fromId).entry 0) := by
  rw [taskStep, recvLoop_receiving hrun, handleMsg, handlePaymentAck_acknowledged ctx.isMe_peerId]
  rw [ackKey_probeAck]
  exact h

/-- **A client betrays an invalid text with a new id**: an acknowledgement whose key is
that id is displayed without the text and dropped with it. -/
theorem client_detects {s : ClientState} {e : TaskEvent} (hbad : e.Invalid P.ed)
    (h : ¬ e.Cached s) :
    ∃ rest, ((running P ctx).run ((running P ctx).next s e) rest).produced ≠
      ((running P ctx).run s rest).produced := by
  cases e with
  | pay _ _ _ | say _ _ _ => cases hbad
  | recv now msg =>
    cases msg with
    | payment _ | paymentAck _ | register _ | connect _ | askForAddr _ | peerInfo _ _ => cases hbad
    | classic m =>
      simp only [TaskEvent.Cached, Classical.not_imp] at h
      obtain ⟨hrun, hnew⟩ := h
      obtain ⟨id, hid⟩ := exists_ne_fromId s.app.messages
      let muted : ClientState := { s with seen := (s.seen.isNew m.msgId).2 }
      have hnext : (running P ctx).next s (.recv now (.classic m)) = muted := by
        rw [running_next, taskStep, recvLoop_receiving hrun, handleMsg,
          handleClassic_invalid hnew hbad]
      have hdropped : taskStep P ctx muted (.recv 0 (.paymentAck (probeAck ctx m.msgId id))) =
          muted := taskStep_probe_of_mem hrun (SeenIds.mem_isNew_self _ _)
      refine ⟨[.recv 0 (.paymentAck (probeAck ctx m.msgId id))], ?_⟩
      intro heq
      simp only [EventSystem.run_cons, EventSystem.run_nil] at heq
      rw [hnext, running_next, running_next, hdropped] at heq
      have hfeed : s.app.messages =
          AppState.retain s.app.messages ((probeAck ctx m.msgId id).entry 0) := by
        have hmsgs : s.app.messages = _ := congrArg Prod.fst heq
        rw [ClientState.produced, app_probe_of_not_mem hrun hnew] at hmsgs
        exact hmsgs
      -- The feed may be full and lose an entry, but its newest one is the acknowledgement.
      have hlast := AppState.getLast?_retain s.app.messages ((probeAck ctx m.msgId id).entry 0)
      rw [← hfeed] at hlast
      exact hid _ hlast rfl

/-! ## A relay -/

/-- A relay together with everything it has sent. -/
structure RelayLog where
  relay : RelayState
  sent : Sends

/-- A message that reaches a relay, and where it comes from. -/
structure Arrival where
  sender : SocketAddr
  msg : Message

/-- A relay that receives datagrams. -/
def relaying (P : Platform) : EventSystem RelayLog Arrival where
  Enabled _ _ := True
  next s e :=
    let r := handleMessage P e.msg e.sender s.relay
    ⟨r.state, s.sent ++ r.sends⟩

@[simp] theorem relaying_next (s : RelayLog) (e : Arrival) :
    (relaying P).next s e =
      ⟨(handleMessage P e.msg e.sender s.relay).state,
        s.sent ++ (handleMessage P e.msg e.sender s.relay).sends⟩ := rfl

/-- An invalid text arrives. -/
def Arrival.Invalid (E : Ed25519) (e : Arrival) : Prop :=
  match e.msg with
  | .classic m => m.Invalid E
  | _ => False

instance (E : Ed25519) : DecidablePred (Arrival.Invalid E)
  | ⟨_, .classic m⟩ => inferInstanceAs (Decidable (m.Invalid E))
  | ⟨_, .payment _⟩ | ⟨_, .paymentAck _⟩ | ⟨_, .register _⟩ | ⟨_, .connect _⟩
  | ⟨_, .askForAddr _⟩ | ⟨_, .peerInfo _ _⟩ => isFalse id

/-- The id of the text that arrives, if one arrives, is cached. -/
def Arrival.Cached (s : RelayLog) (e : Arrival) : Prop :=
  match e.msg with
  | .classic m => m.msgId ∈ s.relay.seen.set
  | _ => True

theorem relaying_of_cached {s : RelayLog} {e : Arrival} (hbad : e.Invalid P.ed)
    (h : e.Cached s) : (relaying P).next s e = s := by
  obtain ⟨sender, msg⟩ := e
  cases msg with
  | classic m => simp [handleMessage, relayClassic_duplicate h]
  | payment _ | paymentAck _ | register _ | connect _ | askForAddr _ | peerInfo _ _ => cases hbad

/-- A peer that registers. -/
def registerArrival : Arrival where
  sender := .v4 1 1
  msg := .register
    { srcAddr := .v4 1 1, srcId := "", dstAddr := .unspecified, dstId := "relay", time := 0,
      btcAddress := none }

/-- A text that somebody else signed. -/
def textArrival (P : Platform) (key : P.ed.SigningKey) (msgId : UInt64) : Arrival where
  sender := .v4 2 2
  msg := .classic (consoleClassic P ⟨"", key, .v4 2 2, []⟩ 0 msgId "")

/-- A relay that has just heard of a peer forwards a text with a new id to it. -/
theorem sends_textArrival (hE : P.ed.Correct) (key : P.ed.SigningKey) {msgId : UInt64}
    {s : RelayState} (hpeer : registerArrival.sender ∈ s.peers.keys)
    (hnew : msgId ∉ s.seen.set) :
    (handleMessage P (textArrival P key msgId).msg (textArrival P key msgId).sender s).sends
      ≠ [] := by
  have hvalid := verify_sign hE key "" "" 0 msgId
  let text := consoleClassic P ⟨"", key, .v4 2 2, []⟩ 0 msgId ""
  have hsends : (relayClassic P text (.v4 2 2) s).sends =
      broadcast s.peers (.v4 2 2) (.classic text.forwarded) := by
    rw [relayClassic_broadcast hnew hvalid (show (16 : UInt8) > 0 by decide)]
  intro hnil
  have hempty : broadcast s.peers (.v4 2 2) (.classic text.forwarded) = [] := hsends.symm.trans hnil
  rw [broadcast, List.map_eq_nil_iff, broadcastTo, List.filter_eq_nil_iff] at hempty
  exact hempty _ hpeer (by decide)

/-- A relay that has the id cached does not. -/
theorem sends_textArrival_of_mem (key : P.ed.SigningKey) {msgId : UInt64} {s : RelayState}
    (h : msgId ∈ s.seen.set) :
    (handleMessage P (textArrival P key msgId).msg (textArrival P key msgId).sender s).sends
      = [] := by
  have hdup : relayClassic P (consoleClassic P ⟨"", key, .v4 2 2, []⟩ 0 msgId "") (.v4 2 2) s =
      ⟨.duplicate, s, []⟩ := relayClassic_duplicate h
  exact congrArg Relayed.sends hdup

/-- A relay, once the peer has registered. -/
def registered (P : Platform) (s : RelayState) : RelayState :=
  (handleMessage P registerArrival.msg registerArrival.sender s).state

theorem mem_keys_registered (s : RelayState) :
    registerArrival.sender ∈ (registered P s).peers.keys := by
  simp [registered, registerArrival, handleMessage, relayRegister]

/-- What a relay sends when the peer registers and the text arrives. -/
theorem sent_probe (key : P.ed.SigningKey) (msgId : UInt64) (s : RelayState) (sent : Sends) :
    ((relaying P).run ⟨s, sent⟩ [registerArrival, textArrival P key msgId]).sent =
      sent ++ (handleMessage P (textArrival P key msgId).msg (textArrival P key msgId).sender
        (registered P s)).sends := by
  show sent ++ [] ++ _ = sent ++ _
  rw [List.append_nil]
  rfl

/-- **A relay betrays an invalid text with a new id**: a peer registers, and a valid text
with that id is forwarded to it without the invalid one and dropped with it. -/
theorem relay_detects (hE : P.ed.Correct) (key : P.ed.SigningKey) {s : RelayLog} {e : Arrival}
    (hbad : e.Invalid P.ed) (h : ¬ e.Cached s) :
    ∃ rest, ((relaying P).run ((relaying P).next s e) rest).sent ≠
      ((relaying P).run s rest).sent := by
  obtain ⟨sender, msg⟩ := e
  cases msg with
  | payment _ | paymentAck _ | register _ | connect _ | askForAddr _ | peerInfo _ _ => cases hbad
  | classic m =>
    have hnew : m.msgId ∉ s.relay.seen.set := h
    let muted : RelayState := { s.relay with seen := (s.relay.seen.isNew m.msgId).2 }
    have hnext : (relaying P).next s ⟨sender, .classic m⟩ = ⟨muted, s.sent⟩ := by
      rw [relaying_next, handleMessage, relayClassic_invalid hnew hbad, List.append_nil]
    have hcached : m.msgId ∈ (registered P muted).seen.set := SeenIds.mem_isNew_self _ _
    refine ⟨[registerArrival, textArrival P key m.msgId], ?_⟩
    intro heq
    -- Both relays know the peer; only the one that has not cached the id sends it the text.
    rw [hnext, sent_probe, sends_textArrival_of_mem key hcached, sent_probe key m.msgId s.relay,
      List.append_cancel_left_eq] at heq
    exact sends_textArrival hE key (mem_keys_registered s.relay) hnew heq.symm

/-! ## Both -/

/-- **Invalid texts do not interfere if and only if they find their ids cached.**  For
every run of a client, or of a relay, from any state: deleting the invalid texts from
what has happened so far changes nothing that the node ever produces, now or later, if
and only if each of them has an id that is cached when it arrives. -/
theorem interference_iff (P : Platform) (hE : P.ed.Correct) (key : P.ed.SigningKey)
    (ctx : ClientContext P.ed) :
    (∀ s es, (running P ctx).Invisible (TaskEvent.Invalid P.ed) ClientState.produced s es ↔
      (running P ctx).Always (fun s e => e.Invalid P.ed → e.Cached s) s es) ∧
    (∀ s es, (relaying P).Invisible (Arrival.Invalid P.ed) RelayLog.sent s es ↔
      (relaying P).Always (fun s e => e.Invalid P.ed → e.Cached s) s es) :=
  ⟨fun _ _ => EventSystem.invisible_iff (fun s e => TaskEvent.Cached s e)
      (fun _ _ => trivial) (fun _ _ hbad hc => taskStep_of_cached hbad hc)
      (fun _ _ hbad hc => client_detects hbad hc),
    fun _ _ => EventSystem.invisible_iff (fun s e => Arrival.Cached s e)
      (fun _ _ => trivial) (fun _ _ hbad hc => relaying_of_cached hbad hc)
      (fun _ _ hbad hc => relay_detects hE key hbad hc)⟩

/-- A forgery with the id of a text that bob has displayed goes unnoticed; at a relay
that has not seen the id it does not. -/
theorem interference_iff_sample :
    (running samplePlatform bob).Invisible (TaskEvent.Invalid checksumScheme)
      ClientState.produced (bobStart 0)
      [.recv 0 (.classic (aliceText 7)), .recv 0 (.classic (forged 7))] ∧
    ¬ (relaying samplePlatform).Invisible (Arrival.Invalid checksumScheme) RelayLog.sent
      ⟨relayStartup, []⟩ [⟨.v4 3 3, .classic (forged 7)⟩] := by
  have h := interference_iff samplePlatform checksumScheme_correct (1 : UInt8) bob
  have hinvalid : (forged 7).Invalid checksumScheme := by decide
  constructor
  · refine (h.1 _ _).mpr ⟨trivial, fun hbad => ?_, trivial, fun _ _ => ?_, trivial⟩
    · exact absurd hbad (by decide +kernel)
    · decide +kernel
  · intro hinv
    have hcached : 7 ∈ relayStartup.seen.set := ((h.2 _ _).mp hinv).2.1 hinvalid
    exact absurd hcached (by decide)

/-! ## A text suppressed by a forgery -/

/-- **A forgery suppresses the text whose id it copies.**  Without it bob displays
alice's text and a relay forwards it to him; after it he displays nothing and the
relay sends nothing. -/
theorem forgery_suppresses_text :
    let forgery := forged (aliceText 7).msgId
    let bobRegistered : RelayState :=
      (handleMessage samplePlatform registerArrival.msg registerArrival.sender relayStartup).state
    forgery.Invalid checksumScheme ∧
    ((running samplePlatform bob).run (bobStart 0)
      [.recv 0 (.classic (aliceText 7))]).app.messages = [(aliceText 7).entry] ∧
    ((running samplePlatform bob).run (bobStart 0)
      [.recv 0 (.classic forgery), .recv 0 (.classic (aliceText 7))]).app.messages = [] ∧
    ((relaying samplePlatform).run ⟨bobRegistered, []⟩
      [⟨.v4 1 40000, .classic (aliceText 7)⟩]).sent =
        [(registerArrival.sender, .classic (aliceText 7).forwarded)] ∧
    ((relaying samplePlatform).run ⟨bobRegistered, []⟩
      [⟨.v4 3 3, .classic forgery⟩, ⟨.v4 1 40000, .classic (aliceText 7)⟩]).sent = [] :=
  ⟨by decide, by decide +kernel, by decide +kernel, by decide +kernel, by decide +kernel⟩

end Zeta
