import Zeta.ClientRun
import Zeta.Feed
import Zeta.Markup

/-!
# Own texts and texts of others

The feed does not record who pushed an entry.  `send_msg` puts " (vous)" behind the name of
the client, and `appendMsg` shows a text as sent if "(vous)" is somewhere in the name.  An
own text is always shown so.  A text from the network carries the name that its sender has
chosen, and signed: it is shown as another's exactly if that name does not hold the mark
(`own_shown_iff`).
-/

namespace Zeta

/-- An entry of the feed, and whether it was pushed by `send_msg`. -/
structure Authored where
  entry : ChatMessage
  own : Bool

section Run
variable (P : Platform) (ctx : ClientContext P.ed)

/-- What an event of the tasks pushes to the feed. -/
def pushes (s : ClientState) : TaskEvent → List Authored
  | .say now _ text => [⟨ownEntry P ctx now text, true⟩]
  | .pay now paymentId args =>
    match (doPay P ctx now paymentId args s).exit with
    | .sent p => [⟨paymentSentEntry P ctx now p.dstId p.amount, false⟩]
    | _ => []
  | .recv now msg =>
    match (recvLoop P ctx now msg s).exit, msg with
    | .displayed, .classic m => [⟨m.entry, false⟩]
    | .credited, .payment p => [⟨p.entry now, false⟩]
    | .acknowledged, .paymentAck a => [⟨a.entry now, false⟩]
    | _, _ => []

/-- A client that may be restarted, and all that was pushed to its feed since. -/
def authored : EventSystem (ClientState × List Authored) ClientEvent where
  Enabled _ _ := True
  next s
    | .task e => (taskStep P ctx s.1 e, s.2 ++ pushes P ctx s.1 e)
    | .restart localAddr => (startup P ctx localAddr s.1.walletFile, [])

/-- A client that has started. -/
def authoredStart (localAddr : SocketAddr) (file : WalletFile) : ClientState × List Authored :=
  (startup P ctx localAddr file, [])

end Run

/-- The page shows the entry as sent from here. -/
def ShownAsSent (B : Browser) (m : ChatMessage) : Prop := (B.appendMsg m).1 = "mg sent"

/-- The name holds the mark of an own text. -/
def MarkedOwn (name : String) : Prop := includes (utf16 name) (utf16 "(vous)") = true

instance (name : String) : Decidable (MarkedOwn name) := inferInstanceAs (Decidable (_ = true))

/-- **Texts are not confused**: of the texts in the feed, those are shown as sent that were. -/
def OwnShown (B : Browser) (s : ClientState × List Authored) : Prop :=
  ∀ x ∈ Window.lastN 500 s.2, x.entry.msgType = "message" →
    (ShownAsSent B x.entry ↔ x.own = true)

/-- A text from the network that `handle_msg` would display does not carry the mark. -/
def Unmarked (P : Platform) (s : ClientState × List Authored) : ClientEvent → Prop
  | .task (.recv _ (.classic m)) =>
    s.1.receiving = true → m.msgId ∉ s.1.seen.set →
      verify P.ed m.publicKey m.srcId m.txt m.time m.msgId m.signature = true →
      ¬ MarkedOwn m.srcId
  | _ => True

variable {P : Platform} {ctx : ClientContext P.ed} {B : Browser} {s : ClientState}

/-! ## The mark -/

theorem utf16_append (s t : String) : utf16 (s ++ t) = utf16 s ++ utf16 t := by
  rw [utf16, utf16, utf16, String.toList_append, List.flatMap_append]

theorem includes_iff {s t : JsString} : includes s t = true ↔ t <:+: s := by
  simp only [includes, List.any_eq_true, List.mem_tails, List.isPrefixOf_iff_prefix]
  rw [List.infix_iff_prefix_suffix]
  exact exists_congr fun _ => And.comm

/-- Every own text carries the mark, whatever the client is called. -/
theorem markedOwn_append (name : String) : MarkedOwn (name ++ " (vous)") := by
  have hmark : utf16 "(vous)" <:+: utf16 " (vous)" := includes_iff.mp (by decide +kernel)
  rw [MarkedOwn, includes_iff, utf16_append]
  exact hmark.trans (List.suffix_append _ _).isInfix

/-- The mark is what `appendMsg` goes by. -/
theorem shownAsSent_iff {m : ChatMessage} (h : m.msgType = "message") :
    ShownAsSent B m ↔ MarkedOwn m.fromId := by
  rw [ShownAsSent, Browser.appendMsg, if_pos h, MarkedOwn]
  cases includes (utf16 m.fromId) (utf16 "(vous)") <;> simp

/-! ## What is pushed -/

/-- **The feed takes in what is pushed, and nothing else.** -/
theorem taskStep_messages (s : ClientState) (e : TaskEvent) :
    (taskStep P ctx s e).app.messages =
      (pushes P ctx s e).foldl (fun msgs x => AppState.retain msgs x.entry) s.app.messages := by
  cases e with
  | say now msgId text => rfl
  | pay now paymentId args =>
    rcases doPay_eq P ctx now paymentId args s with h | h | ⟨dst, n, -, h⟩
    · simp only [taskStep, pushes, h, List.foldl_nil]
    · simp only [taskStep, pushes, h, List.foldl_nil]
    · simp only [taskStep, pushes, h]
      cases hd : (debit s.app.wallet n).1 with
      | false => simp only [pay, hd, if_true, List.foldl_nil]
      | true =>
        simp only [pay, hd, Bool.true_eq_false, if_false]
        rfl
  | recv now msg =>
    cases hrun : s.receiving with
    | false => simp only [taskStep, pushes, recvLoop_stopped hrun, List.foldl_nil]
    | true =>
      simp only [taskStep, pushes, recvLoop_receiving hrun]
      cases msg with
      | classic m =>
        by_cases hid : m.msgId ∈ s.seen.set
        · simp only [handleMsg, handleClassic_duplicate hid, List.foldl_nil]
        · cases hv : verify P.ed m.publicKey m.srcId m.txt m.time m.msgId m.signature with
          | false => simp only [handleMsg, handleClassic_invalid hid hv, List.foldl_nil]
          | true =>
            simp only [handleMsg, handleClassic_displayed hid hv]
            rfl
      | payment p =>
        by_cases hme : ctx.IsMe p.dstId
        · by_cases hid : paymentKey p.paymentId ∈ s.seen.set
          · simp only [handleMsg, handlePayment_duplicate hme hid, List.foldl_nil]
          · cases hc : credit P.build s.app.wallet p.amount with
            | none => simp only [handleMsg, handlePayment_panicked hme hid hc, List.foldl_nil]
            | some w =>
              simp only [handleMsg, handlePayment_credited hme hid hc]
              rfl
        · simp only [handleMsg, handlePayment_notForMe hme, List.foldl_nil]
      | paymentAck a =>
        by_cases hme : ctx.IsMe a.toId
        · by_cases hid : ackKey a.paymentId ∈ s.seen.set
          · simp only [handleMsg, handlePaymentAck_duplicate hme hid, List.foldl_nil]
          · simp only [handleMsg, handlePaymentAck_acknowledged hme hid]
            rfl
        · simp only [handleMsg, handlePaymentAck_notForMe hme, List.foldl_nil]
      | register _ | connect _ | askForAddr _ | peerInfo _ _ => rfl

/-- A text from the network that the client does not have yet, and that its sender signed, is
pushed. -/
theorem pushes_classic {s : ClientState} {m : Classic} (hrun : s.receiving = true)
    (hid : m.msgId ∉ s.seen.set)
    (hv : verify P.ed m.publicKey m.srcId m.txt m.time m.msgId m.signature = true)
    (now : UInt64) : pushes P ctx s (.recv now (.classic m)) = [⟨m.entry, false⟩] := by
  simp only [pushes, recvLoop_receiving hrun, handleMsg, handleClassic_displayed hid hv]

/-- **Where texts come from**: the client sent them, or they are such texts from the
network. -/
theorem text_of_pushes {s : ClientState} {e : TaskEvent} {x : Authored}
    (hx : x ∈ pushes P ctx s e) (htext : x.entry.msgType = "message") :
    (∃ now text, x = ⟨ownEntry P ctx now text, true⟩) ∨
    (∃ now m, e = .recv now (.classic m) ∧ x = ⟨m.entry, false⟩ ∧ s.receiving = true ∧
      m.msgId ∉ s.seen.set ∧
      verify P.ed m.publicKey m.srcId m.txt m.time m.msgId m.signature = true) := by
  cases e with
  | say now msgId text => exact Or.inl ⟨now, text, List.mem_singleton.mp hx⟩
  | pay now paymentId args =>
    simp only [pushes] at hx
    split at hx
    · rw [List.mem_singleton.mp hx] at htext
      simp [paymentSentEntry] at htext
    · cases hx
  | recv now msg =>
    simp only [pushes] at hx
    split at hx
    · rename_i m hexit
      obtain ⟨hv, hrun, hid⟩ := displayed_iff.mp hexit
      exact Or.inr ⟨now, m, rfl, List.mem_singleton.mp hx, hrun, hid, hv⟩
    · rw [List.mem_singleton.mp hx] at htext
      simp [Payment.entry] at htext
    · rw [List.mem_singleton.mp hx] at htext
      simp [PaymentAck.entry] at htext
    · cases hx

/-! ## Runs -/

/-- The feed is the last 500 of what was pushed. -/
def FeedAuthored (s : ClientState × List Authored) : Prop :=
  s.1.app.messages = (Window.lastN 500 s.2).map Authored.entry

theorem foldl_retain (l xs : List Authored) :
    xs.foldl (fun msgs x => AppState.retain msgs x.entry)
        ((Window.lastN 500 l).map Authored.entry) =
      (Window.lastN 500 (l ++ xs)).map Authored.entry := by
  induction xs generalizing l with
  | nil => rw [List.foldl_nil, List.append_nil]
  | cons x xs ih =>
    have hone : AppState.retain ((Window.lastN 500 l).map Authored.entry) x.entry =
        (Window.lastN 500 (l ++ [x])).map Authored.entry := by
      rw [Window.map_lastN, Window.map_lastN, retain_lastN, List.map_append]
      rfl
    rw [List.foldl_cons, hone, ih, List.append_assoc]
    rfl

theorem feedAuthored_next {s : ClientState × List Authored} (h : FeedAuthored s)
    (e : ClientEvent) : FeedAuthored ((authored P ctx).next s e) := by
  cases e with
  | task e =>
    show (taskStep P ctx s.1 e).app.messages = _
    rw [taskStep_messages, h, foldl_retain]
    rfl
  | restart localAddr => simp [FeedAuthored, authored, startup, Window.lastN]

/-- **One step.** -/
theorem ownShown_next_iff {s : ClientState × List Authored} (h : OwnShown B s)
    (e : ClientEvent) : OwnShown B ((authored P ctx).next s e) ↔ Unmarked P s e := by
  cases e with
  | restart localAddr =>
    refine iff_of_true ?_ trivial
    intro x hx
    simp [authored, Window.lastN] at hx
  | task e =>
    constructor
    · intro hnext
      cases e with
      | say _ _ _ | pay _ _ _ => trivial
      | recv now msg =>
        cases msg with
        | register _ | connect _ | askForAddr _ | peerInfo _ _ | payment _ | paymentAck _ =>
          trivial
        | classic m =>
          intro hrun hid hv hmarked
          have hx : (⟨m.entry, false⟩ : Authored) ∈
              Window.lastN 500 (s.2 ++ pushes P ctx s.1 (.recv now (.classic m))) := by
            rw [pushes_classic hrun hid hv]
            exact Window.mem_lastN_concat (by omega)
          have hown := (hnext _ hx rfl).mp ((shownAsSent_iff rfl).mpr hmarked)
          cases hown
    · intro hunmarked x hx htext
      have hmem : x ∈ Window.lastN 500 (s.2 ++ pushes P ctx s.1 e) := hx
      rw [← Window.lastN_lastN_append] at hmem
      rcases List.mem_append.mp (List.mem_of_mem_drop hmem) with hold | hnew
      · exact h x hold htext
      · rw [shownAsSent_iff htext]
        rcases text_of_pushes hnew htext with
          ⟨now, text, rfl⟩ | ⟨now, m, rfl, rfl, hrun, hid, hv⟩
        · exact iff_of_true (markedOwn_append ctx.peerId) rfl
        · exact iff_of_false (hunmarked hrun hid hv) Bool.false_ne_true

/-- **Texts are not confused if and only if no name from the network holds the mark.**  In
every run of a client, whatever it and the others are called, and whatever they send: in
every state the texts in the feed that are shown as sent are the client's own, if and only
if no text that it displays comes from a name with "(vous)" in it. -/
theorem own_shown_iff (P : Platform) (ctx : ClientContext P.ed) (B : Browser)
    (localAddr : SocketAddr) (file : WalletFile) (es : List ClientEvent) :
    ((authored P ctx).Always (fun s e => OwnShown B ((authored P ctx).next s e))
        (authoredStart P ctx localAddr file) es ↔
      (authored P ctx).Always (Unmarked P) (authoredStart P ctx localAddr file) es) ∧
    FeedAuthored ((authored P ctx).run (authoredStart P ctx localAddr file) es) := by
  have hfeed : FeedAuthored (authoredStart P ctx localAddr file) := by
    simp [FeedAuthored, authoredStart, startup, Window.lastN]
  constructor
  · have hstart : OwnShown B (authoredStart P ctx localAddr file) := by
      intro x hx
      simp [authoredStart, Window.lastN] at hx
    exact EventSystem.always_next_iff (J := fun _ => True) (fun _ _ _ _ => trivial)
      (fun _ e _ h _ => ownShown_next_iff h e) trivial hstart
  · exact EventSystem.invariant_run (I := FeedAuthored)
      (fun _ e h _ _ => feedAuthored_next h e) (EventSystem.always_true (fun _ _ => trivial)) hfeed

/-! ## A name with the mark -/

/-- A client whose name holds the mark. -/
def impostor : ClientContext samplePlatform.ed := { bob with peerId := "alice (vous)" }

/-- Its text. -/
def impostorText : Classic := classicOf samplePlatform impostor 0 7 "hello" (bobStart 0)

/-- **A text from the network may be shown as sent from here.** -/
theorem impostor_shown_as_sent :
    ¬ ∀ (B : Browser) (es : List ClientEvent),
      (authored samplePlatform alice).Always
        (fun s e => OwnShown B ((authored samplePlatform alice).next s e))
        (authoredStart samplePlatform alice (.v4 0 40000) none) es := by
  intro h
  have hshown := (h asciiBrowser [.task (.recv 0 (.classic impostorText))]).2.1
  have hmarked : MarkedOwn impostorText.srcId := by decide +kernel
  have hpushed : pushes samplePlatform alice
      (authoredStart samplePlatform alice (.v4 0 40000) none).1
      (.recv 0 (.classic impostorText)) = [⟨impostorText.entry, false⟩] :=
    pushes_classic rfl (by decide +kernel) (by decide +kernel) 0
  have hx : (⟨impostorText.entry, false⟩ : Authored) ∈ Window.lastN 500 ([] ++
      pushes samplePlatform alice (authoredStart samplePlatform alice (.v4 0 40000) none).1
        (.recv 0 (.classic impostorText))) := by
    rw [hpushed]
    exact Window.mem_lastN_concat (by omega)
  exact Bool.false_ne_true ((hshown _ hx rfl).mp ((shownAsSent_iff rfl).mpr hmarked))

end Zeta
