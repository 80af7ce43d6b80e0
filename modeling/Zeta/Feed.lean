import Zeta.Tasks
import Zeta.SamplePlatform

/-!
# The feed and its stream

`push_message` appends an entry to the feed under the write lock, lets go of the lock, and
then sends the event that tells the pages about it.  In between other calls may append
and send.  This module has any number of calls of `push_message` at once, each in two
steps, amid announcements of the wallet.

The stream tells of the entries in the order in which they were appended exactly if every
call sends before any later one does (`stream_in_order_iff`).  Nothing makes it wait for
its turn: `broadcast_wallet_update` sends while it holds its lock, `push_message` does not.
-/

namespace Zeta

/-- What is sent to the pages: an entry that the call `c` of `push_message` appended, or the
wallet. -/
inductive StreamItem (τ : Type) where
  | entry (c : τ) (msg : ChatMessage)
  | wallet (w : Wallet)

/-- The event sent. -/
def StreamItem.event {τ : Type} : StreamItem τ → SseEvent
  | .entry _ msg => AppState.messageEvent msg
  | .wallet w => AppState.walletEvent w

/-- The entry it tells of, and the call that appended it. -/
def StreamItem.pushed {τ : Type} : StreamItem τ → Option (τ × ChatMessage)
  | .entry c msg => some (c, msg)
  | .wallet _ => none

/-- The entry that an event tells of. -/
def SseEvent.entry (e : SseEvent) : Option ChatMessage :=
  match e.data with
  | .message msg => some msg
  | .wallet _ => none

/-- The `AppState` of a node.  What the calls appended and what was sent, both in order, is
history. -/
structure FeedState (τ : Type) where
  app : AppState
  appended : List (τ × ChatMessage)
  stream : List (StreamItem τ)

/-- What happens to the feed. -/
inductive FeedEvent (τ : Type) where
  /-- The call `c` of `push_message` appends its entry. -/
  | append (c : τ) (msg : ChatMessage)
  /-- The call `c` sends its event. -/
  | send (c : τ)
  /-- The wallet is changed and announced. -/
  | wallet (w : Wallet)

/-- What an event appends. -/
def FeedEvent.added {τ : Type} : FeedEvent τ → List (τ × ChatMessage)
  | .append c msg => [(c, msg)]
  | _ => []

namespace FeedState
variable {τ : Type}

/-- The node as it starts. -/
def start (w : Wallet) : FeedState τ where
  app := { messages := [], wallet := w, events := [] }
  appended := []
  stream := []

/-- The entries that the stream has told of. -/
def sent (s : FeedState τ) : List (τ × ChatMessage) := s.stream.filterMap StreamItem.pushed

/-- The entries that the feed still holds. -/
def retained (s : FeedState τ) : List (τ × ChatMessage) := Window.lastN 500 s.appended

/-- The channel takes an item. -/
def emit (s : FeedState τ) (i : StreamItem τ) : FeedState τ :=
  { s with app := s.app.sendEvent i.event, stream := s.stream ++ [i] }

variable [DecidableEq τ]

/-- The calls between their two steps, in the order of the first. -/
def waiting (s : FeedState τ) : List (τ × ChatMessage) := s.appended.filter (· ∉ s.sent)

/-- What an event sends to the pages. -/
def item (s : FeedState τ) : FeedEvent τ → Option (StreamItem τ)
  | .append _ _ => none
  | .send c => (s.waiting.find? (·.1 = c)).map (fun x => .entry x.1 x.2)
  | .wallet w => some (.wallet w)

end FeedState

section System
variable (τ : Type) [DecidableEq τ]

/-- The feed as an event system. -/
def feedSystem : EventSystem (FeedState τ) (FeedEvent τ) where
  Enabled s
    -- A call appends once, and then sends once.
    | .append c _ => c ∉ s.appended.map Prod.fst
    | .send c => c ∈ s.waiting.map Prod.fst
    | .wallet _ => True
  next s
    | .append c msg =>
      { s with app := s.app.pushEntry msg, appended := s.appended ++ [(c, msg)] }
    | .send c =>
      match s.item (.send c) with
      | some i => s.emit i
      | none => s
    | .wallet w => { s with app := { s.app with wallet := w } }.emit (.wallet w)

instance (s : FeedState τ) : (e : FeedEvent τ) → Decidable ((feedSystem τ).Enabled s e)
  | .append c _ => inferInstanceAs (Decidable (c ∉ s.appended.map Prod.fst))
  | .send c => inferInstanceAs (Decidable (c ∈ s.waiting.map Prod.fst))
  | .wallet _ => isTrue trivial

end System

/-- **The stream follows the feed**: it has told of the first entries of the feed, in their
order. -/
def StreamFollows {τ : Type} (s : FeedState τ) : Prop := s.sent <+: s.appended

/-- A call that sends is the one that has waited longest. -/
def InTurn {τ : Type} [DecidableEq τ] (s : FeedState τ) : FeedEvent τ → Prop
  | .send c => s.waiting.head?.map Prod.fst = some c
  | _ => True

/-- **The invariant**: every call appends once and sends only what it appended, and the
`AppState` is what the history says. -/
structure FeedKept {τ : Type} (s : FeedState τ) : Prop where
  calls : (s.appended.map Prod.fst).Nodup
  sent : ∀ x ∈ s.sent, x ∈ s.appended
  messages : s.app.messages = s.retained.map Prod.snd
  events : s.app.events = s.stream.map StreamItem.event

variable {τ : Type} {s : FeedState τ} {c : τ} {msg : ChatMessage}

@[simp] theorem sent_emit_entry : (s.emit (.entry c msg)).sent = s.sent ++ [(c, msg)] := by
  simp [FeedState.sent, FeedState.emit, StreamItem.pushed]

@[simp] theorem sent_emit_wallet {w : Wallet} : (s.emit (.wallet w)).sent = s.sent := by
  simp [FeedState.sent, FeedState.emit, StreamItem.pushed]

theorem FeedKept.nodup (h : FeedKept s) : s.appended.Nodup := List.Nodup.of_map _ h.calls

/-- A feed of at most 500 entries takes in one more. -/
theorem retain_lastN (l : List ChatMessage) (msg : ChatMessage) :
    AppState.retain (Window.lastN 500 l) msg = Window.lastN 500 (l ++ [msg]) := by
  rw [← Window.lastN_lastN_append, AppState.retain]
  split
  · rfl
  · rename_i hle
    exact (Window.lastN_of_length_le (Nat.le_of_not_lt hle)).symm

section Steps
variable [DecidableEq τ]

theorem mem_waiting {x : τ × ChatMessage} : x ∈ s.waiting ↔ x ∈ s.appended ∧ x ∉ s.sent := by
  simp [FeedState.waiting]

/-- A call that may send has an entry to tell of. -/
theorem mem_waiting_of_enabled (h : (feedSystem τ).Enabled s (.send c)) :
    ∃ msg, (c, msg) ∈ s.waiting := by
  obtain ⟨x, hx, rfl⟩ := List.mem_map.mp h
  exact ⟨x.2, hx⟩

/-- A call that waits is found under its name. -/
theorem item_send (h : FeedKept s) (hc : (c, msg) ∈ s.waiting) :
    s.item (.send c) = some (.entry c msg) := by
  have hfind : s.waiting.find? (·.1 = c) = some (c, msg) := by
    cases hf : s.waiting.find? (·.1 = c) with
    | none =>
      have hnone := List.find?_eq_none.mp hf (c, msg) hc
      simp at hnone
    | some x =>
      have hx : x.1 = c := by simpa using List.find?_some hf
      have hmem := (mem_waiting.mp (List.mem_of_find?_eq_some hf)).1
      rw [List.inj_on_of_nodup_map h.calls hmem (mem_waiting.mp hc).1 hx]
  rw [FeedState.item, hfind]
  rfl

theorem next_send (h : FeedKept s) (hc : (c, msg) ∈ s.waiting) :
    (feedSystem τ).next s (.send c) = s.emit (.entry c msg) := by
  show (match s.item (.send c) with
    | some i => s.emit i
    | none => s) = _
  rw [item_send h hc]

omit [DecidableEq τ] in
theorem FeedKept.emit (h : FeedKept s) {i : StreamItem τ}
    (hi : ∀ x ∈ i.pushed, x ∈ s.appended) : FeedKept (s.emit i) where
  calls := h.calls
  sent := by
    intro x hx
    rw [FeedState.sent, FeedState.emit, List.filterMap_append] at hx
    rcases List.mem_append.mp hx with hold | hnew
    · exact h.sent x hold
    · obtain ⟨j, hj, hpushed⟩ := List.mem_filterMap.mp hnew
      rw [List.mem_singleton.mp hj] at hpushed
      exact hi x hpushed
  messages := h.messages
  events := by
    show s.app.events ++ [i.event] = (s.stream ++ [i]).map StreamItem.event
    rw [h.events, List.map_append]
    rfl

omit [DecidableEq τ] in
theorem feedKept_start (w : Wallet) : FeedKept (FeedState.start w : FeedState τ) where
  calls := List.nodup_nil
  sent := fun _ hx => absurd hx List.not_mem_nil
  messages := by simp [FeedState.start, FeedState.retained, Window.lastN]
  events := rfl

/-- **The invariant is preserved.** -/
theorem feedKept_next (h : FeedKept s) {e : FeedEvent τ} (hen : (feedSystem τ).Enabled s e) :
    FeedKept ((feedSystem τ).next s e) := by
  cases e with
  | append c msg =>
    refine ⟨?_, fun x hx => List.mem_append_left _ (h.sent x hx), ?_, h.events⟩
    · show ((s.appended ++ [(c, msg)]).map Prod.fst).Nodup
      rw [List.map_append]
      exact List.Nodup.append h.calls (List.nodup_singleton c)
        (List.disjoint_singleton.mpr hen)
    · show AppState.retain s.app.messages msg =
        (Window.lastN 500 (s.appended ++ [(c, msg)])).map Prod.snd
      rw [h.messages, FeedState.retained, Window.map_lastN, Window.map_lastN, retain_lastN,
        List.map_append]
      rfl
  | send c =>
    obtain ⟨msg, hc⟩ := mem_waiting_of_enabled hen
    rw [next_send h hc]
    exact h.emit (fun x hx => Option.some.inj hx ▸ (mem_waiting.mp hc).1)
  | wallet w =>
    have hstore : FeedKept { s with app := { s.app with wallet := w } } :=
      ⟨h.calls, h.sent, h.messages, h.events⟩
    exact hstore.emit (fun x hx => by cases hx)

/-- Uninterrupted, the two steps of a call are `push_message`. -/
theorem push_uninterrupted (h : FeedKept s) (hc : c ∉ s.appended.map Prod.fst) :
    ((feedSystem τ).next ((feedSystem τ).next s (.append c msg)) (.send c)).app =
      s.app.pushMessage msg := by
  have hnext := feedKept_next (e := .append c msg) h hc
  have hwait : (c, msg) ∈ ((feedSystem τ).next s (.append c msg)).waiting := by
    refine mem_waiting.mpr ⟨List.mem_append_right _ (List.mem_singleton_self _), ?_⟩
    intro hsent
    exact hc (List.mem_map_of_mem (h.sent (c, msg) hsent))
  rw [next_send hnext hwait]
  rfl

/-! ## What a step leaves -/

/-- A call that sends has waited. -/
theorem mem_waiting_of_item {e : FeedEvent τ} {i : StreamItem τ} (hi : s.item e = some i)
    {x : τ × ChatMessage} (hx : x ∈ i.pushed) : x ∈ s.waiting := by
  cases e with
  | append c msg => cases hi
  | wallet w =>
    cases hi
    cases hx
  | send c =>
    obtain ⟨y, hy, rfl⟩ := Option.map_eq_some_iff.mp hi
    rw [← Option.some.inj hx]
    exact List.mem_of_find?_eq_some hy

/-- The stream takes what is sent. -/
theorem sent_next (h : FeedKept s) {e : FeedEvent τ} (hen : (feedSystem τ).Enabled s e) :
    ((feedSystem τ).next s e).sent = s.sent ++ (s.item e).toList.filterMap StreamItem.pushed := by
  cases e with
  | append c msg => exact (List.append_nil _).symm
  | wallet w =>
    show (FeedState.emit _ (.wallet w)).sent = _
    rw [sent_emit_wallet]
    exact (List.append_nil _).symm
  | send c =>
    obtain ⟨msg, hc⟩ := mem_waiting_of_enabled hen
    rw [next_send h hc, sent_emit_entry, item_send h hc]
    rfl

/-- An event that sends does not append. -/
theorem added_of_item {e : FeedEvent τ} {i : StreamItem τ}
    (hi : s.item e = some i) : e.added = [] := by
  cases e with
  | append c msg => cases hi
  | send c | wallet w => rfl

/-- The feed grows by what is appended. -/
theorem appended_next (s : FeedState τ) (e : FeedEvent τ) :
    ((feedSystem τ).next s e).appended = s.appended ++ e.added := by
  cases e with
  | append c msg => rfl
  | wallet w => exact (List.append_nil _).symm
  | send c =>
    show (match s.item (.send c) with
      | some i => s.emit i
      | none => s).appended = _
    split <;> exact (List.append_nil _).symm

/-- The feed holds nothing but what it held and what is appended. -/
theorem mem_retained_of_next {e : FeedEvent τ} {x : τ × ChatMessage}
    (hx : x ∈ ((feedSystem τ).next s e).retained) : x ∈ s.retained ∨ x ∈ e.added := by
  rw [FeedState.retained, appended_next, ← Window.lastN_lastN_append] at hx
  exact List.mem_append.mp (List.mem_of_mem_drop hx)

/-- A step that sends leaves the feed as it is. -/
theorem retained_next_of_item {e : FeedEvent τ} {i : StreamItem τ} (hi : s.item e = some i) :
    ((feedSystem τ).next s e).retained = s.retained := by
  rw [FeedState.retained, appended_next, added_of_item hi, List.append_nil]
  rfl

/-- A call that waits goes on waiting, or sends. -/
theorem mem_waiting_next (h : FeedKept s) {e : FeedEvent τ} (hen : (feedSystem τ).Enabled s e)
    {x : τ × ChatMessage} (hx : x ∈ s.waiting) :
    x ∈ ((feedSystem τ).next s e).waiting ∨ ∃ i, s.item e = some i ∧ x ∈ i.pushed := by
  obtain ⟨happended, hsent⟩ := mem_waiting.mp hx
  by_cases hnow : x ∈ (s.item e).toList.filterMap StreamItem.pushed
  · obtain ⟨i, hi, hpushed⟩ := List.mem_filterMap.mp hnow
    exact Or.inr ⟨i, Option.mem_toList.mp hi, hpushed⟩
  · refine Or.inl (mem_waiting.mpr ⟨?_, ?_⟩)
    · rw [appended_next]
      exact List.mem_append_left _ happended
    · rw [sent_next h hen, List.mem_append]
      exact not_or.mpr ⟨hsent, hnow⟩

/-! ## The order of the stream -/

/-- While the stream follows the feed, the entries it has not told of are those that wait. -/
theorem waiting_of_follows (h : FeedKept s) {rest : List (τ × ChatMessage)}
    (hrest : s.sent ++ rest = s.appended) : s.waiting = rest := by
  have hnodup := h.nodup
  rw [← hrest] at hnodup
  have hdisjoint := List.disjoint_of_nodup_append hnodup
  rw [FeedState.waiting, ← hrest, List.filter_append, List.filter_eq_nil_iff.mpr,
    List.filter_eq_self.mpr, List.nil_append]
  · intro x hx
    exact decide_eq_true (fun hsent => hdisjoint hsent hx)
  · intro x hx
    simp [hx]

/-- **One step.** -/
theorem streamFollows_next_iff (h : FeedKept s) (hs : StreamFollows s) {e : FeedEvent τ}
    (hen : (feedSystem τ).Enabled s e) :
    StreamFollows ((feedSystem τ).next s e) ↔ InTurn s e := by
  cases e with
  | append c msg => exact iff_of_true (hs.trans (List.prefix_append _ _)) trivial
  | wallet w =>
    refine iff_of_true ?_ trivial
    show FeedState.sent (FeedState.emit _ (.wallet w)) <+: s.appended
    rw [sent_emit_wallet]
    exact hs
  | send c =>
    obtain ⟨msg, hc⟩ := mem_waiting_of_enabled hen
    obtain ⟨rest, hrest⟩ := hs
    have hwaiting := waiting_of_follows h hrest
    rw [next_send h hc, StreamFollows, sent_emit_entry, InTurn, hwaiting]
    show s.sent ++ [(c, msg)] <+: s.appended ↔ _
    rw [← hrest, List.prefix_append_right_inj]
    rw [hwaiting] at hc
    cases rest with
    | nil => cases hc
    | cons x rest =>
      simp only [List.head?_cons, Option.map_some, Option.some.injEq, List.cons_prefix_cons,
        List.nil_prefix, and_true]
      constructor
      · rintro rfl
        rfl
      · intro hx
        -- A call appends one entry.
        have hmem : ∀ y ∈ x :: rest, y ∈ s.appended := by
          intro y hy
          rw [← hrest]
          exact List.mem_append_right _ hy
        exact List.inj_on_of_nodup_map h.calls (hmem _ hc) (hmem x List.mem_cons_self) hx.symm

/-- The entries that the events on the stream tell of. -/
def AppState.announced (a : AppState) : List ChatMessage := a.events.filterMap SseEvent.entry

omit [DecidableEq τ] in
theorem FeedKept.announced (h : FeedKept s) : s.app.announced = s.sent.map Prod.snd := by
  have hitem : ∀ i : StreamItem τ, i.event.entry = i.pushed.map Prod.snd := by
    intro i
    cases i <;> rfl
  rw [AppState.announced, h.events, List.filterMap_map, FeedState.sent, List.map_filterMap]
  exact List.filterMap_congr (fun i _ => hitem i)

/-- **The stream agrees with the feed if and only if every call that sends has waited
longest.**  Over every interleaving of any number of calls, in every state; and in a run
of such calls the events tell of the first entries that were appended, in their order,
and of all of them when no call is left between its two steps. -/
theorem stream_in_order_iff (τ : Type) [DecidableEq τ] (w : Wallet) (es : List (FeedEvent τ)) :
    ((feedSystem τ).Always (fun s e => StreamFollows ((feedSystem τ).next s e))
        (FeedState.start w) es ↔
      (feedSystem τ).Always InTurn (FeedState.start w) es) ∧
    ((feedSystem τ).Always InTurn (FeedState.start w) es →
      let s := (feedSystem τ).run (FeedState.start w) es
      s.app.announced <+: s.appended.map Prod.snd ∧
      (s.waiting = [] → s.app.announced = s.appended.map Prod.snd)) := by
  have hstart : StreamFollows (FeedState.start w : FeedState τ) := List.prefix_refl []
  have hkeep : ∀ (s : FeedState τ) (e : FeedEvent τ), FeedKept s → (feedSystem τ).Enabled s e →
      FeedKept ((feedSystem τ).next s e) := fun _ _ h hen => feedKept_next h hen
  have hstep : ∀ (s : FeedState τ) (e : FeedEvent τ), FeedKept s → StreamFollows s →
      (feedSystem τ).Enabled s e → (StreamFollows ((feedSystem τ).next s e) ↔ InTurn s e) :=
    fun _ _ h hs hen => streamFollows_next_iff h hs hen
  refine ⟨EventSystem.always_next_iff hkeep hstep (feedKept_start w) hstart, ?_⟩
  intro hes s
  obtain ⟨hkept, hfollows⟩ :=
    EventSystem.run_of_next_iff hkeep hstep (feedKept_start w) hstart hes
  rw [hkept.announced]
  refine ⟨hfollows.map Prod.snd, ?_⟩
  intro hdone
  obtain ⟨rest, hrest⟩ := hfollows
  rw [waiting_of_follows hkept hrest] at hdone
  rw [← hrest, hdone, List.append_nil]

end Steps

/-! ## Two calls -/

/-- A call of the receive task appends a payment, one of the main task appends a text and
tells the pages, and then the first does. -/
def overtaken : List (FeedEvent ℕ) :=
  let thanks : ChatMessage :=
    { fromId := "bob (vous)", fingerprint := "", text := "merci", timestamp := 0,
      msgType := "message" }
  [.append 0 (fiveForBob.entry 0), .append 1 thanks, .send 1, .send 0]

/-- **A call may overtake another between append and send.** -/
theorem stream_overtaken :
    ¬ ∀ (w : Wallet) (es : List (FeedEvent ℕ)),
      (feedSystem ℕ).Always (fun _ _ => True) (FeedState.start w) es →
      let s := (feedSystem ℕ).run (FeedState.start w) es
      s.app.announced <+: s.appended.map Prod.snd := by
  intro h
  have hfollows := h { balance := 0, address := "1Bob" } overtaken (by decide +kernel)
  exact absurd hfollows (by decide +kernel)

end Zeta
