import Zeta.Feed

/-!
# The page

A page asks for the feed twice, without waiting for either answer: `loadMessages` fetches
the entries that the node holds, and `connectSSE` subscribes to the stream of its events,
and again whenever the connection is lost.  Nothing tells an entry of the one from an
entry of the other, and nothing is fetched again.

So an entry may come both ways, or neither.  Every entry is on the page exactly once if and
only if none comes when it is there already, and none is dropped from the stream when
the snapshot cannot bring it any more (`page_shows_once_iff`).
-/

namespace Zeta

/-- How far `loadMessages` has got. -/
inductive Snapshot (τ : Type) where
  | requested
  /-- `api_messages` has answered, and the answer is on its way. -/
  | answered (entries : List (τ × ChatMessage))
  | rendered

/-- A subscription to the events: what the channel holds for it, and what
`BroadcastStream` has taken from there and the page has not yet handled. -/
structure PageStream (τ : Type) where
  queue : List (StreamItem τ)
  wire : List (StreamItem τ)

/-- A node and a page.  Each entry of the page's feed carries the call of `push_message` that
it stems from; that is history. -/
structure PageState (τ : Type) where
  node : FeedState τ
  snapshot : Snapshot τ
  /-- `none` from an error until `connectSSE` runs again. -/
  stream : Option (PageStream τ)
  feed : List (τ × ChatMessage)

/-- What happens at a node and a page. -/
inductive PageEvent (τ : Type) where
  | node (e : FeedEvent τ)
  /-- `api_messages` answers. -/
  | answer
  /-- `loadMessages` appends the entries of the answer. -/
  | load
  /-- `api_events` subscribes. -/
  | connect
  /-- `BroadcastStream` takes the next event from the channel. -/
  | take
  /-- `onmessage` handles the next event. -/
  | receive
  /-- `onerror`: the connection is closed, with what is on its way. -/
  | disconnect

/-- The handler `onmessage`: the entry it appends, if it appends one. -/
def onmessage (ev : SseEvent) : Option ChatMessage :=
  if ev.eventType = "message" ∨ ev.eventType = "payment" then ev.entry else none

/-- What the page appends for an item of the stream. -/
def StreamItem.shown {τ : Type} (i : StreamItem τ) : List (τ × ChatMessage) :=
  match i, onmessage i.event with
  | .entry c _, some msg => [(c, msg)]
  | _, _ => []

namespace Snapshot
variable {τ : Type}

/-- The node has not answered yet. -/
def isRequested : Snapshot τ → Bool
  | .requested => true
  | _ => false

/-- The answer is on its way. -/
def isAnswered : Snapshot τ → Bool
  | .answered _ => true
  | _ => false

/-- The entries of an answer on its way. -/
def entries : Snapshot τ → List (τ × ChatMessage)
  | .answered entries => entries
  | _ => []

theorem entries_answered (l : List (τ × ChatMessage)) : (Snapshot.answered l).entries = l := rfl

/-- The snapshot may yet bring this entry, which the node holds. -/
def Holds (x : τ × ChatMessage) : Snapshot τ → Prop
  | .requested => True
  | .answered entries => x ∈ entries
  | .rendered => False

end Snapshot

/-- The channel offers an item to a subscription.  It holds 256; a receiver that lags loses
the oldest, and `filter_map` hides the error. -/
def PageStream.offer {τ : Type} (st : PageStream τ) : Option (StreamItem τ) → PageStream τ
  | some i => { st with queue := Window.push 256 st.queue i }
  | none => st

namespace PageState
variable {τ : Type}

/-- A page that is opened when the node has just started. -/
def start (w : Wallet) : PageState τ where
  node := FeedState.start w
  snapshot := .requested
  stream := none
  feed := []

/-- What the subscription may yet bring. -/
def items (s : PageState τ) : List (StreamItem τ) :=
  match s.stream with
  | some st => st.queue ++ st.wire
  | none => []

/-- The entries among it. -/
def unread (s : PageState τ) : List (τ × ChatMessage) := s.items.filterMap StreamItem.pushed

/-- The channel holds an event for the subscription. -/
def canTake (s : PageState τ) : Bool :=
  match s.stream with
  | some ⟨_ :: _, _⟩ => true
  | _ => false

/-- An event is on its way to the page. -/
def canReceive (s : PageState τ) : Bool :=
  match s.stream with
  | some ⟨_, _ :: _⟩ => true
  | _ => false

/-- `BroadcastStream`, on the next event. -/
def takeNext (s : PageState τ) : PageState τ :=
  match s.stream with
  | some ⟨i :: queue, wire⟩ => { s with stream := some ⟨queue, wire ++ [i]⟩ }
  | _ => s

/-- `onmessage`, on the next event. -/
def receiveNext (s : PageState τ) : PageState τ :=
  match s.stream with
  | some ⟨queue, i :: wire⟩ =>
    { s with stream := some ⟨queue, wire⟩, feed := s.feed ++ i.shown }
  | _ => s

end PageState

section System
variable (τ : Type) [DecidableEq τ]

/-- A node and a page as an event system. -/
def pageSystem : EventSystem (PageState τ) (PageEvent τ) where
  Enabled s
    | .node e => (feedSystem τ).Enabled s.node e
    | .answer => s.snapshot.isRequested = true
    | .load => s.snapshot.isAnswered = true
    | .connect => s.stream.isNone = true
    | .take => s.canTake = true
    | .receive => s.canReceive = true
    | .disconnect => s.stream.isSome = true
  next s
    | .node e =>
      { s with
        node := (feedSystem τ).next s.node e
        stream := s.stream.map (fun st => st.offer (s.node.item e)) }
    | .answer => { s with snapshot := .answered s.node.retained }
    | .load => { s with snapshot := .rendered, feed := s.feed ++ s.snapshot.entries }
    | .connect => { s with stream := some ⟨[], []⟩ }
    | .take => s.takeNext
    | .receive => s.receiveNext
    | .disconnect => { s with stream := none }

instance (s : PageState τ) : (e : PageEvent τ) → Decidable ((pageSystem τ).Enabled s e)
  | .node e => inferInstanceAs (Decidable ((feedSystem τ).Enabled s.node e))
  | .answer => inferInstanceAs (Decidable (s.snapshot.isRequested = true))
  | .load => inferInstanceAs (Decidable (s.snapshot.isAnswered = true))
  | .connect => inferInstanceAs (Decidable (s.stream.isNone = true))
  | .take => inferInstanceAs (Decidable (s.canTake = true))
  | .receive => inferInstanceAs (Decidable (s.canReceive = true))
  | .disconnect => inferInstanceAs (Decidable (s.stream.isSome = true))

end System

/-! ## What comes and what is lost -/

section Coming
variable {τ : Type} [DecidableEq τ]

/-- There is a way left for the entry to reach the page. -/
def PageState.Coming (s : PageState τ) (x : τ × ChatMessage) : Prop :=
  s.snapshot.Holds x ∨ x ∈ s.node.waiting ∨ x ∈ s.unread

/-- **The page shows every entry that the node still holds exactly once**: never twice, and
not yet only if it is still coming. -/
def OnceOnPage (s : PageState τ) : Prop :=
  ∀ x ∈ s.node.retained, s.feed.count x ≤ 1 ∧ (x ∈ s.feed ∨ s.Coming x)

/-- The entries that an event makes the page append. -/
def PageState.appends (s : PageState τ) : PageEvent τ → List (τ × ChatMessage)
  | .load => s.snapshot.entries
  | .receive =>
    match s.stream with
    | some ⟨_, i :: _⟩ => i.shown
    | _ => []
  | _ => []

/-- The items that the page handles at an event. -/
def PageState.handled (s : PageState τ) : PageEvent τ → List (StreamItem τ)
  | .receive =>
    match s.stream with
    | some ⟨_, i :: _⟩ => [i]
    | _ => []
  | _ => []

/-- The items that an event sends to the pages. -/
def PageState.sends (s : PageState τ) : PageEvent τ → List (StreamItem τ)
  | .node e => (s.node.item e).toList
  | _ => []

/-- The items that an event takes from the stream, or keeps from it. -/
def PageState.drops (s : PageState τ) : PageEvent τ → List (StreamItem τ)
  | .node e =>
    match s.stream, s.node.item e with
    -- Nobody has subscribed.
    | none, some i => [i]
    -- The channel is full.
    | some st, some _ => if st.queue.length ≥ 256 then st.queue.take 1 else []
    | _, none => []
  | .disconnect => s.items
  | _ => []

/-- **One way for every entry**: of those that the node still holds, what the page appends is
not there yet, and what the stream drops is there, or the snapshot may yet bring it. -/
structure OneWay (s : PageState τ) (e : PageEvent τ) : Prop where
  new : ∀ x ∈ s.appends e, x ∈ s.node.retained → x ∉ s.feed
  kept : ∀ i ∈ s.drops e, ∀ x ∈ i.pushed, x ∈ s.node.retained →
    x ∈ s.feed ∨ s.snapshot.Holds x

/-- **The invariant**: what is on the page, or in an answer, was appended; what is on the
stream was sent, each entry once. -/
structure PageKept (s : PageState τ) : Prop where
  node : FeedKept s.node
  feed : ∀ x ∈ s.feed, x ∈ s.node.appended
  snapshot : ∀ x ∈ s.snapshot.entries, x ∈ s.node.appended
  snapshot_nodup : s.snapshot.entries.Nodup
  unread : ∀ x ∈ s.unread, x ∈ s.node.sent
  unread_nodup : s.unread.Nodup

end Coming

variable {τ : Type} {s : PageState τ} {x : τ × ChatMessage}

/-- The page appends every entry that the stream tells of, and nothing for the wallet. -/
theorem StreamItem.shown_eq (i : StreamItem τ) : i.shown = i.pushed.toList := by
  cases i with
  | wallet w => rfl
  | entry c msg =>
    have hmsg : onmessage (StreamItem.entry c msg).event = some msg := by
      have htype : (StreamItem.entry c msg).event.eventType = "message" ∨
          (StreamItem.entry c msg).event.eventType = "payment" := by
        by_cases hmessage : msg.msgType = "message"
        · exact Or.inl (if_pos hmessage)
        · exact Or.inr (if_neg hmessage)
      rw [onmessage, if_pos htype]
      rfl
    simp only [StreamItem.shown, hmsg, StreamItem.pushed, Option.toList_some]

/-! ## One step -/

theorem mem_pushed {l : List (StreamItem τ)} :
    x ∈ l.filterMap StreamItem.pushed ↔ ∃ i ∈ l, x ∈ i.pushed := by
  simp only [List.mem_filterMap, Option.mem_def]

theorem stream_of_canTake (h : s.canTake = true) :
    ∃ i queue wire, s.stream = some ⟨i :: queue, wire⟩ := by
  unfold PageState.canTake at h
  split at h
  · exact ⟨_, _, _, ‹_›⟩
  · cases h

theorem stream_of_canReceive (h : s.canReceive = true) :
    ∃ queue i wire, s.stream = some ⟨queue, i :: wire⟩ := by
  unfold PageState.canReceive at h
  split at h
  · exact ⟨_, _, _, ‹_›⟩
  · cases h

theorem takeNext_of_stream {i : StreamItem τ} {queue wire : List (StreamItem τ)}
    (h : s.stream = some ⟨i :: queue, wire⟩) :
    s.takeNext = { s with stream := some ⟨queue, wire ++ [i]⟩ } := by
  simp only [PageState.takeNext, h]

theorem receiveNext_of_stream {i : StreamItem τ} {queue wire : List (StreamItem τ)}
    (h : s.stream = some ⟨queue, i :: wire⟩) :
    s.receiveNext =
      { s with stream := some ⟨queue, wire⟩, feed := s.feed ++ i.pushed.toList } := by
  simp only [PageState.receiveNext, h, StreamItem.shown_eq]

section Steps
variable [DecidableEq τ] {e : PageEvent τ}

theorem next_take {i : StreamItem τ} {queue wire : List (StreamItem τ)}
    (h : s.stream = some ⟨i :: queue, wire⟩) :
    (pageSystem τ).next s .take = { s with stream := some ⟨queue, wire ++ [i]⟩ } :=
  takeNext_of_stream h

theorem next_receive {i : StreamItem τ} {queue wire : List (StreamItem τ)}
    (h : s.stream = some ⟨queue, i :: wire⟩) :
    (pageSystem τ).next s .receive =
      { s with stream := some ⟨queue, wire⟩, feed := s.feed ++ i.pushed.toList } :=
  receiveNext_of_stream h

omit [DecidableEq τ] in
theorem appends_receive {i : StreamItem τ} {queue wire : List (StreamItem τ)}
    (h : s.stream = some ⟨queue, i :: wire⟩) : s.appends .receive = i.pushed.toList := by
  simp only [PageState.appends, h, StreamItem.shown_eq]

omit [DecidableEq τ] in
theorem handled_receive {i : StreamItem τ} {queue wire : List (StreamItem τ)}
    (h : s.stream = some ⟨queue, i :: wire⟩) : s.handled .receive = [i] := by
  simp only [PageState.handled, h]

/-- The page's feed grows by what is appended. -/
theorem feed_next (hen : (pageSystem τ).Enabled s e) :
    ((pageSystem τ).next s e).feed = s.feed ++ s.appends e := by
  cases e with
  | node e | answer | connect | disconnect => exact (List.append_nil _).symm
  | load => rfl
  | take =>
    obtain ⟨i, queue, wire, hst⟩ := stream_of_canTake hen
    rw [next_take hst]
    exact (List.append_nil _).symm
  | receive =>
    obtain ⟨queue, i, wire, hst⟩ := stream_of_canReceive hen
    rw [next_receive hst, appends_receive hst]

/-- What happens at the page leaves the node alone. -/
theorem node_step (hen : (pageSystem τ).Enabled s e) :
    (∃ f, e = .node f) ∨ (((pageSystem τ).next s e).node = s.node ∧ s.sends e = []) := by
  cases e with
  | node f => exact Or.inl ⟨f, rfl⟩
  | answer | load | connect | disconnect => exact Or.inr ⟨rfl, rfl⟩
  | take =>
    obtain ⟨i, queue, wire, hst⟩ := stream_of_canTake hen
    rw [next_take hst]
    exact Or.inr ⟨rfl, rfl⟩
  | receive =>
    obtain ⟨queue, i, wire, hst⟩ := stream_of_canReceive hen
    rw [next_receive hst]
    exact Or.inr ⟨rfl, rfl⟩

/-- The snapshot is taken, and then rendered. -/
theorem snapshot_next (hen : (pageSystem τ).Enabled s e) :
    ((pageSystem τ).next s e).snapshot = s.snapshot ∨
      (e = .answer ∧ ((pageSystem τ).next s e).snapshot = .answered s.node.retained) ∨
      (e = .load ∧ ((pageSystem τ).next s e).snapshot = .rendered) := by
  cases e with
  | node e | connect | disconnect => exact Or.inl rfl
  | answer => exact Or.inr (Or.inl ⟨rfl, rfl⟩)
  | load => exact Or.inr (Or.inr ⟨rfl, rfl⟩)
  | take =>
    obtain ⟨i, queue, wire, hst⟩ := stream_of_canTake hen
    rw [next_take hst]
    exact Or.inl rfl
  | receive =>
    obtain ⟨queue, i, wire, hst⟩ := stream_of_canReceive hen
    rw [next_receive hst]
    exact Or.inl rfl

/-! ### The stream -/

omit [DecidableEq τ] in
theorem items_of_stream {st : PageStream τ} (h : s.stream = some st) :
    s.items = st.queue ++ st.wire := by
  simp only [PageState.items, h]

omit [DecidableEq τ] in
theorem items_of_none (h : s.stream = none) : s.items = [] := by
  simp only [PageState.items, h]

/-- What the node sends is offered to the subscription. -/
theorem items_next_node {st : PageStream τ} (hst : s.stream = some st) {f : FeedEvent τ}
    {i : StreamItem τ} (hi : s.node.item f = some i) :
    ((pageSystem τ).next s (.node f)).items = Window.push 256 st.queue i ++ st.wire := by
  simp [pageSystem, PageState.items, hst, hi, PageStream.offer]

/-- A step that sends nothing leaves the stream as it is. -/
theorem items_next_quiet {f : FeedEvent τ} (hi : s.node.item f = none) :
    ((pageSystem τ).next s (.node f)).items = s.items := by
  cases hst : s.stream <;> simp [pageSystem, PageState.items, hst, hi, PageStream.offer]

omit [DecidableEq τ] in
/-- What the channel takes in and what it pushes out. -/
theorem offer_perm (queue wire : List (StreamItem τ)) (i : StreamItem τ) :
    (Window.push 256 queue i ++ wire ++ if queue.length ≥ 256 then queue.take 1 else []).Perm
      (queue ++ wire ++ [i]) := by
  have hlast : (queue ++ [i] ++ wire).Perm (queue ++ wire ++ [i]) := by
    rw [List.append_assoc, List.append_assoc]
    exact List.perm_append_comm.append_left queue
  unfold Window.push
  split
  · cases queue with
    | nil => simpa using hlast
    | cons k queue =>
      -- The front goes from one end of the list to the other.
      refine List.Perm.trans ?_ hlast
      exact List.perm_append_singleton k (queue ++ [i] ++ wire)
  · rw [List.append_nil]
    exact hlast

theorem items_next_node_perm (s : PageState τ) (f : FeedEvent τ) :
    (((pageSystem τ).next s (.node f)).items ++ s.drops (.node f)).Perm
      (s.items ++ s.sends (.node f)) := by
  cases hi : s.node.item f with
  | none =>
    have hdrops : s.drops (.node f) = [] := by simp [PageState.drops, hi]
    have hsends : s.sends (.node f) = [] := by simp [PageState.sends, hi]
    rw [items_next_quiet hi, hdrops, hsends]
  | some i =>
    have hsends : s.sends (.node f) = [i] := by rw [PageState.sends, hi, Option.toList_some]
    rw [hsends]
    cases hst : s.stream with
    | none =>
      have hitems : ((pageSystem τ).next s (.node f)).items = [] := by
        simp [pageSystem, PageState.items, hst]
      have hdrops : s.drops (.node f) = [i] := by simp only [PageState.drops, hst, hi]
      rw [hitems, hdrops, items_of_none hst]
    | some st =>
      have hdrops : s.drops (.node f) =
          if st.queue.length ≥ 256 then st.queue.take 1 else [] := by
        simp only [PageState.drops, hst, hi]
      rw [items_next_node hst hi, items_of_stream hst, hdrops]
      exact offer_perm st.queue st.wire i

/-- **The stream keeps count**: what is on it, what it drops and what the page handles is what
was on it and what is sent. -/
theorem items_next_perm (hen : (pageSystem τ).Enabled s e) :
    (((pageSystem τ).next s e).items ++ (s.drops e ++ s.handled e)).Perm
      (s.items ++ s.sends e) := by
  cases e with
  | answer | load | disconnect => exact List.Perm.refl _
  | connect =>
    have hnone : s.stream = none := Option.isNone_iff_eq_none.mp hen
    rw [items_of_none hnone]
    exact List.Perm.refl _
  | take =>
    obtain ⟨i, queue, wire, hst⟩ := stream_of_canTake hen
    rw [next_take hst, items_of_stream hst]
    show (queue ++ (wire ++ [i]) ++ []).Perm ((i :: queue ++ wire) ++ [])
    rw [List.append_nil, List.append_nil, ← List.append_assoc]
    exact List.perm_append_singleton i (queue ++ wire)
  | receive =>
    obtain ⟨queue, i, wire, hst⟩ := stream_of_canReceive hen
    rw [next_receive hst, items_of_stream hst, handled_receive hst]
    show (queue ++ wire ++ [i]).Perm (queue ++ i :: wire ++ [])
    rw [List.append_nil]
    exact (List.perm_append_singleton i (queue ++ wire)).trans List.perm_middle.symm
  | node f =>
    show (((pageSystem τ).next s (.node f)).items ++ (s.drops (.node f) ++ [])).Perm _
    rw [List.append_nil]
    exact items_next_node_perm s f

theorem unread_next_perm (hen : (pageSystem τ).Enabled s e) :
    (((pageSystem τ).next s e).unread ++ ((s.drops e).filterMap StreamItem.pushed ++
      (s.handled e).filterMap StreamItem.pushed)).Perm
      (s.unread ++ (s.sends e).filterMap StreamItem.pushed) := by
  have hperm := (items_next_perm hen).filterMap StreamItem.pushed
  rwa [List.filterMap_append, List.filterMap_append, List.filterMap_append] at hperm

/-- The page appends what it handles. -/
theorem mem_appends_of_handled (hen : (pageSystem τ).Enabled s e)
    (hx : x ∈ (s.handled e).filterMap StreamItem.pushed) : x ∈ s.appends e := by
  cases e with
  | node e | answer | load | connect | take | disconnect => cases hx
  | receive =>
    obtain ⟨queue, i, wire, hst⟩ := stream_of_canReceive hen
    rw [handled_receive hst] at hx
    obtain ⟨j, hj, hpushed⟩ := mem_pushed.mp hx
    rw [appends_receive hst, ← List.mem_singleton.mp hj]
    exact Option.mem_toList.mpr hpushed

/-- What is on the stream, or sent, is on the stream afterwards, or is appended to the page, or
dropped. -/
theorem mem_unread_next (hen : (pageSystem τ).Enabled s e)
    (hx : x ∈ s.unread ∨ x ∈ (s.sends e).filterMap StreamItem.pushed) :
    x ∈ ((pageSystem τ).next s e).unread ∨ x ∈ s.appends e ∨ ∃ i ∈ s.drops e, x ∈ i.pushed := by
  have hall := (unread_next_perm hen).mem_iff.mpr (List.mem_append.mpr hx)
  rcases List.mem_append.mp hall with hstay | hgone
  · exact Or.inl hstay
  · rcases List.mem_append.mp hgone with hdropped | hhandled
    · exact Or.inr (Or.inr (mem_pushed.mp hdropped))
    · exact Or.inr (Or.inl (mem_appends_of_handled hen hhandled))

/-! ### The invariant -/

omit [DecidableEq τ] in
theorem mem_appended_of_retained {s : FeedState τ} (h : x ∈ s.retained) : x ∈ s.appended :=
  List.mem_of_mem_drop h

omit [DecidableEq τ] in
theorem pageKept_start (w : Wallet) : PageKept (PageState.start w : PageState τ) where
  node := feedKept_start w
  feed := fun _ hx => absurd hx List.not_mem_nil
  snapshot := fun _ hx => absurd hx List.not_mem_nil
  snapshot_nodup := List.nodup_nil
  unread := fun _ hx => absurd hx List.not_mem_nil
  unread_nodup := List.nodup_nil

theorem feedKept_node_next (h : PageKept s) (hen : (pageSystem τ).Enabled s e) :
    FeedKept ((pageSystem τ).next s e).node := by
  rcases node_step hen with ⟨f, rfl⟩ | ⟨hnode, -⟩
  · exact feedKept_next h.node hen
  · rw [hnode]
    exact h.node

/-- What is appended at the node stays so. -/
theorem mem_appended_next (hen : (pageSystem τ).Enabled s e) (hx : x ∈ s.node.appended) :
    x ∈ ((pageSystem τ).next s e).node.appended := by
  rcases node_step hen with ⟨f, rfl⟩ | ⟨hnode, -⟩
  · show x ∈ ((feedSystem τ).next s.node f).appended
    rw [appended_next]
    exact List.mem_append_left _ hx
  · rwa [hnode]

/-- The node has sent what it sends, and what it sent before. -/
theorem sent_node_next (h : PageKept s) (hen : (pageSystem τ).Enabled s e) :
    ((pageSystem τ).next s e).node.sent =
      s.node.sent ++ (s.sends e).filterMap StreamItem.pushed := by
  rcases node_step hen with ⟨f, rfl⟩ | ⟨hnode, hsends⟩
  · exact sent_next h.node hen
  · rw [hnode, hsends]
    exact (List.append_nil _).symm

/-- What the node sends now, it has not sent before. -/
theorem not_mem_sent_of_sends (hx : x ∈ (s.sends e).filterMap StreamItem.pushed) :
    x ∉ s.node.sent := by
  obtain ⟨i, hi, hpushed⟩ := List.mem_filterMap.mp hx
  cases e with
  | node f => exact (mem_waiting.mp (mem_waiting_of_item (Option.mem_toList.mp hi) hpushed)).2
  | answer | load | connect | take | receive | disconnect => cases hi

/-- The page appends what its snapshot or its stream brings. -/
theorem mem_appended_of_appends (h : PageKept s)
    (hen : (pageSystem τ).Enabled s e) (hx : x ∈ s.appends e) : x ∈ s.node.appended := by
  cases e with
  | node e | answer | connect | take | disconnect => cases hx
  | load => exact h.snapshot x hx
  | receive =>
    obtain ⟨queue, i, wire, hst⟩ := stream_of_canReceive hen
    rw [appends_receive hst] at hx
    have hitem : i ∈ s.items := by
      rw [items_of_stream hst]
      exact List.mem_append_right _ List.mem_cons_self
    exact h.node.sent x (h.unread x (mem_pushed.mpr ⟨i, hitem, Option.mem_toList.mp hx⟩))

/-- No entry is twice on the stream, or there and dropped. -/
theorem nodup_unread_next (h : PageKept s) (hen : (pageSystem τ).Enabled s e) :
    (((pageSystem τ).next s e).unread ++ (s.drops e).filterMap StreamItem.pushed).Nodup := by
  have hsends : ((s.sends e).filterMap StreamItem.pushed).Nodup := by
    cases e with
    | answer | load | connect | take | receive | disconnect => exact List.nodup_nil
    | node f =>
      show ((s.node.item f).toList.filterMap StreamItem.pushed).Nodup
      cases s.node.item f with
      | none => exact List.nodup_nil
      | some i =>
        cases i with
        | entry c msg => exact List.nodup_singleton _
        | wallet w => exact List.nodup_nil
  have hall : (s.unread ++ (s.sends e).filterMap StreamItem.pushed).Nodup :=
    List.Nodup.append h.unread_nodup hsends
      (fun x hold hnew => not_mem_sent_of_sends hnew (h.unread x hold))
  have hnext := (unread_next_perm hen).nodup_iff.mpr hall
  rw [← List.append_assoc] at hnext
  exact (List.nodup_append.mp hnext).1

/-- What comes on the stream, or is dropped from it, has been sent. -/
theorem mem_sent_of_unread_next (h : PageKept s) (hen : (pageSystem τ).Enabled s e)
    (hx : x ∈ ((pageSystem τ).next s e).unread ++ (s.drops e).filterMap StreamItem.pushed) :
    x ∈ ((pageSystem τ).next s e).node.sent := by
  have hall : x ∈ s.unread ++ (s.sends e).filterMap StreamItem.pushed := by
    rw [← (unread_next_perm hen).mem_iff, ← List.append_assoc]
    exact List.mem_append_left _ hx
  rw [sent_node_next h hen, List.mem_append]
  exact (List.mem_append.mp hall).imp_left (h.unread x)

/-- **The invariant is preserved.** -/
theorem pageKept_next (h : PageKept s) (hen : (pageSystem τ).Enabled s e) :
    PageKept ((pageSystem τ).next s e) where
  node := feedKept_node_next h hen
  feed := by
    intro x hx
    rw [feed_next hen] at hx
    apply mem_appended_next hen
    rcases List.mem_append.mp hx with hold | hnew
    · exact h.feed x hold
    · exact mem_appended_of_appends h hen hnew
  snapshot := by
    intro x hx
    apply mem_appended_next hen
    rcases snapshot_next hen with hsame | ⟨-, hans⟩ | ⟨-, hload⟩
    · rw [hsame] at hx
      exact h.snapshot x hx
    · rw [hans, Snapshot.entries_answered] at hx
      exact mem_appended_of_retained hx
    · rw [hload] at hx
      cases hx
  snapshot_nodup := by
    rcases snapshot_next hen with hsame | ⟨-, hans⟩ | ⟨-, hload⟩
    · rw [hsame]
      exact h.snapshot_nodup
    · rw [hans, Snapshot.entries_answered]
      exact h.node.nodup.sublist (List.drop_sublist _ _)
    · rw [hload]
      exact List.nodup_nil
  unread := fun x hx => mem_sent_of_unread_next h hen (List.mem_append_left _ hx)
  unread_nodup := (List.nodup_append.mp (nodup_unread_next h hen)).1

/-! ### What comes -/

theorem nodup_appends (h : PageKept s) (hen : (pageSystem τ).Enabled s e) :
    (s.appends e).Nodup := by
  cases e with
  | node e | answer | connect | take | disconnect => exact List.nodup_nil
  | load => exact h.snapshot_nodup
  | receive =>
    obtain ⟨queue, i, wire, hst⟩ := stream_of_canReceive hen
    rw [appends_receive hst]
    cases i with
    | entry c msg => exact List.nodup_singleton _
    | wallet w => exact List.nodup_nil

/-- What the snapshot may yet bring, it may go on to bring, or it is rendered. -/
theorem holds_next (hen : (pageSystem τ).Enabled s e) (hx : x ∈ s.node.retained)
    (hsnap : s.snapshot.Holds x) :
    ((pageSystem τ).next s e).snapshot.Holds x ∨ x ∈ s.appends e := by
  rcases snapshot_next hen with hsame | ⟨-, hans⟩ | ⟨rfl, -⟩
  · rw [hsame]
    exact Or.inl hsnap
  · rw [hans]
    exact Or.inl hx
  · -- The answer that is rendered held it.
    have hanswered : s.snapshot.isAnswered = true := hen
    cases hs : s.snapshot with
    | requested | rendered => simp [hs, Snapshot.isAnswered] at hanswered
    | answered entries =>
      rw [hs] at hsnap
      refine Or.inr ?_
      simpa [PageState.appends, hs, Snapshot.entries, Snapshot.Holds] using hsnap

/-- What waits at the node goes on waiting, or is sent. -/
theorem waiting_next (h : PageKept s) (hen : (pageSystem τ).Enabled s e)
    (hwait : x ∈ s.node.waiting) :
    x ∈ ((pageSystem τ).next s e).node.waiting ∨
      x ∈ (s.sends e).filterMap StreamItem.pushed := by
  rcases node_step hen with ⟨f, rfl⟩ | ⟨hnode, -⟩
  · rcases mem_waiting_next h.node hen hwait with hstill | ⟨i, hi, hxi⟩
    · exact Or.inl hstill
    · exact Or.inr (mem_pushed.mpr ⟨i, Option.mem_toList.mpr hi, hxi⟩)
  · rw [hnode]
    exact Or.inl hwait

/-- What is coming goes on coming, or is appended to the page, or dropped. -/
theorem coming_next (h : PageKept s) (hen : (pageSystem τ).Enabled s e)
    (hx : x ∈ s.node.retained) (hcoming : s.Coming x) :
    ((pageSystem τ).next s e).Coming x ∨ x ∈ s.appends e ∨ ∃ i ∈ s.drops e, x ∈ i.pushed := by
  have hstream : x ∈ s.unread ∨ x ∈ (s.sends e).filterMap StreamItem.pushed →
      ((pageSystem τ).next s e).Coming x ∨ x ∈ s.appends e ∨ ∃ i ∈ s.drops e, x ∈ i.pushed :=
    fun hunread => (mem_unread_next hen hunread).imp_left (fun hstay => Or.inr (Or.inr hstay))
  rcases hcoming with hsnap | hwait | hunread
  · rcases holds_next hen hx hsnap with hstill | happended
    · exact Or.inl (Or.inl hstill)
    · exact Or.inr (Or.inl happended)
  · rcases waiting_next h hen hwait with hstill | hsent
    · exact Or.inl (Or.inr (Or.inl hstill))
    · exact hstream (Or.inr hsent)
  · exact hstream (Or.inl hunread)

/-- An entry that the node holds after a step it held before, or has yet to tell of. -/
theorem retained_next (h : PageKept s) (hen : (pageSystem τ).Enabled s e)
    (hx : x ∈ ((pageSystem τ).next s e).node.retained) :
    x ∈ s.node.retained ∨
      (x ∉ ((pageSystem τ).next s e).feed ∧ ((pageSystem τ).next s e).Coming x) := by
  rcases node_step hen with ⟨f, rfl⟩ | ⟨hnode, -⟩
  · rcases mem_retained_of_next hx with hold | hadded
    · exact Or.inl hold
    · cases f with
      | send c | wallet w => cases hadded
      | append c msg =>
        obtain rfl := List.mem_singleton.mp hadded
        have hnew : (c, msg) ∉ s.node.appended := fun hmem => hen (List.mem_map_of_mem hmem)
        refine Or.inr ⟨fun hfeed => hnew (h.feed _ hfeed), Or.inr (Or.inl ?_)⟩
        refine mem_waiting.mpr ⟨?_, fun hsent => hnew (h.node.sent _ hsent)⟩
        exact List.mem_append_right _ (List.mem_singleton_self _)
  · rw [hnode] at hx
    exact Or.inl hx

/-- What is appended to the page leaves the node's entries as they are. -/
theorem retained_next_of_appends (hen : (pageSystem τ).Enabled s e) (hx : x ∈ s.appends e) :
    ((pageSystem τ).next s e).node.retained = s.node.retained := by
  rcases node_step hen with ⟨f, rfl⟩ | ⟨hnode, -⟩
  · cases hx
  · rw [hnode]

/-! ### What is dropped -/

/-- What drops an item leaves the node's entries and the snapshot as they are, and appends
nothing. -/
theorem next_of_drops (hen : (pageSystem τ).Enabled s e) {i : StreamItem τ}
    (hi : i ∈ s.drops e) :
    ((pageSystem τ).next s e).node.retained = s.node.retained ∧
      ((pageSystem τ).next s e).snapshot = s.snapshot ∧ s.appends e = [] := by
  cases e with
  | answer | load | connect | take | receive => cases hi
  | disconnect => exact ⟨rfl, rfl, rfl⟩
  | node f =>
    refine ⟨?_, rfl, rfl⟩
    cases hitem : s.node.item f with
    | some j => exact retained_next_of_item hitem
    | none => simp [PageState.drops, hitem] at hi

/-- **What is dropped does not come on the stream any more**: every call sends once. -/
theorem not_coming_of_drops (h : PageKept s) (hen : (pageSystem τ).Enabled s e)
    {i : StreamItem τ} (hi : i ∈ s.drops e) (hx : x ∈ i.pushed) :
    x ∉ ((pageSystem τ).next s e).node.waiting ∧ x ∉ ((pageSystem τ).next s e).unread := by
  have hdropped : x ∈ (s.drops e).filterMap StreamItem.pushed := List.mem_filterMap.mpr ⟨i, hi, hx⟩
  constructor
  · intro hwait
    exact (mem_waiting.mp hwait).2
      (mem_sent_of_unread_next h hen (List.mem_append_right _ hdropped))
  · intro hunread
    exact List.disjoint_of_nodup_append (nodup_unread_next h hen) hunread hdropped

/-- If the page is right after a step, the step kept to one way for every entry. -/
theorem oneWay_of_next (h : PageKept s) (hen : (pageSystem τ).Enabled s e)
    (hnext : OnceOnPage ((pageSystem τ).next s e)) : OneWay s e where
  new := by
    intro x hx hret hfeed
    rw [← retained_next_of_appends hen hx] at hret
    have htwice := (hnext x hret).1
    rw [feed_next hen, List.count_append] at htwice
    have hold : 0 < s.feed.count x := List.count_pos_iff.mpr hfeed
    have hnew : 0 < (s.appends e).count x := List.count_pos_iff.mpr hx
    omega
  kept := by
    intro i hi x hx hret
    obtain ⟨hnode, hsnap, hnone⟩ := next_of_drops hen hi
    rw [← hnode] at hret
    rcases (hnext x hret).2 with hfeed | hholds | hwait | hunread
    · rw [feed_next hen, hnone, List.append_nil] at hfeed
      exact Or.inl hfeed
    · rw [hsnap] at hholds
      exact Or.inr hholds
    · exact absurd hwait (not_coming_of_drops h hen hi hx).1
    · exact absurd hunread (not_coming_of_drops h hen hi hx).2

/-- A step that keeps to one way for an entry shows it once, or leaves a way to it. -/
theorem once_next (h : PageKept s) (hs : OnceOnPage s) (hen : (pageSystem τ).Enabled s e)
    (hway : OneWay s e) (hret : x ∈ s.node.retained) :
    ((pageSystem τ).next s e).feed.count x ≤ 1 ∧
      (x ∈ ((pageSystem τ).next s e).feed ∨ ((pageSystem τ).next s e).Coming x) := by
  obtain ⟨hcount, hthere⟩ := hs x hret
  have happends : (s.appends e).count x ≤ 1 :=
    List.nodup_iff_count_le_one.mp (nodup_appends h hen) x
  rw [feed_next hen, List.count_append]
  by_cases hnew : x ∈ s.appends e
  · have hzero : s.feed.count x = 0 := List.count_eq_zero.mpr (hway.new x hnew hret)
    exact ⟨by omega, Or.inl (List.mem_append_right _ hnew)⟩
  · have hzero : (s.appends e).count x = 0 := List.count_eq_zero.mpr hnew
    refine ⟨by omega, ?_⟩
    rcases hthere with hfeed | hcoming
    · exact Or.inl (List.mem_append_left _ hfeed)
    · rcases coming_next h hen hret hcoming with hstill | happended | ⟨i, hi, hxi⟩
      · exact Or.inr hstill
      · exact absurd happended hnew
      · rcases hway.kept i hi x hxi hret with hfeed | hholds
        · exact Or.inl (List.mem_append_left _ hfeed)
        · refine Or.inr (Or.inl ?_)
          rw [(next_of_drops hen hi).2.1]
          exact hholds

/-- **One step.** -/
theorem onceOnPage_next_iff (h : PageKept s) (hs : OnceOnPage s)
    (hen : (pageSystem τ).Enabled s e) :
    OnceOnPage ((pageSystem τ).next s e) ↔ OneWay s e := by
  refine ⟨oneWay_of_next h hen, ?_⟩
  intro hway x hx
  rcases retained_next h hen hx with hret | ⟨hfeed, hcoming⟩
  · exact once_next h hs hen hway hret
  · exact ⟨(List.count_eq_zero.mpr hfeed).trans_le (Nat.zero_le 1), Or.inr hcoming⟩

/-! ## Runs -/

/-- Everything has arrived: the answer is rendered, no call is left between its two steps, and
the page is connected and has handled all events. -/
structure AllArrived (s : PageState τ) : Prop where
  snapshot : s.snapshot = .rendered
  waiting : s.node.waiting = []
  stream : s.stream = some ⟨[], []⟩

theorem count_of_allArrived (h : OnceOnPage s) (hall : AllArrived s)
    (hx : x ∈ s.node.retained) : s.feed.count x = 1 := by
  obtain ⟨hcount, hthere⟩ := h x hx
  have hfeed : x ∈ s.feed := by
    rcases hthere with hfeed | hsnap | hwait | hunread
    · exact hfeed
    · rw [hall.snapshot] at hsnap
      exact hsnap.elim
    · rw [hall.waiting] at hwait
      cases hwait
    · rw [PageState.unread, items_of_stream hall.stream] at hunread
      cases hunread
  have hpos : 0 < s.feed.count x := List.count_pos_iff.mpr hfeed
  omega

/-- **A page shows every entry exactly once if and only if every entry has one way.**  Over
every interleaving of any number of calls of `push_message` with the page's two requests,
lost connections and new ones: in every state no entry that the node still holds is on the
page twice, or missing there and not coming, if and only if at every step of the run what
the page appends is not there yet, and what the stream drops is there or the snapshot may
yet bring it.  In such a run the node's `messages` are each on the page once when all has
arrived. -/
theorem page_shows_once_iff (τ : Type) [DecidableEq τ] (w : Wallet) (es : List (PageEvent τ)) :
    ((pageSystem τ).Always (fun s e => OnceOnPage ((pageSystem τ).next s e))
        (PageState.start w) es ↔
      (pageSystem τ).Always OneWay (PageState.start w) es) ∧
    ((pageSystem τ).Always OneWay (PageState.start w) es →
      let s := (pageSystem τ).run (PageState.start w) es
      s.node.app.messages = s.node.retained.map Prod.snd ∧
      (AllArrived s → ∀ x ∈ s.node.retained, s.feed.count x = 1)) := by
  have hstart : OnceOnPage (PageState.start w : PageState τ) := by
    intro x hx
    exact absurd (mem_appended_of_retained hx) List.not_mem_nil
  have hkeep : ∀ (s : PageState τ) (e : PageEvent τ), PageKept s → (pageSystem τ).Enabled s e →
      PageKept ((pageSystem τ).next s e) := fun _ _ h hen => pageKept_next h hen
  have hstep : ∀ (s : PageState τ) (e : PageEvent τ), PageKept s → OnceOnPage s →
      (pageSystem τ).Enabled s e → (OnceOnPage ((pageSystem τ).next s e) ↔ OneWay s e) :=
    fun _ _ h hs hen => onceOnPage_next_iff h hs hen
  refine ⟨EventSystem.always_next_iff hkeep hstep (pageKept_start w) hstart, ?_⟩
  intro hes s
  obtain ⟨hkept, honce⟩ :=
    EventSystem.run_of_next_iff hkeep hstep (pageKept_start w) hstart hes
  exact ⟨hkept.node.messages, fun hall x hx => count_of_allArrived honce hall hx⟩

end Steps

/-! ## Two ways, and none -/

/-- A text of alice's. -/
def hello : ChatMessage :=
  { fromId := "alice", fingerprint := "", text := "hello", timestamp := 0, msgType := "message" }

/-- The page has its snapshot, the text is pushed, and then the page subscribes. -/
def betweenRequests : List (PageEvent ℕ) :=
  [.answer, .load, .node (.append 0 hello), .node (.send 0), .connect]

/-- The page subscribes, the text is pushed, and then the node answers with its entries. -/
def duringRequests : List (PageEvent ℕ) :=
  [.connect, .node (.append 0 hello), .node (.send 0), .answer, .load, .take, .receive]

/-- **A text may be missed**: it is in neither the snapshot nor the stream. -/
theorem text_missed :
    ¬ ∀ (w : Wallet) (es : List (PageEvent ℕ)),
      (pageSystem ℕ).Always (fun _ _ => True) (PageState.start w) es →
      let s := (pageSystem ℕ).run (PageState.start w) es
      AllArrived s → ∀ x ∈ s.node.retained, s.feed.count x = 1 := by
  intro h
  have hall : AllArrived ((pageSystem ℕ).run (PageState.start ⟨0, "1Bob"⟩) betweenRequests) :=
    ⟨rfl, by decide +kernel, rfl⟩
  have honce := h ⟨0, "1Bob"⟩ betweenRequests (by decide +kernel) hall (0, hello)
    (by decide +kernel)
  exact absurd honce (by decide +kernel)

/-- Or it is in both, and on the page twice. -/
example :
    let s := (pageSystem ℕ).run (PageState.start ⟨0, "1Bob"⟩) duringRequests
    s.feed.count (0, hello) = 2 := by
  decide +kernel

end Zeta
