import Zeta.RwLock
import Zeta.Feed

/-!
# What the feed retains

`AppState.messages` is under a readers-writer lock.  `push_message` takes it to write, pushes
its entry and then drains what is beyond 500; `api_messages` takes it to read.  Between
the two steps of a section there may be 501 entries, but nobody sees them: whatever the
tasks do and in whatever order, a reader finds the last 500 of the entries pushed, in the
order in which the lock was taken (`feed_retained`).
-/

namespace Zeta

/-- The section of `push_message`: `msgs.push(msg)`, then `msgs.drain(0..overflow)`. -/
def pushSection (msg : ChatMessage) : List (List ChatMessage → List ChatMessage) :=
  [fun msgs => msgs ++ [msg],
    fun msgs => if msgs.length > 500 then msgs.drop (msgs.length - 500) else msgs]

/-- `AppState.messages`, with the tasks that push to it and read it. -/
abbrev MessagesLock (τ : Type) := RwLock τ ChatMessage (List ChatMessage)

/-- The lock on `messages` as an event system. -/
abbrev messagesSystem (τ : Type) [DecidableEq τ] :
    EventSystem (MessagesLock τ) (RwEvent τ ChatMessage) :=
  RwLock.system pushSection

/-- The feed when the node starts. -/
def messagesStart (τ : Type) : MessagesLock τ := RwLock.start []

/-- **The feed is the last 500 entries pushed**, or all of them while there are fewer. -/
structure HoldsWindow {τ : Type} (s : MessagesLock τ) : Prop where
  data : s.data = Window.lastN 500 s.log
  length : s.data.length = min s.log.length 500

/-- Who looks at the feed sees that. -/
def SeesWindow {τ : Type} (s : MessagesLock τ) : RwEvent τ ChatMessage → Prop
  | .look _ => HoldsWindow s
  | _ => True

/-- A whole section is what `push_message` does to the feed where it is one step. -/
theorem effect_pushSection (msg : ChatMessage) (msgs : List ChatMessage) :
    RwLock.effect (pushSection msg) msgs = AppState.retain msgs msg := rfl

/-- Sections run one after the other leave the last 500 entries. -/
theorem outcome_pushSection (log : List ChatMessage) :
    RwLock.outcome pushSection [] log = Window.lastN 500 log := by
  induction log using List.reverseRecOn with
  | nil => exact (Window.lastN_of_length_le (Nat.zero_le 500)).symm
  | append_singleton log msg ih =>
    rw [RwLock.outcome_snoc, ih, effect_pushSection, retain_lastN]

variable {τ : Type} {s : MessagesLock τ}

theorem holdsWindow_of_outcome (h : s.data = RwLock.outcome pushSection [] s.log) :
    HoldsWindow s := by
  rw [outcome_pushSection] at h
  refine ⟨h, ?_⟩
  rw [h, Window.length_lastN, Nat.min_comm]

/-- **The feed is retained.**  For any number of calls of `push_message` and of readers, in
every interleaving: whenever a reader looks at the feed, and whenever nobody writes to it,
it is the last `min n 500` of the `n` entries pushed so far, in the order in which the
lock was taken. -/
theorem feed_retained (τ : Type) [DecidableEq τ] (es : List (RwEvent τ ChatMessage))
    (hes : (messagesSystem τ).Always (fun _ _ => True) (messagesStart τ) es) :
    (messagesSystem τ).Always SeesWindow (messagesStart τ) es ∧
    (((messagesSystem τ).run (messagesStart τ) es).writer = none →
      HoldsWindow ((messagesSystem τ).run (messagesStart τ) es)) := by
  constructor
  · refine EventSystem.always_of_invariant (I := RwLock.Serial pushSection [])
      (fun _ _ h hen _ => RwLock.serial_next h hen) ?_ hes (RwLock.serial_start _ _)
    intro s e h hen _
    cases e with
    | look t => exact holdsWindow_of_outcome (h.outcome_of_reading hen)
    | write _ _ | step | endWrite | read _ | endRead _ => trivial
  · intro hfree
    exact holdsWindow_of_outcome ((RwLock.serial_run hes).outcome_of_free hfree)

/-- Two tasks push, and a reader looks. -/
def pushTwice : List (RwEvent ℕ ChatMessage) :=
  let push (t : ℕ) (msg : ChatMessage) : List (RwEvent ℕ ChatMessage) :=
    [.write t msg, .step, .step, .endWrite]
  push 0 (fiveForBob.entry 0) ++ push 1 (fiveForBob.entry 1) ++ [.read 2, .look 2]

/-- The reader sees both entries. -/
theorem pushTwice_retained :
    (messagesSystem ℕ).Always SeesWindow (messagesStart ℕ) pushTwice ∧
    (((messagesSystem ℕ).run (messagesStart ℕ) pushTwice).writer = none →
      HoldsWindow ((messagesSystem ℕ).run (messagesStart ℕ) pushTwice)) :=
  feed_retained ℕ pushTwice (by decide +kernel)

end Zeta
