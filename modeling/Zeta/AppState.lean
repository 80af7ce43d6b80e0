import Zeta.Wallet

/-!
# The state shared with the web interface

`app_state.rs`: the feed shown to the user, the wallet, and the channel on which
connected pages are notified.  The channel is the list of everything sent on it
so far; an event's `data` is kept as the value whose JSON text it is.
-/

namespace Zeta

/-- `ChatMessage`: one entry of the feed. -/
structure ChatMessage where
  fromId : String
  fingerprint : String
  text : String
  timestamp : UInt64
  /-- `"message"`, `"payment_received"`, `"payment_sent"` or `"payment_ack"`. -/
  msgType : String
  deriving DecidableEq

/-- The value serialised in an event. -/
inductive SseData where
  | message (m : ChatMessage)
  | wallet (w : Wallet)
  deriving DecidableEq

/-- `SseEvent`. -/
structure SseEvent where
  eventType : String
  data : SseData
  deriving DecidableEq

/-- The mutable part of `AppState`. -/
structure AppState where
  messages : List ChatMessage
  wallet : Wallet
  events : List SseEvent
  deriving DecidableEq

namespace AppState

/-- `msgs.push(msg)`, then the oldest entries beyond 500 are drained. -/
def retain (msgs : List ChatMessage) (msg : ChatMessage) : List ChatMessage :=
  let msgs := msgs ++ [msg]
  if msgs.length > 500 then msgs.drop (msgs.length - 500) else msgs

/-- `AppState::push_message`. -/
def pushMessage (a : AppState) (msg : ChatMessage) : AppState :=
  { a with
    messages := retain a.messages msg
    events := a.events ++
      [{ eventType := if msg.msgType = "message" then "message" else "payment"
         data := .message msg }] }

/-- `AppState::broadcast_wallet_update`. -/
def broadcastWalletUpdate (a : AppState) : AppState :=
  { a with events := a.events ++ [{ eventType := "wallet_update", data := .wallet a.wallet }] }

@[simp] theorem pushMessage_wallet (a : AppState) (msg : ChatMessage) :
    (a.pushMessage msg).wallet = a.wallet := rfl

@[simp] theorem broadcastWalletUpdate_wallet (a : AppState) :
    a.broadcastWalletUpdate.wallet = a.wallet := rfl

/-- The newest entry of the feed is the one pushed last. -/
theorem getLast?_retain (msgs : List ChatMessage) (msg : ChatMessage) :
    (retain msgs msg).getLast? = some msg := by
  simp only [retain]
  split
  · have hkept : ¬ (msgs ++ [msg]).length ≤ (msgs ++ [msg]).length - 500 := by
      rw [List.length_append, List.length_singleton]
      omega
    rw [List.getLast?_drop, if_neg hkept, List.getLast?_concat]
  · exact List.getLast?_concat

end AppState
end Zeta
