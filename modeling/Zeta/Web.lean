import Zeta.SendErrors

/-!
# Commands from the web interface

The handlers of `web.rs` that send commands, and the loop of `main_client` that executes
them.  `api_pay` puts a command into a channel and answers at once; the loop takes the
commands out one at a time, whenever `tokio::select!` does not prefer a line from the
console, and runs `do_pay` on them.  When the console ends, so does the loop.

What matters of a command is whether a datagram with the payment leaves the client, so here
the sends of `do_pay` may fail.  A send that fails changes nothing else (`doPayOver_same`), and
lines of the console and texts are executed as if none did.
-/

namespace Zeta

/-- `UiCommand`. -/
inductive UiCommand where
  | sendMessage (text : String)
  | pay (dstId : String) (amount : UInt64)
  deriving DecidableEq

/-- `PayReq`: the body of a request to `/api/pay`. -/
structure PayReq where
  dstId : String
  amount : UInt64
  deriving DecidableEq

/-- The answer of a handler: `ok`, and an error if there is one. -/
structure ApiResponse where
  ok : Bool
  error : Option String
  deriving DecidableEq

/-- `api_pay`: the answer, and the command it sends. -/
def apiPay (body : PayReq) : ApiResponse × Option UiCommand :=
  if body.amount = 0 then (⟨false, some "Montant invalide"⟩, none)
  else (⟨true, none⟩, some (.pay body.dstId body.amount))

/-- `api_send`: the answer, and the command it sends. -/
def apiSend (text : String) : ApiResponse × Option UiCommand :=
  if trim text.toList = [] then (⟨false, some "Message vide"⟩, none)
  else (⟨true, none⟩, some (.sendMessage text))

/-- `format!("{} {}", dst_id, amount)`. -/
def payArgs (dstId : String) (amount : UInt64) : String :=
  dstId ++ " " ++ toString amount.toNat

/-- The payment asked for was made: exactly its amount was debited, and a datagram with a
`Payment` of it to its destination was sent. -/
def Honors (body : PayReq) (before : ClientState) (r : Paid) : Prop :=
  r.state.balance + body.amount.toNat = before.balance ∧
    match r.exit with
    | .sent p => p.dstId = body.dstId ∧ p.amount = body.amount ∧ ∃ x ∈ r.sends, x.2 = .payment p
    | _ => False

instance (body : PayReq) (before : ClientState) : (r : Paid) → Decidable (Honors body before r)
  | ⟨.sent p, _, _⟩ => inferInstanceAs (Decidable (_ ∧ p.dstId = body.dstId ∧ _ ∧ _))
  | ⟨.usage, _, _⟩ | ⟨.invalidAmount, _, _⟩ | ⟨.insufficientBalance, _, _⟩ =>
    inferInstanceAs (Decidable (_ ∧ False))

section Loop
variable (P : Platform) (ctx : ClientContext P.ed)

/-- The main loop on a line of the console; `id` is the random id drawn. -/
def consoleInput (now id : UInt64) (line : String) (s : ClientState) : ClientState :=
  if "/balance".toList.isPrefixOf line.toList then s
  else if "/pay ".toList.isPrefixOf line.toList then
    (doPay P ctx now id (String.ofList (line.toList.drop 5)) s).state
  else (sendMsg P ctx now id line s).1

/-- A client with its web interface.  `answered` and `honored` are history: the requests
that `api_pay` answered `ok: true`, and those whose command led to the payment asked
for. -/
structure UiNode where
  client : ClientState
  /-- The commands in the channel. -/
  queue : List UiCommand
  /-- The loop of `main_client` is running. -/
  looping : Bool
  answered : List PayReq
  honored : List PayReq

/-- `main_client` as it enters its loop. -/
def uiStart (s : ClientState) : UiNode where
  client := s
  queue := []
  looping := true
  answered := []
  honored := []

/-- What happens at a client with a web interface. -/
inductive UiEvent where
  /-- A request to `/api/pay` is answered. -/
  | apiPay (body : PayReq)
  /-- A request to `/api/send` is answered. -/
  | apiSend (text : String)
  /-- The loop takes a line from the console. -/
  | line (now id : UInt64) (line : String)
  /-- The console ends, or cannot be read.  Until the process ends too, the other tasks
  go on. -/
  | eof
  /-- The loop takes a command from the channel; `results` are those of its sends. -/
  | command (now id : UInt64) (results : SendResults)
  /-- The receive task handles a datagram. -/
  | recv (now : UInt64) (msg : Message)

/-- `cmd_tx.send`: the channel afterwards.  Without a loop there is no receiver; the error
is discarded. -/
def UiNode.send (s : UiNode) (cmd : Option UiCommand) : List UiCommand :=
  if s.looping then s.queue ++ cmd.toList else s.queue

/-- The loop executes the next command. -/
def UiNode.dequeue (s : UiNode) (now id : UInt64) (results : SendResults) : UiNode :=
  match s.queue with
  | [] => s
  | .sendMessage text :: queue =>
    { s with client := (sendMsg P ctx now id text s.client).1, queue }
  | .pay dstId amount :: queue =>
    let r := doPayOver P ctx now results id (payArgs dstId amount) s.client
    let body : PayReq := { dstId, amount }
    { s with
      client := r.state
      queue
      honored := s.honored ++ if Honors body s.client r then [body] else [] }

/-- A client with a web interface, as an event system. -/
def uiNode : EventSystem UiNode UiEvent where
  Enabled s
    -- `send` waits while the channel holds 64 commands.
    | .apiPay body => s.looping = true → body.amount ≠ 0 → s.queue.length < 64
    | .apiSend text => s.looping = true → trim text.toList ≠ [] → s.queue.length < 64
    | .line _ _ _ | .eof => s.looping = true
    | .command _ _ _ => s.looping = true ∧ s.queue ≠ []
    | .recv _ _ => True
  next s
    | .apiPay body =>
      { s with
        queue := s.send (Zeta.apiPay body).2
        answered := s.answered ++ if (Zeta.apiPay body).1.ok then [body] else [] }
    | .apiSend text => { s with queue := s.send (Zeta.apiSend text).2 }
    | .line now id line => { s with client := consoleInput P ctx now id line s.client }
    | .eof => { s with looping := false }
    | .command now id results => s.dequeue P ctx now id results
    | .recv now msg => { s with client := (recvLoop P ctx now msg s.client).state }

end Loop
end Zeta
