import RelayPubsub.Lib.Machine
import RelayPubsub.Memory.Outcome
import RelayPubsub.Memory.Durable
import RelayPubsub.RelayEvents.Publish

/-!
# The Action Gateway

Relay delivers a command to `POST /v1/actions`, under an `Idempotency-Key`. The
handler (`handle_action`) takes a lock on the map of the results given so far,
answers from the map if the key is there, and otherwise publishes the command to
the actions topic and writes the result into the map, before it lets the lock go.

Requests are served concurrently, and the store has other clients. So the
handler is a machine that is given one event at a time
(`RelayPubsub.ActionGateway.Event`), an event being what happens between two points
where the handler waits; between two of them anything else may happen, a restart
of the process included, which loses the map and goes back to the state last
written to the file.

| event | the handler |
|---|---|
| `request` | reads the key and the body |
| `acquire` | gets the lock and looks at the map |
| `describe` | `prepare_publish` reads the topic |
| `prepare` | `prepare_publish` reads the schema, enriches and checks the message |
| `publish` | the store appends the message and writes its file |
| `finish` | the result is written into the map and answered |
| `abort` | the connection is closed while the handler waits for the store |
-/

namespace RelayPubsub.ActionGateway

open Lib Memory RelayEvents

/-- The body of a request; a field that is missing has its default. -/
structure ActionIn where
  actionId : Text := []
  eventId : Text := []
  command : Text := []
  payload : Value := .null

structure ActionResult where
  providerId : Text
  state : Text
  evidence : Option Value
  /-- Sent as `at`. -/
  time : Time

/-- What the handler takes from other crates. -/
structure Crates where
  serde : SerdeJson
  /-- `serde_json::from_slice::<ActionIn>` -/
  actionIn : Bytes → Except Text ActionIn
  /-- `to_string().into_bytes()` of a value -/
  toBytes : Value → Bytes

/-! ### Requests and answers -/

/-- A request: its `Idempotency-Key` header, if it has one, and its body. -/
structure ActionRequest where
  idempotencyKey : Option Bytes
  body : Bytes

inductive ActionResponse where
  /-- `400 Bad Request` -/
  | badRequest (error : Text)
  /-- `502 Bad Gateway` -/
  | badGateway (error : Text)
  /-- `200 OK`; a replay is marked by a header. -/
  | ok (result : ActionResult) (isReplay : Bool)

/-- `HeaderValue::to_str`: the visible ASCII characters and the tabulator. -/
def headerText (value : Bytes) : Option Text :=
  if ∀ b ∈ value, b = 9 ∨ 32 ≤ b ∧ b < 127 then some (value.map fun b => Char.ofNat b.toNat)
  else none

def requestKey (r : ActionRequest) : Option Text :=
  (r.idempotencyKey.bind headerText).filter fun key => decide (key ≠ [])

/-- What the handler reads before it takes the lock. -/
def readRequest (crates : Crates) (r : ActionRequest) : Except ActionResponse (Text × ActionIn) :=
  match requestKey r with
  | none => .error (.badRequest "Idempotency-Key required")
  | some key =>
    if r.body = [] then .ok (key, {})
    else
      match crates.actionIn r.body with
      | .ok input => .ok (key, input)
      | .error e => .error (.badRequest ("invalid body: " ++ e))

def actionData (crates : Crates) (input : ActionIn) : Bytes :=
  crates.toBytes (.object [("command", .string input.command), ("payload", input.payload),
    ("action_id", .string input.actionId), ("event_id", .string input.eventId)])

/-- The message a command is published as. -/
def actionMessage (crates : Crates) (key : Text) (input : ActionIn) : NewMessage where
  data := actionData crates input
  attributes :=
    ((((∅ : StrMap Text).insert "idempotency_key" key).insert "action_id" input.actionId).insert
      "event_id" input.eventId).insert "command" input.command

def actionResult (key : Text) (input : ActionIn) (now : Time) : ActionResult where
  providerId := "rpg_" ++ key
  state := "queued"
  evidence := some (.object [("adapter", .string "relay-pubsub"),
    ("action_id", .string input.actionId), ("event_id", .string input.eventId)])
  time := now

/-- The text of an error. -/
def displayError : BackendError → Text
  | .notFound what => "resource not found: " ++ what
  | .alreadyExists what => "resource already exists: " ++ what
  | .invalidArgument what => "invalid argument: " ++ what
  | .failedPrecondition what => "failed precondition: " ++ what
  | .unavailable what => "backend unavailable: " ++ what
  | .internal what => "internal backend error: " ++ what
  | .permissionDenied what => "permission denied: " ++ what

/-! ### The process -/

/-- How far the request that holds the lock has got. -/
inductive Phase where
  /-- Its key is not in the map. -/
  | missed
  /-- The topic has been read, if there is one. -/
  | described (spec : Option TopicSpec)
  /-- The message has been enriched and checked. -/
  | prepared (messages : List NewMessage)
  /-- It has been published. -/
  | published

/-- The request that holds the lock. -/
structure Holder where
  key : Text
  input : ActionIn
  phase : Phase

/-- **The process**: the store and what its file holds, the results given so far, the
requests that wait for the lock, and the one that holds it. -/
structure Gateway where
  store : State := {}
  saved : State := {}
  byKey : StrMap ActionResult := ∅
  waiting : List (Text × ActionIn) := []
  holder : Option Holder := none

inductive Event where
  | request (r : ActionRequest)
  /-- The `i`-th of the waiting requests gets the lock. -/
  | acquire (i : ℕ)
  | describe
  | prepare
  | publish (env : Env)
  | finish (now : Time)
  | abort
  /-- Another client calls the store. -/
  | backend (s : Step)
  | restart

/-- An answer, with the key it is given for. -/
structure Answer where
  key : Option Text
  response : ActionResponse

section Step

variable (crates : Crates) (topic : Text)

/-- A call of the store: the file is written at its end, if that does not fail. -/
def Gateway.call (g : Gateway) (s : Step) : Gateway :=
  { g with
    store := exec crates.serde g.store s
    saved :=
      if persists crates.serde g.store s ∧ s.env.persistFault = none then
        exec crates.serde g.store s
      else g.saved }

/-- The lock is let go with an error of the backend. -/
def Gateway.fail (g : Gateway) (key : Text) (e : BackendError) : Gateway × Option Answer :=
  ({ g with holder := none }, some ⟨some key, .badGateway (displayError e)⟩)

def Gateway.request (g : Gateway) (r : ActionRequest) : Gateway × Option Answer :=
  match readRequest crates r with
  | .error response => (g, some ⟨requestKey r, response⟩)
  | .ok received => ({ g with waiting := g.waiting ++ [received] }, none)

def Gateway.acquire (g : Gateway) (i : ℕ) : Gateway × Option Answer :=
  match g.holder, g.waiting[i]? with
  | none, some (key, input) =>
    let g := { g with waiting := g.waiting.eraseIdx i }
    match g.byKey[key]? with
    | some existing => (g, some ⟨some key, .ok existing true⟩)
    | none => ({ g with holder := some ⟨key, input, .missed⟩ }, none)
  | _, _ => (g, none)

def Gateway.describe (g : Gateway) : Gateway × Option Answer :=
  match g.holder with
  | some ⟨key, input, .missed⟩ =>
    ({ g with holder := some ⟨key, input, .described (getTopic g.store topic).toOption⟩ }, none)
  | _ => (g, none)

def Gateway.prepare (g : Gateway) : Gateway × Option Answer :=
  match g.holder with
  | some ⟨key, input, .described spec⟩ =>
    match boundSchema g.store spec >>= fun schema =>
        [actionMessage crates key input].mapM (prepareMessage crates.serde topic schema) with
    | .error e => g.fail key e
    | .ok messages => ({ g with holder := some ⟨key, input, .prepared messages⟩ }, none)
  | _ => (g, none)

def Gateway.publish (g : Gateway) (env : Env) : Gateway × Option Answer :=
  match g.holder with
  | some ⟨key, input, .prepared messages⟩ =>
    let after := g.call crates ⟨.publish topic messages, env⟩
    match (Memory.publish crates.serde env g.store topic messages).1 with
    | .error e => after.fail key e
    | .ok _ => ({ after with holder := some ⟨key, input, .published⟩ }, none)
  | _ => (g, none)

def Gateway.finish (g : Gateway) (now : Time) : Gateway × Option Answer :=
  match g.holder with
  | some ⟨key, input, .published⟩ =>
    let candidate := actionResult key input now
    ({ g with byKey := g.byKey.insert key candidate, holder := none },
      some ⟨some key, .ok candidate false⟩)
  | _ => (g, none)

/-- There is nothing to wait for between the end of the publish and the answer. -/
def Gateway.abort (g : Gateway) : Gateway :=
  match g.holder with
  | some ⟨_, _, .published⟩ => g
  | _ => { g with holder := none }

/-- **One event**, and the answer that is given by it, if any. -/
def Gateway.step (g : Gateway) : Event → Gateway × Option Answer
  | .request r => g.request crates r
  | .acquire i => g.acquire i
  | .describe => g.describe topic
  | .prepare => g.prepare crates topic
  | .publish env => g.publish crates topic env
  | .finish now => g.finish now
  | .abort => (g.abort, none)
  | .backend s => (g.call crates s, none)
  | .restart => ({ store := g.saved, saved := g.saved }, none)

end Step

end RelayPubsub.ActionGateway
