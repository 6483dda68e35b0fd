import RelayPubsub.Lib.Base64
import RelayPubsub.Lib.Sha256
import RelayPubsub.Lib.Utf8
import RelayPubsub.Memory.Exec
import RelayPubsub.Memory.Listing

/-!
# Publishing through the Relay events backend

`RelayEventsBackend` hands everything to an in-memory backend, except what is
published to a topic other than the actions topic: that is forwarded, message by
message, to Relay's own `POST /v1/events`, and abandoned at the first message
that Relay does not take.

Relay is on the other side of the network. It enters the model as a function
from a request and its state to a reply and its next state, so the definitions
say what is sent and how a reply is read, and nothing about what Relay does.
-/

namespace RelayPubsub.RelayEvents

open Lib Memory

/-- What the backend takes from other crates. -/
structure Crates where
  serde : SerdeJson
  /-- `Sha256::digest` -/
  sha256 : Bytes → Bytes
  /-- `STANDARD.encode` of the `base64` crate -/
  base64Encode : Bytes → Text
  /-- `StatusCode::canonical_reason` -/
  canonicalReason : ℕ → Option Text

structure RelayEventsBackend where
  relayBaseUrl : Text
  relayToken : Option Text
  /-- Publishes to this topic stay local; everything else is forwarded. -/
  actionsTopic : Text

structure RelayEvent where
  /-- Sent as `type`. -/
  eventType : Text
  /-- Not sent if empty, as the severity. -/
  source : Text
  severity : Text
  idempotencyKey : Text
  data : Value

/-- The request `POST /v1/events`. -/
structure Post where
  url : Text
  bearer : Option Text
  event : RelayEvent

/-- What comes back: a response with its status and body, or the error of the HTTP
client. -/
inductive Reply where
  | response (status : ℕ) (text : Text)
  | failure (error : Text)

/-- `status().is_success()` -/
def Reply.isSuccess : Reply → Bool
  | .response status _ => decide (200 ≤ status ∧ status ≤ 299)
  | .failure _ => false

/-- A status as it is displayed. -/
def displayStatus (crates : Crates) (status : ℕ) : Text :=
  decimal status ++ [' '] ++ (crates.canonicalReason status).getD "<unknown status code>"

def shortName (full : Text) : Text := (full.splitOn '/').getLastD full

/-! ### Preparing a batch -/

/-- The schema a topic is bound to, with its encoding, as `prepare_publish` finds
it: a topic that does not exist is bound to none. The topic and the schema are read
one after the other, so the store may have changed in between. -/
def boundSchema (st : State) (spec : Option TopicSpec) :
    Except BackendError (Option (Text × SchemaSpec)) :=
  match spec with
  | none => .ok none
  | some spec =>
    if spec.schemaName = [] then .ok none
    else (getSchema st spec.schemaName).map fun schema => some (spec.schemaEncoding, schema)

/-- One turn of the loop of `prepare_publish`. -/
def prepareMessage (serde : SerdeJson) (topic : Text) (schema : Option (Text × SchemaSpec))
    (message : NewMessage) : Except BackendError NewMessage :=
  let message := enrichMessage serde topic message
  match schema with
  | none => .ok message
  | some (encoding, schema) =>
    (validatePayload serde schema encoding message.data).map fun _ => message

/-- `prepare_publish`, where the topic is read in `st` and its schema in `st'`. -/
def preparePublish (serde : SerdeJson) (st st' : State) (topic : Text)
    (messages : List NewMessage) : Except BackendError (List NewMessage) :=
  boundSchema st' (getTopic st topic).toOption >>= fun schema =>
    messages.mapM (prepareMessage serde topic schema)

/-! ### Forwarding a message -/

/-- A byte as two hexadecimal digits. -/
def hexByte (b : UInt8) : Text := [Nat.digitChar (b.toNat / 16), Nat.digitChar (b.toNat % 16)]

/-- What the automatic key of a message is the hash of. -/
def hashed (topic : Text) (message : NewMessage) : Bytes :=
  asBytes topic ++ asBytes "|" ++
    asBytes (message.attributes["source".toList]?.getD []) ++ asBytes "|" ++
    asBytes (message.attributes["severity".toList]?.getD []) ++ asBytes "|" ++ message.data

/-- The automatic key of some bytes: half of their hash. -/
def autoKey (crates : Crates) (bytes : Bytes) : Text :=
  "auto/" ++ ((crates.sha256 bytes).take 16).flatMap hexByte

def idempotencyKey (crates : Crates) (topic : Text) (message : NewMessage) : Text :=
  if message.messageId ≠ [] then message.messageId
  else
    match message.attributes["idempotency_key".toList]? with
    | some key => if key ≠ [] then key else autoKey crates (hashed topic message)
    | none => autoKey crates (hashed topic message)

def dataOrRaw (crates : Crates) (data : Bytes) : Value :=
  if data = [] then .object []
  else
    match crates.serde.fromSlice data with
    | .ok value => value
    | .error _ => .object [("raw", .string (crates.base64Encode data))]

def relayEvent (crates : Crates) (topicShort : Text) (message : NewMessage) : RelayEvent where
  eventType := topicShort
  source := message.attributes["source".toList]?.getD []
  severity := message.attributes["severity".toList]?.getD []
  idempotencyKey := idempotencyKey crates topicShort message
  data := dataOrRaw crates message.data

section Forward

variable {σ : Type*} (crates : Crates) (backend : RelayEventsBackend) (send : Post → σ → Reply × σ)

/-- The request for an event: the token of the demo goes into the URL, another one
into a header. -/
def RelayEventsBackend.post (event : RelayEvent) : Post where
  url :=
    if backend.relayToken = some "demo-token".toList then
      backend.relayBaseUrl ++ "/v1/events?token=demo-token"
    else backend.relayBaseUrl ++ "/v1/events"
  bearer := backend.relayToken.filter fun token => decide (token ≠ "demo-token".toList)
  event := event

def acceptEvent (topicShort : Text) (message : NewMessage) (relay : σ) :
    Except BackendError Unit × σ :=
  let (reply, relay) := send (backend.post (relayEvent crates topicShort message)) relay
  match reply with
  | .failure e => (.error (.unavailable e), relay)
  | .response status text =>
    if (Reply.response status text).isSuccess then (.ok (), relay)
    else (.error (.internal ("relay " ++ displayStatus crates status ++ ": " ++ text)), relay)

/-- The loop of `publish` over a batch that is forwarded: `draws` random
identifiers have been drawn before. -/
def forward (uuid : ℕ → Uuid) (topicShort : Text) :
    List NewMessage → ℕ → σ → Except BackendError (List Text) × σ
  | [], _, relay => (.ok [], relay)
  | message :: messages, draws, relay =>
    match acceptEvent crates backend send topicShort message relay with
    | (.error e, relay) => (.error e, relay)
    | (.ok (), relay) =>
      let id := if message.messageId = [] then (uuid draws).text else message.messageId
      let draws := if message.messageId = [] then draws + 1 else draws
      let (rest, relay) := forward uuid topicShort messages draws relay
      (rest.map (id :: ·), relay)

/-- `publish`, where the topic is read in `st`, its schema in `st'`, and the local
store is then `st''`. -/
def publish (env : Env) (st st' st'' : State) (topic : Text) (messages : List NewMessage)
    (relay : σ) : Except BackendError (List Text) × State × σ :=
  match preparePublish crates.serde st st' topic messages with
  | .error e => (.error e, st'', relay)
  | .ok messages =>
    if topic = backend.actionsTopic then
      let (ids, st'') := Memory.publish crates.serde env st'' topic messages
      (ids, st'', relay)
    else
      let (ids, relay) := forward crates backend send env.uuid (shortName topic) messages 0 relay
      (ids, st'', relay)

end Forward

/-- Crates to run small examples with, in which no body is JSON. -/
def sampleCrates : Crates where
  serde := noJson
  sha256 := Lib.sha256
  base64Encode := Lib.base64Encode
  canonicalReason status := if status = 200 then some "OK" else none

end RelayPubsub.RelayEvents
