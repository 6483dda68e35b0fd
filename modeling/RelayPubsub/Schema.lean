import RelayPubsub.Json

/-!
# Publish-time processing of a payload

What happens to a message between the call of `publish` and its being stored:
the schema check of `src/schema_validate.rs`, and the CloudEvents projection of
`src/cloudevents.rs`. Both parse JSON, through the parameter
`RelayPubsub.SerdeJson`.

The schema check is a compatibility subset: `JSON` encoding requires a JSON
payload, JSON-Schema-shaped definitions enforce the `required` object keys, Avro
definitions must be JSON with a `type` field, and Protocol Buffer definitions
must mention `syntax` or `message`.
-/

namespace RelayPubsub

open Lib

variable (serde : SerdeJson)

/-! ### Schemas -/

def validateDefinition (schema : SchemaSpec) : Except BackendError Unit :=
  if trim schema.definition = [] then
    .error (.invalidArgument "schema definition is required")
  else
    let schemaType := toAsciiUppercase schema.schemaType
    if schemaType = "AVRO".toList then
      match serde.fromStr schema.definition with
      | .error e => .error (.invalidArgument ("Avro schema is not JSON: " ++ e))
      | .ok value =>
        if (value.get "type").isNone then
          .error (.invalidArgument "Avro schema must include a type field")
        else .ok ()
    else if schemaType = "PROTOCOL_BUFFER".toList then
      let definition := toAsciiLowercase schema.definition
      if "message".toList <:+: definition ∨ "syntax".toList <:+: definition then .ok ()
      else
        .error (.invalidArgument
          "Protocol Buffer schema must contain a message or syntax declaration")
    else if schemaType = "UNSPECIFIED".toList ∨ schemaType = [] ∨ schemaType = "JSON".toList ∨
        schemaType = "JSON_SCHEMA".toList then
      if ['\x7b'] <+: trimStart schema.definition then
        match serde.fromStr schema.definition with
        | .error e => .error (.invalidArgument ("schema definition is not JSON: " ++ e))
        | .ok _ => .ok ()
      else .ok ()
    else .error (.invalidArgument ("unsupported schema type " ++ schemaType))

/-- The loop of `enforce_required` over the required keys; a key that is not a
string is skipped. -/
def enforceKeys (object : List (Text × Value)) : List Value → Except BackendError Unit
  | [] => .ok ()
  | key :: keys =>
    match key.asStr with
    | none => enforceKeys object keys
    | some name =>
      if (object.lookup name).isNone then
        .error (.invalidArgument ("payload missing required field '" ++ name ++ "'"))
      else enforceKeys object keys

def enforceRequired (schema body : Value) : Except BackendError Unit :=
  match (schema.get "required").bind Value.asArray with
  | none => .ok ()
  | some required =>
    match body.asObject with
    | none => .error (.invalidArgument "JSON schema expected an object payload")
    | some object => enforceKeys object required

def validateJson (schema : SchemaSpec) (payload : Bytes) : Except BackendError Unit := do
  validateDefinition serde schema
  match serde.fromSlice payload with
  | .error e => .error (.invalidArgument ("JSON encoding requires a JSON payload: " ++ e))
  | .ok body =>
    match serde.fromStr schema.definition with
    | .error _ => .ok ()
    | .ok definition => enforceRequired definition body

def validatePayload (schema : SchemaSpec) (encoding : Text) (payload : Bytes) :
    Except BackendError Unit :=
  if payload = [] then
    .error (.invalidArgument "message body is required for a schema-bound topic")
  else
    let encoding := toAsciiUppercase encoding
    if encoding = [] ∨ encoding = "JSON".toList ∨ encoding = "ENCODING_UNSPECIFIED".toList then
      validateJson serde schema payload
    else if encoding = "BINARY".toList then
      -- Binary payloads are accepted as long as the schema itself is valid.
      validateDefinition serde schema
    else .error (.invalidArgument ("unsupported schema encoding " ++ encoding))

/-! ### CloudEvents -/

/-- `entry(key).or_insert(value)`: an attribute that is already there is kept. -/
def orInsert (attributes : StrMap Text) (key value : Text) : StrMap Text :=
  if key ∈ attributes then attributes else attributes.insert key value

def stamp (attributes : StrMap Text) (key : Text) (value : Option Value) : StrMap Text :=
  match value.bind Value.asStr with
  | none => attributes
  | some value => orInsert attributes key value

/-- The last segment of a topic name. -/
def topicLeaf (topic : Text) : Text := (topic.splitOn '/').getLastD topic

def enrichMessage (topic : Text) (message : NewMessage) : NewMessage :=
  let attributes := orInsert message.attributes "relay.topic" (topicLeaf topic)
  let contentType :=
    (attributes["content-type".toList]?.or attributes["Content-Type".toList]?).getD []
  let body := serde.fromSlice message.data
  let looksLikeCe := decide ("cloudevents".toList <:+: contentType) ||
    (match body with
      | .ok v => (v.getStr "specversion").isSome
      | .error _ => false)
  match body with
  | .error _ => { message with attributes }
  | .ok body =>
    if looksLikeCe then
      let attributes := stamp attributes "ce-id" (body.get "id")
      let attributes := stamp attributes "ce-source" (body.get "source")
      let attributes := stamp attributes "ce-type" (body.get "type")
      let attributes := stamp attributes "ce-specversion" (body.get "specversion")
      let attributes := stamp attributes "ce-subject" (body.get "subject")
      { message with attributes }
    else { message with attributes }

end RelayPubsub
