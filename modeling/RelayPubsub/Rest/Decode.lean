import RelayPubsub.Backend
import RelayPubsub.Json
import RelayPubsub.Lib.Numeral

/-!
# Decoding REST requests

The decoders of `src/rest.rs`: from the JSON body and the query string of a
request to the arguments of a backend call. A field of the wrong JSON type reads
as an absent one, unless the decoder says otherwise.

The crates that decode base64, timestamps and JSON texts are parameters,
collected in `RelayPubsub.Rest.Codecs`.
-/

namespace RelayPubsub.Rest

open Lib

/-- The decoders of other crates. -/
structure Codecs where
  serde : SerdeJson
  /-- `BASE64.decode` -/
  base64Decode : Text → Option Bytes
  /-- `DateTime::parse_from_rfc3339`, as a time in UTC -/
  parseFromRfc3339 : Text → Option Time

/-! ### Responses that need no backend -/

/-- The answer to a request that does not reach the backend. -/
inductive Response where
  /-- A status code, and the JSON body `error` with the code, a message and the
  name of the status. -/
  | error (code : ℕ) (message status : Text)
  /-- `StatusCode::METHOD_NOT_ALLOWED`, without a body. -/
  | methodNotAllowed

def badRequest (message : Text) : Response := .error 400 message "INVALID_ARGUMENT"

def notFound (message : Text) : Response := .error 404 message "NOT_FOUND"

/-! ### Parts of a resource -/

def parseLabels (value : Value) : StrMap Text :=
  ((value.get "labels").bind Value.toStringMap).getD ∅

def parseDurationSeconds (value : Option Value) : Option UInt32 :=
  (((value.bind Value.asStr).bind (stripSuffix? ['s'])).bind parseF64).map F64.toU32

def parsePushConfig (value : Value) : Option Text × StrMap Text :=
  let push := value.get "pushConfig"
  let endpoint := (push.bind fun v => v.getStr "pushEndpoint").filter fun s => s ≠ []
  let attributes := ((push.bind fun v => v.get "attributes").bind Value.toStringMap).getD ∅
  (endpoint, attributes)

def parseDeadLetter (value : Value) : Option DeadLetterSpec :=
  (value.get "deadLetterPolicy").bind fun v =>
    (v.getStr "deadLetterTopic").map fun topic =>
      { topic
        maxDeliveryAttempts :=
          (((v.get "maxDeliveryAttempts").bind Value.asU64).getD 5).toUInt32 }

def parseRetry (value : Value) : Option RetrySpec :=
  (value.get "retryPolicy").map fun v =>
    { minimumBackoffSeconds := (parseDurationSeconds (v.get "minimumBackoff")).getD 0
      maximumBackoffSeconds := (parseDurationSeconds (v.get "maximumBackoff")).getD 0 }

/-! ### Resources -/

/-- **The name a resource is decoded with**: the field `name` of the body if it
is a string, else the name given. -/
def nameFromValue (name : Text) (value : Value) : Text := (value.getStr "name").getD name

def topicSpecFromValue (name : Text) (value : Value) : TopicSpec where
  name := nameFromValue name value
  labels := parseLabels value
  kmsKeyName := (value.getStr "kmsKeyName").getD []
  schemaName := ((value.get "schemaSettings").bind fun v => v.getStr "schema").getD []
  schemaEncoding := ((value.get "schemaSettings").bind fun v => v.getStr "encoding").getD []

def subscriptionSpecFromValue (name : Text) (value : Value) : Except Response SubscriptionSpec :=
  match value.getStr "topic" with
  | none => .error (badRequest "topic is required")
  | some topic =>
    let (pushEndpoint, pushAttributes) := parsePushConfig value
    .ok
      { name := nameFromValue name value
        topic
        ackDeadlineSeconds :=
          (((value.get "ackDeadlineSeconds").bind Value.asU64).getD 10).toUInt32
        labels := parseLabels value
        enableMessageOrdering := ((value.get "enableMessageOrdering").bind Value.asBool).getD false
        enableExactlyOnceDelivery :=
          ((value.get "enableExactlyOnceDelivery").bind Value.asBool).getD false
        deadLetter := parseDeadLetter value
        retry := parseRetry value
        pushEndpoint
        pushAttributes
        filter := (value.getStr "filter").getD [] }

/-- The source returns a `Result` that is always `Ok`. -/
def schemaSpecFromValue (name : Text) (value : Value) : SchemaSpec where
  name := nameFromValue name value
  schemaType := (value.getStr "type").getD "UNSPECIFIED".toList
  definition := (value.getStr "definition").getD []

/-- One binding of a policy; without a role or a list of members it is dropped. -/
def bindingFromValue (b : Value) : Option IamBinding :=
  (b.getStr "role").bind fun role =>
    ((b.get "members").bind Value.asArray).map fun members =>
      { role, members := members.filterMap Value.asStr }

/-- The source returns a `Result` that is always `Ok`. -/
def policyFromValue (value : Value) : IamPolicy where
  version := (((value.get "version").bind Value.asI64).getD 1).toInt32
  bindings :=
    (((value.get "bindings").bind Value.asArray).map fun items =>
      items.filterMap bindingFromValue).getD []
  etag := (value.getStr "etag").getD []

/-- A list of strings, empty unless the field is one. -/
def parseStrings (value : Value) (key : Text) : List Text :=
  ((value.get key).bind Value.toStrings).getD []

/-! ### Query strings and masks -/

/-- The paths of a mask given as one string. -/
def maskPaths (mask : Text) : List Text :=
  ((mask.splitOn ',').map trim).filter fun s => s ≠ []

def parseUpdateMask (value : Value) (query : Option Text) : List Text :=
  match query.filter fun s => s ≠ [] with
  | some mask => maskPaths mask
  | none =>
    match value.getStr "updateMask" with
    | some mask => maskPaths mask
    | none =>
      ((((value.get "updateMask").bind fun v => v.get "paths").bind Value.asArray).map fun paths =>
        paths.filterMap Value.asStr).getD []

def queryParam (query key : Text) : Option Text :=
  (query.splitOn '&').findSome? fun pair =>
    (splitOnce '=' pair).bind fun kv => if kv.1 = key then some kv.2 else none

def pageSizeFromQuery (query : Text) : Int32 :=
  (((queryParam query "pageSize").or (queryParam query "page_size")).bind parseI32).getD 100

def pageTokenFromQuery (query : Text) : Text :=
  ((queryParam query "pageToken").or (queryParam query "page_token")).getD []

/-! ### Messages -/

variable (codecs : Codecs)

def parseMessage (m : Value) : Except Response NewMessage :=
  match codecs.base64Decode ((m.getStr "data").getD []) with
  | none => .error (badRequest "message.data must be base64")
  | some data =>
    let attributes : Option (StrMap Text) :=
      match m.get "attributes" with
      | none => some ∅
      | some v => v.toStringMap
    match attributes with
    | none => .error (badRequest "attributes must be string map")
    | some attributes =>
      .ok
        { data
          attributes
          orderingKey := (m.getStr "orderingKey").getD []
          messageId := (m.getStr "messageId").getD [] }

def parseMessages (body : Value) : Except Response (List NewMessage) :=
  match (body.get "messages").bind Value.asArray with
  | none => .error (badRequest "messages array is required")
  | some messages =>
    if messages = [] then .error (badRequest "at least one message is required")
    else messages.mapM (parseMessage codecs)

end RelayPubsub.Rest
