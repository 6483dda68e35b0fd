import RelayPubsub.Auth
import RelayPubsub.Grpc.Proto

/-!
# Unary requests of the gRPC gateway

The handlers of `src/grpc.rs` for the services `Publisher`, `Subscriber` and
`SchemaService`. A handler authorizes the caller for a string of the request,
decodes the request, and makes one call of the backend: what it authorizes and
what it calls is its `RelayPubsub.Grpc.Plan`. A request that lacks what is
authorized has none.

The two services `Publisher` and `Subscriber` have the same three handlers for
policies; a request does not say which of them it came through.
-/

namespace RelayPubsub.Grpc

open Lib

/-- What a seek goes to. -/
inductive SeekTarget where
  | time (ts : Timestamp)
  | snapshot (name : Text)

/-- The schema a message is validated against. -/
inductive ValidateMessageSchemaSpec where
  | name (name : Text)
  | schema (schema : Schema)

/-- **A unary request.** -/
inductive Request where
  | createTopic (topic : Topic)
  | updateTopic (topic : Option Topic) (updateMask : Option FieldMask)
  | getTopic (topic : Text)
  | listTopics (project : Text) (pageSize : Int32) (pageToken : Text)
  | listTopicSubscriptions (topic : Text) (pageSize : Int32) (pageToken : Text)
  | deleteTopic (topic : Text)
  | publish (topic : Text) (messages : List PubsubMessage)
  | getIamPolicy (resource : Text)
  | setIamPolicy (resource : Text) (policy : Option Policy)
  | testIamPermissions (resource : Text) (permissions : List Text)
  | createSubscription (subscription : Subscription)
  | updateSubscription (subscription : Option Subscription) (updateMask : Option FieldMask)
  | getSubscription (subscription : Text)
  | listSubscriptions (project : Text) (pageSize : Int32) (pageToken : Text)
  | deleteSubscription (subscription : Text)
  | modifyPushConfig (subscription : Text) (pushConfig : Option PushConfig)
  | pull (subscription : Text) (maxMessages : Int32)
  | acknowledge (subscription : Text) (ackIds : List Text)
  | modifyAckDeadline (subscription : Text) (ackIds : List Text) (ackDeadlineSeconds : Int32)
  | seek (subscription : Text) (target : Option SeekTarget)
  | createSnapshot (name subscription : Text) (labels : StrMap Text)
  | updateSnapshot (snapshot : Option Snapshot) (updateMask : Option FieldMask)
  | getSnapshot (snapshot : Text)
  | listSnapshots (project : Text) (pageSize : Int32) (pageToken : Text)
  | deleteSnapshot (snapshot : Text)
  | createSchema (parent : Text) (schema : Option Schema) (schemaId : Text)
  | getSchema (name : Text)
  | listSchemas (parent : Text) (pageSize : Int32) (pageToken : Text)
  | deleteSchema (name : Text)
  | validateSchema (parent : Text) (schema : Option Schema)
  | validateMessage (parent : Text) (schemaSpec : Option ValidateMessageSchemaSpec)
      (message : Bytes)

/-- **What a handler does**: the string it authorizes, and then the call it makes,
unless the request does not decode. -/
structure Plan where
  resource : Text
  call : Except Status BackendCall

section Handlers

variable (fromTimestamp : Int64 → UInt32 → Option Time) (now : Time)

/-! ### Publisher -/

def updateTopic (topic : Option Topic) (updateMask : Option FieldMask) : Except Status Plan :=
  match topic with
  | none => .error (invalidArgument "topic is required")
  | some topic =>
    .ok ⟨topic.name, (topicFromProto topic).map (.updateTopic · (fieldMaskPaths updateMask))⟩

def publish (topic : Text) (messages : List PubsubMessage) : Plan where
  resource := topic
  call :=
    if messages = [] then .error (invalidArgument "at least one message is required")
    else .ok (.publish topic (messages.map newMessageFromProto))

def setIamPolicy (resource : Text) (policy : Option Policy) : Plan where
  resource
  call :=
    match policy with
    | none => .error (invalidArgument "policy is required")
    | some policy => .ok (.setIamPolicy resource (policyFromProto policy))

/-! ### Subscriber -/

def updateSubscription (subscription : Option Subscription) (updateMask : Option FieldMask) :
    Except Status Plan :=
  match subscription with
  | none => .error (invalidArgument "subscription is required")
  | some subscription =>
    .ok ⟨subscription.name, (subscriptionFromProto subscription).map
      (.updateSubscription · (fieldMaskPaths updateMask))⟩

def modifyPushConfig (subscription : Text) (pushConfig : Option PushConfig) : Plan where
  resource := subscription
  call :=
    let (pushEndpoint, pushAttributes) := pushFromProto pushConfig
    .ok (.modifyPushConfig subscription pushEndpoint pushAttributes)

def modifyAckDeadline (subscription : Text) (ackIds : List Text) (ackDeadlineSeconds : Int32) :
    Plan where
  resource := subscription
  call :=
    if ¬(0 ≤ ackDeadlineSeconds ∧ ackDeadlineSeconds ≤ 600) then
      .error (invalidArgument "ack_deadline_seconds must be between 0 and 600")
    else .ok (.modifyAckDeadline subscription ackIds (UInt32.ofInt ackDeadlineSeconds.toInt))

def seek (subscription : Text) (target : Option SeekTarget) : Plan where
  resource := subscription
  call :=
    match target with
    | some (.time ts) => (timestampToDatetime fromTimestamp ts).map (.seekToTime subscription ·)
    | some (.snapshot snapshot) => .ok (.seekToSnapshot subscription snapshot)
    | none => .error (invalidArgument "seek target is required")

def updateSnapshot (snapshot : Option Snapshot) (updateMask : Option FieldMask) :
    Except Status Plan :=
  match snapshot with
  | none => .error (invalidArgument "snapshot is required")
  | some snapshot =>
    .ok ⟨snapshot.name, (snapshotFromProto fromTimestamp now snapshot).map
      (.updateSnapshot · (fieldMaskPaths updateMask))⟩

/-! ### Schema service -/

/-- The name of a schema that is created: its own, else the one its id has below
the parent. -/
def schemaName (parent : Text) (schema : Schema) (schemaId : Text) : Text :=
  if schema.name = [] then trimEndMatches ['/'] parent ++ "/schemas/" ++ schemaId
  else schema.name

def createSchema (parent : Text) (schema : Option Schema) (schemaId : Text) : Plan where
  resource := parent
  call :=
    match schema with
    | none => .error (invalidArgument "schema is required")
    | some schema =>
      if schema.name = [] ∧ schemaId = [] then
        .error (invalidArgument "schema_id is required when schema.name is empty")
      else
        (schemaFromProto { schema with name := schemaName parent schema schemaId }).map
          .createSchema

def validateSchema (parent : Text) (schema : Option Schema) : Plan where
  resource := parent
  call :=
    match schema with
    | none => .error (invalidArgument "schema is required")
    | some schema => (schemaFromProto schema).map .validateSchema

def validateMessage (parent : Text) (schemaSpec : Option ValidateMessageSchemaSpec)
    (message : Bytes) : Plan where
  resource := parent
  call :=
    match schemaSpec with
    | some (.name name) => .ok (.validateMessage (some name) none message)
    | some (.schema schema) =>
      (schemaFromProto schema).map fun spec => .validateMessage none (some spec) message
    | none => .error (invalidArgument "schema_spec is required")

/-- **The handler of a request.** Those that are no definition of their own
authorize a field and call the backend with it. -/
def plan : Request → Except Status Plan
  | .createTopic topic => .ok ⟨topic.name, (topicFromProto topic).map .createTopic⟩
  | .updateTopic topic updateMask => updateTopic topic updateMask
  | .getTopic topic => .ok ⟨topic, .ok (.getTopic topic)⟩
  | .listTopics project pageSize pageToken =>
    .ok ⟨project, .ok (.listTopics project pageSize pageToken)⟩
  | .listTopicSubscriptions topic pageSize pageToken =>
    .ok ⟨topic, .ok (.listTopicSubscriptions topic pageSize pageToken)⟩
  | .deleteTopic topic => .ok ⟨topic, .ok (.deleteTopic topic)⟩
  | .publish topic messages => .ok (publish topic messages)
  | .getIamPolicy resource => .ok ⟨resource, .ok (.getIamPolicy resource)⟩
  | .setIamPolicy resource policy => .ok (setIamPolicy resource policy)
  | .testIamPermissions resource permissions =>
    .ok ⟨resource, .ok (.testIamPermissions resource permissions)⟩
  | .createSubscription subscription =>
    .ok ⟨subscription.name, (subscriptionFromProto subscription).map .createSubscription⟩
  | .updateSubscription subscription updateMask => updateSubscription subscription updateMask
  | .getSubscription subscription => .ok ⟨subscription, .ok (.getSubscription subscription)⟩
  | .listSubscriptions project pageSize pageToken =>
    .ok ⟨project, .ok (.listSubscriptions project pageSize pageToken)⟩
  | .deleteSubscription subscription => .ok ⟨subscription, .ok (.deleteSubscription subscription)⟩
  | .modifyPushConfig subscription pushConfig => .ok (modifyPushConfig subscription pushConfig)
  | .pull subscription maxMessages =>
    .ok ⟨subscription, .ok (.pull subscription (u32OfInt32 1 maxMessages))⟩
  | .acknowledge subscription ackIds =>
    .ok ⟨subscription, .ok (.acknowledge subscription ackIds)⟩
  | .modifyAckDeadline subscription ackIds ackDeadlineSeconds =>
    .ok (modifyAckDeadline subscription ackIds ackDeadlineSeconds)
  | .seek subscription target => .ok (seek fromTimestamp subscription target)
  | .createSnapshot name subscription labels =>
    .ok ⟨name, .ok (.createSnapshot name subscription labels)⟩
  | .updateSnapshot snapshot updateMask => updateSnapshot fromTimestamp now snapshot updateMask
  | .getSnapshot snapshot => .ok ⟨snapshot, .ok (.getSnapshot snapshot)⟩
  | .listSnapshots project pageSize pageToken =>
    .ok ⟨project, .ok (.listSnapshots project pageSize pageToken)⟩
  | .deleteSnapshot snapshot => .ok ⟨snapshot, .ok (.deleteSnapshot snapshot)⟩
  | .createSchema parent schema schemaId => .ok (createSchema parent schema schemaId)
  | .getSchema name => .ok ⟨name, .ok (.getSchema name)⟩
  | .listSchemas parent pageSize pageToken =>
    .ok ⟨parent, .ok (.listSchemas parent pageSize pageToken)⟩
  | .deleteSchema name => .ok ⟨name, .ok (.deleteSchema name)⟩
  | .validateSchema parent schema => .ok (validateSchema parent schema)
  | .validateMessage parent schemaSpec message => .ok (validateMessage parent schemaSpec message)

/-- The check of a request: nothing without an authenticator, which otherwise has
said who the caller is or refused its token. -/
def authorize (authenticated : Option (Except Text AuthContext)) (resource : Text) :
    Except Status Unit :=
  match authenticated with
  | none => .ok ()
  | some (.error e) => .error ⟨.unauthenticated, e⟩
  | some (.ok ctx) => (authorizeResource ctx resource).mapError fun e => ⟨.permissionDenied, e⟩

/-- **The call a request leads to**, or the status it is refused with. -/
def unary (authenticated : Option (Except Text AuthContext)) (request : Request) :
    Except Status BackendCall := do
  let plan ← plan fromTimestamp now request
  authorize authenticated plan.resource
  plan.call

end Handlers

end RelayPubsub.Grpc
