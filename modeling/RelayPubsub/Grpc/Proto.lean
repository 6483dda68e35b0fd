import RelayPubsub.Backend

/-!
# The messages of the gRPC gateway

The protobuf messages of `proto/google/pubsub/v1/pubsub.proto` that a request is
made of, and the conversions of `src/grpc.rs` from them to the data model. A
field that is a message is optional; a `oneof` is an inductive type.

`DateTime::from_timestamp` is a parameter of what reads a timestamp
(`fromTimestamp`), as its range is that of the date library.
-/

namespace RelayPubsub.Grpc

open Lib

/-! ### Status -/

/-- The codes of `tonic::Status` that the gateway answers. -/
inductive Code where
  | invalidArgument
  | notFound
  | alreadyExists
  | permissionDenied
  | failedPrecondition
  | internal
  | unavailable
  | unauthenticated
  deriving DecidableEq

structure Status where
  code : Code
  message : Text
  deriving DecidableEq

def backendStatus : BackendError → Status
  | .notFound v => ⟨.notFound, v⟩
  | .alreadyExists v => ⟨.alreadyExists, v⟩
  | .invalidArgument v => ⟨.invalidArgument, v⟩
  | .failedPrecondition v => ⟨.failedPrecondition, v⟩
  | .permissionDenied v => ⟨.permissionDenied, v⟩
  | .unavailable v => ⟨.unavailable, v⟩
  | .internal v => ⟨.internal, v⟩

def invalidArgument (message : Text) : Status := ⟨.invalidArgument, message⟩

/-! ### Messages -/

/-- `google.protobuf.Timestamp` -/
structure Timestamp where
  seconds : Int64
  nanos : Int32

/-- `google.protobuf.Duration` -/
structure Duration where
  seconds : Int64
  nanos : Int32

/-- `google.protobuf.FieldMask` -/
structure FieldMask where
  paths : List Text

structure SchemaSettings where
  schema : Text
  encoding : Text

structure Topic where
  name : Text
  labels : StrMap Text := ∅
  kmsKeyName : Text := []
  schemaSettings : Option SchemaSettings := none

structure PubsubMessage where
  data : Bytes
  attributes : StrMap Text
  messageId : Text
  publishTime : Option Timestamp
  orderingKey : Text

structure PushConfig where
  pushEndpoint : Text
  attributes : StrMap Text

structure DeadLetterPolicy where
  deadLetterTopic : Text
  maxDeliveryAttempts : Int32

structure RetryPolicy where
  minimumBackoff : Option Duration
  maximumBackoff : Option Duration

structure Subscription where
  name : Text
  topic : Text
  pushConfig : Option PushConfig := none
  ackDeadlineSeconds : Int32 := 0
  retainAckedMessages : Bool := false
  labels : StrMap Text := ∅
  enableMessageOrdering : Bool := false
  deadLetterPolicy : Option DeadLetterPolicy := none
  retryPolicy : Option RetryPolicy := none
  detached : Bool := false
  enableExactlyOnceDelivery : Bool := false
  filter : Text := []

structure Snapshot where
  name : Text
  topic : Text
  expireTime : Option Timestamp
  labels : StrMap Text

structure Binding where
  role : Text
  members : List Text

structure Policy where
  version : Int32
  bindings : List Binding
  etag : Text

structure Schema where
  name : Text
  type : Int32
  definition : Text

/-! ### Conversions -/

def fieldMaskPaths (mask : Option FieldMask) : List Text := (mask.map (·.paths)).getD []

def topicFromProto (value : Topic) : Except Status TopicSpec :=
  if value.name = [] then .error (invalidArgument "topic name is required")
  else
    let (schemaName, schemaEncoding) : Text × Text :=
      match value.schemaSettings with
      | some s => (s.schema, s.encoding)
      | none => ([], [])
    .ok
      { name := value.name
        labels := value.labels
        kmsKeyName := value.kmsKeyName
        schemaName
        schemaEncoding }

/-- An endpoint that is not empty, and the attributes. -/
def pushFromProto (value : Option PushConfig) : Option Text × StrMap Text :=
  match value with
  | some cfg => (if cfg.pushEndpoint = [] then none else some cfg.pushEndpoint, cfg.attributes)
  | none => (none, ∅)

/-- `n.max(lo) as u32` for an `i32` -/
def u32OfInt32 (lo n : Int32) : UInt32 := UInt32.ofInt (max lo.toInt n.toInt)

/-- `d.seconds.max(0) as u32`: the higher bits are cut off. -/
def durationSeconds (value : Option Duration) : UInt32 :=
  match value with
  | some d => UInt32.ofInt (max 0 d.seconds.toInt)
  | none => 0

def subscriptionFromProto (value : Subscription) : Except Status SubscriptionSpec :=
  if value.name = [] then .error (invalidArgument "subscription name is required")
  else if value.topic = [] then .error (invalidArgument "subscription topic is required")
  else
    let (pushEndpoint, pushAttributes) := pushFromProto value.pushConfig
    .ok
      { name := value.name
        topic := value.topic
        ackDeadlineSeconds :=
          if value.ackDeadlineSeconds ≤ 0 then 10 else UInt32.ofInt value.ackDeadlineSeconds.toInt
        labels := value.labels
        enableMessageOrdering := value.enableMessageOrdering
        enableExactlyOnceDelivery := value.enableExactlyOnceDelivery
        deadLetter := value.deadLetterPolicy.map fun v =>
          { topic := v.deadLetterTopic
            maxDeliveryAttempts := u32OfInt32 5 v.maxDeliveryAttempts }
        retry := value.retryPolicy.map fun v =>
          { minimumBackoffSeconds := durationSeconds v.minimumBackoff
            maximumBackoffSeconds := durationSeconds v.maximumBackoff }
        pushEndpoint
        pushAttributes
        filter := value.filter }

def timestampToDatetime (fromTimestamp : Int64 → UInt32 → Option Time) (ts : Timestamp) :
    Except Status Time :=
  if ts.nanos < 0 ∨ 1000000000 ≤ ts.nanos then .error (invalidArgument "invalid timestamp nanos")
  else
    match fromTimestamp ts.seconds (UInt32.ofInt ts.nanos.toInt) with
    | some time => .ok time
    | none => .error (invalidArgument "invalid timestamp")

def snapshotFromProto (fromTimestamp : Int64 → UInt32 → Option Time) (now : Time)
    (value : Snapshot) : Except Status SnapshotSpec :=
  if value.name = [] then .error (invalidArgument "snapshot name is required")
  else
    match
      match value.expireTime with
      | some ts => timestampToDatetime fromTimestamp ts
      | none => .ok now
    with
    | .error status => .error status
    | .ok expireTime =>
      .ok { name := value.name, topic := value.topic, expireTime, labels := value.labels
            topicIndex := 0 }

def schemaTypeFromProto (value : Int32) : Text :=
  if value = 1 then "PROTOCOL_BUFFER" else if value = 2 then "AVRO" else "UNSPECIFIED"

def schemaFromProto (value : Schema) : Except Status SchemaSpec :=
  if value.name = [] then .error (invalidArgument "schema name is required")
  else
    .ok
      { name := value.name
        schemaType := schemaTypeFromProto value.type
        definition := value.definition }

def policyFromProto (value : Policy) : IamPolicy where
  version := value.version
  bindings := value.bindings.map fun b => ⟨b.role, b.members⟩
  etag := value.etag

def newMessageFromProto (m : PubsubMessage) : NewMessage where
  data := m.data
  attributes := m.attributes
  orderingKey := m.orderingKey
  messageId := m.messageId

end RelayPubsub.Grpc
