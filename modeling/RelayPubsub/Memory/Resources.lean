import RelayPubsub.Memory.State
import RelayPubsub.Filter
import RelayPubsub.Schema

/-!
# Operations on resources

The operations of `MemoryBackend` that create, change and delete topics,
subscriptions, snapshots, policies and schemas, and `publish`. None of them
touches the leases of an existing subscription; `createSubscription` sets up a
subscription whose cursor is at the end of the topic log.

An operation answers an `Except` and gives the state after the call. A request
that is refused leaves the state as it is; a request whose state file cannot be
written has changed the state all the same.
-/

namespace RelayPubsub.Memory

open Lib

variable (serde : SerdeJson) (env : Env) (st : State)

/-! ### Topics -/

def createTopic (topic : TopicSpec) : Except BackendError TopicSpec × State :=
  if ¬"projects/".toList <+: topic.name ∨ ¬"/topics/".toList <:+: topic.name then
    (.error (.invalidArgument ("invalid topic name " ++ topic.name)), st)
  else if topic.name ∈ st.topics then (.error (.alreadyExists topic.name), st)
  else answer env topic { st with topics := st.topics.insert topic.name ⟨topic, [], ∅⟩ }

def updateTopic (topic : TopicSpec) (updateMask : List Text) :
    Except BackendError TopicSpec × State :=
  match st.topics[topic.name]? with
  | none => (.error (.notFound topic.name), st)
  | some entry =>
    let spec := applyTopicMask entry.spec topic updateMask
    answer env spec { st with topics := st.topics.insert topic.name { entry with spec } }

def deleteTopic (name : Text) : Except BackendError Unit × State :=
  if name ∉ st.topics then (.error (.notFound name), st)
  else answer env () { st with topics := st.topics.erase name }

/-! ### Subscriptions -/

/-- A subscription as it is set up: nothing taken, the cursor at the end of the
log. -/
def SubscriptionState.created (spec : SubscriptionSpec) (topicLen : ℕ) : SubscriptionState :=
  ⟨spec, topicLen, ∅, ∅, [], ∅, ∅⟩

def createSubscription (subscription : SubscriptionSpec) :
    Except BackendError SubscriptionSpec × State :=
  if ¬"projects/".toList <+: subscription.name ∨
      ¬"/subscriptions/".toList <:+: subscription.name then
    (.error (.invalidArgument ("invalid subscription name " ++ subscription.name)), st)
  else if subscription.name ∈ st.subscriptions then
    (.error (.alreadyExists subscription.name), st)
  else
    match if trim subscription.filter = [] then .ok ()
      else (AttributeFilter.parse subscription.filter).map fun _ => () with
    | .error e => (.error e, st)
    | .ok () =>
      match st.topics[subscription.topic]? with
      | none => (.error (.notFound subscription.topic), st)
      | some topic =>
        let spec := { subscription with
          ackDeadlineSeconds := normalizeAckDeadline (max subscription.ackDeadlineSeconds 10) }
        answer env spec { st with
          subscriptions := st.subscriptions.insert subscription.name
            (.created spec topic.messages.length) }

def updateSubscription (subscription : SubscriptionSpec) (updateMask : List Text) :
    Except BackendError SubscriptionSpec × State :=
  match st.subscriptions[subscription.name]? with
  | none => (.error (.notFound subscription.name), st)
  | some entry =>
    if "filter".toList ∈ updateMask ∧ subscription.filter ≠ [] ∧
        subscription.filter ≠ entry.spec.filter then
      (.error (.failedPrecondition "subscription filter is immutable after create"), st)
    else
      let masked := applySubscriptionMask entry.spec subscription updateMask
      let spec := { masked with
        ackDeadlineSeconds := normalizeAckDeadline (max masked.ackDeadlineSeconds 10) }
      answer env spec { st with
        subscriptions := st.subscriptions.insert subscription.name { entry with spec } }

def deleteSubscription (name : Text) : Except BackendError Unit × State :=
  if name ∉ st.subscriptions then (.error (.notFound name), st)
  else answer env () { st with subscriptions := st.subscriptions.erase name }

def modifyPushConfig (subscription : Text) (pushEndpoint : Option Text)
    (pushAttributes : StrMap Text) : Except BackendError Unit × State :=
  match st.subscriptions[subscription]? with
  | none => (.error (.notFound subscription), st)
  | some sub =>
    let spec := { sub.spec with
      pushEndpoint := pushEndpoint.filter (· ≠ [])
      pushAttributes }
    answer env () { st with
      subscriptions := st.subscriptions.insert subscription { sub with spec } }

/-! ### Snapshots -/

def createSnapshot (name subscription : Text) (labels : StrMap Text) :
    Except BackendError SnapshotSpec × State :=
  if ¬"projects/".toList <+: name ∨ ¬"/snapshots/".toList <:+: name then
    (.error (.invalidArgument ("invalid snapshot name " ++ name)), st)
  else if name ∈ st.snapshots then (.error (.alreadyExists name), st)
  else
    match st.subscriptions[subscription]? with
    | none => (.error (.notFound subscription), st)
    | some sub =>
      let spec : SnapshotSpec :=
        { name
          topic := sub.spec.topic
          expireTime := env.now 0 + seconds (7 * 24 * 60 * 60)
          labels
          topicIndex := sub.nextIndex }
      answer env spec { st with snapshots := st.snapshots.insert name spec }

def updateSnapshot (snapshot : SnapshotSpec) (updateMask : List Text) :
    Except BackendError SnapshotSpec × State :=
  match st.snapshots[snapshot.name]? with
  | none => (.error (.notFound snapshot.name), st)
  | some entry =>
    let entry :=
      if updateMask = [] ∨ "*".toList ∈ updateMask ∨ "labels".toList ∈ updateMask then
        { entry with labels := snapshot.labels }
      else entry
    answer env entry { st with snapshots := st.snapshots.insert snapshot.name entry }

def deleteSnapshot (name : Text) : Except BackendError Unit × State :=
  if name ∉ st.snapshots then (.error (.notFound name), st)
  else answer env () { st with snapshots := st.snapshots.erase name }

/-! ### Policies and schemas -/

def setIamPolicy (resource : Text) (policy : IamPolicy) :
    Except BackendError IamPolicy × State :=
  let policy : IamPolicy :=
    { policy with
      etag := if policy.etag = [] then (env.uuid 0).text else policy.etag
      version := if policy.version = 0 then 1 else policy.version }
  answer env policy { st with iam := st.iam.insert resource policy }

def createSchema (schema : SchemaSpec) : Except BackendError SchemaSpec × State :=
  if ¬"projects/".toList <+: schema.name ∨ ¬"/schemas/".toList <:+: schema.name then
    (.error (.invalidArgument ("invalid schema name " ++ schema.name)), st)
  else
    match validateDefinition serde schema with
    | .error e => (.error e, st)
    | .ok () =>
      if schema.name ∈ st.schemas then (.error (.alreadyExists schema.name), st)
      else answer env schema { st with schemas := st.schemas.insert schema.name schema }

def deleteSchema (name : Text) : Except BackendError Unit × State :=
  if name ∉ st.schemas then (.error (.notFound name), st)
  else answer env () { st with schemas := st.schemas.erase name }

/-! ### Publishing -/

/-- The schema check of `publish`: every message, before any is appended. -/
def checkSchema (topicState : TopicState) (messages : List NewMessage) :
    Except BackendError Unit :=
  if topicState.spec.schemaName = [] then .ok ()
  else
    match st.schemas[topicState.spec.schemaName]? with
    | none =>
      .error (.failedPrecondition
        ("bound schema " ++ topicState.spec.schemaName ++ " not found"))
    | some spec =>
      messages.forM fun message =>
        validatePayload serde spec topicState.spec.schemaEncoding message.data

/-- The publisher's id of a message: its `message_id`, else its
`idempotency_key` attribute, else empty. -/
def clientId (message : NewMessage) : Text :=
  if message.messageId ≠ [] then message.messageId
  else message.attributes["idempotency_key".toList]?.getD []

/-- The loop state of `publish`: the topic, the ids answered so far, and the
number of random identifiers drawn. -/
structure Publishing where
  topicState : TopicState
  ids : List Text := []
  draws : ℕ := 0

/-- One turn of the loop of `publish`. -/
def publishMessage (topic : Text) (p : Publishing) (message : NewMessage) : Publishing :=
  let message := enrichMessage serde topic message
  let client := clientId message
  match if client = [] then none else p.topicState.seenIds[client]? with
  | some existing => { p with ids := p.ids ++ [existing] }
  | none =>
    let id := if client = [] then (env.uuid p.draws).text else client
    let stored : RelayMessage :=
      { id
        data := message.data
        attributes := message.attributes
        orderingKey := message.orderingKey
        publishedAt := env.now 0 }
    { topicState := { p.topicState with
        messages := p.topicState.messages ++ [stored]
        seenIds := if client = [] then p.topicState.seenIds
          else p.topicState.seenIds.insert client id }
      ids := p.ids ++ [id]
      draws := if client = [] then p.draws + 1 else p.draws }

def publish (topic : Text) (messages : List NewMessage) :
    Except BackendError (List Text) × State :=
  match st.topics[topic]? with
  | none => (.error (.notFound topic), st)
  | some topicState =>
    match checkSchema serde st topicState messages with
    | .error e => (.error e, st)
    | .ok () =>
      let p := messages.foldl (publishMessage serde env topic) { topicState }
      answer env p.ids { st with topics := st.topics.insert topic p.topicState }

end RelayPubsub.Memory
