import RelayPubsub.Memory.Listing
import RelayPubsub.Memory.Specs

/-!
# A directory of resources

The calls of a backend are of two kinds. Some move messages – publish, pull, acknowledge,
extend, seek – and the others keep the resources: topics, subscriptions, snapshots, policies
and schemas. What the others are for is said without messages: a **directory**
(`RelayPubsub.Memory.Directory`) has an entry for each resource, and a call enters, amends,
strikes or reads one, or is refused and changes nothing.

This is not how the store does it; that the store does it is
`RelayPubsub.Memory.control_plane`.
-/

namespace RelayPubsub.Memory

open Lib

/-! ### Directories -/

/-- A snapshot as clients see it: without the position it stands for. -/
def visible (snapshot : SnapshotSpec) : SnapshotSpec := { snapshot with topicIndex := 0 }

/-- **A directory of resources**, each under its name. -/
structure Directory where
  topics : StrMap TopicSpec := ∅
  subscriptions : StrMap SubscriptionSpec := ∅
  snapshots : StrMap SnapshotSpec := ∅
  schemas : StrMap SchemaSpec := ∅
  policies : StrMap IamPolicy := ∅

/-- **What a client is answered** about resources. -/
inductive Answer where
  | done
  | topic (spec : TopicSpec)
  | topics (page : Page TopicSpec)
  | names (page : Page Text)
  | subscription (spec : SubscriptionSpec)
  | subscriptions (page : Page SubscriptionSpec)
  | snapshot (spec : SnapshotSpec)
  | snapshots (page : Page SnapshotSpec)
  | schema (spec : SchemaSpec)
  | schemas (page : Page SchemaSpec)
  | policy (policy : IamPolicy)
  | permissions (permissions : List Text)

section Entries

variable {ρ : Type} (m : StrMap ρ) (name : Text)

def lookUp : Except BackendError ρ :=
  match m[name]? with
  | some v => .ok v
  | none => .error (.notFound name)

def checkNew : Except BackendError Unit :=
  if name ∈ m then .error (.alreadyExists name) else .ok ()

def checkThere : Except BackendError Unit :=
  if name ∈ m then .ok () else .error (.notFound name)

/-- The names that resources of a kind may have. -/
def checkName (kind refusal : Text) : Except BackendError Unit :=
  if "projects/".toList <+: name ∧ kind <:+: name then .ok ()
  else .error (.invalidArgument (refusal ++ name))

end Entries

/-- The filter of a new subscription. -/
def checkFilter (filter : Text) : Except BackendError Unit :=
  if trim filter = [] then .ok () else (AttributeFilter.parse filter).map fun _ => ()

/-- A filter stays what it is. -/
def checkSameFilter (entry subscription : SubscriptionSpec) (mask : List Text) :
    Except BackendError Unit :=
  if "filter".toList ∈ mask ∧ subscription.filter ≠ [] ∧ subscription.filter ≠ entry.filter then
    .error (.failedPrecondition "subscription filter is immutable after create")
  else .ok ()

/-- The names of the subscriptions of a topic. -/
def namesOfTopic (subscriptions : StrMap SubscriptionSpec) (topic : Text) : List Text :=
  sortByName id (((values subscriptions).filter fun s => decide (s.topic = topic)).map (·.name))

/-- The schema that is given, or named. -/
def resolveSchema (schemas : StrMap SchemaSpec) :
    Option Text → Option SchemaSpec → Except BackendError SchemaSpec
  | _, some schema => .ok schema
  | some name, none => lookUp schemas name
  | none, none => .error (.invalidArgument "schema name or schema body is required")

namespace Directory

variable (serde : SerdeJson) (env : Env) (d : Directory)

/-- **A call that changes resources**: the answer and the new directory, or a refusal. -/
def change : BackendCall → Option (Except BackendError (Answer × Directory))
  | .createTopic topic => some do
    checkName topic.name "/topics/" "invalid topic name "
    checkNew d.topics topic.name
    pure (.topic topic, { d with topics := d.topics.insert topic.name topic })
  | .updateTopic topic mask => some do
    let entry ← lookUp d.topics topic.name
    let spec := applyTopicMask entry topic mask
    pure (.topic spec, { d with topics := d.topics.insert topic.name spec })
  | .deleteTopic name => some do
    checkThere d.topics name
    pure (.done, { d with topics := d.topics.erase name })
  | .createSubscription subscription => some do
    checkName subscription.name "/subscriptions/" "invalid subscription name "
    checkNew d.subscriptions subscription.name
    checkFilter subscription.filter
    checkThere d.topics subscription.topic
    let spec := normalized subscription
    pure (.subscription spec,
      { d with subscriptions := d.subscriptions.insert subscription.name spec })
  | .updateSubscription subscription mask => some do
    let entry ← lookUp d.subscriptions subscription.name
    checkSameFilter entry subscription mask
    let spec := normalized (applySubscriptionMask entry subscription mask)
    pure (.subscription spec,
      { d with subscriptions := d.subscriptions.insert subscription.name spec })
  | .deleteSubscription name => some do
    checkThere d.subscriptions name
    pure (.done, { d with subscriptions := d.subscriptions.erase name })
  | .modifyPushConfig name endpoint pushAttributes => some do
    let entry ← lookUp d.subscriptions name
    let spec := { entry with pushEndpoint := endpoint.filter (· ≠ []), pushAttributes }
    pure (.done, { d with subscriptions := d.subscriptions.insert name spec })
  | .createSnapshot name subscription labels => some do
    checkName name "/snapshots/" "invalid snapshot name "
    checkNew d.snapshots name
    let entry ← lookUp d.subscriptions subscription
    let spec : SnapshotSpec :=
      { name
        topic := entry.topic
        expireTime := env.now 0 + seconds (7 * 24 * 60 * 60)
        labels
        topicIndex := 0 }
    pure (.snapshot spec, { d with snapshots := d.snapshots.insert name spec })
  | .updateSnapshot snapshot mask => some do
    let entry ← lookUp d.snapshots snapshot.name
    let spec :=
      if mask = [] ∨ "*".toList ∈ mask ∨ "labels".toList ∈ mask then
        { entry with labels := snapshot.labels }
      else entry
    pure (.snapshot spec, { d with snapshots := d.snapshots.insert snapshot.name spec })
  | .deleteSnapshot name => some do
    checkThere d.snapshots name
    pure (.done, { d with snapshots := d.snapshots.erase name })
  | .setIamPolicy resource policy =>
    let policy : IamPolicy :=
      { policy with
        etag := if policy.etag = [] then (env.uuid 0).text else policy.etag
        version := if policy.version = 0 then 1 else policy.version }
    some (.ok (.policy policy, { d with policies := d.policies.insert resource policy }))
  | .createSchema schema => some do
    checkName schema.name "/schemas/" "invalid schema name "
    validateDefinition serde schema
    checkNew d.schemas schema.name
    pure (.schema schema, { d with schemas := d.schemas.insert schema.name schema })
  | .deleteSchema name => some do
    checkThere d.schemas name
    pure (.done, { d with schemas := d.schemas.erase name })
  | _ => none

/-- **A call that reads resources.** -/
def read : BackendCall → Option (Except BackendError Answer)
  | .getTopic name => some ((lookUp d.topics name).map .topic)
  | .listTopics project pageSize pageToken =>
    some (.ok (.topics (listOfProject (·.name) (values d.topics) project pageSize pageToken)))
  | .listTopicSubscriptions topic pageSize pageToken => some do
    checkThere d.topics topic
    pure (.names (paginate (namesOfTopic d.subscriptions topic) pageSize pageToken))
  | .getSubscription name => some ((lookUp d.subscriptions name).map .subscription)
  | .listSubscriptions project pageSize pageToken =>
    some (.ok (.subscriptions
      (listOfProject (·.name) (values d.subscriptions) project pageSize pageToken)))
  | .getSnapshot name => some ((lookUp d.snapshots name).map .snapshot)
  | .listSnapshots project pageSize pageToken =>
    some (.ok (.snapshots (listOfProject (·.name) (values d.snapshots) project pageSize pageToken)))
  | .getIamPolicy resource => some (.ok (.policy (d.policies[resource]?.getD defaultPolicy)))
  | .testIamPermissions _ permissions => some (.ok (.permissions permissions))
  | .getSchema name => some ((lookUp d.schemas name).map .schema)
  | .listSchemas parent pageSize pageToken =>
    some (.ok (.schemas (listOfProject (·.name) (values d.schemas) parent pageSize pageToken)))
  | .validateSchema schema => some ((validateDefinition serde schema).map fun _ => .done)
  | .validateMessage schemaName schema message =>
    let checked := do
      validatePayload serde (← resolveSchema d.schemas schemaName schema) "JSON" message
    some (checked.map fun _ => .done)
  | _ => none

/-- **A call on resources**: what is answered, and the directory afterwards. A change that has
been made stays where the state file cannot be written. -/
def serve (s : Step) : Option (Except BackendError Answer × Directory) :=
  match d.change serde s.env s.call with
  | some (.ok (answer, d')) => some ((persistLocked s.env).map fun _ => answer, d')
  | some (.error e) => some (.error e, d)
  | none => (d.read serde s.call).map fun answer => (answer, d)

/-- The directory after a call. -/
def step (s : Step) : Directory := ((d.serve serde s).map Prod.snd).getD d

end Directory

end RelayPubsub.Memory
