import RelayPubsub.Auth
import RelayPubsub.Rest.Decode

/-!
# Dispatching REST requests

`google_dispatch` of `src/rest.rs` and the handlers it calls, up to the backend
call: a request is answered without one (`RelayPubsub.Rest.Response`), or leads
to one call, made for a resource whose name the handler has derived from the path
(`RelayPubsub.Rest.Dispatched`). What is answered after the call is a rendering
of the backend's answer.

The path is decomposed twice. `RelayPubsub.Rest.authResourceForPath` finds the
resource the caller is authorized for, and `RelayPubsub.Rest.dispatch` the
handler and the resource it acts on.
-/

namespace RelayPubsub.Rest

open Lib

inductive Method where
  | get
  | post
  | put
  | patch
  | delete
  | other
  deriving DecidableEq

/-! ### Authorization -/

/-- `ends_with` -/
abbrev EndsWith (path suffix : Text) : Prop := suffix <:+ path

/-- **The resource a request is authorized for.** -/
def authResourceForPath (path : Text) (body : Value) : Text :=
  match splitOnce ':' path with
  | some (resource, _) => resource
  | none =>
    let project : Option Text :=
      if EndsWith path "/topics" ∨ EndsWith path "/subscriptions" ∨ EndsWith path "/snapshots" then
        (path.dropPrefix? "projects/".toList).bind fun p => (p.splitOn '/').head?
      else none
    match project with
    | some project => "projects/".toList ++ project
    | none =>
      if "/topics/".toList <:+: path ∧ EndsWith path "/subscriptions" then
        trimEndMatches "/subscriptions".toList path
      else
        let parent : Option Text :=
          if "/schemas".toList <:+: path then
            ((path.splitOn ':').head?).filter fun parent => EndsWith parent "/schemas"
          else none
        match parent with
        | some parent => parent
        | none => (body.getStr "resource").getD path

/-- The check of the caller, when there is an authenticator: `authenticated` is
what `authenticate_bearer` makes of the request's header. -/
def authorize (authenticated : Option (Except Text AuthContext)) (resource : Text) :
    Except Response Unit :=
  match authenticated with
  | none => .ok ()
  | some (.error message) => .error (.error 401 message "UNAUTHENTICATED")
  | some (.ok ctx) =>
    match authorizeResource ctx resource with
    | .error message => .error (.error 403 message "PERMISSION_DENIED")
    | .ok () => .ok ()

/-! ### Handlers -/

/-- A backend call, and the resource name derived from the path of the request. -/
structure Dispatched where
  resource : Text
  call : BackendCall

section Handlers

variable (codecs : Codecs) (path : Text) (value : Value)

def handlePublish : Except Response Dispatched :=
  let topic := trimEndMatches ":publish".toList path
  (parseMessages codecs value).map fun messages => ⟨topic, .publish topic messages⟩

def handlePull : Except Response Dispatched :=
  let subscription := trimEndMatches ":pull".toList path
  let n := ((value.get "maxMessages").bind Value.asU64).getD 1
  let max := if n < 1 then 1 else if 1000 < n then 1000 else n
  .ok ⟨subscription, .pull subscription max.toUInt32⟩

def handleAcknowledge : Except Response Dispatched :=
  let subscription := trimEndMatches ":acknowledge".toList path
  .ok ⟨subscription, .acknowledge subscription (parseStrings value "ackIds")⟩

def handleModifyAckDeadline : Except Response Dispatched :=
  let subscription := trimEndMatches ":modifyAckDeadline".toList path
  let ackIds := parseStrings value "ackIds"
  let seconds := ((value.get "ackDeadlineSeconds").bind Value.asU64).getD 0
  if 600 < seconds then .error (badRequest "ackDeadlineSeconds must be <= 600")
  else .ok ⟨subscription, .modifyAckDeadline subscription ackIds seconds.toUInt32⟩

def handleSeek : Except Response Dispatched :=
  let subscription := trimEndMatches ":seek".toList path
  match value.getStr "snapshot" with
  | some snapshot => .ok ⟨subscription, .seekToSnapshot subscription snapshot⟩
  | none =>
    match (value.getStr "time").bind codecs.parseFromRfc3339 with
    | some time => .ok ⟨subscription, .seekToTime subscription time⟩
    | none => .error (badRequest "time or snapshot is required")

def handleModifyPushConfig : Except Response Dispatched :=
  let subscription := trimEndMatches ":modifyPushConfig".toList path
  let (pushEndpoint, pushAttributes) := parsePushConfig value
  .ok ⟨subscription, .modifyPushConfig subscription pushEndpoint pushAttributes⟩

def handleGetIamPolicy : Except Response Dispatched :=
  let resource := trimEndMatches ":getIamPolicy".toList path
  .ok ⟨resource, .getIamPolicy resource⟩

def handleSetIamPolicy : Except Response Dispatched :=
  let resource := trimEndMatches ":setIamPolicy".toList path
  .ok ⟨resource, .setIamPolicy resource (policyFromValue ((value.get "policy").getD value))⟩

def handleTestIamPermissions : Except Response Dispatched :=
  let resource := trimEndMatches ":testIamPermissions".toList path
  .ok ⟨resource, .testIamPermissions resource (parseStrings value "permissions")⟩

def handleValidateSchema : Except Response Dispatched :=
  let parent := trimEndMatches ":validate".toList path
  let schemaBody := (value.get "schema").getD value
  let name := (schemaBody.getStr "name").getD parent
  .ok ⟨parent, .validateSchema (schemaSpecFromValue name schemaBody)⟩

def handleValidateMessage : Except Response Dispatched :=
  let parent := trimEndMatches ":validateMessage".toList path
  match codecs.base64Decode ((value.getStr "message").getD []) with
  | none => .error (badRequest "message must be base64")
  | some message =>
    match (value.get "schema").bind fun v => v.getStr "name" with
    | some name => .ok ⟨parent, .validateMessage (some name) none message⟩
    | none =>
      match value.get "schema" with
      | some schemaBody =>
        .ok ⟨parent, .validateMessage none (some (schemaSpecFromValue parent schemaBody)) message⟩
      | none => .error (badRequest "schema or schema.name is required")

/-- The snapshot of a `PATCH` request; `now` is the clock, for an expiry time that
is absent or no timestamp. -/
def snapshotSpecFromValue (now : Time) (name : Text) : SnapshotSpec where
  name := nameFromValue name value
  topic := (value.getStr "topic").getD []
  expireTime := ((value.getStr "expireTime").bind codecs.parseFromRfc3339).getD now
  labels := parseLabels value
  topicIndex := 0

/-- The requests on resources themselves, by the segments of the path. -/
def handleResourceRequest (now : Time) (method : Method) (query : Text) :
    Except Response Dispatched :=
  let parts := path.splitOn '/'
  match parts with
  | first :: id :: kind :: more =>
    if first ≠ "projects".toList then .error (notFound "unknown Pub/Sub REST path")
    else
      let project := "projects/".toList ++ id
      let pageSize := pageSizeFromQuery query
      let pageToken := pageTokenFromQuery query
      let updateMask := parseUpdateMask value (queryParam query "updateMask")
      if more = [] ∧ kind = "topics".toList ∧ method = .get then
        .ok ⟨project, .listTopics project pageSize pageToken⟩
      else if more = [] ∧ kind = "subscriptions".toList ∧ method = .get then
        .ok ⟨project, .listSubscriptions project pageSize pageToken⟩
      else if more = [] ∧ kind = "snapshots".toList ∧ method = .get then
        .ok ⟨project, .listSnapshots project pageSize pageToken⟩
      else if more = [] ∧ kind = "schemas".toList ∧ method = .get then
        .ok ⟨project, .listSchemas project pageSize pageToken⟩
      else if more.length = 2 ∧ kind = "topics".toList ∧ more[1]? = some "subscriptions".toList ∧
          method = .get then
        let topic := trimEndMatches "/subscriptions".toList path
        .ok ⟨topic, .listTopicSubscriptions topic pageSize pageToken⟩
      else if more.length = 1 ∧ kind = "topics".toList then
        match method with
        | .put => .ok ⟨path, .createTopic (topicSpecFromValue path value)⟩
        | .patch => .ok ⟨path, .updateTopic (topicSpecFromValue path value) updateMask⟩
        | .get => .ok ⟨path, .getTopic path⟩
        | .delete => .ok ⟨path, .deleteTopic path⟩
        | _ => .error .methodNotAllowed
      else if more.length = 1 ∧ kind = "subscriptions".toList then
        match method with
        | .put =>
          (subscriptionSpecFromValue path value).map fun spec => ⟨path, .createSubscription spec⟩
        | .patch =>
          (subscriptionSpecFromValue path value).map fun spec =>
            ⟨path, .updateSubscription spec updateMask⟩
        | .get => .ok ⟨path, .getSubscription path⟩
        | .delete => .ok ⟨path, .deleteSubscription path⟩
        | _ => .error .methodNotAllowed
      else if more.length = 1 ∧ kind = "snapshots".toList then
        match method with
        | .put =>
          match value.getStr "subscription" with
          | none => .error (badRequest "subscription is required")
          | some subscription =>
            .ok ⟨path, .createSnapshot path subscription (parseLabels value)⟩
        | .patch =>
          .ok ⟨path, .updateSnapshot (snapshotSpecFromValue codecs value now path) updateMask⟩
        | .get => .ok ⟨path, .getSnapshot path⟩
        | .delete => .ok ⟨path, .deleteSnapshot path⟩
        | _ => .error .methodNotAllowed
      else if more.length = 1 ∧ kind = "schemas".toList then
        match method with
        | .put => .ok ⟨path, .createSchema (schemaSpecFromValue path value)⟩
        | .get => .ok ⟨path, .getSchema path⟩
        | .delete => .ok ⟨path, .deleteSchema path⟩
        | _ => .error .methodNotAllowed
      else .error (notFound "unknown Pub/Sub REST path")
  | _ => .error (notFound "unknown Pub/Sub REST path")

/-- **The handler of a request**, once it is authorized. -/
def dispatch (now : Time) (method : Method) (query : Text) : Except Response Dispatched :=
  if method = .post ∧ EndsWith path ":publish" then handlePublish codecs path value
  else if method = .post ∧ EndsWith path ":pull" then handlePull path value
  else if method = .post ∧ EndsWith path ":acknowledge" then handleAcknowledge path value
  else if method = .post ∧ EndsWith path ":modifyAckDeadline" then
    handleModifyAckDeadline path value
  else if method = .post ∧ EndsWith path ":seek" then handleSeek codecs path value
  else if method = .post ∧ EndsWith path ":modifyPushConfig" then handleModifyPushConfig path value
  else if method = .post ∧ EndsWith path ":getIamPolicy" then handleGetIamPolicy path
  else if method = .post ∧ EndsWith path ":setIamPolicy" then handleSetIamPolicy path value
  else if method = .post ∧ EndsWith path ":testIamPermissions" then
    handleTestIamPermissions path value
  else if method = .post ∧ EndsWith path ":validate" then handleValidateSchema path value
  else if method = .post ∧ EndsWith path ":validateMessage" then
    handleValidateMessage codecs path value
  else handleResourceRequest codecs path value now method query

end Handlers

/-- A request as the router hands it over. -/
structure Request where
  method : Method
  /-- `uri.path()` -/
  uriPath : Text
  /-- `uri.query().unwrap_or("")` -/
  query : Text
  body : Bytes

/-- **`google_dispatch`**, up to the backend call. -/
def googleDispatch (codecs : Codecs) (now : Time)
    (authenticated : Option (Except Text AuthContext)) (request : Request) :
    Except Response Dispatched :=
  let path := trimStartMatches "/v1/".toList request.uriPath
  let decoded : Except Text Value :=
    if request.body = [] then .ok (.object []) else codecs.serde.fromSlice request.body
  match decoded with
  | .error e => .error (badRequest ("invalid json: " ++ e))
  | .ok value =>
    match authorize authenticated (authResourceForPath path value) with
    | .error response => .error response
    | .ok () => dispatch codecs path value now request.method request.query

end RelayPubsub.Rest
