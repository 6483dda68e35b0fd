import RelayPubsub.HttpRelay
import RelayPubsub.Memory.ControlPlane
import RelayPubsub.Memory.Inventory

/-!
# The HTTP backend over a run

`HttpRelayBackend` of `src/http_backend.rs` has two halves that do not know of each other. A call
on topics, on subscriptions or on messages is one request to Relay, and what comes back is the
answer (`RelayPubsub.HttpRelay.Exchange`). The other calls go to an in-memory backend of its
own, which starts empty, and which nothing ever tells of a topic or a subscription.

So that backend keeps schemas and policies, and stays without all else
(`RelayPubsub.HttpRelay.Bare`): a snapshot cannot be created, nor a push endpoint set, there
are no subscriptions to push to, and the inventory is empty. An update is a request that reads,
and answers what the caller has sent. `RelayPubsub.HttpRelay.two_halves` says this of every run,
whatever Relay answers.
-/

namespace RelayPubsub.HttpRelay

open Lib Memory

/-! ### Requests -/

inductive Method where
  | get
  | post
  | delete

/-- What a request carries, before it is written as JSON. -/
inductive Body where
  | topic (spec : TopicSpec)
  | subscription (spec : SubscriptionSpec)
  | publish (topic : Text) (messages : List NewMessage)
  | pull (subscription : Text) (maxMessages : UInt32)
  | ack (subscription : Text) (ackIds : List Text)
  | deadline (subscription : Text) (ackIds : List Text) (seconds : UInt32)
  | seek (subscription : Text) (time : Time)

structure Request where
  method : Method
  url : Text
  query : List (Text × Text)
  body : Option Body
  bearer : Option Text

/-- **One request to Relay**, and how its reply is answered. -/
structure Exchange (α : Type) where
  request : Request
  answer : RelayEvents.Reply → Except BackendError α

def Exchange.map {α β : Type} (f : α → β) (x : Exchange α) : Exchange β where
  request := x.request
  answer reply := (x.answer reply).map f

/-- What the backend takes from other crates: what it reads from the body of a reply, or the
text of the error. -/
structure Decoders where
  base : Crates
  topicFromJson : Text → Except Text TopicSpec
  topicsFromJson : Text → Except Text (List TopicSpec)
  subscriptionFromJson : Text → Except Text SubscriptionSpec
  /-- The field `message_ids`. -/
  publishResultFromJson : Text → Except Text (List Text)
  /-- The field `deliveries`. -/
  pullResultFromJson : Text → Except Text (List Delivery)
  /-- `String::from_utf8_lossy` -/
  fromUtf8Lossy : Bytes → Text

section Methods

variable (crates : Decoders) (backend : HttpRelayBackend)

def HttpRelayBackend.build (method : Method) (path : Text) (query : List (Text × Text))
    (body : Option Body) : Request where
  method := method
  url := backend.baseUrl ++ path
  query := query
  body := body
  bearer := backend.token

/-- `decode`, at any type. -/
def decodeAs {α : Type} (read : Text → Except Text α) : RelayEvents.Reply → Except BackendError α
  | .failure e => .error (.unavailable e)
  | .response status text =>
    if (RelayEvents.Reply.response status text).isSuccess then
      match read text with
      | .ok value => .ok value
      | .error e => .error (.internal e)
    else .error (statusError crates.base status text)

def empty : RelayEvents.Reply → Except BackendError Unit
  | .failure e => .error (.unavailable e)
  | .response status text =>
    if (RelayEvents.Reply.response status text).isSuccess then .ok ()
    else .error (statusError crates.base status text)

def createTopic (topic : TopicSpec) : Exchange TopicSpec where
  request := backend.build .post "/v1/topics" [] (some (.topic topic))
  answer := decodeAs crates crates.topicFromJson

def getTopic (name : Text) : Exchange TopicSpec where
  request := backend.build .get "/v1/topics/by-name" [("name", name)] none
  answer := decodeAs crates crates.topicFromJson

/-- The topic is read, and left as it is. -/
def updateTopic (topic : TopicSpec) (_updateMask : List Text) : Exchange TopicSpec :=
  (getTopic crates backend topic.name).map fun _ => topic

def listTopics (project : Text) (pageSize : Int32) (pageToken : Text) :
    Exchange (Page TopicSpec) where
  request := backend.build .get "/v1/topics" [("project", project)] none
  answer reply := (decodeAs crates crates.topicsFromJson reply).map fun items =>
    paginate items pageSize pageToken

def deleteTopic (name : Text) : Exchange Unit where
  request := backend.build .delete "/v1/topics/by-name" [("name", name)] none
  answer := empty crates

def createSubscription (subscription : SubscriptionSpec) : Exchange SubscriptionSpec where
  request := backend.build .post "/v1/subscriptions" [] (some (.subscription subscription))
  answer := decodeAs crates crates.subscriptionFromJson

def getSubscription (name : Text) : Exchange SubscriptionSpec where
  request := backend.build .get "/v1/subscriptions/by-name" [("name", name)] none
  answer := decodeAs crates crates.subscriptionFromJson

/-- The subscription is read, and left as it is. -/
def updateSubscription (subscription : SubscriptionSpec) (_updateMask : List Text) :
    Exchange SubscriptionSpec :=
  (getSubscription crates backend subscription.name).map fun _ => subscription

/-- `RelayPubsub.HttpRelay.listSubscriptions`, as an exchange. -/
def subscriptionsExchange (project : Text) (pageSize : Int32) (pageToken : Text) :
    Exchange (Page SubscriptionSpec) where
  request := backend.build .get "/v1/subscriptions" [("project", project)] none
  answer reply :=
    listSubscriptions crates.base backend (fun _ => reply) project pageSize pageToken

/-- `RelayPubsub.HttpRelay.listTopicSubscriptions`, as an exchange. -/
def topicSubscriptionsExchange (topic : Text) (pageSize : Int32) (pageToken : Text) :
    Exchange (Page Text) where
  request := (subscriptionsExchange crates backend (topicProject topic) 1000 []).request
  answer reply :=
    listTopicSubscriptions crates.base backend (fun _ => reply) topic pageSize pageToken

def deleteSubscription (name : Text) : Exchange Unit where
  request := backend.build .delete "/v1/subscriptions/by-name" [("name", name)] none
  answer := empty crates

def publish (topic : Text) (messages : List NewMessage) : Exchange (List Text) where
  request := backend.build .post "/v1/messages:publish" [] (some (.publish topic messages))
  answer := decodeAs crates crates.publishResultFromJson

def pull (subscription : Text) (maxMessages : UInt32) : Exchange (List Delivery) where
  request := backend.build .post "/v1/messages:pull" [] (some (.pull subscription maxMessages))
  answer := decodeAs crates crates.pullResultFromJson

def acknowledge (subscription : Text) (ackIds : List Text) : Exchange Unit where
  request := backend.build .post "/v1/messages:ack" [] (some (.ack subscription ackIds))
  answer := empty crates

def modifyAckDeadline (subscription : Text) (ackIds : List Text) (extension : UInt32) :
    Exchange Unit where
  request := backend.build .post "/v1/messages:modify-ack-deadline" []
    (some (.deadline subscription ackIds extension))
  answer := empty crates

def seekToTime (subscription : Text) (time : Time) : Exchange Unit where
  request := backend.build .post "/v1/subscriptions:seek" [] (some (.seek subscription time))
  answer := empty crates

/-! ### Calls -/

/-- What a call of the backend is answered. -/
inductive Answered where
  | resource (answer : Answer)
  | messageIds (ids : List Text)
  | deliveries (deliveries : List Delivery)
  | pushSubscriptions (subscriptions : List SubscriptionSpec)
  | inventory (report : InventoryReport)

/-- The exchange of a call; the other calls go to the local backend. -/
def exchange : BackendCall → Option (Exchange Answered)
  | .createTopic topic =>
    some ((createTopic crates backend topic).map fun spec => .resource (.topic spec))
  | .updateTopic topic mask =>
    some ((updateTopic crates backend topic mask).map fun spec => .resource (.topic spec))
  | .getTopic name => some ((getTopic crates backend name).map fun spec => .resource (.topic spec))
  | .listTopics project pageSize pageToken =>
    some ((listTopics crates backend project pageSize pageToken).map fun page =>
      .resource (.topics page))
  | .listTopicSubscriptions topic pageSize pageToken =>
    some ((topicSubscriptionsExchange crates backend topic pageSize pageToken).map fun page =>
      .resource (.names page))
  | .deleteTopic name => some ((deleteTopic crates backend name).map fun _ => .resource .done)
  | .createSubscription subscription =>
    some ((createSubscription crates backend subscription).map fun spec =>
      .resource (.subscription spec))
  | .updateSubscription subscription mask =>
    some ((updateSubscription crates backend subscription mask).map fun spec =>
      .resource (.subscription spec))
  | .getSubscription name =>
    some ((getSubscription crates backend name).map fun spec => .resource (.subscription spec))
  | .listSubscriptions project pageSize pageToken =>
    some ((subscriptionsExchange crates backend project pageSize pageToken).map fun page =>
      .resource (.subscriptions page))
  | .deleteSubscription name =>
    some ((deleteSubscription crates backend name).map fun _ => .resource .done)
  | .publish topic messages => some ((publish crates backend topic messages).map .messageIds)
  | .pull subscription maxMessages =>
    some ((pull crates backend subscription maxMessages).map .deliveries)
  | .acknowledge subscription ackIds =>
    some ((acknowledge crates backend subscription ackIds).map fun _ => .resource .done)
  | .modifyAckDeadline subscription ackIds extension =>
    some ((modifyAckDeadline crates backend subscription ackIds extension).map fun _ =>
      .resource .done)
  | .seekToTime subscription time =>
    some ((seekToTime crates backend subscription time).map fun _ => .resource .done)
  | _ => none

end Methods

/-- **A call of the backend**, with the order in which the local backend goes through its
subscriptions. -/
structure Event where
  step : Step
  order : List SubscriptionSpec → List SubscriptionSpec
  order_perm : ∀ l, (order l).Perm l

/-- The local backend has no state file. -/
def Event.localStep (e : Event) : Step := e.step.withFault none

/-- **The local backend, Relay, and what has been sent to it.** -/
structure World (σ : Type*) where
  store : State := {}
  relay : σ
  sent : List Request := []

section Run

variable {σ : Type*} (crates : Decoders) (backend : HttpRelayBackend)
  (send : Request → σ → RelayEvents.Reply × σ)

/-- The answer of the local backend. -/
def localAnswer (st : State) (e : Event) : Except BackendError Answered :=
  match e.step.call with
  | .seekToSnapshot subscription snapshot =>
    (seekToSnapshot e.localStep.env st subscription snapshot).1.map fun _ => .resource .done
  | .listPushSubscriptions => .ok (.pushSubscriptions (listPushSubscriptions st e.order))
  | .inventory project => .ok (.inventory (Memory.inventory crates.fromUtf8Lossy st project))
  | _ => ((controlAnswer crates.base.serde st e.localStep).getD (.ok .done)).map .resource

def World.answer (w : World σ) (e : Event) : Except BackendError Answered :=
  match exchange crates backend e.step.call with
  | some x => x.answer (send x.request w.relay).1
  | none => localAnswer crates w.store e

/-- **A call of the backend.** -/
def World.step (w : World σ) (e : Event) : World σ :=
  match exchange crates backend e.step.call with
  | some x => { w with relay := (send x.request w.relay).2, sent := w.sent ++ [x.request] }
  | none => { w with store := exec crates.base.serde w.store e.localStep }

/-- The calls that the local backend gets. -/
def localSteps (events : List Event) : List Step :=
  (events.filter fun e => (exchange crates backend e.step.call).isNone).map Event.localStep

/-- The request of a call. -/
def requestOf (call : BackendCall) : Option Request :=
  (exchange crates backend call).map (·.request)

/-- The requests that have been sent, one after another. -/
def relayed (relay : σ) (sent : List Request) : σ :=
  sent.foldl (fun relay request => (send request relay).2) relay

/-- **A store without topics, subscriptions and snapshots.** -/
structure Bare (st : State) : Prop where
  topics : st.topics = ∅
  subscriptions : st.subscriptions = ∅
  snapshots : st.snapshots = ∅

/-- **What is answered always the same**: the calls that need what the local backend never has. -/
def fixedAnswer : BackendCall → Option (Except BackendError Answered)
  | .modifyPushConfig subscription _ _ => some (.error (.notFound subscription))
  | .seekToSnapshot _ snapshot => some (.error (.notFound snapshot))
  | .createSnapshot name subscription _ => some do
    checkName name "/snapshots/" "invalid snapshot name "
    .error (.notFound subscription)
  | .updateSnapshot snapshot _ => some (.error (.notFound snapshot.name))
  | .getSnapshot name | .deleteSnapshot name => some (.error (.notFound name))
  | .listSnapshots _ _ _ => some (.ok (.resource (.snapshots ⟨[], []⟩)))
  | .listPushSubscriptions => some (.ok (.pushSubscriptions []))
  | .inventory _ => some (.ok (.inventory ⟨[], []⟩))
  | _ => none

/-- The call that an update amounts to. -/
def unmodified : BackendCall → BackendCall
  | .updateTopic topic _ => .getTopic topic.name
  | .updateSubscription subscription _ => .getSubscription subscription.name
  | call => call

def Event.unmodified (e : Event) : Event :=
  { e with step := { e.step with call := HttpRelay.unmodified e.step.call } }

section Steps

variable {crates backend} {st : State} {w : World σ} {e : Event}

theorem paginate_nil {α : Type} (pageSize : Int32) (pageToken : Text) :
    paginate ([] : List α) pageSize pageToken = ⟨[], []⟩ := by
  unfold paginate
  simp

theorem Bare.getElem?_subscriptions (h : Bare st) (name : Text) :
    st.subscriptions[name]? = none := by
  rw [h.subscriptions]
  exact Std.ExtTreeMap.getElem?_empty

theorem Bare.getElem?_snapshots (h : Bare st) (name : Text) : st.snapshots[name]? = none := by
  rw [h.snapshots]
  exact Std.ExtTreeMap.getElem?_empty

section Lacking

variable (h : Bare st) (env : Env) (name subscription : Text)
include h

theorem Bare.modifyPushConfig_eq (endpoint : Option Text) (attributes : StrMap Text) :
    modifyPushConfig env st name endpoint attributes = (.error (.notFound name), st) := by
  unfold modifyPushConfig
  rw [h.getElem?_subscriptions]

theorem Bare.seekToSnapshot_eq (snapshot : Text) :
    seekToSnapshot env st name snapshot = (.error (.notFound snapshot), st) := by
  unfold seekToSnapshot
  rw [h.getElem?_snapshots]

theorem Bare.createSnapshot_eq (labels : StrMap Text) :
    createSnapshot env st name subscription labels =
      ((checkName name "/snapshots/" "invalid snapshot name ").bind fun _ =>
        .error (.notFound subscription), st) := by
  unfold createSnapshot
  have hmem : name ∉ st.snapshots := by simpa using h.getElem?_snapshots name
  rw [h.getElem?_subscriptions, if_neg hmem]
  split_ifs with hname
  · rw [checkName_of_not hname]
    rfl
  · rw [checkName_of hname]
    rfl

theorem Bare.updateSnapshot_eq (snapshot : SnapshotSpec) (mask : List Text) :
    updateSnapshot env st snapshot mask = (.error (.notFound snapshot.name), st) := by
  unfold updateSnapshot
  rw [h.getElem?_snapshots]

theorem Bare.deleteSnapshot_eq : deleteSnapshot env st name = (.error (.notFound name), st) := by
  unfold deleteSnapshot
  have hmem : name ∉ st.snapshots := by simpa using h.getElem?_snapshots name
  rw [if_pos hmem]

end Lacking

/-- **A call of the local backend leaves it without topics, subscriptions and snapshots.** -/
theorem Bare.exec (h : Bare st) {s : Step} (hs : (exchange crates backend s.call).isNone) :
    Bare (exec crates.base.serde st s) := by
  obtain ⟨call, env⟩ := s
  unfold Memory.exec
  cases call with
  | modifyPushConfig name endpoint attributes =>
    dsimp only
    rwa [h.modifyPushConfig_eq]
  | seekToSnapshot name snapshot =>
    dsimp only
    rwa [h.seekToSnapshot_eq]
  | createSnapshot name subscription labels =>
    dsimp only
    rwa [h.createSnapshot_eq]
  | updateSnapshot snapshot mask =>
    dsimp only
    rwa [h.updateSnapshot_eq]
  | deleteSnapshot name =>
    dsimp only
    rwa [h.deleteSnapshot_eq]
  | setIamPolicy resource policy =>
    obtain ⟨hsubs, htopics, hsnapshots, -⟩ := setIamPolicy_frame env st resource policy
    exact ⟨htopics.trans h.topics, hsubs.trans h.subscriptions, hsnapshots.trans h.snapshots⟩
  | createSchema schema =>
    obtain ⟨hsubs, htopics, hsnapshots⟩ := @createSchema_frame crates.base.serde env st schema
    exact ⟨htopics.trans h.topics, hsubs.trans h.subscriptions, hsnapshots.trans h.snapshots⟩
  | deleteSchema name =>
    obtain ⟨hsubs, htopics, hsnapshots⟩ := deleteSchema_frame env st name
    exact ⟨htopics.trans h.topics, hsubs.trans h.subscriptions, hsnapshots.trans h.snapshots⟩
  | getSnapshot _ | listSnapshots _ _ _ | getIamPolicy _ | testIamPermissions _ _ | getSchema _
  | listSchemas _ _ _ | validateSchema _ | validateMessage _ _ _ | listPushSubscriptions
  | inventory _ => exact h
  | _ => cases hs

/-- **What such a store answers**, and that it stays as it is. -/
theorem Bare.fixed (h : Bare st) {a : Except BackendError Answered}
    (ha : fixedAnswer e.step.call = some a) :
    (exchange crates backend e.step.call).isNone ∧ localAnswer crates st e = a ∧
      Memory.exec crates.base.serde st e.localStep = st := by
  obtain ⟨⟨call, env⟩, order, horder⟩ := e
  unfold localAnswer Memory.exec
  cases call with
  | modifyPushConfig name endpoint attributes =>
    obtain rfl := Option.some.inj ha
    refine ⟨rfl, ?_, congrArg Prod.snd (h.modifyPushConfig_eq _ name endpoint attributes)⟩
    exact congrArg (fun r => (r.1.map fun _ => Answer.done).map Answered.resource)
      (h.modifyPushConfig_eq (env.withFault none) name endpoint attributes)
  | seekToSnapshot name snapshot =>
    obtain rfl := Option.some.inj ha
    refine ⟨rfl, ?_, congrArg Prod.snd (h.seekToSnapshot_eq _ name snapshot)⟩
    exact congrArg (fun r => r.1.map fun _ => Answered.resource .done)
      (h.seekToSnapshot_eq (env.withFault none) name snapshot)
  | createSnapshot name subscription labels =>
    obtain rfl := Option.some.inj ha
    refine ⟨rfl, ?_, congrArg Prod.snd (h.createSnapshot_eq _ name subscription labels)⟩
    refine (congrArg (fun r => (r.1.map fun s => Answer.snapshot (visible s)).map Answered.resource)
      (h.createSnapshot_eq (env.withFault none) name subscription labels)).trans ?_
    rcases checkName name "/snapshots/" "invalid snapshot name " with e | ⟨⟩ <;> rfl
  | updateSnapshot snapshot mask =>
    obtain rfl := Option.some.inj ha
    refine ⟨rfl, ?_, congrArg Prod.snd (h.updateSnapshot_eq _ snapshot mask)⟩
    exact congrArg (fun r => (r.1.map fun s => Answer.snapshot (visible s)).map Answered.resource)
      (h.updateSnapshot_eq (env.withFault none) snapshot mask)
  | deleteSnapshot name =>
    obtain rfl := Option.some.inj ha
    refine ⟨rfl, ?_, congrArg Prod.snd (h.deleteSnapshot_eq _ name)⟩
    exact congrArg (fun r => (r.1.map fun _ => Answer.done).map Answered.resource)
      (h.deleteSnapshot_eq (env.withFault none) name)
  | getSnapshot name =>
    obtain rfl := Option.some.inj ha
    refine ⟨rfl, ?_, rfl⟩
    change ((Memory.getSnapshot st name).map _).map _ = _
    unfold Memory.getSnapshot
    rw [h.getElem?_snapshots]
    rfl
  | listSnapshots project pageSize pageToken =>
    obtain rfl := Option.some.inj ha
    refine ⟨rfl, ?_, rfl⟩
    have hpage : Memory.listSnapshots st project pageSize pageToken = ⟨[], []⟩ := by
      have hitems : values st.snapshots = [] := by simp [values, h.snapshots]
      rw [Memory.listSnapshots, hitems, listOfProject, List.filter_nil]
      simp [sortByName, paginate_nil]
    change Except.ok (Answered.resource (.snapshots _)) = _
    rw [hpage]
    rfl
  | listPushSubscriptions =>
    obtain rfl := Option.some.inj ha
    refine ⟨rfl, ?_, rfl⟩
    have hnone : Memory.listPushSubscriptions st order = [] := by
      rw [Memory.listPushSubscriptions, h.subscriptions]
      exact List.perm_nil.mp (horder [])
    dsimp only
    rw [hnone]
  | inventory project =>
    obtain rfl := Option.some.inj ha
    refine ⟨rfl, ?_, rfl⟩
    have hempty : Memory.inventory crates.fromUtf8Lossy st project = ⟨[], []⟩ := by
      have htopics : st.topics.toList = [] := by simp [h.topics]
      have hsubs : st.subscriptions.toList = [] := by simp [h.subscriptions]
      simp [Memory.inventory, inventorySubscriptions, htopics, hsubs, sortByName]
    dsimp only
    rw [hempty]
  | _ => cases ha

theorem store_step (w : World σ) (e : Event) :
    (w.step crates backend send e).store =
      if (exchange crates backend e.step.call).isNone then
        Memory.exec crates.base.serde w.store e.localStep
      else w.store := by
  unfold World.step
  rcases exchange crates backend e.step.call with - | x <;> rfl

theorem localSteps_concat (events : List Event) (e : Event) :
    localSteps crates backend (events ++ [e]) = localSteps crates backend events ++
      if (exchange crates backend e.step.call).isNone then [e.localStep] else [] := by
  unfold localSteps
  rw [List.filter_append, List.map_append, List.filter_singleton]
  rcases exchange crates backend e.step.call with - | x <;> rfl

/-- An update is the same request as what it amounts to. -/
theorem step_unmodified (w : World σ) (e : Event) :
    w.step crates backend send e.unmodified = w.step crates backend send e := by
  obtain ⟨⟨call, env⟩, order, horder⟩ := e
  cases call <;> rfl

end Steps

/-! ### Runs -/

section Runs

variable {crates backend send} {relay : σ}

theorem sent_run (w : World σ) (events : List Event) :
    (Machine.run (World.step crates backend send) w events).sent =
        w.sent ++ events.filterMap (fun e => requestOf crates backend e.step.call) ∧
      (Machine.run (World.step crates backend send) w events).relay =
        relayed send w.relay (events.filterMap fun e => requestOf crates backend e.step.call) := by
  induction events generalizing w with
  | nil => exact ⟨(List.append_nil _).symm, rfl⟩
  | cons e events ih =>
    obtain ⟨hsent, hrelay⟩ := ih (w.step crates backend send e)
    rw [Machine.run_cons, hsent, hrelay, List.filterMap_cons]
    unfold World.step requestOf
    rcases exchange crates backend e.step.call with - | x
    · exact ⟨rfl, rfl⟩
    · exact ⟨List.append_assoc _ _ _, rfl⟩

theorem store_run (events : List Event) :
    (Machine.run (World.step crates backend send) ⟨{}, relay, []⟩ events).store =
      stateAfter crates.base.serde (localSteps crates backend events) := by
  induction events using List.reverseRecOn with
  | nil => rfl
  | append_singleton events e ih =>
    rw [Machine.run_concat, store_step, ih, localSteps_concat]
    split_ifs
    · exact (stateAfter_concat _ _).symm
    · rw [List.append_nil]

theorem bare_run (events : List Event) :
    Bare (stateAfter crates.base.serde (localSteps crates backend events)) := by
  induction events using List.reverseRecOn with
  | nil => exact ⟨rfl, rfl, rfl⟩
  | append_singleton events e ih =>
    rw [localSteps_concat]
    split_ifs with hlocal
    · rw [stateAfter_concat]
      exact ih.exec hlocal
    · rwa [List.append_nil]

end Runs

end Run

/-- **The backend has two halves**, in every run, whatever Relay answers. Relay has received one
request for each call on topics, subscriptions or messages, and no other; an update has sent
what a read sends, so the run is that in which it is one. The local backend is in the state
that the other calls have made, and has no topics, subscriptions or snapshots: what needs them
is refused or empty, always. -/
theorem two_halves {σ : Type*} (crates : Decoders) (backend : HttpRelayBackend)
    (send : Request → σ → RelayEvents.Reply × σ) (relay : σ) (events : List Event) :
    let w := Machine.run (World.step crates backend send) ⟨{}, relay, []⟩ events
    w.sent = events.filterMap (fun e => requestOf crates backend e.step.call) ∧
    w.relay = relayed send relay w.sent ∧
    Machine.run (World.step crates backend send) ⟨{}, relay, []⟩ (events.map Event.unmodified) =
      w ∧
    w.store = stateAfter crates.base.serde (localSteps crates backend events) ∧
    Bare w.store ∧
    ∀ (e : Event) (a : Except BackendError Answered), fixedAnswer e.step.call = some a →
      w.answer crates backend send e = a ∧ w.step crates backend send e = w := by
  intro w
  obtain ⟨hsent, hrelay⟩ := @sent_run σ crates backend send ⟨{}, relay, []⟩ events
  have hstore : w.store = stateAfter crates.base.serde (localSteps crates backend events) :=
    store_run events
  have hbare : Bare w.store := hstore ▸ bare_run events
  refine ⟨hsent, hrelay.trans (congrArg _ hsent.symm), ?_, hstore, hbare, fun e a ha => ?_⟩
  · unfold Machine.run
    rw [List.foldl_map]
    simp only [step_unmodified]
    rfl
  · obtain ⟨hlocal, hanswer, hexec⟩ := @Bare.fixed crates backend w.store e hbare a ha
    have hnone := Option.isNone_iff_eq_none.mp hlocal
    unfold World.answer World.step
    rw [hnone]
    exact ⟨hanswer, congrArg (fun store => { w with store }) hexec⟩

end RelayPubsub.HttpRelay
