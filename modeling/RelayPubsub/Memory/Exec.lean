import RelayPubsub.Backend
import RelayPubsub.Lib.Machine
import RelayPubsub.Memory.Acknowledge
import RelayPubsub.Memory.Resources

/-!
# Runs of the in-memory backend

A run is a list of backend calls, each with what it reads from outside
(`RelayPubsub.Memory.Step`), and random identifiers that are drawn nowhere twice
(`RelayPubsub.Memory.Run`). `RelayPubsub.Memory.exec` is the state after one
step, whatever the call answers.

What a run did to *one* subscription is said by `RelayPubsub.Memory.Touch`, the
inversion of `exec` that every invariant of a subscription is derived from; and
what it did to one topic by `RelayPubsub.Memory.TopicTouch`.
-/

namespace RelayPubsub.Memory

open Lib

/-- A call, and what it reads from outside. -/
structure Step where
  call : BackendCall
  env : Env

/-- The two steps draw no random identifier in common. -/
def Step.Apart (s t : Step) : Prop := ∀ m n, (s.env.uuid m).text ≠ (t.env.uuid n).text

/-- **A run**: the steps one after another, no random identifier drawn twice. -/
structure Run where
  steps : List Step
  fresh : steps.Pairwise Step.Apart

/-- A call made at a given time, as the `k`-th step: the clock stands still
during the call, and the state file can be written. -/
def Step.numbered (call : Time × BackendCall) (k : ℕ) : Step where
  call := call.2
  env :=
    { now := fun _ => call.1
      uuid := Uuid.numbered k
      uuid_inj := fun h => (Uuid.numbered_injective h).2
      iter := id
      iter_perm := fun _ => .refl _
      persistFault := none }

/-- **Any list of calls is a run.** -/
def Run.ofCalls (calls : List (Time × BackendCall)) : Run where
  steps := calls.mapIdx fun k call => Step.numbered call k
  fresh := by
    rw [List.pairwise_iff_getElem]
    intro i j hi hj hij m n h
    simp only [List.getElem_mapIdx, Step.numbered] at h
    exact absurd (Uuid.numbered_injective h).1 (Nat.ne_of_lt hij)

/-! ### A store to run small examples on -/

/-- A JSON parser for the empty text, which is no JSON. -/
def noJson : SerdeJson where
  fromSlice _ := .error "EOF while parsing a value at line 1 column 0"
  fromStr _ := .error "EOF while parsing a value at line 1 column 0"

def sampleTopic : TopicSpec where
  name := "projects/p/topics/t"

def sampleSubscription : SubscriptionSpec where
  name := "projects/p/subscriptions/s"
  topic := sampleTopic.name
  ackDeadlineSeconds := 10

/-- An empty message with an ordering key. -/
def sampleMessage (key : Text) : NewMessage where
  data := []
  orderingKey := key

/-! ### Steps -/

variable (serde : SerdeJson)

/-- **The state after a step**, whatever the call answers. The calls that only
read take the lock for reading and leave the state as it is. -/
def exec (st : State) (s : Step) : State :=
  match s.call with
  | .createTopic topic => (createTopic s.env st topic).2
  | .updateTopic topic mask => (updateTopic s.env st topic mask).2
  | .deleteTopic name => (deleteTopic s.env st name).2
  | .createSubscription spec => (createSubscription s.env st spec).2
  | .updateSubscription spec mask => (updateSubscription s.env st spec mask).2
  | .deleteSubscription name => (deleteSubscription s.env st name).2
  | .modifyPushConfig name endpoint attributes =>
    (modifyPushConfig s.env st name endpoint attributes).2
  | .publish topic messages => (publish serde s.env st topic messages).2
  | .pull name maxMessages => (pull s.env st name maxMessages).2
  | .acknowledge name ackIds => (acknowledge s.env st name ackIds).2
  | .modifyAckDeadline name ackIds extension => (modifyAckDeadline s.env st name ackIds extension).2
  | .seekToTime name time => (seekToTime s.env st name time).2
  | .seekToSnapshot name snapshot => (seekToSnapshot s.env st name snapshot).2
  | .createSnapshot name subscription labels => (createSnapshot s.env st name subscription labels).2
  | .updateSnapshot snapshot mask => (updateSnapshot s.env st snapshot mask).2
  | .deleteSnapshot name => (deleteSnapshot s.env st name).2
  | .setIamPolicy resource policy => (setIamPolicy s.env st resource policy).2
  | .createSchema schema => (createSchema serde s.env st schema).2
  | .deleteSchema name => (deleteSchema s.env st name).2
  | .getTopic _ | .listTopics _ _ _ | .listTopicSubscriptions _ _ _ | .getSubscription _
  | .listSubscriptions _ _ _ | .getSnapshot _ | .listSnapshots _ _ _ | .getIamPolicy _
  | .testIamPermissions _ _ | .getSchema _ | .listSchemas _ _ _ | .validateSchema _
  | .validateMessage _ _ _ | .listPushSubscriptions | .inventory _ => st

/-! ### One subscription along a run -/

/-- The index a seek on `name` sets the cursor to, when the step is one that
takes effect. -/
def seekTarget (name : Text) (st : State) (s : Step) : Option ℕ :=
  match s.call with
  | .seekToTime subscription time =>
    if subscription = name then
      st.subscriptions[name]?.bind fun sub =>
        st.topics[sub.spec.topic]?.map fun topic => seekIndex topic.messages time
    else none
  | .seekToSnapshot subscription snapshot =>
    if subscription = name then
      st.snapshots[snapshot]?.bind fun snap =>
        st.subscriptions[name]?.bind fun sub =>
          if sub.spec.topic = snap.topic then some snap.topicIndex else none
    else none
  | _ => none

/-- The leases a step hands out on `name`: the ack ids of the messages a pull
delivers, each with its topic index. The leases are in the store even when the
state file cannot be written and the caller is answered an error. -/
def granted (name : Text) (st : State) (s : Step) : List (Text × ℕ) :=
  match s.call with
  | .pull subscription maxMessages =>
    if subscription = name then
      match st.subscriptions[name]? with
      | none => []
      | some sub =>
        match st.topics[sub.spec.topic]? with
        | none => []
        | some topic =>
          match pullFrom s.env name maxMessages sub st.topics topic.messages.length with
          | .finished p => p.deliveries.map fun d => (d.2.ackId, d.1)
          | .panicked _ => []
    else []
  | _ => []

/-- **A state, watched from the point of view of one subscription**: its cursor
right after its creation or its last seek, and the ack ids handed out since its
creation, each with the topic index leased under it. -/
structure Watched where
  state : State := {}
  base : ℕ := 0
  issued : List (Text × ℕ) := []

/-- One step of a watched run. -/
def Watched.step (name : Text) (w : Watched) (s : Step) : Watched :=
  let st := exec serde w.state s
  match w.state.subscriptions[name]?, st.subscriptions[name]? with
  | none, some sub => { state := st, base := sub.nextIndex, issued := [] }
  | _, _ =>
    { state := st
      base := (seekTarget name w.state s).getD w.base
      issued := w.issued ++ granted name w.state s }

/-- **The watched run** from the empty store. -/
def watch (name : Text) (steps : List Step) : Watched :=
  Machine.run (Watched.step serde name) {} steps

/-- The store after a run. -/
def stateAfter (steps : List Step) : State := Machine.run (exec serde) {} steps

variable {serde}

@[simp] theorem Watched.step_state (name : Text) (w : Watched) (s : Step) :
    (w.step serde name s).state = exec serde w.state s := by
  simp only [Watched.step]
  split <;> rfl

/-- Watching a run does not change it. -/
theorem run_watched_state (name : Text) (w : Watched) (steps : List Step) :
    (Machine.run (Watched.step serde name) w steps).state =
      Machine.run (exec serde) w.state steps := by
  induction steps generalizing w with
  | nil => rfl
  | cons s steps ih => simp [ih]

@[simp] theorem watch_state (name : Text) (steps : List Step) :
    (watch serde name steps).state = stateAfter serde steps :=
  run_watched_state name {} steps

theorem watch_concat (name : Text) (steps : List Step) (s : Step) :
    watch serde name (steps ++ [s]) = (watch serde name steps).step serde name s :=
  Machine.run_concat _ _ _ _

theorem stateAfter_concat (steps : List Step) (s : Step) :
    stateAfter serde (steps ++ [s]) = exec serde (stateAfter serde steps) s :=
  Machine.run_concat _ _ _ _

/-! ### What an operation leaves alone -/

@[simp] theorem answer_snd {α : Type} (env : Env) (value : α) (st : State) :
    (answer env value st).2 = st := by
  unfold answer
  split <;> rfl

section Frames

variable (env : Env) (st : State)

@[simp] theorem createTopic_frame (topic : TopicSpec) :
    (createTopic env st topic).2.subscriptions = st.subscriptions ∧
      (createTopic env st topic).2.snapshots = st.snapshots ∧
      (createTopic env st topic).2.schemas = st.schemas := by
  unfold createTopic
  split_ifs <;> simp

@[simp] theorem updateTopic_frame (topic : TopicSpec) (mask : List Text) :
    (updateTopic env st topic mask).2.subscriptions = st.subscriptions ∧
      (updateTopic env st topic mask).2.snapshots = st.snapshots ∧
      (updateTopic env st topic mask).2.schemas = st.schemas := by
  unfold updateTopic
  split <;> simp

@[simp] theorem deleteTopic_frame (name : Text) :
    (deleteTopic env st name).2.subscriptions = st.subscriptions ∧
      (deleteTopic env st name).2.snapshots = st.snapshots ∧
      (deleteTopic env st name).2.schemas = st.schemas := by
  unfold deleteTopic
  split_ifs <;> simp

@[simp] theorem createSubscription_frame (spec : SubscriptionSpec) :
    (createSubscription env st spec).2.topics = st.topics ∧
      (createSubscription env st spec).2.snapshots = st.snapshots ∧
      (createSubscription env st spec).2.schemas = st.schemas := by
  unfold createSubscription
  split
  · simp
  split
  · simp
  split
  · simp
  split <;> simp

@[simp] theorem updateSubscription_frame (spec : SubscriptionSpec) (mask : List Text) :
    (updateSubscription env st spec mask).2.topics = st.topics ∧
      (updateSubscription env st spec mask).2.snapshots = st.snapshots ∧
      (updateSubscription env st spec mask).2.schemas = st.schemas := by
  unfold updateSubscription
  split
  · simp
  split <;> simp

@[simp] theorem deleteSubscription_frame (name : Text) :
    (deleteSubscription env st name).2.topics = st.topics ∧
      (deleteSubscription env st name).2.snapshots = st.snapshots ∧
      (deleteSubscription env st name).2.schemas = st.schemas := by
  unfold deleteSubscription
  split_ifs <;> simp

@[simp] theorem modifyPushConfig_frame (name : Text) (endpoint : Option Text)
    (attributes : StrMap Text) :
    (modifyPushConfig env st name endpoint attributes).2.topics = st.topics ∧
      (modifyPushConfig env st name endpoint attributes).2.snapshots = st.snapshots ∧
      (modifyPushConfig env st name endpoint attributes).2.schemas = st.schemas := by
  unfold modifyPushConfig
  split <;> simp

@[simp] theorem publish_frame (topic : Text) (messages : List NewMessage) :
    (publish serde env st topic messages).2.subscriptions = st.subscriptions ∧
      (publish serde env st topic messages).2.snapshots = st.snapshots ∧
      (publish serde env st topic messages).2.schemas = st.schemas := by
  unfold publish
  split
  · simp
  split <;> simp

@[simp] theorem pull_frame (name : Text) (maxMessages : UInt32) :
    (pull env st name maxMessages).2.snapshots = st.snapshots ∧
      (pull env st name maxMessages).2.schemas = st.schemas := by
  unfold pull
  split
  · simp
  split
  · simp
  split <;> simp

@[simp] theorem acknowledge_frame (name : Text) (ackIds : List Text) :
    (acknowledge env st name ackIds).2.topics = st.topics ∧
      (acknowledge env st name ackIds).2.snapshots = st.snapshots ∧
      (acknowledge env st name ackIds).2.schemas = st.schemas := by
  unfold acknowledge
  split
  · simp
  dsimp only
  split <;> simp

@[simp] theorem modifyAckDeadline_frame (name : Text) (ackIds : List Text) (extension : UInt32) :
    (modifyAckDeadline env st name ackIds extension).2.topics = st.topics ∧
      (modifyAckDeadline env st name ackIds extension).2.snapshots = st.snapshots ∧
      (modifyAckDeadline env st name ackIds extension).2.schemas = st.schemas := by
  unfold modifyAckDeadline
  split
  · simp
  split <;> simp

@[simp] theorem seekToTime_frame (name : Text) (time : Time) :
    (seekToTime env st name time).2.topics = st.topics ∧
      (seekToTime env st name time).2.snapshots = st.snapshots ∧
      (seekToTime env st name time).2.schemas = st.schemas := by
  unfold seekToTime
  split
  · simp
  split <;> simp

@[simp] theorem seekToSnapshot_frame (name snapshot : Text) :
    (seekToSnapshot env st name snapshot).2.topics = st.topics ∧
      (seekToSnapshot env st name snapshot).2.snapshots = st.snapshots ∧
      (seekToSnapshot env st name snapshot).2.schemas = st.schemas := by
  unfold seekToSnapshot
  split
  · simp
  split
  · simp
  split <;> simp

@[simp] theorem createSnapshot_frame (name subscription : Text) (labels : StrMap Text) :
    (createSnapshot env st name subscription labels).2.subscriptions = st.subscriptions ∧
      (createSnapshot env st name subscription labels).2.topics = st.topics ∧
      (createSnapshot env st name subscription labels).2.schemas = st.schemas := by
  unfold createSnapshot
  split
  · simp
  split
  · simp
  split <;> simp

@[simp] theorem updateSnapshot_frame (snapshot : SnapshotSpec) (mask : List Text) :
    (updateSnapshot env st snapshot mask).2.subscriptions = st.subscriptions ∧
      (updateSnapshot env st snapshot mask).2.topics = st.topics ∧
      (updateSnapshot env st snapshot mask).2.schemas = st.schemas := by
  unfold updateSnapshot
  split
  · exact ⟨rfl, rfl, rfl⟩
  · rw [answer_snd]
    exact ⟨rfl, rfl, rfl⟩

@[simp] theorem deleteSnapshot_frame (name : Text) :
    (deleteSnapshot env st name).2.subscriptions = st.subscriptions ∧
      (deleteSnapshot env st name).2.topics = st.topics ∧
      (deleteSnapshot env st name).2.schemas = st.schemas := by
  unfold deleteSnapshot
  split_ifs <;> simp

@[simp] theorem setIamPolicy_frame (resource : Text) (policy : IamPolicy) :
    (setIamPolicy env st resource policy).2.subscriptions = st.subscriptions ∧
      (setIamPolicy env st resource policy).2.topics = st.topics ∧
      (setIamPolicy env st resource policy).2.snapshots = st.snapshots ∧
      (setIamPolicy env st resource policy).2.schemas = st.schemas := by
  simp [setIamPolicy]

@[simp] theorem createSchema_frame (schema : SchemaSpec) :
    (createSchema serde env st schema).2.subscriptions = st.subscriptions ∧
      (createSchema serde env st schema).2.topics = st.topics ∧
      (createSchema serde env st schema).2.snapshots = st.snapshots := by
  unfold createSchema
  split
  · simp
  split
  · simp
  split <;> simp

@[simp] theorem deleteSchema_frame (name : Text) :
    (deleteSchema env st name).2.subscriptions = st.subscriptions ∧
      (deleteSchema env st name).2.topics = st.topics ∧
      (deleteSchema env st name).2.snapshots = st.snapshots := by
  unfold deleteSchema
  split_ifs <;> simp

end Frames

/-! ### What a step does to one subscription -/

/-- **What a step does to the subscription `name`**, before and after: the
inversion of `RelayPubsub.Memory.exec` at one entry of the map. -/
inductive Touch (name : Text) (st : State) (s : Step) :
    Option SubscriptionState → Option SubscriptionState → Prop
  /-- Nothing: another resource was addressed, or the call was refused. -/
  | same (entry : Option SubscriptionState) : seekTarget name st s = none →
      granted name st s = [] → Touch name st s entry entry
  /-- It was created, with the cursor at the end of the log. -/
  | create {arg spec : SubscriptionSpec} {topic : TopicState} :
      s.call = .createSubscription arg → arg.name = name → spec.topic = arg.topic →
      st.topics[arg.topic]? = some topic →
      Touch name st s none (some (.created spec topic.messages.length))
  /-- It is gone: deleted, or dropped by a pull that panicked. -/
  | drop {sub : SubscriptionState} : seekTarget name st s = none → granted name st s = [] →
      (s.call = .deleteSubscription name ∨
        ∃ maxMessages, s.call = .pull name maxMessages ∧
          (pull s.env st name maxMessages).1 = .panicked) →
      Touch name st s (some sub) none
  /-- Its specification was changed. -/
  | respec {sub : SubscriptionState} {spec : SubscriptionSpec} : seekTarget name st s = none →
      granted name st s = [] → spec.topic = sub.spec.topic →
      Touch name st s (some sub) (some { sub with spec })
  /-- Messages were pulled. -/
  | pull {sub : SubscriptionState} {topic : TopicState} {maxMessages : UInt32} {p : Pulling} :
      s.call = .pull name maxMessages → st.topics[sub.spec.topic]? = some topic →
      pullFrom s.env name maxMessages sub st.topics topic.messages.length = .finished p →
      seekTarget name st s = none →
      granted name st s = p.deliveries.map (fun d => (d.2.ackId, d.1)) →
      Touch name st s (some sub) (some p.sub)
  /-- Messages were acknowledged. -/
  | acknowledge {sub : SubscriptionState} {ackIds : List Text} :
      s.call = .acknowledge name ackIds → seekTarget name st s = none → granted name st s = [] →
      Touch name st s (some sub)
        (some (acknowledgeEach (s.env.now 0) st.topics[sub.spec.topic]? sub ackIds).2)
  /-- Leases were extended or given back. -/
  | modify {sub : SubscriptionState} {ackIds : List Text} {extension : UInt32} :
      s.call = .modifyAckDeadline name ackIds extension → seekTarget name st s = none →
      granted name st s = [] →
      Touch name st s (some sub) (some (ackIds.foldl (modifyOne (s.env.now 0) extension) sub))
  /-- The cursor was set by a seek. -/
  | rewind {sub : SubscriptionState} {n : ℕ} : seekTarget name st s = some n →
      granted name st s = [] → Touch name st s (some sub) (some (sub.rewind n))

theorem applySubscriptionField_frame (incoming existing : SubscriptionSpec) (field : Text) :
    (applySubscriptionField incoming existing field).name = existing.name ∧
      (applySubscriptionField incoming existing field).topic = existing.topic ∧
      (applySubscriptionField incoming existing field).filter = existing.filter := by
  unfold applySubscriptionField
  split_ifs <;> exact ⟨rfl, rfl, rfl⟩

/-- **A mask changes neither the name nor the topic nor the filter** of a subscription. -/
theorem applySubscriptionMask_frame (existing incoming : SubscriptionSpec) (mask : List Text) :
    (applySubscriptionMask existing incoming mask).name = existing.name ∧
      (applySubscriptionMask existing incoming mask).topic = existing.topic ∧
      (applySubscriptionMask existing incoming mask).filter = existing.filter := by
  have hfold : ∀ fields : List Text, ∀ spec : SubscriptionSpec,
      (fields.foldl (applySubscriptionField incoming) spec).name = spec.name ∧
      (fields.foldl (applySubscriptionField incoming) spec).topic = spec.topic ∧
      (fields.foldl (applySubscriptionField incoming) spec).filter = spec.filter := by
    intro fields
    induction fields with
    | nil => exact fun _ => ⟨rfl, rfl, rfl⟩
    | cons field fields ih =>
      intro spec
      obtain ⟨hname, htopic, hfilter⟩ := ih (applySubscriptionField incoming spec field)
      obtain ⟨gname, gtopic, gfilter⟩ := applySubscriptionField_frame incoming spec field
      exact ⟨hname.trans gname, htopic.trans gtopic, hfilter.trans gfilter⟩
  unfold applySubscriptionMask
  split_ifs
  · exact ⟨rfl, rfl, rfl⟩
  · exact hfold mask existing

section Touches

variable (serde) (name : Text) (st : State) (s : Step)

/-- A call after which the map has the same entry. -/
theorem Touch.of_eq {m : StrMap SubscriptionState} (hr : seekTarget name st s = none)
    (hg : granted name st s = []) (h : m[name]? = st.subscriptions[name]?) :
    Touch name st s st.subscriptions[name]? m[name]? := by
  rw [h]
  exact .same _ hr hg

theorem touch_createSubscription {arg : SubscriptionSpec} (h : s.call = .createSubscription arg) :
    Touch name st s st.subscriptions[name]?
      (createSubscription s.env st arg).2.subscriptions[name]? := by
  have hr : seekTarget name st s = none := by simp [seekTarget, h]
  have hg : granted name st s = [] := by simp [granted, h]
  unfold createSubscription
  split
  · exact .same _ hr hg
  split
  · exact .same _ hr hg
  rename_i hmem
  split
  · exact .same _ hr hg
  split
  · exact .same _ hr hg
  rename_i topic htopic
  rw [answer_snd]
  rcases eq_or_ne arg.name name with hn | hn
  · subst hn
    have hnone : st.subscriptions[arg.name]? = none := by simpa using hmem
    rw [hnone, Std.ExtTreeMap.getElem?_insert_self]
    exact .create h rfl rfl htopic
  · exact .of_eq name st s hr hg (getElem?_insert_of_ne hn)

theorem touch_updateSubscription {arg : SubscriptionSpec} {mask : List Text}
    (h : s.call = .updateSubscription arg mask) :
    Touch name st s st.subscriptions[name]?
      (updateSubscription s.env st arg mask).2.subscriptions[name]? := by
  have hr : seekTarget name st s = none := by simp [seekTarget, h]
  have hg : granted name st s = [] := by simp [granted, h]
  unfold updateSubscription
  split
  · exact .same _ hr hg
  · rename_i entry hentry
    split_ifs with hf
    · exact .same _ hr hg
    · rw [answer_snd]
      rcases eq_or_ne arg.name name with hn | hn
      · subst hn
        rw [hentry, Std.ExtTreeMap.getElem?_insert_self]
        exact .respec hr hg (applySubscriptionMask_frame _ _ _).2.1
      · exact .of_eq name st s hr hg (getElem?_insert_of_ne hn)

theorem touch_deleteSubscription {arg : Text} (h : s.call = .deleteSubscription arg) :
    Touch name st s st.subscriptions[name]?
      (deleteSubscription s.env st arg).2.subscriptions[name]? := by
  have hr : seekTarget name st s = none := by simp [seekTarget, h]
  have hg : granted name st s = [] := by simp [granted, h]
  unfold deleteSubscription
  split
  · exact .same _ hr hg
  · rename_i hmem
    rw [answer_snd]
    rcases eq_or_ne arg name with hn | hn
    · subst hn
      obtain ⟨sub, hsub⟩ : ∃ sub, st.subscriptions[arg]? = some sub :=
        Option.isSome_iff_exists.mp (by simpa using hmem)
      rw [hsub, Std.ExtTreeMap.getElem?_erase_self]
      exact .drop hr hg (Or.inl h)
    · exact .of_eq name st s hr hg (getElem?_erase_of_ne hn)

theorem touch_modifyPushConfig {arg : Text} {endpoint : Option Text} {attributes : StrMap Text}
    (h : s.call = .modifyPushConfig arg endpoint attributes) :
    Touch name st s st.subscriptions[name]?
      (modifyPushConfig s.env st arg endpoint attributes).2.subscriptions[name]? := by
  have hr : seekTarget name st s = none := by simp [seekTarget, h]
  have hg : granted name st s = [] := by simp [granted, h]
  unfold modifyPushConfig
  split
  · exact .same _ hr hg
  · rename_i sub hsub
    rw [answer_snd]
    rcases eq_or_ne arg name with hn | hn
    · subst hn
      rw [hsub, Std.ExtTreeMap.getElem?_insert_self]
      exact .respec hr hg rfl
    · exact .of_eq name st s hr hg (getElem?_insert_of_ne hn)

theorem touch_pull {arg : Text} {maxMessages : UInt32} (h : s.call = .pull arg maxMessages) :
    Touch name st s st.subscriptions[name]?
      (pull s.env st arg maxMessages).2.subscriptions[name]? := by
  have hr : seekTarget name st s = none := by simp [seekTarget, h]
  rcases eq_or_ne arg name with hn | hn
  · subst hn
    unfold pull
    split
    · rename_i hsub
      refine .same _ hr ?_
      simp [granted, h, hsub]
    · rename_i sub hsub
      rw [hsub]
      split
      · rename_i htopic
        rw [Std.ExtTreeMap.getElem?_insert_self]
        refine .same _ hr ?_
        simp [granted, h, hsub, htopic]
      · rename_i topic htopic
        split
        · rename_i p hp
          simp only [answer_snd, Std.ExtTreeMap.getElem?_insert_self]
          refine .pull h htopic hp hr ?_
          simp [granted, h, hsub, htopic, hp]
        · -- the subscription was taken out of the map, and is not put back
          rename_i p hp
          rw [Std.ExtTreeMap.getElem?_erase_self]
          refine .drop hr ?_ (Or.inr ⟨maxMessages, h, ?_⟩)
          · simp [granted, h, hsub, htopic, hp]
          · simp [pull, hsub, htopic, hp]
  · have hg : granted name st s = [] := by simp [granted, h, hn]
    unfold pull
    split
    · exact .same _ hr hg
    · split
      · exact .of_eq name st s hr hg (getElem?_insert_of_ne hn)
      · split
        · simp only [answer_snd]
          exact .of_eq name st s hr hg (getElem?_insert_of_ne hn)
        · exact .of_eq name st s hr hg (getElem?_erase_of_ne hn)

/-- The subscriptions after an acknowledgement, whatever it answers. -/
theorem acknowledge_subscriptions {env : Env} {st : State} {arg : Text} {ackIds : List Text}
    {sub : SubscriptionState} (hsub : st.subscriptions[arg]? = some sub) :
    (acknowledge env st arg ackIds).2.subscriptions =
      st.subscriptions.insert arg
        (acknowledgeEach (env.now 0) st.topics[sub.spec.topic]? sub ackIds).2 := by
  simp only [acknowledge, hsub]
  split <;> simp

theorem touch_acknowledge {arg : Text} {ackIds : List Text}
    (h : s.call = .acknowledge arg ackIds) :
    Touch name st s st.subscriptions[name]?
      (acknowledge s.env st arg ackIds).2.subscriptions[name]? := by
  have hr : seekTarget name st s = none := by simp [seekTarget, h]
  have hg : granted name st s = [] := by simp [granted, h]
  rcases hsub : st.subscriptions[arg]? with - | sub
  · simp only [acknowledge, hsub]
    exact .same _ hr hg
  · rw [acknowledge_subscriptions hsub]
    rcases eq_or_ne arg name with hn | hn
    · subst hn
      rw [hsub, Std.ExtTreeMap.getElem?_insert_self]
      exact .acknowledge h hr hg
    · rw [getElem?_insert_of_ne hn]
      exact .same _ hr hg

theorem touch_modifyAckDeadline {arg : Text} {ackIds : List Text} {extension : UInt32}
    (h : s.call = .modifyAckDeadline arg ackIds extension) :
    Touch name st s st.subscriptions[name]?
      (modifyAckDeadline s.env st arg ackIds extension).2.subscriptions[name]? := by
  have hr : seekTarget name st s = none := by simp [seekTarget, h]
  have hg : granted name st s = [] := by simp [granted, h]
  unfold modifyAckDeadline
  split_ifs with hext
  · exact .same _ hr hg
  · split
    · exact .same _ hr hg
    · rename_i sub hsub
      rw [answer_snd]
      rcases eq_or_ne arg name with hn | hn
      · subst hn
        rw [hsub, Std.ExtTreeMap.getElem?_insert_self]
        exact .modify h hr hg
      · exact .of_eq name st s hr hg (getElem?_insert_of_ne hn)

theorem touch_seekToTime {arg : Text} {time : Time} (h : s.call = .seekToTime arg time) :
    Touch name st s st.subscriptions[name]?
      (seekToTime s.env st arg time).2.subscriptions[name]? := by
  have hg : granted name st s = [] := by simp [granted, h]
  rcases eq_or_ne arg name with hn | hn
  · subst hn
    unfold seekToTime
    split
    · rename_i hsub
      refine .same _ ?_ hg
      simp [seekTarget, h, hsub]
    · rename_i sub hsub
      split
      · rename_i htopic
        refine .same _ ?_ hg
        simp [seekTarget, h, hsub, htopic]
      · rename_i topic htopic
        rw [answer_snd, hsub, Std.ExtTreeMap.getElem?_insert_self]
        refine .rewind ?_ hg
        simp [seekTarget, h, hsub, htopic]
  · have hr : seekTarget name st s = none := by simp [seekTarget, h, hn]
    unfold seekToTime
    split
    · exact .same _ hr hg
    · split
      · exact .same _ hr hg
      · rw [answer_snd]
        exact .of_eq name st s hr hg (getElem?_insert_of_ne hn)

theorem touch_seekToSnapshot {arg snapshot : Text} (h : s.call = .seekToSnapshot arg snapshot) :
    Touch name st s st.subscriptions[name]?
      (seekToSnapshot s.env st arg snapshot).2.subscriptions[name]? := by
  have hg : granted name st s = [] := by simp [granted, h]
  rcases eq_or_ne arg name with hn | hn
  · subst hn
    unfold seekToSnapshot
    split
    · rename_i hsnap
      refine .same _ ?_ hg
      simp [seekTarget, h, hsnap]
    · rename_i snap hsnap
      split
      · rename_i hsub
        refine .same _ ?_ hg
        simp [seekTarget, h, hsnap, hsub]
      · rename_i sub hsub
        split_ifs with htopic
        · refine .same _ ?_ hg
          simp [seekTarget, h, hsnap, hsub, htopic]
        · rw [answer_snd, hsub, Std.ExtTreeMap.getElem?_insert_self]
          refine .rewind ?_ hg
          simpa [seekTarget, h, hsnap, hsub] using htopic
  · have hr : seekTarget name st s = none := by simp [seekTarget, h, hn]
    unfold seekToSnapshot
    split
    · exact .same _ hr hg
    · split
      · exact .same _ hr hg
      · split_ifs with htopic
        · exact .same _ hr hg
        · rw [answer_snd]
          exact .of_eq name st s hr hg (getElem?_insert_of_ne hn)

/-- **The inversion of a step**, at one subscription. -/
theorem touch_of_exec :
    Touch name st s st.subscriptions[name]? (exec serde st s).subscriptions[name]? := by
  unfold exec
  cases h : s.call with
  | createSubscription _ => exact touch_createSubscription name st s h
  | updateSubscription _ _ => exact touch_updateSubscription name st s h
  | deleteSubscription _ => exact touch_deleteSubscription name st s h
  | modifyPushConfig _ _ _ => exact touch_modifyPushConfig name st s h
  | pull _ _ => exact touch_pull name st s h
  | acknowledge _ _ => exact touch_acknowledge name st s h
  | modifyAckDeadline _ _ _ => exact touch_modifyAckDeadline name st s h
  | seekToTime _ _ => exact touch_seekToTime name st s h
  | seekToSnapshot _ _ => exact touch_seekToSnapshot name st s h
  | _ => exact .of_eq name st s (by simp [seekTarget, h]) (by simp [granted, h]) (by simp)

end Touches

end RelayPubsub.Memory
