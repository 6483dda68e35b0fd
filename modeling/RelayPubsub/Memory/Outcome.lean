import RelayPubsub.Memory.Exec

/-!
# What a call answers, and what a failing write makes of it

How a mutating call ends (`RelayPubsub.Memory.outcome`), and how that depends on
the state file. Every operation changes the state in place and writes the file
last, so a write that fails turns a success into an error, and nothing else:
the state is the one the operation leaves when the write succeeds
(`RelayPubsub.Memory.persist_failure`).
-/

namespace RelayPubsub.Memory

open Lib

/-- How a call ends: with success, with an error, or in a panic. -/
inductive Outcome where
  | done
  | refused (e : BackendError)
  | panicked
  deriving DecidableEq

/-- The outcome of an answer. -/
def Outcome.of {α : Type} : Except BackendError α → Outcome
  | .ok _ => .done
  | .error e => .refused e

def Outcome.ofPull : PullAnswer → Outcome
  | .returned result => .of result
  | .panicked => .panicked

variable (serde : SerdeJson)

/-- **How a call that changes something ends.** There is none for a call that only
reads. -/
def outcome (st : State) (s : Step) : Option Outcome :=
  match s.call with
  | .createTopic topic => some (.of (createTopic s.env st topic).1)
  | .updateTopic topic mask => some (.of (updateTopic s.env st topic mask).1)
  | .deleteTopic name => some (.of (deleteTopic s.env st name).1)
  | .createSubscription spec => some (.of (createSubscription s.env st spec).1)
  | .updateSubscription spec mask => some (.of (updateSubscription s.env st spec mask).1)
  | .deleteSubscription name => some (.of (deleteSubscription s.env st name).1)
  | .modifyPushConfig name endpoint attributes =>
    some (.of (modifyPushConfig s.env st name endpoint attributes).1)
  | .publish topic messages => some (.of (publish serde s.env st topic messages).1)
  | .pull name maxMessages => some (.ofPull (pull s.env st name maxMessages).1)
  | .acknowledge name ackIds => some (.of (acknowledge s.env st name ackIds).1)
  | .modifyAckDeadline name ackIds extension =>
    some (.of (modifyAckDeadline s.env st name ackIds extension).1)
  | .seekToTime name time => some (.of (seekToTime s.env st name time).1)
  | .seekToSnapshot name snapshot => some (.of (seekToSnapshot s.env st name snapshot).1)
  | .createSnapshot name subscription labels =>
    some (.of (createSnapshot s.env st name subscription labels).1)
  | .updateSnapshot snapshot mask => some (.of (updateSnapshot s.env st snapshot mask).1)
  | .deleteSnapshot name => some (.of (deleteSnapshot s.env st name).1)
  | .setIamPolicy resource policy => some (.of (setIamPolicy s.env st resource policy).1)
  | .createSchema schema => some (.of (createSchema serde s.env st schema).1)
  | .deleteSchema name => some (.of (deleteSchema s.env st name).1)
  | .getTopic _ | .listTopics _ _ _ | .listTopicSubscriptions _ _ _ | .getSubscription _
  | .listSubscriptions _ _ _ | .getSnapshot _ | .listSnapshots _ _ _ | .getIamPolicy _
  | .testIamPermissions _ _ | .getSchema _ | .listSchemas _ _ _ | .validateSchema _
  | .validateMessage _ _ _ | .listPushSubscriptions | .inventory _ => none

/-! ### A write that fails -/

/-- The same readings, with another outcome of the write. -/
def Env.withFault (env : Env) (fault : Option PersistFault) : Env :=
  { env with persistFault := fault }

@[simp] theorem Env.withFault_now (env : Env) (fault : Option PersistFault) :
    (env.withFault fault).now = env.now := rfl

def Step.withFault (s : Step) (fault : Option PersistFault) : Step :=
  { s with env := s.env.withFault fault }

/-- The error of a write that fails. -/
def PersistFault.error : PersistFault → BackendError
  | .serialize e => .internal ("serialize state: " ++ e)
  | .write e => .internal ("write state tmp: " ++ e)
  | .rename e => .internal ("rename state: " ++ e)

/-- What a write that fails makes of an outcome. -/
def Outcome.fail (fault : PersistFault) : Outcome → Outcome
  | .done => .refused fault.error
  | o => o

/-- **The same operation, with the write succeeding and with it failing**: the same
state, and an error in the place of a success. -/
def FailsTo {α : Type} (fault : PersistFault) (ok bad : Except BackendError α × State) : Prop :=
  bad.2 = ok.2 ∧ Outcome.of bad.1 = (Outcome.of ok.1).fail fault

section FailsTo

variable {α : Type} {fault : PersistFault} {env : Env} {st : State}

theorem FailsTo.refused (e : BackendError) :
    FailsTo fault ((.error e, st) : Except BackendError α × State) (.error e, st) :=
  ⟨rfl, rfl⟩

/-- **The end of an operation.** -/
theorem FailsTo.answer (value : α) :
    FailsTo fault (Memory.answer (env.withFault none) value st)
      (Memory.answer (env.withFault (some fault)) value st) := by
  cases fault <;> exact ⟨rfl, rfl⟩

end FailsTo

section Operations

variable (fault : PersistFault) (env : Env) (st : State)

theorem createTopic_failsTo (topic : TopicSpec) :
    FailsTo fault (createTopic (env.withFault none) st topic)
      (createTopic (env.withFault (some fault)) st topic) := by
  unfold createTopic
  split
  · exact .refused _
  split
  · exact .refused _
  · exact .answer _

theorem updateTopic_failsTo (topic : TopicSpec) (mask : List Text) :
    FailsTo fault (updateTopic (env.withFault none) st topic mask)
      (updateTopic (env.withFault (some fault)) st topic mask) := by
  unfold updateTopic
  split
  · exact .refused _
  · exact .answer _

theorem deleteTopic_failsTo (name : Text) :
    FailsTo fault (deleteTopic (env.withFault none) st name)
      (deleteTopic (env.withFault (some fault)) st name) := by
  unfold deleteTopic
  split
  · exact .refused _
  · exact .answer _

theorem createSubscription_failsTo (spec : SubscriptionSpec) :
    FailsTo fault (createSubscription (env.withFault none) st spec)
      (createSubscription (env.withFault (some fault)) st spec) := by
  unfold createSubscription
  split
  · exact .refused _
  split
  · exact .refused _
  split
  · exact .refused _
  split
  · exact .refused _
  · exact .answer _

theorem updateSubscription_failsTo (spec : SubscriptionSpec) (mask : List Text) :
    FailsTo fault (updateSubscription (env.withFault none) st spec mask)
      (updateSubscription (env.withFault (some fault)) st spec mask) := by
  unfold updateSubscription
  split
  · exact .refused _
  split
  · exact .refused _
  · exact .answer _

theorem deleteSubscription_failsTo (name : Text) :
    FailsTo fault (deleteSubscription (env.withFault none) st name)
      (deleteSubscription (env.withFault (some fault)) st name) := by
  unfold deleteSubscription
  split
  · exact .refused _
  · exact .answer _

theorem modifyPushConfig_failsTo (name : Text) (endpoint : Option Text) (attributes : StrMap Text) :
    FailsTo fault (modifyPushConfig (env.withFault none) st name endpoint attributes)
      (modifyPushConfig (env.withFault (some fault)) st name endpoint attributes) := by
  unfold modifyPushConfig
  split
  · exact .refused _
  · exact .answer _

theorem publish_failsTo (topic : Text) (messages : List NewMessage) :
    FailsTo fault (publish serde (env.withFault none) st topic messages)
      (publish serde (env.withFault (some fault)) st topic messages) := by
  unfold publish
  split
  · exact .refused _
  split
  · exact .refused _
  · exact .answer _

theorem modifyAckDeadline_failsTo (name : Text) (ackIds : List Text) (extension : UInt32) :
    FailsTo fault (modifyAckDeadline (env.withFault none) st name ackIds extension)
      (modifyAckDeadline (env.withFault (some fault)) st name ackIds extension) := by
  unfold modifyAckDeadline
  split
  · exact .refused _
  split
  · exact .refused _
  · exact .answer _

theorem seekToTime_failsTo (name : Text) (time : Time) :
    FailsTo fault (seekToTime (env.withFault none) st name time)
      (seekToTime (env.withFault (some fault)) st name time) := by
  unfold seekToTime
  split
  · exact .refused _
  split
  · exact .refused _
  · exact .answer _

theorem seekToSnapshot_failsTo (name snapshot : Text) :
    FailsTo fault (seekToSnapshot (env.withFault none) st name snapshot)
      (seekToSnapshot (env.withFault (some fault)) st name snapshot) := by
  unfold seekToSnapshot
  split
  · exact .refused _
  split
  · exact .refused _
  split
  · exact .refused _
  · exact .answer _

theorem createSnapshot_failsTo (name subscription : Text) (labels : StrMap Text) :
    FailsTo fault (createSnapshot (env.withFault none) st name subscription labels)
      (createSnapshot (env.withFault (some fault)) st name subscription labels) := by
  unfold createSnapshot
  split
  · exact .refused _
  split
  · exact .refused _
  split
  · exact .refused _
  · exact .answer _

theorem updateSnapshot_failsTo (snapshot : SnapshotSpec) (mask : List Text) :
    FailsTo fault (updateSnapshot (env.withFault none) st snapshot mask)
      (updateSnapshot (env.withFault (some fault)) st snapshot mask) := by
  unfold updateSnapshot
  split
  · exact .refused _
  · exact .answer _

theorem deleteSnapshot_failsTo (name : Text) :
    FailsTo fault (deleteSnapshot (env.withFault none) st name)
      (deleteSnapshot (env.withFault (some fault)) st name) := by
  unfold deleteSnapshot
  split
  · exact .refused _
  · exact .answer _

theorem setIamPolicy_failsTo (resource : Text) (policy : IamPolicy) :
    FailsTo fault (setIamPolicy (env.withFault none) st resource policy)
      (setIamPolicy (env.withFault (some fault)) st resource policy) := by
  exact .answer _

theorem createSchema_failsTo (schema : SchemaSpec) :
    FailsTo fault (createSchema serde (env.withFault none) st schema)
      (createSchema serde (env.withFault (some fault)) st schema) := by
  unfold createSchema
  split
  · exact .refused _
  split
  · exact .refused _
  split
  · exact .refused _
  · exact .answer _

theorem deleteSchema_failsTo (name : Text) :
    FailsTo fault (deleteSchema (env.withFault none) st name)
      (deleteSchema (env.withFault (some fault)) st name) := by
  unfold deleteSchema
  split
  · exact .refused _
  · exact .answer _

theorem acknowledge_failsTo (name : Text) (ackIds : List Text) :
    FailsTo fault (acknowledge (env.withFault none) st name ackIds)
      (acknowledge (env.withFault (some fault)) st name ackIds) := by
  unfold acknowledge
  split
  · exact .refused _
  simp only [Env.withFault_now]
  split
  · exact .refused _
  · exact .answer _

/-- A pull does not look at the state file before its end. -/
theorem pullFrom_withFault (name : Text) (maxMessages : UInt32) (sub : SubscriptionState)
    (topics : StrMap TopicState) (topicLen : ℕ) (f : Option PersistFault) :
    pullFrom (env.withFault f) name maxMessages sub topics topicLen =
      pullFrom env name maxMessages sub topics topicLen := by
  have hloop : ∀ topicName limit fuel p,
      pullLoop (env.withFault f) name topicName topicLen limit fuel p =
        pullLoop env name topicName topicLen limit fuel p := by
    intro topicName limit fuel
    induction fuel with
    | zero => exact fun _ => rfl
    | succ fuel ih =>
      intro p
      have hturn : pullTurn (env.withFault f) name topicName topicLen limit p =
          pullTurn env name topicName topicLen limit p := rfl
      unfold pullLoop
      rw [hturn]
      split
      · exact ih _
      · rfl
      · rfl
  exact hloop _ _ _ _

/-- The same for a pull, which may panic. -/
theorem pull_failsTo (name : Text) (maxMessages : UInt32) :
    (pull (env.withFault (some fault)) st name maxMessages).2 =
        (pull (env.withFault none) st name maxMessages).2 ∧
      Outcome.ofPull (pull (env.withFault (some fault)) st name maxMessages).1 =
        (Outcome.ofPull (pull (env.withFault none) st name maxMessages).1).fail fault := by
  unfold pull
  split
  · exact ⟨rfl, rfl⟩
  split
  · exact ⟨rfl, rfl⟩
  rw [pullFrom_withFault, pullFrom_withFault]
  split
  · rename_i p hp
    exact @FailsTo.answer _ fault env _ (p.deliveries.map Prod.snd)
  · exact ⟨rfl, rfl⟩

end Operations

/-- The effect and the outcome of a step. -/
theorem FailsTo.step {α : Type} {fault : PersistFault} {ok bad : Except BackendError α × State}
    (h : FailsTo fault ok bad) :
    bad.2 = ok.2 ∧ some (Outcome.of bad.1) = (some (Outcome.of ok.1)).map (.fail fault) :=
  ⟨h.1, congrArg some h.2⟩

/-- **A write that fails is not undone**: the state is the one the call leaves when
the write succeeds, and the outcome an error where it was a success. -/
theorem persist_failure (fault : PersistFault) (st : State) (s : Step) :
    exec serde st (s.withFault (some fault)) = exec serde st (s.withFault none) ∧
      outcome serde st (s.withFault (some fault)) =
        (outcome serde st (s.withFault none)).map (.fail fault) := by
  obtain ⟨call, env⟩ := s
  cases call with
  | createTopic topic => exact (createTopic_failsTo fault env st topic).step
  | updateTopic topic mask => exact (updateTopic_failsTo fault env st topic mask).step
  | deleteTopic name => exact (deleteTopic_failsTo fault env st name).step
  | createSubscription spec => exact (createSubscription_failsTo fault env st spec).step
  | updateSubscription spec mask => exact (updateSubscription_failsTo fault env st spec mask).step
  | deleteSubscription name => exact (deleteSubscription_failsTo fault env st name).step
  | modifyPushConfig name endpoint attributes =>
    exact (modifyPushConfig_failsTo fault env st name endpoint attributes).step
  | publish topic messages => exact (publish_failsTo serde fault env st topic messages).step
  | pull name maxMessages =>
    have h := pull_failsTo fault env st name maxMessages
    exact ⟨h.1, congrArg some h.2⟩
  | acknowledge name ackIds => exact (acknowledge_failsTo fault env st name ackIds).step
  | modifyAckDeadline name ackIds extension =>
    exact (modifyAckDeadline_failsTo fault env st name ackIds extension).step
  | seekToTime name time => exact (seekToTime_failsTo fault env st name time).step
  | seekToSnapshot name snapshot => exact (seekToSnapshot_failsTo fault env st name snapshot).step
  | createSnapshot name subscription labels =>
    exact (createSnapshot_failsTo fault env st name subscription labels).step
  | updateSnapshot snapshot mask => exact (updateSnapshot_failsTo fault env st snapshot mask).step
  | deleteSnapshot name => exact (deleteSnapshot_failsTo fault env st name).step
  | setIamPolicy resource policy => exact (setIamPolicy_failsTo fault env st resource policy).step
  | createSchema schema => exact (createSchema_failsTo serde fault env st schema).step
  | deleteSchema name => exact (deleteSchema_failsTo fault env st name).step
  | _ => exact ⟨rfl, rfl⟩

/-- The creation of a topic, when the file cannot be written. -/
def failedCreate : Step where
  call := .createTopic sampleTopic
  env := (Step.numbered (0, .getTopic []) 0).env.withFault (some (.write "No space left on device"))

/-- **A creation that fails has taken place**: the topic is there, and creating it
once more is refused. -/
theorem failedCreate_effective :
    outcome noJson {} failedCreate =
        some (.refused (.internal "write state tmp: No space left on device")) ∧
      exec noJson {} failedCreate ≠ {} ∧
      outcome noJson (exec noJson {} failedCreate) (failedCreate.withFault none) =
        some (.refused (.alreadyExists sampleTopic.name)) := by
  refine ⟨by decide +kernel, fun h => ?_, by decide +kernel⟩
  have hmem : decide (sampleTopic.name ∈ (exec noJson {} failedCreate).topics) = true := by
    decide +kernel
  rw [h] at hmem
  exact absurd hmem (by decide +kernel)

end RelayPubsub.Memory
