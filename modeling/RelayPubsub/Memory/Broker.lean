import RelayPubsub.Lib.Broker
import RelayPubsub.Memory.Bounds

/-!
# The store is a broker

Forgetting everything of a store but its logs, its subscriptions with their ledgers and its
snapshots gives a `Lib.Broker`. Every call, with any clock and whether or not the state file
can be written, is a sequence of the broker's actions
(`RelayPubsub.Memory.simulates_exec`): of those that its kind of call may take
(`RelayPubsub.Memory.Takes`), and among them it hands out the leases that the call grants.
So every run of the store is a run of the broker, call by call
(`RelayPubsub.Memory.Follows`, `RelayPubsub.Memory.refines_broker`).

| call | actions |
| --- | --- |
| `publish` | the messages that are not duplicates are appended |
| `pull` | expired leases are requeued; then each turn of the loop is one action |
| `acknowledge` | leases named are settled, and the expired one it stops at is lost |
| `modify_ack_deadline` | leases named are requeued, or nothing |
| `seek` | the ledger is rewound |

Changes of a topic, of policies and of schemas, and all calls that only read, are no actions.
-/

namespace RelayPubsub.Memory

open Lib Lib.Ledger

variable {serde : SerdeJson}

/-! ### The broker of a store -/

/-- **What is particular to this service**: ordering keys, and the attributes of dead
letters. -/
def rules : Broker.Rules Text RelayMessage where
  same := SameKey
  copy subscription original message :=
    message.data = original.data ∧ message.orderingKey = original.orderingKey ∧
      message.attributes =
        (original.attributes.insert "x-zyvor-dead-letter-source" subscription).insert
          "x-zyvor-original-message-id" original.id

def SubscriptionState.consumer (sub : SubscriptionState) : Consumer Text Text where
  topic := sub.spec.topic
  ordered := sub.spec.enableMessageOrdering = true
  strict := sub.spec.enableExactlyOnceDelivery = true
  ledger := sub.ledger

def brokerOf (topics : StrMap TopicState) (subscriptions : StrMap SubscriptionState)
    (snapshots : StrMap SnapshotSpec) : Broker Text Text RelayMessage where
  log name := topics[name]?.map (·.messages)
  consumer name := subscriptions[name]?.map (·.consumer)
  mark name := snapshots[name]?.map fun snap => (snap.topic, snap.topicIndex)

/-- **The broker of a store.** -/
def State.broker (st : State) : Broker Text Text RelayMessage :=
  brokerOf st.topics st.subscriptions st.snapshots

section Maps

/-- Reading a map in which an entry has been set, through a function. -/
theorem map_getElem?_insert {β γ : Type} (f : β → γ) (m : StrMap β) (name : Text) (v : β) :
    (fun n => (m.insert name v)[n]?.map f) =
      Function.update (fun n => m[n]?.map f) name (some (f v)) := by
  funext n
  rcases eq_or_ne name n with rfl | hn
  · simp
  · rw [getElem?_insert_of_ne hn, Function.update_of_ne hn.symm]

theorem map_getElem?_erase {β γ : Type} (f : β → γ) (m : StrMap β) (name : Text) :
    (fun n => (m.erase name)[n]?.map f) = Function.update (fun n => m[n]?.map f) name none := by
  funext n
  rcases eq_or_ne name n with rfl | hn
  · simp
  · rw [getElem?_erase_of_ne hn, Function.update_of_ne hn.symm]

variable (st : State) (name : Text)

theorem broker_insert_topic (topic : TopicState) :
    State.broker { st with topics := st.topics.insert name topic } =
      st.broker.setLog name (some topic.messages) := by
  rw [State.broker, brokerOf, map_getElem?_insert]
  rfl

theorem broker_erase_topic :
    State.broker { st with topics := st.topics.erase name } = st.broker.setLog name none := by
  rw [State.broker, brokerOf, map_getElem?_erase]
  rfl

theorem broker_insert_subscription (sub : SubscriptionState) :
    State.broker { st with subscriptions := st.subscriptions.insert name sub } =
      st.broker.setConsumer name (some sub.consumer) := by
  rw [State.broker, brokerOf, map_getElem?_insert]
  rfl

theorem broker_erase_subscription :
    State.broker { st with subscriptions := st.subscriptions.erase name } =
      st.broker.setConsumer name none := by
  rw [State.broker, brokerOf, map_getElem?_erase]
  rfl

theorem broker_insert_snapshot (snap : SnapshotSpec) :
    State.broker { st with snapshots := st.snapshots.insert name snap } =
      st.broker.setMark name (some (snap.topic, snap.topicIndex)) := by
  rw [State.broker, brokerOf, map_getElem?_insert]
  rfl

theorem broker_erase_snapshot :
    State.broker { st with snapshots := st.snapshots.erase name } =
      st.broker.setMark name none := by
  rw [State.broker, brokerOf, map_getElem?_erase]
  rfl

variable {st name}

theorem broker_log {topic : TopicState} (h : st.topics[name]? = some topic) :
    st.broker.log name = some topic.messages := by
  simp [State.broker, brokerOf, h]

theorem broker_log_none (h : name ∉ st.topics) : st.broker.log name = none := by
  simp [State.broker, brokerOf, Std.ExtTreeMap.getElem?_eq_none h]

theorem broker_consumer {sub : SubscriptionState} (h : st.subscriptions[name]? = some sub) :
    st.broker.consumer name = some sub.consumer := by
  simp [State.broker, brokerOf, h]

theorem broker_consumer_none (h : name ∉ st.subscriptions) : st.broker.consumer name = none := by
  simp [State.broker, brokerOf, Std.ExtTreeMap.getElem?_eq_none h]

theorem broker_mark {snap : SnapshotSpec} (h : st.snapshots[name]? = some snap) :
    st.broker.mark name = some (snap.topic, snap.topicIndex) := by
  simp [State.broker, brokerOf, h]

theorem broker_mark_none (h : name ∉ st.snapshots) : st.broker.mark name = none := by
  simp [State.broker, brokerOf, Std.ExtTreeMap.getElem?_eq_none h]

end Maps

/-! ### The actions of a call -/

/-- **The actions a call may take**, in a store. -/
inductive Takes (st : State) (s : Step) : Broker.Act Text Text RelayMessage → Prop
  | createTopic {spec : TopicSpec} : s.call = .createTopic spec → Takes st s (.start spec.name)
  | deleteTopic {name : Text} : s.call = .deleteTopic name → Takes st s (.stop name)
  | publish {name : Text} {messages : List NewMessage} (message : RelayMessage) :
      s.call = .publish name messages → Takes st s (.append name message)
  | createSubscription {spec : SubscriptionSpec} : s.call = .createSubscription spec →
      Takes st s (.join spec.name spec.topic (spec.enableMessageOrdering = true)
        (spec.enableExactlyOnceDelivery = true))
  | updateSubscription {spec : SubscriptionSpec} {mask : List Text} {sub : SubscriptionState} :
      s.call = .updateSubscription spec mask → st.subscriptions[spec.name]? = some sub →
      Takes st s (.configure spec.name
        ((applySubscriptionMask sub.spec spec mask).enableMessageOrdering = true)
        ((applySubscriptionMask sub.spec spec mask).enableExactlyOnceDelivery = true))
  | deleteSubscription {name : Text} : s.call = .deleteSubscription name → Takes st s (.leave name)
  /-- A pull gives an expired lease back. -/
  | sweep {name : Text} {maxMessages : UInt32} (ackId : Text) (i : ℕ) :
      s.call = .pull name maxMessages → Takes st s (.move name (.requeue ackId i))
  /-- A pull delivers a message. -/
  | deliver {name : Text} {maxMessages : UInt32} (ackId : Text) (i : ℕ) :
      s.call = .pull name maxMessages → Takes st s (.move name (.grant ackId i))
  /-- A pull finds a message blocked by its ordering key. -/
  | block {name : Text} {maxMessages : UInt32} (i : ℕ) :
      s.call = .pull name maxMessages → Takes st s (.move name (.park i))
  /-- A pull filters a message out. -/
  | filter {name : Text} {maxMessages : UInt32} (i : ℕ) :
      s.call = .pull name maxMessages → Takes st s (.move name (.retire i))
  /-- A pull moves a message to the dead-letter topic. -/
  | deadLetter {name : Text} {maxMessages : UInt32} (i : ℕ) (topic : Text)
      (message : RelayMessage) : s.call = .pull name maxMessages →
      Takes st s (.divert name i topic message)
  /-- A pull that panics drops the subscription. -/
  | panic {name : Text} {maxMessages : UInt32} : s.call = .pull name maxMessages →
      ¬NoPanic st s → Takes st s (.leave name)
  | acknowledge {name : Text} {ackIds : List Text} {ackId : Text} (i : ℕ) :
      s.call = .acknowledge name ackIds → ackId ∈ ackIds →
      Takes st s (.move name (.settle ackId i))
  /-- An acknowledgement stops at an expired lease. -/
  | tooLate {name : Text} {ackIds : List Text} {ackId : Text} (i : ℕ) :
      s.call = .acknowledge name ackIds → ackId ∈ ackIds →
      Takes st s (.move name (.forfeit ackId i))
  | modifyAckDeadline {name : Text} {ackIds : List Text} {extension : UInt32} {ackId : Text}
      (i : ℕ) : s.call = .modifyAckDeadline name ackIds extension → ackId ∈ ackIds →
      Takes st s (.move name (.requeue ackId i))
  | seek {name : Text} {n : ℕ} : seekTarget name st s = some n →
      Takes st s (.move name (.rewind n))
  | createSnapshot {name subscription : Text} {labels : StrMap Text} :
      s.call = .createSnapshot name subscription labels → Takes st s (.mark name subscription)
  | deleteSnapshot {name : Text} : s.call = .deleteSnapshot name → Takes st s (.unmark name)

/-- Only a pull of the subscription hands out anything on it. -/
theorem Takes.grants_eq_nil {st : State} {s : Step} {a : Broker.Act Text Text RelayMessage}
    (h : Takes st s a) {name : Text} (hpull : ∀ m, s.call ≠ .pull name m) :
    a.grants name = [] := by
  cases h with
  | @deliver subscription m ackId i hcall =>
    have hne : subscription ≠ name := by
      rintro rfl
      exact hpull m hcall
    exact if_neg hne
  | _ => rfl

theorem handouts_eq_nil {st : State} {s : Step} {acts : List (Broker.Act Text Text RelayMessage)}
    (h : ∀ a ∈ acts, Takes st s a) {name : Text} (hpull : ∀ m, s.call ≠ .pull name m) :
    Broker.handouts name acts = [] :=
  List.flatMap_eq_nil_iff.mpr fun a ha => (h a ha).grants_eq_nil hpull

/-! ### Calls that are no pull -/

/-- A pull that panics answers nothing. -/
theorem granted_of_panic {st : State} {s : Step} (h : ¬NoPanic st s) (name : Text) :
    granted name st s = [] := by
  simp only [NoPanic, not_forall, not_not] at h
  obtain ⟨subscription, maxMessages, hcall, hpanic⟩ := h
  rcases eq_or_ne subscription name with rfl | hne
  · unfold pull at hpanic
    split at hpanic
    · cases hpanic
    rename_i sub hsub
    split at hpanic
    · cases hpanic
    rename_i topic htopic
    split at hpanic
    · cases hpanic
    rename_i p hp
    simp [granted, hcall, hsub, htopic, hp]
  · simp [granted, hcall, hne]

/-- **What a step leads to** is reached by actions it may take. -/
def Simulates (st : State) (s : Step) (st' : State) : Prop :=
  ∃ acts, Broker.Runs rules st.broker acts st'.broker ∧ ∀ a ∈ acts, Takes st s a

section Calls

variable {st : State} {s : Step}

theorem Simulates.refl (st : State) (s : Step) : Simulates st s st := ⟨[], .nil _, by simp⟩

/-- What the broker does not see. -/
theorem Simulates.of_eq {st' : State} (h : st'.broker = st.broker) : Simulates st s st' :=
  ⟨[], by rw [h]; exact .nil _, by simp⟩

theorem Simulates.of_step {st' : State} {a : Broker.Act Text Text RelayMessage}
    {B : Broker Text Text RelayMessage} (h : Broker.Step rules st.broker a B) (ha : Takes st s a)
    (hB : st'.broker = B) : Simulates st s st' :=
  ⟨[a], .single (hB ▸ h), by simpa using ha⟩

theorem Simulates.answer {env : Env} {α : Type} {value : α} {st' : State}
    (h : Simulates st s st') : Simulates st s (answer env value st').2 := by
  rwa [answer_snd]

theorem simulates_createTopic {topic : TopicSpec} (h : s.call = .createTopic topic) :
    Simulates st s (createTopic s.env st topic).2 := by
  unfold createTopic
  split
  · exact .refl st s
  split
  · exact .refl st s
  rename_i hthere
  exact (Simulates.of_step (.start (broker_log_none hthere)) (.createTopic h)
    (broker_insert_topic ..)).answer

theorem simulates_updateTopic (topic : TopicSpec) (mask : List Text) :
    Simulates st s (updateTopic s.env st topic mask).2 := by
  unfold updateTopic
  split
  · exact .refl st s
  rename_i entry hentry
  have hlog := Broker.setLog_eq_self (broker_log hentry)
  refine (Simulates.of_eq ((broker_insert_topic ..).trans ?_)).answer
  exact hlog

theorem simulates_deleteTopic {name : Text} (h : s.call = .deleteTopic name) :
    Simulates st s (deleteTopic s.env st name).2 := by
  unfold deleteTopic
  split
  · exact .refl st s
  exact (Simulates.of_step (.stop name) (.deleteTopic h) (broker_erase_topic ..)).answer

theorem simulates_createSubscription {spec : SubscriptionSpec}
    (h : s.call = .createSubscription spec) :
    Simulates st s (createSubscription s.env st spec).2 := by
  unfold createSubscription
  split
  · exact .refl st s
  split
  · exact .refl st s
  rename_i hthere
  split
  · exact .refl st s
  split
  · exact .refl st s
  rename_i topic htopic
  refine (Simulates.of_step (.join (spec.enableMessageOrdering = true)
    (spec.enableExactlyOnceDelivery = true) (broker_consumer_none hthere) (broker_log htopic))
    (.createSubscription h) ((broker_insert_subscription ..).trans ?_)).answer
  rw [SubscriptionState.consumer, SubscriptionState.ledger_created]
  rfl

theorem simulates_updateSubscription {spec : SubscriptionSpec} {mask : List Text}
    (h : s.call = .updateSubscription spec mask) :
    Simulates st s (updateSubscription s.env st spec mask).2 := by
  unfold updateSubscription
  split
  · exact .refl st s
  rename_i entry hentry
  split
  · exact .refl st s
  refine (Simulates.of_step
    (.configure ((applySubscriptionMask entry.spec spec mask).enableMessageOrdering = true)
      ((applySubscriptionMask entry.spec spec mask).enableExactlyOnceDelivery = true)
      (broker_consumer hentry)) (.updateSubscription h hentry)
    ((broker_insert_subscription ..).trans ?_)).answer
  simp only [SubscriptionState.consumer, (applySubscriptionMask_frame entry.spec spec mask).2.1]
  rfl

theorem simulates_deleteSubscription {name : Text} (h : s.call = .deleteSubscription name) :
    Simulates st s (deleteSubscription s.env st name).2 := by
  unfold deleteSubscription
  split
  · exact .refl st s
  exact (Simulates.of_step (.leave name) (.deleteSubscription h)
    (broker_erase_subscription ..)).answer

theorem simulates_modifyPushConfig (name : Text) (endpoint : Option Text)
    (attributes : StrMap Text) :
    Simulates st s (modifyPushConfig s.env st name endpoint attributes).2 := by
  unfold modifyPushConfig
  split
  · exact .refl st s
  rename_i sub hsub
  have hconsumer := Broker.setConsumer_eq_self (broker_consumer hsub)
  refine (Simulates.of_eq ((broker_insert_subscription ..).trans ?_)).answer
  exact hconsumer

theorem simulates_createSnapshot {name subscription : Text} {labels : StrMap Text}
    (h : s.call = .createSnapshot name subscription labels) :
    Simulates st s (createSnapshot s.env st name subscription labels).2 := by
  unfold createSnapshot
  split
  · exact .refl st s
  split
  · exact .refl st s
  rename_i hthere
  split
  · exact .refl st s
  rename_i sub hsub
  exact (Simulates.of_step (.mark (broker_mark_none hthere) (broker_consumer hsub))
    (.createSnapshot h) (broker_insert_snapshot ..)).answer

theorem simulates_updateSnapshot (snapshot : SnapshotSpec) (mask : List Text) :
    Simulates st s (updateSnapshot s.env st snapshot mask).2 := by
  unfold updateSnapshot
  split
  · exact .refl st s
  rename_i entry hentry
  have hmark := Broker.setMark_eq_self (broker_mark hentry)
  refine (Simulates.of_eq ((broker_insert_snapshot ..).trans ?_)).answer
  split <;> exact hmark

theorem simulates_deleteSnapshot {name : Text} (h : s.call = .deleteSnapshot name) :
    Simulates st s (deleteSnapshot s.env st name).2 := by
  unfold deleteSnapshot
  split
  · exact .refl st s
  exact (Simulates.of_step (.unmark name) (.deleteSnapshot h) (broker_erase_snapshot ..)).answer

theorem simulates_setIamPolicy (resource : Text) (policy : IamPolicy) :
    Simulates st s (setIamPolicy s.env st resource policy).2 :=
  Simulates.answer (.of_eq rfl)

theorem simulates_createSchema (schema : SchemaSpec) :
    Simulates st s (createSchema serde s.env st schema).2 := by
  unfold createSchema
  split
  · exact .refl st s
  split
  · exact .refl st s
  split
  · exact .refl st s
  exact Simulates.answer (.of_eq rfl)

theorem simulates_deleteSchema (name : Text) : Simulates st s (deleteSchema s.env st name).2 := by
  unfold deleteSchema
  split
  · exact .refl st s
  exact Simulates.answer (.of_eq rfl)

/-- **A publish appends** messages. -/
theorem simulates_publish {name : Text} {messages : List NewMessage}
    (h : s.call = .publish name messages) :
    Simulates st s (publish serde s.env st name messages).2 := by
  unfold publish
  split
  · exact .refl st s
  rename_i topic htopic
  split
  · exact .refl st s
  obtain ⟨new, hnew⟩ := publish_grows serde s.env name topic messages
  refine Simulates.answer ⟨new.map (.append name), ?_, fun a ha => ?_⟩
  swap
  · obtain ⟨message, -, rfl⟩ := List.mem_map.mp ha
    exact .publish message h
  rw [broker_insert_topic]
  have hruns := Broker.Runs.appends (R := rules) (broker_log htopic) new
  rw [hnew] at hruns
  exact hruns

theorem consumer_eq {sub sub' : SubscriptionState} (hspec : sub'.spec = sub.spec) :
    sub'.consumer = { sub.consumer with ledger := sub'.ledger } := by
  rw [SubscriptionState.consumer, hspec]
  rfl

/-- **A history of the ledger of a subscription** is a run of the broker. -/
theorem runs_of_trace {name : Text} {sub sub' : SubscriptionState}
    {G : Ledger Text → Event Text → Prop} {es : List (Event Text)}
    (hsub : st.subscriptions[name]? = some sub) (htrace : Trace G sub.ledger es sub'.ledger)
    (hspec : sub'.spec = sub.spec)
    (hG : ∀ L e, G L e → st.broker.Permits rules { sub.consumer with ledger := L } e) :
    Broker.Runs rules st.broker (es.map (.move name))
      (State.broker { st with subscriptions := st.subscriptions.insert name sub' }) := by
  rw [broker_insert_subscription, consumer_eq hspec]
  exact .of_trace htrace (broker_consumer hsub) hG

/-- The actions of a history of allowed events. -/
theorem takes_of_trace {name : Text} {L M : Ledger Text} {G : Ledger Text → Event Text → Prop}
    {es : List (Event Text)} (htrace : Trace G L es M)
    (hG : ∀ L e, G L e → Takes st s (.move name e)) :
    ∀ a ∈ es.map (Broker.Act.move name), Takes st s a := by
  induction htrace with
  | nil _ => simp
  | cons _ hg _ ih =>
    rw [List.map_cons, List.forall_mem_cons]
    exact ⟨hG _ _ hg, ih⟩

theorem simulates_modifyAckDeadline {name : Text} {ackIds : List Text} {extension : UInt32}
    (h : s.call = .modifyAckDeadline name ackIds extension) :
    Simulates st s (modifyAckDeadline s.env st name ackIds extension).2 := by
  unfold modifyAckDeadline
  split
  · exact .refl st s
  split
  · exact .refl st s
  rename_i sub hsub
  obtain ⟨hspec, -⟩ := modify_frame (s.env.now 0) extension sub ackIds
  obtain ⟨es, htrace⟩ := modify_trace (s.env.now 0) extension sub ackIds
  refine Simulates.answer ⟨_, runs_of_trace hsub htrace hspec ?_, takes_of_trace htrace ?_⟩
  · rintro L e ⟨k, -, i, rfl⟩
    trivial
  · rintro L e ⟨k, hk, i, rfl⟩
    exact .modifyAckDeadline i h hk

/-- **An acknowledgement** settles leases, and loses at most the expired one it stops at. -/
theorem simulates_acknowledge {name : Text} {ackIds : List Text}
    (h : s.call = .acknowledge name ackIds) :
    Simulates st s (acknowledge s.env st name ackIds).2 := by
  rcases hsub : st.subscriptions[name]? with - | sub
  · simpa [acknowledge, hsub] using Simulates.refl st s
  set acks := acknowledgeEach (s.env.now 0) st.topics[sub.spec.topic]? sub ackIds with hacks
  have hstate : (acknowledge s.env st name ackIds).2 =
      { st with subscriptions := st.subscriptions.insert name acks.2 } := by
    simp only [acknowledge, hsub, ← hacks]
    split
    · rfl
    · exact answer_snd ..
  obtain ⟨hspec, -⟩ := acknowledgeEach_frame (s.env.now 0) st.topics[sub.spec.topic]? sub ackIds
  obtain ⟨es, M, htrace, hend⟩ :=
    acknowledgeEach_trace (s.env.now 0) st.topics[sub.spec.topic]? sub ackIds
  rw [hstate]
  rcases hend with ⟨-, hledger⟩ | ⟨hne, k, hmem, i, hk, hledger⟩
  · refine ⟨_, runs_of_trace hsub (hledger ▸ htrace) hspec ?_, takes_of_trace htrace ?_⟩
    · rintro L e ⟨k, -, i, rfl⟩
      trivial
    · rintro L e ⟨k, hk, i, rfl⟩
      exact .acknowledge i h hk
  · have hstrict : sub.spec.enableExactlyOnceDelivery = true := by
      rw [Ne, acknowledgeEach_ok_iff] at hne
      push Not at hne
      obtain ⟨-, -, hstrict, -⟩ := hne
      exact hstrict
    have hforfeit : Trace (fun L e => e = .forfeit k i ∨ SettlesOf ackIds L e) sub.ledger
        (es ++ [.forfeit k i]) acks.2.ledger := by
      rw [hledger]
      exact (htrace.mono fun _ _ h => Or.inr h).append (.single (.forfeit hk) (Or.inl rfl))
    refine ⟨_, runs_of_trace hsub hforfeit hspec ?_, takes_of_trace hforfeit ?_⟩
    · rintro L e (rfl | ⟨k, -, i, rfl⟩)
      · exact hstrict
      · trivial
    · rintro L e (rfl | ⟨k, hk, i, rfl⟩)
      · exact .tooLate i h hmem
      · exact .acknowledge i h hk

theorem Simulates.rewind {name : Text} {sub : SubscriptionState} {n : ℕ}
    (hsub : st.subscriptions[name]? = some sub)
    (hn : st.broker.Permits rules sub.consumer (.rewind n))
    (hseek : seekTarget name st s = some n) :
    Simulates st s { st with subscriptions := st.subscriptions.insert name (sub.rewind n) } := by
  refine .of_step (.move (broker_consumer hsub) (.rewind n) hn) (.seek hseek) ?_
  rw [broker_insert_subscription, SubscriptionState.consumer, SubscriptionState.ledger_rewind]
  rfl

theorem simulates_seekToTime {name : Text} {time : Time}
    (h : s.call = .seekToTime name time) :
    Simulates st s (seekToTime s.env st name time).2 := by
  unfold seekToTime
  split
  · exact .refl st s
  rename_i sub hsub
  split
  · exact .refl st s
  rename_i topic htopic
  refine (Simulates.rewind hsub (Or.inl ⟨_, broker_log htopic, List.findIdx_le_length⟩) ?_).answer
  simp [seekTarget, h, hsub, htopic, seekIndex]

theorem simulates_seekToSnapshot {name snapshot : Text}
    (h : s.call = .seekToSnapshot name snapshot) :
    Simulates st s (seekToSnapshot s.env st name snapshot).2 := by
  unfold seekToSnapshot
  split
  · exact .refl st s
  rename_i snap hsnap
  split
  · exact .refl st s
  rename_i sub hsub
  split
  · exact .refl st s
  rename_i htopic
  refine (Simulates.rewind hsub (Or.inr ⟨snapshot, (broker_mark hsnap).trans ?_⟩) ?_).answer
  · rw [← not_ne_iff.mp htopic]
    rfl
  · simp [seekTarget, h, hsnap, hsub, not_ne_iff.mp htopic]

end Calls

/-! ### A pull -/

section Pull

variable {env : Env} {st : State} {s : Step} {name topicName : Text} {topicLen : ℕ}
  {maxMessages : UInt32} {p p' : Pulling} {drawn : Set Text}

/-- The store in the middle of a pull. -/
def State.during (st : State) (name : Text) (p : Pulling) : State :=
  { st with
    subscriptions := st.subscriptions.insert name p.sub
    topics := p.topics }

theorem during_subscription (st : State) (name : Text) (p : Pulling) :
    (st.during name p).subscriptions[name]? = some p.sub :=
  Std.ExtTreeMap.getElem?_insert_self

theorem broker_during :
    (st.during name p).broker =
      (State.broker { st with topics := p.topics }).setConsumer name (some p.sub.consumer) :=
  broker_insert_subscription { st with topics := p.topics } name p.sub

/-- Nothing but the ledger of the subscription has changed. -/
theorem broker_during_move (hspec : p'.sub.spec = p.sub.spec) (htopics : p'.topics = p.topics) :
    (st.during name p').broker =
      (st.during name p).broker.setConsumer name
        (some { p.sub.consumer with ledger := p'.sub.ledger }) := by
  rw [broker_during, broker_during, htopics, consumer_eq hspec, Broker.setConsumer_setConsumer]

/-- The ledger of the subscription has changed, and a message has been appended to a topic. -/
theorem broker_during_divert (hspec : p'.sub.spec = p.sub.spec) {deadName : Text}
    {topic : TopicState} (htopics : p'.topics = p.topics.insert deadName topic) :
    (st.during name p').broker =
      ((st.during name p).broker.setConsumer name
        (some { p.sub.consumer with ledger := p'.sub.ledger })).setLog deadName
          (some topic.messages) := by
  have hlog := broker_insert_topic { st with topics := p.topics } deadName topic
  rw [broker_during, broker_during, htopics, consumer_eq hspec, Broker.setConsumer_setConsumer]
  exact congrArg (fun B : Broker Text Text RelayMessage => B.setConsumer name _) hlog

/-- **A turn is one action.** -/
theorem Turned.simulates (h : Turned env name topicName topicLen p p') (st : State)
    (hcall : s.call = .pull name maxMessages) (hx : Exclusive p.sub.ledger)
    (hn : Named name (drawn ∪ drawnUpTo env p.draws) p.sub) (hd : Undrawn env drawn)
    (htopicName : p.sub.spec.topic = topicName) :
    ∃ act, Broker.Step rules (st.during name p).broker act (st.during name p').broker ∧
      Takes st s act ∧ p'.handed = p.handed ++ act.grants name := by
  have hconsumer := broker_consumer (during_subscription st name p)
  have hlogOf : ∀ {topic : TopicState}, p.topics[topicName]? = some topic →
      (st.during name p).broker.log p.sub.consumer.topic = some topic.messages := by
    intro topic htopic
    rw [← htopicName] at htopic
    exact broker_log htopic
  have hspec : p'.sub.spec = p.sub.spec := h.spec_eq
  cases h with
  | @skip index sub htake hskip =>
    -- an index that can be taken is neither acked nor leased, so none is passed over
    obtain ⟨-, hfree⟩ := hx.take (takeNext_take htake)
    rcases hskip with hacked | hleased
    · exact absurd hacked hfree.done
    · exact absurd ((sub.isLeased_iff index).mp hleased) hfree.held
  | @block index sub topic htake _ _ htopic hblocked =>
    have hlt : index < topic.messages.length := by
      obtain ⟨-, j, -, hkey, -⟩ := orderingBlocked_eq_true_iff.mp hblocked
      exact hkey.lt
    refine ⟨.move name (.park index), ?_, .block index hcall,
      by simp [Pulling.handed, Broker.Act.grants]⟩
    rw [broker_during_move hspec rfl]
    refine .move hconsumer ?_ ⟨_, hlogOf htopic, hlt⟩
    rw [SubscriptionState.ledger_requeue]
    exact .park (takeNext_take htake)
  | @serve index sub topic message p' htake hacked hleased htopic hblocked hmessage hserved =>
    have hlt : index < topic.messages.length := (List.getElem?_eq_some_iff.mp hmessage).1
    have ht := takeNext_take htake
    have hturned : Turned env name topicName topicLen p p' :=
      .serve htake hacked hleased htopic hblocked hmessage hserved
    cases hserved with
    | @dead deadName deadTopic hdead =>
      refine ⟨.divert name index deadName
        (deadMessage env name (({ p with sub } : Pulling).countAttempt index) message), ?_,
          .deadLetter index deadName _ hcall, ?_⟩
      · have hdeadTopic := (exists_of_deadLetterTopic hdead).1
        rw [broker_during_divert hspec rfl]
        refine .divert hconsumer (.retire ht) (hlogOf htopic) hmessage ⟨rfl, rfl, rfl⟩ ?_
        exact broker_log hdeadTopic
      · simp [Pulling.handed, deadLetter, Pulling.countAttempt, Broker.Act.grants]
    | filtered _ =>
      refine ⟨.move name (.retire index), ?_, .filter index hcall, ?_⟩
      · rw [broker_during_move hspec rfl]
        exact .move hconsumer (.retire ht) ⟨_, hlogOf htopic, hlt⟩
      · simp [Pulling.handed, Pulling.countAttempt, Broker.Act.grants]
    | delivered _ =>
      -- the event is the grant of what is handed out
      have hlogs : ∀ t, p.topics[topicName]? = some t → t.messages <+: topic.messages := by
        intro t ht
        obtain rfl := Option.some.inj (ht.symm.trans htopic)
        exact List.prefix_refl _
      obtain ⟨e, he⟩ : ∃ e, Serves env name drawn (p.sub.spec.enableMessageOrdering = true)
          topic.messages p _ e := turned_serves hx hn hd id (fun _ => hlogs) hturned
      have hgrants := he.handed
      simp only [Pulling.handed, deliver, Pulling.countAttempt, List.map_append, List.map_cons,
        List.map_nil, List.append_cancel_left_eq] at hgrants
      obtain rfl : .grant (ackIdFor env name (({ p with sub } : Pulling).countAttempt index)
          index (sub.nextAttempt index)) index = e := by
        refine List.mem_singleton.mp (mem_grants.mp ?_)
        rw [← hgrants]
        exact List.mem_singleton_self _
      refine ⟨.move name (.grant (ackIdFor env name
        (({ p with sub } : Pulling).countAttempt index) index (sub.nextAttempt index)) index), ?_,
        .deliver _ index hcall, ?_⟩
      · rw [broker_during_move hspec rfl]
        exact .move hconsumer he.move ⟨_, hlogOf htopic, hlt, he.inOrder⟩
      · simp [Pulling.handed, deliver, Pulling.countAttempt, Broker.Act.grants]

/-- **The loop is a run.** -/
theorem runs_of_turns (st : State) (hcall : s.call = .pull name maxMessages)
    (h : Relation.ReflTransGen (Turned env name topicName topicLen) p p')
    (hx : Exclusive p.sub.ledger)
    (hn : Named name (drawn ∪ drawnUpTo env p.draws) p.sub) (hd : Undrawn env drawn)
    (htopicName : p.sub.spec.topic = topicName) :
    ∃ acts, Broker.Runs rules (st.during name p).broker acts (st.during name p').broker ∧
      (∀ a ∈ acts, Takes st s a) ∧ p'.handed = p.handed ++ Broker.handouts name acts := by
  induction h using Relation.ReflTransGen.head_induction_on with
  | refl => exact ⟨[], .nil _, by simp, by simp [Broker.handouts]⟩
  | @head p p₁ hturn _ ih =>
    obtain ⟨e, he⟩ : ∃ e, Serves env name drawn False [] p p₁ e :=
      turned_serves hx hn hd False.elim False.elim hturn
    obtain ⟨act, hstep, htakes, hhanded⟩ := hturn.simulates st hcall hx hn hd htopicName
    obtain ⟨acts, hruns, hall, hrest⟩ :=
      ih (hx.move he.move) he.named ((congrArg (·.topic) hturn.spec_eq).trans htopicName)
    refine ⟨act :: acts, .cons hstep hruns, List.forall_mem_cons.mpr ⟨htakes, hall⟩, ?_⟩
    rw [hrest, hhanded, List.append_assoc]
    rfl

end Pull

section Runs

variable {past : List Step} {s : Step} {st : State} {name : Text}

variable (serde) in
/-- **A pull is a run**, from every state of a run of the store; and unless it panics, it
answers the leases handed out. -/
theorem simulates_pull (hfresh : (past ++ [s]).Pairwise Step.Apart) {maxMessages : UInt32}
    (hcall : s.call = .pull name maxMessages) :
    ∃ acts, Broker.Runs rules (stateAfter serde past).broker acts
        (pull s.env (stateAfter serde past) name maxMessages).2.broker ∧
      (∀ a ∈ acts, Takes (stateAfter serde past) s a) ∧
      (NoPanic (stateAfter serde past) s →
        Broker.handouts name acts = granted name (stateAfter serde past) s) := by
  set st := stateAfter serde past with hst
  rcases hsub : st.subscriptions[name]? with - | sub
  · refine ⟨[], ?_, by simp, fun _ => by simp [granted, hcall, hsub, Broker.handouts]⟩
    simpa [pull, hsub] using Broker.Runs.nil (R := rules) st.broker
  rcases htopic : st.topics[sub.spec.topic]? with - | topic
  · refine ⟨[], ?_, by simp, fun _ => by simp [granted, hcall, hsub, htopic, Broker.handouts]⟩
    have hself := (broker_insert_subscription st name sub).trans
      (Broker.setConsumer_eq_self (broker_consumer hsub))
    simp only [pull, hsub, htopic]
    rw [hself]
    exact .nil _
  have hsound := sound_stateAfter (List.pairwise_append.mp hfresh).1 hsub
  obtain ⟨hspec, -⟩ := sweep_frame s.env sub
  obtain ⟨es, hes⟩ := sweep_trace s.env sub hsound.exclusive
  -- a sweep, and then the turns
  set start : Pulling := { sub := sweep s.env sub, topics := st.topics } with hstart
  have hsweep :
      Broker.Runs rules st.broker (es.map (.move name)) (st.during name start).broker := by
    refine runs_of_trace hsub hes hspec ?_
    rintro L e ⟨k, i, rfl⟩
    trivial
  have hswept : ∀ a ∈ es.map (Broker.Act.move name), Takes st s a := by
    refine takes_of_trace hes ?_
    rintro L e ⟨k, i, rfl⟩
    exact .sweep k i hcall
  have hturns : ∀ {p : Pulling},
      Relation.ReflTransGen (Turned s.env name sub.spec.topic topic.messages.length) start p →
      ∃ acts, Broker.Runs rules st.broker acts (st.during name p).broker ∧
        (∀ a ∈ acts, Takes st s a) ∧ Broker.handouts name acts = p.handed := by
    intro p hp
    obtain ⟨acts, hruns, htakes, hhanded⟩ := runs_of_turns st hcall hp
      (hes.exclusive hsound.exclusive) ((named_sweep hsound.named).mono Set.subset_union_left)
      (undrawn_of_apart hfresh) (congrArg (·.topic) hspec)
    refine ⟨_, hsweep.append hruns, fun a ha => ?_, ?_⟩
    · exact (List.mem_append.mp ha).elim (hswept a) (htakes a)
    · rw [hhanded, Broker.handouts_append, Broker.handouts_move, grants_of_requeues hes]
      rfl
  rcases hp : pullFrom s.env name maxMessages sub st.topics topic.messages.length with p | p
  · have hloop := turns_of_finished hp
    rw [hspec] at hloop
    obtain ⟨acts, hruns, htakes, hhanded⟩ := hturns hloop
    refine ⟨acts, ?_, htakes, fun _ => ?_⟩
    · have hstate : (pull s.env st name maxMessages).2 = st.during name p := by
        simp [pull, hsub, htopic, hp, State.during]
      rw [hstate]
      exact hruns
    · rw [hhanded]
      simp [granted, hcall, hsub, htopic, hp, Pulling.handed]
  · -- the subscription is dropped
    have hloop := (turns_of_panicked hp).1
    rw [hspec] at hloop
    obtain ⟨acts, hruns, htakes, -⟩ := hturns hloop
    have hpanic : ¬NoPanic st s := by
      intro hno
      exact hno name maxMessages hcall (by simp [pull, hsub, htopic, hp])
    refine ⟨acts ++ [.leave name], hruns.append (.single ?_), fun a ha => ?_,
      fun hno => absurd hno hpanic⟩
    · have hstate : (pull s.env st name maxMessages).2.broker =
          (st.during name p).broker.setConsumer name none := by
        have herase := broker_erase_subscription { st with topics := p.topics } name
        rw [broker_during, Broker.setConsumer_setConsumer, ← herase]
        simp [pull, hsub, htopic, hp]
      rw [hstate]
      exact .leave name
    · rcases List.mem_append.mp ha with ha | ha
      · exact htakes a ha
      · obtain rfl := List.mem_singleton.mp ha
        exact .panic hcall hpanic

variable (serde) in
/-- A call that is no pull. -/
theorem simulates_call (st : State) (hpull : ∀ n m, s.call ≠ .pull n m) :
    Simulates st s (exec serde st s) := by
  unfold exec
  cases hcall : s.call with
  | pull n m => exact absurd hcall (hpull n m)
  | createTopic _ => exact simulates_createTopic hcall
  | updateTopic _ _ => exact simulates_updateTopic _ _
  | deleteTopic _ => exact simulates_deleteTopic hcall
  | createSubscription _ => exact simulates_createSubscription hcall
  | updateSubscription _ _ => exact simulates_updateSubscription hcall
  | deleteSubscription _ => exact simulates_deleteSubscription hcall
  | modifyPushConfig _ _ _ => exact simulates_modifyPushConfig _ _ _
  | publish _ _ => exact simulates_publish hcall
  | acknowledge _ _ => exact simulates_acknowledge hcall
  | modifyAckDeadline _ _ _ => exact simulates_modifyAckDeadline hcall
  | seekToTime _ _ => exact simulates_seekToTime hcall
  | seekToSnapshot _ _ => exact simulates_seekToSnapshot hcall
  | createSnapshot _ _ _ => exact simulates_createSnapshot hcall
  | updateSnapshot _ _ => exact simulates_updateSnapshot _ _
  | deleteSnapshot _ => exact simulates_deleteSnapshot hcall
  | setIamPolicy _ _ => exact simulates_setIamPolicy _ _
  | createSchema _ => exact simulates_createSchema _
  | deleteSchema _ => exact simulates_deleteSchema _
  | _ => exact .refl st s

/-- A call that is no pull of the subscription hands out nothing on it. -/
theorem granted_of_no_pull (hpull : ∀ m, s.call ≠ .pull name m) : granted name st s = [] := by
  unfold granted
  split
  · rename_i n m hcall
    split
    · rename_i heq
      exact absurd (heq ▸ hcall) (hpull m)
    · rfl
  · rfl

variable (serde) in
/-- **Every call is a sequence of actions** that it may take, and unless it panics, they hand
out the leases that it grants. -/
theorem simulates_exec (hfresh : (past ++ [s]).Pairwise Step.Apart) :
    ∃ acts, Broker.Runs rules (stateAfter serde past).broker acts
        (exec serde (stateAfter serde past) s).broker ∧
      (∀ a ∈ acts, Takes (stateAfter serde past) s a) ∧
      (NoPanic (stateAfter serde past) s →
        ∀ name, Broker.handouts name acts = granted name (stateAfter serde past) s) := by
  by_cases hpull : ∃ n m, s.call = .pull n m
  · obtain ⟨n, maxMessages, hcall⟩ := hpull
    obtain ⟨acts, hruns, htakes, hhanded⟩ := simulates_pull serde hfresh hcall
    refine ⟨acts, by simpa only [exec, hcall] using hruns, htakes, fun hno name => ?_⟩
    rcases eq_or_ne n name with rfl | hn
    · exact hhanded hno
    · have hother : ∀ m, s.call ≠ .pull name m := by
        rintro m heq
        exact hn (BackendCall.pull.inj (hcall.symm.trans heq)).1
      rw [handouts_eq_nil htakes hother, granted_of_no_pull hother]
  · have hpull : ∀ n m, s.call ≠ .pull n m := fun n m hcall => hpull ⟨n, m, hcall⟩
    obtain ⟨acts, hruns, htakes⟩ := simulates_call serde (stateAfter serde past) hpull
    refine ⟨acts, hruns, htakes, fun _ name => ?_⟩
    rw [handouts_eq_nil htakes (hpull name), granted_of_no_pull (hpull name)]

end Runs

/-! ### Runs -/

variable (serde) in
/-- **The broker follows the store, call by call**: the actions of each call lead from the
broker of the store before it to that of the store after it, are such that the call may take
them, and hand out the leases that it grants, unless it is a pull that panics. -/
inductive Follows : List Step → List (List (Broker.Act Text Text RelayMessage)) → Prop
  | nil : Follows [] []
  | call {past : List Step} {s : Step} {before : List (List (Broker.Act Text Text RelayMessage))}
      {acts : List (Broker.Act Text Text RelayMessage)} : Follows past before →
      Broker.Runs rules (stateAfter serde past).broker acts
        (stateAfter serde (past ++ [s])).broker →
      (∀ a ∈ acts, Takes (stateAfter serde past) s a) →
      (NoPanic (stateAfter serde past) s →
        ∀ name, Broker.handouts name acts = granted name (stateAfter serde past) s) →
      Follows (past ++ [s]) (before ++ [acts])

/-- What the broker does along a run of the store is a run of the broker. -/
theorem Follows.runs {steps : List Step}
    {actss : List (List (Broker.Act Text Text RelayMessage))} (h : Follows serde steps actss) :
    Broker.Runs rules Broker.empty actss.flatten (stateAfter serde steps).broker := by
  induction h with
  | nil =>
    have hempty : State.broker {} = Broker.empty := by
      simp [State.broker, brokerOf, Broker.empty]
    rw [← hempty]
    exact .nil _
  | call _ hruns _ _ ih =>
    rw [List.flatten_append, List.flatten_singleton]
    exact ih.append hruns

/-- What the pulls of a subscription answer has been handed out by the broker, in order. -/
theorem Follows.granted_sublist {steps : List Step}
    {actss : List (List (Broker.Act Text Text RelayMessage))} (h : Follows serde steps actss)
    (name : Text) :
    (grantedAlong serde name {} steps).Sublist (Broker.handouts name actss.flatten) := by
  induction h with
  | nil => exact List.nil_sublist _
  | @call past s before acts _ _ _ hhanded ih =>
    rw [grantedAlong_concat, List.flatten_append, List.flatten_singleton, Broker.handouts_append]
    refine ih.append ?_
    by_cases hno : NoPanic (stateAfter serde past) s
    · rw [hhanded hno name]
      exact List.Sublist.refl _
    · have hnone : granted name (stateAfter serde past) s = [] := granted_of_panic hno name
      have hsub := List.nil_sublist (Broker.handouts name acts)
      rwa [← hnone] at hsub

/-- The broker can follow every run of the store. -/
theorem exists_follows {steps : List Step} (hfresh : steps.Pairwise Step.Apart) :
    ∃ actss, Follows serde steps actss := by
  induction steps using List.reverseRecOn with
  | nil => exact ⟨[], .nil⟩
  | append_singleton past s ih =>
    obtain ⟨before, hbefore⟩ := ih (List.pairwise_append.mp hfresh).1
    obtain ⟨acts, hruns, htakes, hhanded⟩ := simulates_exec serde hfresh
    rw [← stateAfter_concat] at hruns
    exact ⟨before ++ [acts], .call hbefore hruns htakes hhanded⟩

/-- **The store refines the broker.** Every run of the store, by any calls at any times, and
whichever of them answer an error, fail to write the state file or panic, is followed by the
broker call by call, from nothing, by a run of the broker; and what the pulls of a
subscription have answered was handed out to it by the broker, in the same order. -/
theorem refines_broker (r : Run) :
    ∃ actss, Follows serde r.steps actss ∧
      Broker.Runs rules Broker.empty actss.flatten (stateAfter serde r.steps).broker ∧
      ∀ name, (grantedAlong serde name {} r.steps).Sublist
        (Broker.handouts name actss.flatten) := by
  obtain ⟨actss, hfollows⟩ := @exists_follows serde _ r.fresh
  exact ⟨actss, hfollows, hfollows.runs, hfollows.granted_sublist⟩

end RelayPubsub.Memory
