import RelayPubsub.Memory.Exec

/-!
# Resources of another name

A call that creates or changes something acts on the resource it names
(`RelayPubsub.BackendCall.target`): every entry of the store under another name
is the same after it (`RelayPubsub.Memory.exec_sameAt`). A pull is the exception,
as it may move a message to a dead-letter topic.
-/

namespace RelayPubsub.Memory

open Lib

/-- **The two states hold the same under a name.** -/
structure SameAt (name : Text) (st st' : State) : Prop where
  topics : st'.topics[name]? = st.topics[name]?
  subscriptions : st'.subscriptions[name]? = st.subscriptions[name]?
  snapshots : st'.snapshots[name]? = st.snapshots[name]?
  schemas : st'.schemas[name]? = st.schemas[name]?
  iam : st'.iam[name]? = st.iam[name]?

section SameAt

variable {name : Text} {st : State}

theorem SameAt.refl (name : Text) (st : State) : SameAt name st st := ⟨rfl, rfl, rfl, rfl, rfl⟩

theorem SameAt.topics_insert {n : Text} (h : n ≠ name) (v : TopicState) :
    SameAt name st { st with topics := st.topics.insert n v } :=
  ⟨getElem?_insert_of_ne h, rfl, rfl, rfl, rfl⟩

theorem SameAt.subscriptions_insert {n : Text} (h : n ≠ name) (v : SubscriptionState) :
    SameAt name st { st with subscriptions := st.subscriptions.insert n v } :=
  ⟨rfl, getElem?_insert_of_ne h, rfl, rfl, rfl⟩

theorem SameAt.snapshots_insert {n : Text} (h : n ≠ name) (v : SnapshotSpec) :
    SameAt name st { st with snapshots := st.snapshots.insert n v } :=
  ⟨rfl, rfl, getElem?_insert_of_ne h, rfl, rfl⟩

theorem SameAt.schemas_insert {n : Text} (h : n ≠ name) (v : SchemaSpec) :
    SameAt name st { st with schemas := st.schemas.insert n v } :=
  ⟨rfl, rfl, rfl, getElem?_insert_of_ne h, rfl⟩

theorem SameAt.topics_erase {n : Text} (h : n ≠ name) :
    SameAt name st { st with topics := st.topics.erase n } :=
  ⟨getElem?_erase_of_ne h, rfl, rfl, rfl, rfl⟩

theorem SameAt.subscriptions_erase {n : Text} (h : n ≠ name) :
    SameAt name st { st with subscriptions := st.subscriptions.erase n } :=
  ⟨rfl, getElem?_erase_of_ne h, rfl, rfl, rfl⟩

theorem SameAt.snapshots_erase {n : Text} (h : n ≠ name) :
    SameAt name st { st with snapshots := st.snapshots.erase n } :=
  ⟨rfl, rfl, getElem?_erase_of_ne h, rfl, rfl⟩

theorem SameAt.schemas_erase {n : Text} (h : n ≠ name) :
    SameAt name st { st with schemas := st.schemas.erase n } :=
  ⟨rfl, rfl, rfl, getElem?_erase_of_ne h, rfl⟩

theorem SameAt.iam_insert {n : Text} (h : n ≠ name) (v : IamPolicy) :
    SameAt name st { st with iam := st.iam.insert n v } :=
  ⟨rfl, rfl, rfl, rfl, getElem?_insert_of_ne h⟩

/-- The end of a mutating operation. -/
theorem SameAt.answer {α : Type} {env : Env} {value : α} {st' : State} (h : SameAt name st st') :
    SameAt name st (answer env value st').2 := by
  rw [answer_snd]
  exact h

end SameAt

section Operations

variable {name : Text} (serde : SerdeJson) (env : Env) (st : State)

theorem createTopic_sameAt {topic : TopicSpec} (h : topic.name ≠ name) :
    SameAt name st (createTopic env st topic).2 := by
  unfold createTopic
  split
  · exact .refl name st
  split
  · exact .refl name st
  · exact .answer (.topics_insert h _)

theorem updateTopic_sameAt {topic : TopicSpec} {mask : List Text} (h : topic.name ≠ name) :
    SameAt name st (updateTopic env st topic mask).2 := by
  unfold updateTopic
  split
  · exact .refl name st
  · exact .answer (.topics_insert h _)

theorem deleteTopic_sameAt {n : Text} (h : n ≠ name) :
    SameAt name st (deleteTopic env st n).2 := by
  unfold deleteTopic
  split
  · exact .refl name st
  · exact .answer (.topics_erase h)

theorem createSubscription_sameAt {spec : SubscriptionSpec} (h : spec.name ≠ name) :
    SameAt name st (createSubscription env st spec).2 := by
  unfold createSubscription
  split
  · exact .refl name st
  split
  · exact .refl name st
  split
  · exact .refl name st
  split
  · exact .refl name st
  · exact .answer (.subscriptions_insert h _)

theorem updateSubscription_sameAt {spec : SubscriptionSpec} {mask : List Text}
    (h : spec.name ≠ name) : SameAt name st (updateSubscription env st spec mask).2 := by
  unfold updateSubscription
  split
  · exact .refl name st
  split
  · exact .refl name st
  · exact .answer (.subscriptions_insert h _)

theorem deleteSubscription_sameAt {n : Text} (h : n ≠ name) :
    SameAt name st (deleteSubscription env st n).2 := by
  unfold deleteSubscription
  split
  · exact .refl name st
  · exact .answer (.subscriptions_erase h)

theorem modifyPushConfig_sameAt {n : Text} {endpoint : Option Text} {attributes : StrMap Text}
    (h : n ≠ name) : SameAt name st (modifyPushConfig env st n endpoint attributes).2 := by
  unfold modifyPushConfig
  split
  · exact .refl name st
  · exact .answer (.subscriptions_insert h _)

theorem publish_sameAt {topic : Text} {messages : List NewMessage} (h : topic ≠ name) :
    SameAt name st (publish serde env st topic messages).2 := by
  unfold publish
  split
  · exact .refl name st
  split
  · exact .refl name st
  · exact .answer (.topics_insert h _)

theorem acknowledge_sameAt {n : Text} {ackIds : List Text} (h : n ≠ name) :
    SameAt name st (acknowledge env st n ackIds).2 := by
  unfold acknowledge
  split
  · exact .refl name st
  dsimp only
  split
  · exact .subscriptions_insert h _
  · exact .answer (.subscriptions_insert h _)

theorem modifyAckDeadline_sameAt {n : Text} {ackIds : List Text} {extension : UInt32}
    (h : n ≠ name) : SameAt name st (modifyAckDeadline env st n ackIds extension).2 := by
  unfold modifyAckDeadline
  split
  · exact .refl name st
  split
  · exact .refl name st
  · exact .answer (.subscriptions_insert h _)

theorem seekToTime_sameAt {n : Text} {time : Time} (h : n ≠ name) :
    SameAt name st (seekToTime env st n time).2 := by
  unfold seekToTime
  split
  · exact .refl name st
  split
  · exact .refl name st
  · exact .answer (.subscriptions_insert h _)

theorem seekToSnapshot_sameAt {n snapshot : Text} (h : n ≠ name) :
    SameAt name st (seekToSnapshot env st n snapshot).2 := by
  unfold seekToSnapshot
  split
  · exact .refl name st
  split
  · exact .refl name st
  split
  · exact .refl name st
  · exact .answer (.subscriptions_insert h _)

theorem createSnapshot_sameAt {n subscription : Text} {labels : StrMap Text} (h : n ≠ name) :
    SameAt name st (createSnapshot env st n subscription labels).2 := by
  unfold createSnapshot
  split
  · exact .refl name st
  split
  · exact .refl name st
  split
  · exact .refl name st
  · exact .answer (.snapshots_insert h _)

theorem updateSnapshot_sameAt {snapshot : SnapshotSpec} {mask : List Text}
    (h : snapshot.name ≠ name) : SameAt name st (updateSnapshot env st snapshot mask).2 := by
  unfold updateSnapshot
  split
  · exact .refl name st
  · exact .answer (.snapshots_insert h _)

theorem deleteSnapshot_sameAt {n : Text} (h : n ≠ name) :
    SameAt name st (deleteSnapshot env st n).2 := by
  unfold deleteSnapshot
  split
  · exact .refl name st
  · exact .answer (.snapshots_erase h)

theorem createSchema_sameAt {schema : SchemaSpec} (h : schema.name ≠ name) :
    SameAt name st (createSchema serde env st schema).2 := by
  unfold createSchema
  split
  · exact .refl name st
  split
  · exact .refl name st
  split
  · exact .refl name st
  · exact .answer (.schemas_insert h _)

theorem deleteSchema_sameAt {n : Text} (h : n ≠ name) :
    SameAt name st (deleteSchema env st n).2 := by
  unfold deleteSchema
  split
  · exact .refl name st
  · exact .answer (.schemas_erase h)

end Operations

/-- **A call changes nothing under another name than its own**, unless it is a
pull. -/
theorem exec_sameAt {name : Text} {serde : SerdeJson} {st : State} {s : Step}
    (htarget : s.call.target ≠ some name) (hpull : ∀ n m, s.call ≠ .pull n m) :
    SameAt name st (exec serde st s) := by
  have hne : ∀ {n : Text}, s.call.target = some n → n ≠ name := by
    rintro n h rfl
    exact htarget h
  unfold exec
  cases hcall : s.call with
  | pull n maxMessages => exact absurd hcall (hpull n maxMessages)
  | createTopic topic => exact createTopic_sameAt _ _ (hne (by rw [hcall]; rfl))
  | updateTopic topic mask => exact updateTopic_sameAt _ _ (hne (by rw [hcall]; rfl))
  | deleteTopic n => exact deleteTopic_sameAt _ _ (hne (by rw [hcall]; rfl))
  | createSubscription spec => exact createSubscription_sameAt _ _ (hne (by rw [hcall]; rfl))
  | updateSubscription spec mask => exact updateSubscription_sameAt _ _ (hne (by rw [hcall]; rfl))
  | deleteSubscription n => exact deleteSubscription_sameAt _ _ (hne (by rw [hcall]; rfl))
  | modifyPushConfig n endpoint attributes =>
    exact modifyPushConfig_sameAt _ _ (hne (by rw [hcall]; rfl))
  | publish topic messages => exact publish_sameAt _ _ _ (hne (by rw [hcall]; rfl))
  | acknowledge n ackIds => exact acknowledge_sameAt _ _ (hne (by rw [hcall]; rfl))
  | modifyAckDeadline n ackIds extension =>
    exact modifyAckDeadline_sameAt _ _ (hne (by rw [hcall]; rfl))
  | seekToTime n time => exact seekToTime_sameAt _ _ (hne (by rw [hcall]; rfl))
  | seekToSnapshot n snapshot => exact seekToSnapshot_sameAt _ _ (hne (by rw [hcall]; rfl))
  | createSnapshot n subscription labels =>
    exact createSnapshot_sameAt _ _ (hne (by rw [hcall]; rfl))
  | updateSnapshot snapshot mask => exact updateSnapshot_sameAt _ _ (hne (by rw [hcall]; rfl))
  | deleteSnapshot n => exact deleteSnapshot_sameAt _ _ (hne (by rw [hcall]; rfl))
  | setIamPolicy resource policy => exact .answer (.iam_insert (hne (by rw [hcall]; rfl)) _)
  | createSchema schema => exact createSchema_sameAt _ _ _ (hne (by rw [hcall]; rfl))
  | deleteSchema n => exact deleteSchema_sameAt _ _ (hne (by rw [hcall]; rfl))
  | _ => exact .refl name st

end RelayPubsub.Memory
