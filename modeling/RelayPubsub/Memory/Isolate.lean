import RelayPubsub.Memory.Hidden

/-!
# A call on two states that agree

Two states that agree off a hidden part agree after the same call, if the call
adds no reference out of the hidden part (`RelayPubsub.Memory.exec_agree`), and a
pull from a subscription that is not hidden answers the same on both
(`RelayPubsub.Memory.pull_agree`).

The loop of such a pull runs in step on the two states
(`RelayPubsub.Memory.Twin`): what it reads is the subscription and its topic,
which are the same, and of the topic for dead letters only whether it exists.
-/

namespace RelayPubsub.Memory

open Lib

/-! ### The references of the store -/

section Sealed

variable {h : Hidden} {serde : SerdeJson} {st st' : State} {s : Step} {name : Text}
  {sub : SubscriptionState}

/-- The subscriptions are the same. -/
theorem Hidden.Sealed.of_eq (hst : h.Sealed st) (heq : st'.subscriptions = st.subscriptions) :
    h.Sealed st' := by
  unfold Hidden.Sealed
  rw [heq]
  exact hst

/-- A subscription has been put in the store. -/
theorem Hidden.Sealed.insert (hst : h.Sealed st)
    (heq : st'.subscriptions = st.subscriptions.insert name sub) (hsub : h.Seals name sub.spec) :
    h.Sealed st' := by
  intro n sub' hsub'
  rw [heq] at hsub'
  rcases eq_or_ne name n with rfl | hn
  · rw [Std.ExtTreeMap.getElem?_insert_self] at hsub'
    rwa [← Option.some.inj hsub']
  · rw [getElem?_insert_of_ne hn] at hsub'
    exact hst n sub' hsub'

/-- A subscription is gone. -/
theorem Hidden.Sealed.erase (hst : h.Sealed st)
    (heq : st'.subscriptions = st.subscriptions.erase name) : h.Sealed st' := by
  intro n sub' hsub'
  rw [heq] at hsub'
  rcases eq_or_ne name n with rfl | hn
  · rw [Std.ExtTreeMap.getElem?_erase_self] at hsub'
    cases hsub'
  · rw [getElem?_erase_of_ne hn] at hsub'
    exact hst n sub' hsub'

/-- A path of an update mask takes over the dead-letter policy, or keeps it. -/
theorem applySubscriptionField_deadLetter (incoming existing : SubscriptionSpec) (field : Text) :
    (applySubscriptionField incoming existing field).deadLetter = existing.deadLetter ∨
      (field = "dead_letter_policy".toList ∨ field = "deadLetterPolicy".toList) ∧
        (applySubscriptionField incoming existing field).deadLetter = incoming.deadLetter := by
  unfold applySubscriptionField
  split_ifs with _ _ _ _ hdead
  case pos => exact Or.inl rfl
  case pos => exact Or.inl rfl
  case pos => exact Or.inl rfl
  case pos => exact Or.inl rfl
  case pos => exact Or.inr ⟨hdead, rfl⟩
  all_goals exact Or.inl rfl

/-- **A mask takes over the dead-letter policy only if it says so.** -/
theorem applySubscriptionMask_deadLetter (existing incoming : SubscriptionSpec) (mask : List Text) :
    (applySubscriptionMask existing incoming mask).deadLetter = existing.deadLetter ∨
      SetsDeadLetter mask ∧
        (applySubscriptionMask existing incoming mask).deadLetter = incoming.deadLetter := by
  have hfold : ∀ (fields : List Text) (spec : SubscriptionSpec),
      (fields.foldl (applySubscriptionField incoming) spec).deadLetter = spec.deadLetter ∨
        ("dead_letter_policy".toList ∈ fields ∨ "deadLetterPolicy".toList ∈ fields) ∧
          (fields.foldl (applySubscriptionField incoming) spec).deadLetter =
            incoming.deadLetter := by
    intro fields
    induction fields with
    | nil => exact fun _ => Or.inl rfl
    | cons field fields ih =>
      intro spec
      rw [List.foldl_cons, List.mem_cons, List.mem_cons]
      rcases ih (applySubscriptionField incoming spec field) with hkept | ⟨hmem, htaken⟩
      · rw [hkept]
        rcases applySubscriptionField_deadLetter incoming spec field with hfield | ⟨hf, hfield⟩
        · exact Or.inl hfield
        · exact Or.inr ⟨hf.imp (fun heq => Or.inl heq.symm) fun heq => Or.inl heq.symm, hfield⟩
      · exact Or.inr ⟨hmem.imp Or.inr Or.inr, htaken⟩
  unfold applySubscriptionMask SetsDeadLetter
  split_ifs with hall
  · exact Or.inr ⟨hall.imp_right Or.inl, rfl⟩
  · exact (hfold mask existing).imp_right fun hset => ⟨Or.inr (Or.inr hset.1), hset.2⟩

/-- A loop of a pull leaves the specification. -/
theorem pullFrom_spec {env : Env} {maxMessages : UInt32} {topics : StrMap TopicState}
    {topicLen : ℕ} {p : Pulling}
    (hp : pullFrom env name maxMessages sub topics topicLen = .finished p) :
    p.sub.spec = sub.spec :=
  (spec_of_turns (turns_of_finished hp)).trans (sweep_frame env sub).1

variable (env : Env)

theorem createSubscription_sealed (hst : h.Sealed st) {spec : SubscriptionSpec}
    (hspec : h.Seals spec.name spec) : h.Sealed (createSubscription env st spec).2 := by
  unfold createSubscription
  split
  · exact hst
  split
  · exact hst
  split
  · exact hst
  split
  · exact hst
  · rw [answer_snd]
    exact hst.insert rfl ⟨hspec.reads, hspec.writes⟩

/-- An update keeps the topic of a subscription, and its dead-letter policy unless
the mask says otherwise. -/
theorem updateSubscription_sealed (hst : h.Sealed st) {spec : SubscriptionSpec} {mask : List Text}
    (hspec : spec.name ∈ h.subscriptions → SetsDeadLetter mask → h.Takes spec.deadLetter) :
    h.Sealed (updateSubscription env st spec mask).2 := by
  unfold updateSubscription
  split
  · exact hst
  rename_i entry hentry
  have hseals := hst _ entry hentry
  split
  · exact hst
  · rw [answer_snd]
    refine hst.insert rfl ⟨fun htopic => hseals.reads ?_, fun hname => ?_⟩
    · rwa [← (applySubscriptionMask_frame entry.spec spec mask).2.1]
    · rcases applySubscriptionMask_deadLetter entry.spec spec mask with hkept | ⟨hset, htaken⟩
      · exact hkept ▸ hseals.writes hname
      · exact htaken ▸ hspec hname hset

theorem deleteSubscription_sealed (hst : h.Sealed st) (name : Text) :
    h.Sealed (deleteSubscription env st name).2 := by
  unfold deleteSubscription
  split
  · exact hst
  · rw [answer_snd]
    exact hst.erase rfl

theorem modifyPushConfig_sealed (hst : h.Sealed st) (name : Text) (endpoint : Option Text)
    (attributes : StrMap Text) :
    h.Sealed (modifyPushConfig env st name endpoint attributes).2 := by
  unfold modifyPushConfig
  split
  · exact hst
  · rename_i sub hsub
    rw [answer_snd]
    exact hst.insert rfl ⟨(hst _ sub hsub).reads, (hst _ sub hsub).writes⟩

theorem pull_sealed (hst : h.Sealed st) (name : Text) (maxMessages : UInt32) :
    h.Sealed (pull env st name maxMessages).2 := by
  unfold pull
  split
  · exact hst
  rename_i sub hsub
  have hseals := hst _ sub hsub
  split
  · exact hst.insert rfl hseals
  split
  · rename_i p hp
    rw [answer_snd]
    exact hst.insert rfl ((pullFrom_spec hp).symm ▸ hseals)
  · exact hst.erase rfl

theorem acknowledge_sealed (hst : h.Sealed st) (name : Text) (ackIds : List Text) :
    h.Sealed (acknowledge env st name ackIds).2 := by
  unfold acknowledge
  split
  · exact hst
  rename_i sub hsub
  have hspec := (acknowledgeEach_frame (env.now 0) st.topics[sub.spec.topic]? sub ackIds).1
  dsimp only
  split
  · exact hst.insert rfl (hspec.symm ▸ hst _ sub hsub)
  · rw [answer_snd]
    exact hst.insert rfl (hspec.symm ▸ hst _ sub hsub)

theorem modifyAckDeadline_sealed (hst : h.Sealed st) (name : Text) (ackIds : List Text)
    (extension : UInt32) : h.Sealed (modifyAckDeadline env st name ackIds extension).2 := by
  unfold modifyAckDeadline
  split
  · exact hst
  split
  · exact hst
  · rename_i sub hsub
    have hspec := (modify_frame (env.now 0) extension sub ackIds).1
    rw [answer_snd]
    exact hst.insert rfl (hspec.symm ▸ hst _ sub hsub)

theorem seekToTime_sealed (hst : h.Sealed st) (name : Text) (time : Time) :
    h.Sealed (seekToTime env st name time).2 := by
  unfold seekToTime
  split
  · exact hst
  rename_i sub hsub
  split
  · exact hst
  · rw [answer_snd]
    exact hst.insert rfl (hst _ sub hsub)

theorem seekToSnapshot_sealed (hst : h.Sealed st) (name snapshot : Text) :
    h.Sealed (seekToSnapshot env st name snapshot).2 := by
  unfold seekToSnapshot
  split
  · exact hst
  split
  · exact hst
  rename_i sub hsub
  split
  · exact hst
  · rw [answer_snd]
    exact hst.insert rfl (hst _ sub hsub)

/-- **No reference out of the hidden part comes to be.** -/
theorem Hidden.Sealed.step (hst : h.Sealed st) (ht : h.Traps s.call) :
    h.Sealed (exec serde st s) := by
  unfold exec
  cases hcall : s.call with
  | createSubscription spec =>
    rw [hcall] at ht
    exact createSubscription_sealed s.env hst ht
  | updateSubscription spec mask =>
    rw [hcall] at ht
    exact updateSubscription_sealed s.env hst ht
  | deleteSubscription name => exact deleteSubscription_sealed s.env hst name
  | modifyPushConfig name endpoint attributes =>
    exact modifyPushConfig_sealed s.env hst name endpoint attributes
  | pull name maxMessages => exact pull_sealed s.env hst name maxMessages
  | acknowledge name ackIds => exact acknowledge_sealed s.env hst name ackIds
  | modifyAckDeadline name ackIds extension =>
    exact modifyAckDeadline_sealed s.env hst name ackIds extension
  | seekToTime name time => exact seekToTime_sealed s.env hst name time
  | seekToSnapshot name snapshot => exact seekToSnapshot_sealed s.env hst name snapshot
  | _ => exact hst.of_eq (by simp)

end Sealed

/-! ### The same change on both sides -/

section Changes

variable {h : Hidden} {st st' : State} {name : Text}

theorem Hidden.Agree.insert_topic (ha : h.Agree st st') {v v' : TopicState}
    (hv : name ∉ h.topics → v' = v) :
    h.Agree { st with topics := st.topics.insert name v }
      { st' with topics := st'.topics.insert name v' } :=
  ⟨ha.topics.insert hv, ha.exist.insert _ _ _, ha.subscriptions, ha.snapshots, ha.schemas⟩

theorem Hidden.Agree.erase_topic (ha : h.Agree st st') (name : Text) :
    h.Agree { st with topics := st.topics.erase name }
      { st' with topics := st'.topics.erase name } :=
  ⟨ha.topics.erase _, ha.exist.erase _, ha.subscriptions, ha.snapshots, ha.schemas⟩

theorem Hidden.Agree.insert_subscription (ha : h.Agree st st') (name : Text)
    (v : SubscriptionState) :
    h.Agree { st with subscriptions := st.subscriptions.insert name v }
      { st' with subscriptions := st'.subscriptions.insert name v } :=
  ⟨ha.topics, ha.exist, ha.subscriptions.insert fun _ => rfl, ha.snapshots, ha.schemas⟩

theorem Hidden.Agree.erase_subscription (ha : h.Agree st st') (name : Text) :
    h.Agree { st with subscriptions := st.subscriptions.erase name }
      { st' with subscriptions := st'.subscriptions.erase name } :=
  ⟨ha.topics, ha.exist, ha.subscriptions.erase _, ha.snapshots, ha.schemas⟩

theorem Hidden.Agree.insert_snapshot (ha : h.Agree st st') (name : Text) (v : SnapshotSpec) :
    h.Agree { st with snapshots := st.snapshots.insert name v }
      { st' with snapshots := st'.snapshots.insert name v } :=
  ⟨ha.topics, ha.exist, ha.subscriptions, ha.snapshots.insert fun _ => rfl, ha.schemas⟩

theorem Hidden.Agree.erase_snapshot (ha : h.Agree st st') (name : Text) :
    h.Agree { st with snapshots := st.snapshots.erase name }
      { st' with snapshots := st'.snapshots.erase name } :=
  ⟨ha.topics, ha.exist, ha.subscriptions, ha.snapshots.erase _, ha.schemas⟩

end Changes

/-! ### Resources -/

section Resources

variable {h : Hidden} {st st' : State} (serde : SerdeJson) (env : Env)

theorem createTopic_agree (ha : h.Agree st st') (topic : TopicSpec) :
    h.Agree (createTopic env st topic).2 (createTopic env st' topic).2 := by
  unfold createTopic
  split
  · exact ha
  by_cases hmem : topic.name ∈ st.topics
  · rw [if_pos hmem, if_pos ((ha.exist _).mpr hmem)]
    exact ha
  · rw [if_neg hmem, if_neg (mt (ha.exist _).mp hmem), answer_snd, answer_snd]
    exact ha.insert_topic fun _ => rfl

theorem updateTopic_agree (ha : h.Agree st st') {topic : TopicSpec} (hname : topic.name ∉ h.topics)
    (mask : List Text) :
    h.Agree (updateTopic env st topic mask).2 (updateTopic env st' topic mask).2 := by
  unfold updateTopic
  rw [ha.topics _ hname]
  rcases st.topics[topic.name]? with - | entry
  · exact ha
  · rw [answer_snd, answer_snd]
    exact ha.insert_topic fun _ => rfl

theorem deleteTopic_agree (ha : h.Agree st st') (name : Text) :
    h.Agree (deleteTopic env st name).2 (deleteTopic env st' name).2 := by
  unfold deleteTopic
  by_cases hmem : name ∈ st.topics
  · rw [if_neg (not_not_intro hmem), if_neg (not_not_intro ((ha.exist _).mpr hmem)), answer_snd,
      answer_snd]
    exact ha.erase_topic name
  · rw [if_pos hmem, if_pos (mt (ha.exist _).mp hmem)]
    exact ha

theorem publish_agree (ha : h.Agree st st') {topic : Text} (hname : topic ∉ h.topics)
    (messages : List NewMessage) :
    h.Agree (publish serde env st topic messages).2 (publish serde env st' topic messages).2 := by
  unfold publish checkSchema
  rw [ha.topics _ hname, ha.schemas]
  rcases st.topics[topic]? with - | topicState
  · exact ha
  dsimp only
  split
  · exact ha
  · rw [answer_snd, answer_snd]
    exact ⟨ha.topics.insert fun _ => rfl, ha.exist.insert _ _ _, ha.subscriptions, ha.snapshots,
      rfl⟩

theorem createSubscription_agree (ha : h.Agree st st') {spec : SubscriptionSpec}
    (hname : spec.name ∉ h.subscriptions) (htopic : spec.topic ∉ h.topics) :
    h.Agree (createSubscription env st spec).2 (createSubscription env st' spec).2 := by
  unfold createSubscription
  split
  · exact ha
  by_cases hmem : spec.name ∈ st.subscriptions
  · rw [if_pos hmem, if_pos ((ha.subscriptions.mem_iff hname).mpr hmem)]
    exact ha
  rw [if_neg hmem, if_neg (mt (ha.subscriptions.mem_iff hname).mp hmem),
    ha.topics _ htopic]
  split
  · exact ha
  rcases st.topics[spec.topic]? with - | topic
  · exact ha
  · rw [answer_snd, answer_snd]
    exact ha.insert_subscription _ _

theorem updateSubscription_agree (ha : h.Agree st st') {spec : SubscriptionSpec}
    (hname : spec.name ∉ h.subscriptions) (mask : List Text) :
    h.Agree (updateSubscription env st spec mask).2 (updateSubscription env st' spec mask).2 := by
  unfold updateSubscription
  rw [ha.subscriptions _ hname]
  rcases st.subscriptions[spec.name]? with - | entry
  · exact ha
  dsimp only
  split
  · exact ha
  · rw [answer_snd, answer_snd]
    exact ha.insert_subscription _ _

theorem deleteSubscription_agree (ha : h.Agree st st') {name : Text}
    (hname : name ∉ h.subscriptions) :
    h.Agree (deleteSubscription env st name).2 (deleteSubscription env st' name).2 := by
  unfold deleteSubscription
  have hiff := ha.subscriptions.mem_iff hname
  by_cases hmem : name ∈ st.subscriptions
  · rw [if_neg (not_not_intro hmem), if_neg (not_not_intro (hiff.mpr hmem)), answer_snd,
      answer_snd]
    exact ha.erase_subscription name
  · rw [if_pos hmem, if_pos (mt hiff.mp hmem)]
    exact ha

theorem modifyPushConfig_agree (ha : h.Agree st st') {name : Text} (hname : name ∉ h.subscriptions)
    (endpoint : Option Text) (attributes : StrMap Text) :
    h.Agree (modifyPushConfig env st name endpoint attributes).2
      (modifyPushConfig env st' name endpoint attributes).2 := by
  unfold modifyPushConfig
  rw [ha.subscriptions _ hname]
  rcases st.subscriptions[name]? with - | sub
  · exact ha
  · rw [answer_snd, answer_snd]
    exact ha.insert_subscription _ _

theorem createSnapshot_agree (ha : h.Agree st st') {name subscription : Text}
    (hname : name ∉ h.snapshots) (hsubscription : subscription ∉ h.subscriptions)
    (labels : StrMap Text) :
    h.Agree (createSnapshot env st name subscription labels).2
      (createSnapshot env st' name subscription labels).2 := by
  unfold createSnapshot
  split
  · exact ha
  have hiff := ha.snapshots.mem_iff hname
  by_cases hmem : name ∈ st.snapshots
  · rw [if_pos hmem, if_pos (hiff.mpr hmem)]
    exact ha
  rw [if_neg hmem, if_neg (mt hiff.mp hmem), ha.subscriptions _ hsubscription]
  rcases st.subscriptions[subscription]? with - | sub
  · exact ha
  · rw [answer_snd, answer_snd]
    exact ha.insert_snapshot _ _

theorem updateSnapshot_agree (ha : h.Agree st st') {snapshot : SnapshotSpec}
    (hname : snapshot.name ∉ h.snapshots) (mask : List Text) :
    h.Agree (updateSnapshot env st snapshot mask).2 (updateSnapshot env st' snapshot mask).2 := by
  unfold updateSnapshot
  rw [ha.snapshots _ hname]
  rcases st.snapshots[snapshot.name]? with - | entry
  · exact ha
  · rw [answer_snd, answer_snd]
    exact ha.insert_snapshot _ _

theorem deleteSnapshot_agree (ha : h.Agree st st') {name : Text} (hname : name ∉ h.snapshots) :
    h.Agree (deleteSnapshot env st name).2 (deleteSnapshot env st' name).2 := by
  unfold deleteSnapshot
  have hiff := ha.snapshots.mem_iff hname
  by_cases hmem : name ∈ st.snapshots
  · rw [if_neg (not_not_intro hmem), if_neg (not_not_intro (hiff.mpr hmem)), answer_snd,
      answer_snd]
    exact ha.erase_snapshot name
  · rw [if_pos hmem, if_pos (mt hiff.mp hmem)]
    exact ha

theorem setIamPolicy_agree (ha : h.Agree st st') (resource : Text) (policy : IamPolicy) :
    h.Agree (setIamPolicy env st resource policy).2 (setIamPolicy env st' resource policy).2 := by
  unfold setIamPolicy
  rw [answer_snd, answer_snd]
  exact ⟨ha.topics, ha.exist, ha.subscriptions, ha.snapshots, ha.schemas⟩

theorem createSchema_agree (ha : h.Agree st st') (schema : SchemaSpec) :
    h.Agree (createSchema serde env st schema).2 (createSchema serde env st' schema).2 := by
  unfold createSchema
  rw [ha.schemas]
  split
  · exact ha
  split
  · exact ha
  split
  · exact ha
  · rw [answer_snd, answer_snd]
    exact ⟨ha.topics, ha.exist, ha.subscriptions, ha.snapshots, rfl⟩

theorem deleteSchema_agree (ha : h.Agree st st') (name : Text) :
    h.Agree (deleteSchema env st name).2 (deleteSchema env st' name).2 := by
  unfold deleteSchema
  rw [ha.schemas]
  split
  · exact ha
  · rw [answer_snd, answer_snd]
    exact ⟨ha.topics, ha.exist, ha.subscriptions, ha.snapshots, rfl⟩

end Resources

/-! ### Leases -/

section Leases

variable {h : Hidden} {st st' : State} (env : Env) {name : Text}

theorem acknowledge_agree (ha : h.Agree st st') (hst : h.Sealed st) (hname : name ∉ h.subscriptions)
    (ackIds : List Text) :
    h.Agree (acknowledge env st name ackIds).2 (acknowledge env st' name ackIds).2 := by
  unfold acknowledge
  rw [ha.subscriptions _ hname]
  rcases hsub : st.subscriptions[name]? with - | sub
  · exact ha
  dsimp only
  rw [ha.topics _ (mt (hst name sub hsub).reads hname)]
  rcases acknowledgeEach (env.now 0) st.topics[sub.spec.topic]? sub ackIds with ⟨e | ⟨⟩, left⟩
  · exact ha.insert_subscription _ _
  · dsimp only
    rw [answer_snd, answer_snd]
    exact ha.insert_subscription _ _

theorem modifyAckDeadline_agree (ha : h.Agree st st') (hname : name ∉ h.subscriptions)
    (ackIds : List Text) (extension : UInt32) :
    h.Agree (modifyAckDeadline env st name ackIds extension).2
      (modifyAckDeadline env st' name ackIds extension).2 := by
  unfold modifyAckDeadline
  split
  · exact ha
  rw [ha.subscriptions _ hname]
  rcases st.subscriptions[name]? with - | sub
  · exact ha
  · rw [answer_snd, answer_snd]
    exact ha.insert_subscription _ _

theorem seekToTime_agree (ha : h.Agree st st') (hst : h.Sealed st) (hname : name ∉ h.subscriptions)
    (time : Time) : h.Agree (seekToTime env st name time).2 (seekToTime env st' name time).2 := by
  unfold seekToTime
  rw [ha.subscriptions _ hname]
  rcases hsub : st.subscriptions[name]? with - | sub
  · exact ha
  dsimp only
  rw [ha.topics _ (mt (hst name sub hsub).reads hname)]
  rcases st.topics[sub.spec.topic]? with - | topic
  · exact ha
  · rw [answer_snd, answer_snd]
    exact ha.insert_subscription _ _

theorem seekToSnapshot_agree (ha : h.Agree st st') (hname : name ∉ h.subscriptions)
    {snapshot : Text} (hsnapshot : snapshot ∉ h.snapshots) :
    h.Agree (seekToSnapshot env st name snapshot).2 (seekToSnapshot env st' name snapshot).2 := by
  unfold seekToSnapshot
  rw [ha.snapshots _ hsnapshot, ha.subscriptions _ hname]
  rcases st.snapshots[snapshot]? with - | snap
  · exact ha
  rcases st.subscriptions[name]? with - | sub
  · exact ha
  dsimp only
  split
  · exact ha
  · rw [answer_snd, answer_snd]
    exact ha.insert_subscription _ _

end Leases

/-! ### Two loops in step -/

section Twins

variable {hidden : Set Text} {env : Env} {subscription topicName : Text} {topicLen limit : ℕ}
  {p p' : Pulling}

/-- **Two pulls at the same point**, whose topics agree off the hidden ones. -/
inductive Twin (hidden : Set Text) (p : Pulling) : Pulling → Prop
  | of_topics {m : StrMap TopicState} : AgreeOff hidden p.topics m → SameKeys p.topics m →
      Twin hidden p { p with topics := m }

/-- Two turns with the same outcome. -/
inductive TwinTurn (hidden : Set Text) : Turn → Turn → Prop
  | again {p p' : Pulling} : Twin hidden p p' → TwinTurn hidden (.again p) (.again p')
  | stop : TwinTurn hidden .stop .stop
  | panic : TwinTurn hidden .panic .panic

/-- Two loops that end alike. -/
inductive TwinEnd (hidden : Set Text) : PullEnd → PullEnd → Prop
  | finished {p p' : Pulling} : Twin hidden p p' → TwinEnd hidden (.finished p) (.finished p')
  | panicked {p p' : Pulling} : Twin hidden p p' → TwinEnd hidden (.panicked p) (.panicked p')

/-- The topic for dead letters is there in both, or in neither. -/
theorem deadLetterTopic_twin {m m' : StrMap TopicState} (hm : AgreeOff hidden m m')
    (hk : SameKeys m m') (spec : SubscriptionSpec) (attempt : UInt32) :
    (deadLetterTopic spec m attempt = none ∧ deadLetterTopic spec m' attempt = none) ∨
      ∃ name topic topic', deadLetterTopic spec m attempt = some (name, topic) ∧
        deadLetterTopic spec m' attempt = some (name, topic') ∧
        (name ∉ hidden → topic' = topic) := by
  unfold deadLetterTopic
  rcases spec.deadLetter with - | d
  · exact Or.inl ⟨rfl, rfl⟩
  dsimp only
  split
  swap
  · exact Or.inl ⟨rfl, rfl⟩
  rcases hk.getElem?_cases d.topic with ⟨hnone, hnone'⟩ | ⟨t, t', ht, ht'⟩
  · rw [hnone, hnone']
    exact Or.inl ⟨rfl, rfl⟩
  · rw [ht, ht']
    refine Or.inr ⟨d.topic, t, t', rfl, rfl, fun hn => ?_⟩
    have hsame := hm _ hn
    rw [ht, ht'] at hsame
    exact Option.some.inj hsame

/-- Serving an index, on both sides. -/
theorem serve_twin (ht : Twin hidden p p') (index : ℕ) (message : RelayMessage) :
    Twin hidden (serve env subscription p index message)
      (serve env subscription p' index message) := by
  obtain @⟨m, hm, hk⟩ := ht
  unfold serve
  dsimp only
  rcases deadLetterTopic_twin hm hk (p.sub.countAttempt index).spec (p.sub.nextAttempt index) with
    ⟨hnone, hnone'⟩ | ⟨name, topic, topic', hdead, hdead', hsame⟩
  · rw [hnone, hnone']
    dsimp only
    split
    · exact .of_topics hm hk
    · exact .of_topics hm hk
  · rw [hdead, hdead']
    -- the copy is the same in both, so the topics differ as they did
    refine .of_topics (AgreeOff.insert hm fun hn => ?_) (hk.insert _ _ _)
    rw [hsame hn]
    rfl

/-- **A turn, on both sides**: if the topic read is not hidden. -/
theorem pullTurn_twin (ht : Twin hidden p p') (htopic : topicName ∉ hidden) :
    TwinTurn hidden (pullTurn env subscription topicName topicLen limit p)
      (pullTurn env subscription topicName topicLen limit p') := by
  obtain @⟨m, hm, hk⟩ := ht
  unfold pullTurn
  dsimp only
  split
  · exact .stop
  rcases takeNext (env.now 0) topicLen p.skippedOrdering p.sub with - | ⟨index, sub⟩
  · exact .stop
  dsimp only
  split
  · exact .again (.of_topics hm hk)
  rw [hm _ htopic]
  rcases p.topics[topicName]? with - | topic
  · exact .panic
  dsimp only
  rcases orderingBlocked sub topic index (env.now 0) with - | - | -
  · exact .panic
  · dsimp only
    rcases topic.messages[index]? with - | message
    · exact .panic
    · have hsub : Twin hidden { p with sub } { p with sub, topics := m } := .of_topics hm hk
      exact .again (serve_twin hsub index message)
  · exact .again (.of_topics hm hk)

/-- **The loop, on both sides.** -/
theorem pullLoop_twin (ht : Twin hidden p p') (htopic : topicName ∉ hidden) (fuel : ℕ) :
    TwinEnd hidden (pullLoop env subscription topicName topicLen limit fuel p)
      (pullLoop env subscription topicName topicLen limit fuel p') := by
  induction fuel generalizing p p' with
  | zero => exact .finished ht
  | succ fuel ih =>
    have hturn : TwinTurn hidden (pullTurn env subscription topicName topicLen limit p)
      (pullTurn env subscription topicName topicLen limit p') := pullTurn_twin ht htopic
    unfold pullLoop
    generalize pullTurn env subscription topicName topicLen limit p = turn at hturn ⊢
    generalize pullTurn env subscription topicName topicLen limit p' = turn' at hturn ⊢
    cases hturn with
    | again ht => exact ih ht
    | stop => exact .finished ht
    | panic => exact .panicked ht

end Twins

/-- **A pull from a subscription that is not hidden** answers the same on two
states that agree, and leaves them agreeing. -/
theorem pull_agree {h : Hidden} {st st' : State} (env : Env) {name : Text} (ha : h.Agree st st')
    (hst : h.Sealed st) (hname : name ∉ h.subscriptions) (maxMessages : UInt32) :
    (pull env st' name maxMessages).1 = (pull env st name maxMessages).1 ∧
      h.Agree (pull env st name maxMessages).2 (pull env st' name maxMessages).2 := by
  unfold pull
  rw [ha.subscriptions _ hname]
  rcases hsub : st.subscriptions[name]? with - | sub
  · exact ⟨rfl, ha⟩
  have htopic : sub.spec.topic ∉ h.topics := mt (hst name sub hsub).reads hname
  dsimp only
  rw [ha.topics _ htopic]
  rcases st.topics[sub.spec.topic]? with - | topic
  · exact ⟨rfl, ha.insert_subscription _ _⟩
  have hend : TwinEnd h.topics (pullFrom env name maxMessages sub st.topics topic.messages.length)
      (pullFrom env name maxMessages sub st'.topics topic.messages.length) := by
    unfold pullFrom
    exact pullLoop_twin (.of_topics ha.topics ha.exist) ((sweep_frame env sub).1 ▸ htopic) _
  dsimp only
  generalize pullFrom env name maxMessages sub st.topics topic.messages.length = e at hend ⊢
  generalize pullFrom env name maxMessages sub st'.topics topic.messages.length = e' at hend ⊢
  cases hend with
  | finished ht =>
    obtain @⟨m, hm, hk⟩ := ht
    refine ⟨?_, ?_⟩
    · unfold answer
      rcases persistLocked env with e | u <;> rfl
    · simp only [answer_snd]
      exact ⟨hm, hk, ha.subscriptions.insert fun _ => rfl, ha.snapshots, ha.schemas⟩
  | panicked ht =>
    obtain @⟨m, hm, hk⟩ := ht
    exact ⟨rfl, hm, hk, ha.subscriptions.erase _, ha.snapshots, ha.schemas⟩

/-! ### Any call -/

section Any

variable {h : Hidden} {serde : SerdeJson} {st st' : State} {s : Step}

/-- **The same call on two states that agree.** -/
theorem exec_agree (ha : h.Agree st st') (hst : h.Sealed st) (hst' : h.Sealed st')
    (ht : h.Traps s.call) : h.Agree (exec serde st s) (exec serde st' s) := by
  -- a call on the hidden part can be seen in neither state
  by_cases hs : h.Hides s.call
  · exact ((agree_of_hides hst hs).symm.trans ha).trans (agree_of_hides hst' hs)
  unfold exec
  cases hcall : s.call with
  | createTopic topic => exact createTopic_agree s.env ha topic
  | updateTopic topic mask =>
    rw [hcall] at hs
    exact updateTopic_agree s.env ha hs mask
  | deleteTopic name => exact deleteTopic_agree s.env ha name
  | publish topic messages =>
    rw [hcall] at hs
    exact publish_agree serde s.env ha hs messages
  | createSubscription spec =>
    rw [hcall] at hs ht
    exact createSubscription_agree s.env ha hs (mt ht.reads hs)
  | updateSubscription spec mask =>
    rw [hcall] at hs
    exact updateSubscription_agree s.env ha hs mask
  | deleteSubscription name =>
    rw [hcall] at hs
    exact deleteSubscription_agree s.env ha hs
  | modifyPushConfig name endpoint attributes =>
    rw [hcall] at hs
    exact modifyPushConfig_agree s.env ha hs endpoint attributes
  | pull name maxMessages =>
    rw [hcall] at hs
    exact (pull_agree s.env ha hst hs maxMessages).2
  | acknowledge name ackIds =>
    rw [hcall] at hs
    exact acknowledge_agree s.env ha hst hs ackIds
  | modifyAckDeadline name ackIds extension =>
    rw [hcall] at hs
    exact modifyAckDeadline_agree s.env ha hs ackIds extension
  | seekToTime name time =>
    rw [hcall] at hs
    exact seekToTime_agree s.env ha hst hs time
  | seekToSnapshot name snapshot =>
    rw [hcall] at hs ht
    exact seekToSnapshot_agree s.env ha hs (mt ht hs)
  | createSnapshot name subscription labels =>
    rw [hcall] at hs ht
    exact createSnapshot_agree s.env ha hs (mt ht hs) labels
  | updateSnapshot snapshot mask =>
    rw [hcall] at hs
    exact updateSnapshot_agree s.env ha hs mask
  | deleteSnapshot name =>
    rw [hcall] at hs
    exact deleteSnapshot_agree s.env ha hs
  | setIamPolicy resource policy => exact setIamPolicy_agree s.env ha resource policy
  | createSchema schema => exact createSchema_agree serde s.env ha schema
  | deleteSchema name => exact deleteSchema_agree s.env ha name
  | _ => exact ha

end Any

end RelayPubsub.Memory
