import RelayPubsub.Memory.Clock
import RelayPubsub.Memory.Lease
import RelayPubsub.Memory.MirrorPull
import RelayPubsub.Memory.Specs

/-!
# The same operations on two subscriptions

Two runs side by side: the first has a filtered subscription on a topic, the second
one without filter on a topic that receives what the filter accepts
(`RelayPubsub.Memory.Comparison`). An operation on the first is made on the second as
well, under the names of the second (`RelayPubsub.Memory.Comparison.Alike`); and
between two operations each run may take steps of its own, as long as they leave alone
what is compared (`RelayPubsub.Memory.Spares`). So the two runs may be one and the same:
the operation on the one subscription is then a step of its own for the other.

What is renamed:

| on the first side | on the second side |
|---|---|
| subscription and topic | `RelayPubsub.Memory.Comparison.sub'`, `RelayPubsub.Memory.Comparison.topic'` |
| the ack id of a delivery | the ack id at the same place of the same pull, `RelayPubsub.Memory.issuedTogether` |
| a snapshot | its partner in `RelayPubsub.Memory.Comparison.snapshots` |
-/

namespace RelayPubsub.Memory

open Lib Lib.Ledger

/-- The names a snapshot can have. -/
def SnapshotNamed (name : Text) : Prop :=
  "projects/".toList <+: name ∧ "/snapshots/".toList <:+: name

instance (name : Text) : Decidable (SnapshotNamed name) :=
  inferInstanceAs (Decidable (_ ∧ _))

/-- **What is compared**: a filtered subscription `sub` on `topic`, and `sub'` on
`topic'`. -/
structure Comparison where
  sub : Text
  topic : Text
  sub' : Text
  topic' : Text
  /-- The filter of `sub`. -/
  filter : AttributeFilter
  /-- When a message of `topic'` counts as the same as one of `topic`. -/
  same : RelayMessage → RelayMessage → Prop
  same_publishedAt : ∀ {m m'}, same m m' → m.publishedAt = m'.publishedAt
  /-- The snapshots of the two sides that stand for each other. -/
  snapshots : Set (Text × Text)
  snapshots_oneToOne : OneToOne snapshots
  snapshots_named : ∀ x ∈ snapshots, SnapshotNamed x.1 ↔ SnapshotNamed x.2

/-! ### Two runs -/

/-- A step of the two runs together. -/
inductive JointStep where
  /-- One operation, on both sides. -/
  | both (s s' : Step)
  /-- A step of the first run alone. -/
  | left (s : Step)
  /-- A step of the second run alone. -/
  | right (s' : Step)

/-- The steps of the first run. -/
def lefts : List JointStep → List Step
  | [] => []
  | .both s _ :: items => s :: lefts items
  | .left s :: items => s :: lefts items
  | .right _ :: items => lefts items

/-- The steps of the second run. -/
def rights : List JointStep → List Step
  | [] => []
  | .both _ s' :: items => s' :: rights items
  | .left _ :: items => rights items
  | .right s' :: items => s' :: rights items

/-- **The two stores**, and the pairs of ack ids handed out at the same place. -/
structure Joint where
  left : State
  right : State
  pairs : List (Text × Text) := []

/-- The pairs of ack ids. -/
def Joint.pairSet (j : Joint) : Set (Text × Text) := {x | x ∈ j.pairs}

section Steps

variable (serde : SerdeJson) (c : Comparison)

/-- The ack ids handed out at the same place by the same operation on both sides. -/
def issuedTogether (st st' : State) (s s' : Step) : List (Text × Text) :=
  ((granted c.sub st s).map Prod.fst).zip ((granted c.sub' st' s').map Prod.fst)

def Comparison.step (j : Joint) : JointStep → Joint
  | .both s s' =>
    { left := exec serde j.left s
      right := exec serde j.right s'
      pairs := j.pairs ++ issuedTogether c j.left j.right s s' }
  | .left s => { j with left := exec serde j.left s }
  | .right s' => { j with right := exec serde j.right s' }

/-- The two stores after runs of their own. -/
def Joint.after (past past' : List Step) : Joint where
  left := stateAfter serde past
  right := stateAfter serde past'

/-- **The same operation on both sides**, up to the names. -/
inductive Comparison.Alike (j : Joint) (s s' : Step) : Prop
  /-- What is published is said by `RelayPubsub.Memory.Comparison.Mirrored`. -/
  | publish {messages messages' : List NewMessage} : s.call = .publish c.topic messages →
      s'.call = .publish c.topic' messages' → Alike j s s'
  | pull {maxMessages : UInt32} : s.call = .pull c.sub maxMessages →
      s'.call = .pull c.sub' maxMessages →
      (∀ sub sub', j.left.subscriptions[c.sub]? = some sub →
        j.right.subscriptions[c.sub']? = some sub' →
        SameSweep j.pairSet s.env s'.env sub sub') → Alike j s s'
  | acknowledge {ackIds ackIds' : List Text} : s.call = .acknowledge c.sub ackIds →
      s'.call = .acknowledge c.sub' ackIds' →
      List.Forall₂ (Renamed j.pairSet) ackIds ackIds' → Alike j s s'
  | modifyAckDeadline {ackIds ackIds' : List Text} {extension : UInt32} :
      s.call = .modifyAckDeadline c.sub ackIds extension →
      s'.call = .modifyAckDeadline c.sub' ackIds' extension →
      List.Forall₂ (Renamed j.pairSet) ackIds ackIds' → Alike j s s'
  | seekToTime {time : Time} : s.call = .seekToTime c.sub time →
      s'.call = .seekToTime c.sub' time → Alike j s s'
  | createSnapshot {name name' : Text} {labels labels' : StrMap Text} :
      s.call = .createSnapshot name c.sub labels →
      s'.call = .createSnapshot name' c.sub' labels' → (name, name') ∈ c.snapshots → Alike j s s'
  | seekToSnapshot {name name' : Text} : s.call = .seekToSnapshot c.sub name →
      s'.call = .seekToSnapshot c.sub' name' → (name, name') ∈ c.snapshots → Alike j s s'

/-- **The step leaves alone what is compared.** -/
structure Spares (sub topic : Text) (snapshots : Set Text) (st : State) (s : Step) : Prop where
  subscription : (exec serde st s).subscriptions[sub]? = st.subscriptions[sub]?
  topic : (exec serde st s).topics[topic]? = st.topics[topic]?
  snapshots : ∀ name ∈ snapshots, (exec serde st s).snapshots[name]? = st.snapshots[name]?

/-- **The steps that are admissible**: an operation is made on both sides at the same
time. -/
def Comparison.Takes (j : Joint) : JointStep → Prop
  | .both s s' => s.env.now 0 = s'.env.now 0 ∧ c.Alike j s s'
  | .left s => Spares serde c.sub c.topic (Prod.fst '' c.snapshots) j.left s
  | .right s' => Spares serde c.sub' c.topic' (Prod.snd '' c.snapshots) j.right s'

/-- **The second topic has received exactly the messages of the first** that the filter
accepts. -/
def Comparison.Mirrored (j : Joint) : Prop :=
  ∀ topic topic', j.left.topics[c.topic]? = some topic → j.right.topics[c.topic']? = some topic' →
    List.Forall₂ c.same (topic.messages.filter c.filter.accepts) topic'.messages

/-- Two snapshots of corresponding indices, or neither. -/
inductive Comparison.SameSnapshot (log : List RelayMessage) :
    Option SnapshotSpec → Option SnapshotSpec → Prop
  | absent : SameSnapshot log none none
  | taken {snap snap' : SnapshotSpec} : snap.topic = c.topic → snap'.topic = c.topic' →
      snap.topicIndex ≤ log.length →
      snap'.topicIndex = rank c.filter.accepts log snap.topicIndex →
      SameSnapshot log (some snap) (some snap')

/-- **Both subscriptions have just been created**, on topics that exist. -/
structure Comparison.Starts (st st' : State) (spec spec' : SubscriptionSpec)
    (topic topic' : TopicState) : Prop where
  twins : Twins c.filter spec spec'
  onTopic : spec.topic = c.topic
  onTopic' : spec'.topic = c.topic'
  hasTopic : st.topics[c.topic]? = some topic
  hasTopic' : st'.topics[c.topic']? = some topic'
  hasSub : st.subscriptions[c.sub]? = some (.created spec topic.messages.length)
  hasSub' : st'.subscriptions[c.sub']? = some (.created spec' topic'.messages.length)
  snapshots : ∀ x ∈ c.snapshots,
    c.SameSnapshot topic.messages st.snapshots[x.1]? st'.snapshots[x.2]?

/-- **Corresponding pulls return the same messages**, with the same delivery attempts and
in the same order; a pull whose state file cannot be written returns its error. -/
def Comparison.AnswersAlike (j : Joint) : JointStep → Prop
  | .both s s' => ∀ maxMessages, s.call = .pull c.sub maxMessages →
      s'.call = .pull c.sub' maxMessages →
      ∃ ds ds', (pull s.env j.left c.sub maxMessages).1 =
          .returned ((persistLocked s.env).map fun _ => ds) ∧
        (pull s'.env j.right c.sub' maxMessages).1 =
          .returned ((persistLocked s'.env).map fun _ => ds') ∧
        List.Forall₂ (SameDelivery c.same) ds ds'
  | .left _ | .right _ => True

end Steps

section Runs

variable {serde : SerdeJson} {c : Comparison} {past past' : List Step} {items : List JointStep}

theorem lefts_append (items items' : List JointStep) :
    lefts (items ++ items') = lefts items ++ lefts items' := by
  induction items with
  | nil => rfl
  | cons item items ih => cases item <;> simp [lefts, ih]

theorem rights_append (items items' : List JointStep) :
    rights (items ++ items') = rights items ++ rights items' := by
  induction items with
  | nil => rfl
  | cons item items ih => cases item <;> simp [rights, ih]

/-- The two stores are those of the two runs. -/
theorem run_joint (j : Joint) (items : List JointStep) :
    (Machine.run (c.step serde) j items).left = Machine.run (exec serde) j.left (lefts items) ∧
      (Machine.run (c.step serde) j items).right =
        Machine.run (exec serde) j.right (rights items) := by
  induction items generalizing j with
  | nil => exact ⟨rfl, rfl⟩
  | cons item items ih =>
    obtain ⟨hleft, hright⟩ := ih (c.step serde j item)
    cases item <;> exact ⟨hleft, hright⟩

theorem run_after_left : (Machine.run (c.step serde) (.after serde past past') items).left =
    stateAfter serde (past ++ lefts items) := by
  rw [(run_joint _ items).1, stateAfter_append]
  rfl

theorem run_after_right : (Machine.run (c.step serde) (.after serde past past') items).right =
    stateAfter serde (past' ++ rights items) := by
  rw [(run_joint _ items).2, stateAfter_append]
  rfl

end Runs

/-! ### One side of a step -/

/-- **A subscription and its topic**, as they are in the store. -/
structure Sees (name topicName : Text) (st : State) (sub : SubscriptionState)
    (topic : TopicState) : Prop where
  hasSub : st.subscriptions[name]? = some sub
  onTopic : sub.spec.topic = topicName
  hasTopic : st.topics[topicName]? = some topic

section OneSide

variable {serde : SerdeJson} {name topicName : Text} {st : State} {s : Step}
  {sub : SubscriptionState} {topic : TopicState}

/-- A subscription that has just been created, and its topic. -/
theorem Sees.created {arg : SubscriptionSpec} (hcall : s.call = .createSubscription arg)
    (hnew : arg.name ∉ st.subscriptions) (hmem : arg.name ∈ (exec serde st s).subscriptions) :
    ∃ topic, Sees arg.name arg.topic (exec serde st s)
      (.created (normalized arg) topic.messages.length) topic := by
  obtain ⟨topic, htopic, -, hsub⟩ := created_of_exec hcall hnew hmem
  refine ⟨topic, hsub, rfl, ?_⟩
  simp only [exec, hcall, (createSubscription_frame _ _ _).1]
  exact htopic

/-- Only a pull hands out leases. -/
theorem granted_of_not_pull (h : ∀ n maxMessages, s.call ≠ .pull n maxMessages) :
    granted name st s = [] := by
  unfold granted
  split
  · rename_i n maxMessages hcall
    exact absurd hcall (h n maxMessages)
  · rfl

variable (serde) in
theorem Sees.publish {messages : List NewMessage} (h : Sees name topicName st sub topic)
    (hcall : s.call = .publish topicName messages) :
    ∃ topic', Sees name topicName (exec serde st s) sub topic' ∧
      topic.messages <+: topic'.messages ∧ (exec serde st s).snapshots = st.snapshots := by
  have hgrow := topicsGrow_of_exec st s serde (by simp [hcall]) (by simp [hcall])
  obtain ⟨topic', htopic', hlonger⟩ := hgrow.get h.hasTopic
  refine ⟨topic', ⟨?_, h.onTopic, htopic'⟩, hlonger, ?_⟩
  · simp only [exec, hcall, (publish_frame _ _ _ _).1]
    exact h.hasSub
  · simp only [exec, hcall, (publish_frame _ _ _ _).2.1]

variable (serde) in
theorem Sees.pull {maxMessages : UInt32} {p : Pulling} (h : Sees name topicName st sub topic)
    (hcall : s.call = .pull name maxMessages)
    (hp : pullFrom s.env name maxMessages sub st.topics topic.messages.length = .finished p)
    (hspec : p.sub.spec = sub.spec) {topic' : TopicState}
    (htopic' : p.topics[topicName]? = some topic') :
    Sees name topicName (exec serde st s) p.sub topic' ∧
      (exec serde st s).snapshots = st.snapshots ∧
      (Memory.pull s.env st name maxMessages).1 =
        .returned ((persistLocked s.env).map fun _ => p.deliveries.map Prod.snd) ∧
      granted name st s = p.handed := by
  have htopic : st.topics[sub.spec.topic]? = some topic := h.onTopic ▸ h.hasTopic
  refine ⟨⟨?_, ?_, ?_⟩, ?_, ?_, ?_⟩
  · simp [exec, hcall, Memory.pull, h.hasSub, htopic, hp]
  · rw [hspec, h.onTopic]
  · simp only [exec, hcall, pull_topics h.hasSub htopic hp]
    exact htopic'
  · simp only [exec, hcall, (pull_frame _ _ _ _).1]
  · simp only [Memory.pull, h.hasSub, htopic, hp, answer]
    split
    · rename_i hok
      rw [hok]
      rfl
    · rename_i e herror
      rw [herror]
      rfl
  · simp [granted, hcall, h.hasSub, htopic, hp, Pulling.handed]

theorem Sees.acknowledge {ackIds : List Text} (h : Sees name topicName st sub topic)
    (hcall : s.call = .acknowledge name ackIds) :
    Sees name topicName (exec serde st s)
        (acknowledgeEach (s.env.now 0) (some topic) sub ackIds).2 topic ∧
      (exec serde st s).snapshots = st.snapshots := by
  obtain ⟨hspec, -, -, -⟩ := acknowledgeEach_frame (s.env.now 0) (some topic) sub ackIds
  have htopic : st.topics[sub.spec.topic]? = some topic := h.onTopic ▸ h.hasTopic
  refine ⟨⟨?_, by rw [hspec, h.onTopic], ?_⟩, ?_⟩
  · simp only [exec, hcall, acknowledge_subscriptions h.hasSub, htopic,
      Std.ExtTreeMap.getElem?_insert_self]
  · simp only [exec, hcall, (acknowledge_frame _ _ _ _).1]
    exact h.hasTopic
  · simp only [exec, hcall, (acknowledge_frame _ _ _ _).2.1]

theorem Sees.modify {ackIds : List Text} {extension : UInt32}
    (h : Sees name topicName st sub topic)
    (hcall : s.call = .modifyAckDeadline name ackIds extension) :
    Sees name topicName (exec serde st s)
        (if 600 < extension then sub else ackIds.foldl (modifyOne (s.env.now 0) extension) sub)
        topic ∧
      (exec serde st s).snapshots = st.snapshots := by
  obtain ⟨hspec, -, -, -⟩ := modify_frame (s.env.now 0) extension sub ackIds
  refine ⟨⟨?_, ?_, ?_⟩, ?_⟩
  · simp only [exec, hcall, modifyAckDeadline]
    split_ifs with hlong
    · exact h.hasSub
    · simp [h.hasSub]
  · split_ifs with hlong
    · exact h.onTopic
    · rw [hspec, h.onTopic]
  · simp only [exec, hcall, (modifyAckDeadline_frame _ _ _ _ _).1]
    exact h.hasTopic
  · simp only [exec, hcall, (modifyAckDeadline_frame _ _ _ _ _).2.1]

theorem Sees.seekToTime {time : Time} (h : Sees name topicName st sub topic)
    (hcall : s.call = .seekToTime name time) :
    Sees name topicName (exec serde st s) (sub.rewind (seekIndex topic.messages time)) topic ∧
      (exec serde st s).snapshots = st.snapshots := by
  have htopic : st.topics[sub.spec.topic]? = some topic := h.onTopic ▸ h.hasTopic
  refine ⟨⟨?_, h.onTopic, ?_⟩, ?_⟩
  · simp [exec, hcall, Memory.seekToTime, h.hasSub, htopic]
  · simp only [exec, hcall, (seekToTime_frame _ _ _ _).1]
    exact h.hasTopic
  · simp only [exec, hcall, (seekToTime_frame _ _ _ _).2.1]

/-- A seek to a snapshot of the topic takes effect. -/
theorem Sees.seekToSnapshot {snapshot : Text} {snap : SnapshotSpec}
    (h : Sees name topicName st sub topic) (hcall : s.call = .seekToSnapshot name snapshot)
    (hsnap : st.snapshots[snapshot]? = some snap) (htopic : snap.topic = topicName) :
    Sees name topicName (exec serde st s) (sub.rewind snap.topicIndex) topic ∧
      (exec serde st s).snapshots = st.snapshots := by
  have hmatch : sub.spec.topic = snap.topic := h.onTopic.trans htopic.symm
  refine ⟨⟨?_, h.onTopic, ?_⟩, ?_⟩
  · simp [exec, hcall, Memory.seekToSnapshot, hsnap, h.hasSub, hmatch]
  · simp only [exec, hcall, (seekToSnapshot_frame _ _ _ _).1]
    exact h.hasTopic
  · simp only [exec, hcall, (seekToSnapshot_frame _ _ _ _).2.1]

/-- A seek to a snapshot that does not exist changes nothing. -/
theorem Sees.seekNowhere {snapshot : Text} (h : Sees name topicName st sub topic)
    (hcall : s.call = .seekToSnapshot name snapshot) (hsnap : st.snapshots[snapshot]? = none) :
    Sees name topicName (exec serde st s) sub topic ∧
      (exec serde st s).snapshots = st.snapshots := by
  have hsame : exec serde st s = st := by
    simp only [exec, hcall, Memory.seekToSnapshot, hsnap]
  rw [hsame]
  exact ⟨h, rfl⟩

variable (serde) in
/-- A snapshot is created where the subscription is, unless its name is taken or no
snapshot can have it. -/
theorem Sees.createSnapshot {snapshot : Text} {labels : StrMap Text}
    (h : Sees name topicName st sub topic)
    (hcall : s.call = .createSnapshot snapshot name labels) :
    Sees name topicName (exec serde st s) sub topic ∧
      ((¬SnapshotNamed snapshot ∨ snapshot ∈ st.snapshots) ∧
          (exec serde st s).snapshots = st.snapshots ∨
        SnapshotNamed snapshot ∧ snapshot ∉ st.snapshots ∧ ∃ snap : SnapshotSpec,
          snap.topic = topicName ∧ snap.topicIndex = sub.nextIndex ∧
            (exec serde st s).snapshots = st.snapshots.insert snapshot snap) := by
  refine ⟨⟨?_, h.onTopic, ?_⟩, ?_⟩
  · simp only [exec, hcall, (createSnapshot_frame _ _ _ _ _).1]
    exact h.hasSub
  · simp only [exec, hcall, (createSnapshot_frame _ _ _ _ _).2.1]
    exact h.hasTopic
  · simp only [exec, hcall, Memory.createSnapshot]
    by_cases hnamed : SnapshotNamed snapshot
    · obtain ⟨hproject, hinner⟩ := hnamed
      rw [if_neg (not_or.mpr ⟨not_not_intro hproject, not_not_intro hinner⟩)]
      by_cases hmem : snapshot ∈ st.snapshots
      · rw [if_pos hmem]
        exact Or.inl ⟨Or.inr hmem, rfl⟩
      · rw [if_neg hmem, h.hasSub]
        dsimp only
        rw [answer_snd]
        exact Or.inr ⟨⟨hproject, hinner⟩, hmem, _, h.onTopic, rfl, rfl⟩
    · rw [if_pos (not_and_or.mp hnamed)]
      exact Or.inl ⟨Or.inl hnamed, rfl⟩

end OneSide

end RelayPubsub.Memory
