import RelayPubsub.Memory.Lease

/-!
# Stored indices and the log

A subscription and a snapshot refer to positions of a topic log by name of the
topic, and nothing ties them to the log they were made for. In a run in which no
topic is created under a name that such indices already refer to, every index
stored lies within its log (`RelayPubsub.Memory.InLog`), and no pull reads beyond
the end of a log (`RelayPubsub.Memory.inLog_iff`); deleting a topic and creating
it again breaks both.
-/

namespace RelayPubsub.Memory

open Lib Lib.Ledger

variable {serde : SerdeJson}

/-- **Every index stored lies within its log**, if the topic it is about exists. -/
structure InLog (st : State) : Prop where
  cursor : ∀ (name : Text) (sub : SubscriptionState) (topic : TopicState),
    st.subscriptions[name]? = some sub → st.topics[sub.spec.topic]? = some topic →
      sub.nextIndex ≤ topic.messages.length
  leased : ∀ (name : Text) (sub : SubscriptionState) (topic : TopicState),
    st.subscriptions[name]? = some sub → st.topics[sub.spec.topic]? = some topic →
      ∀ i, sub.Leased i → i < topic.messages.length
  queued : ∀ (name : Text) (sub : SubscriptionState) (topic : TopicState),
    st.subscriptions[name]? = some sub → st.topics[sub.spec.topic]? = some topic →
      ∀ i, sub.Queued i → i < topic.messages.length
  snapshot : ∀ (name : Text) (snap : SnapshotSpec) (topic : TopicState),
    st.snapshots[name]? = some snap → st.topics[snap.topic]? = some topic →
      snap.topicIndex ≤ topic.messages.length

/-- **A topic that the step creates is new to what refers to it**: every cursor
and every snapshot on its name is at the start of the log. -/
def CreatesFresh (serde : SerdeJson) (st : State) (s : Step) : Prop :=
  ∀ topic : Text, topic ∉ st.topics → topic ∈ (exec serde st s).topics →
    (∀ (name : Text) (sub : SubscriptionState), st.subscriptions[name]? = some sub →
      sub.spec.topic = topic → sub.nextIndex = 0) ∧
    ∀ (name : Text) (snap : SnapshotSpec), st.snapshots[name]? = some snap →
      snap.topic = topic → snap.topicIndex = 0

/-- The step is no pull that panics. -/
def NoPanic (st : State) (s : Step) : Prop :=
  ∀ name maxMessages, s.call = .pull name maxMessages →
    (pull s.env st name maxMessages).1 ≠ .panicked

/-! ### The cursor during a pull -/

section Pull

variable {env : Env} {subscription topicName : Text} {topicLen : ℕ} {p p' : Pulling}

/-- Taking an index leaves the cursor within the log. -/
theorem takeNext_nextIndex {now : Time} {skipped : Finset ℕ} {sub sub' : SubscriptionState}
    {index : ℕ} (h : takeNext now topicLen skipped sub = some (index, sub'))
    (hle : sub.nextIndex ≤ topicLen) : sub'.nextIndex ≤ topicLen := by
  unfold takeNext at h
  split at h
  · obtain ⟨-, rfl⟩ := Prod.mk.inj (Option.some.inj h)
    exact hle
  · split at h
    · rename_i hlt
      obtain ⟨-, rfl⟩ := Prod.mk.inj (Option.some.inj h)
      exact hlt
    · cases h

theorem Turned.nextIndex_le (h : Turned env subscription topicName topicLen p p')
    (hle : p.sub.nextIndex ≤ topicLen) : p'.sub.nextIndex ≤ topicLen := by
  cases h with
  | skip htake _ => exact takeNext_nextIndex htake hle
  | block htake _ _ _ _ =>
    have hsub := takeNext_nextIndex htake hle
    exact hsub
  | serve htake _ _ _ _ _ hserved =>
    have hsub := takeNext_nextIndex htake hle
    cases hserved <;> exact hsub

/-- The loop of a pull keeps the cursor within the log. -/
theorem nextIndex_le_of_turns
    (h : Relation.ReflTransGen (Turned env subscription topicName topicLen) p p')
    (hle : p.sub.nextIndex ≤ topicLen) : p'.sub.nextIndex ≤ topicLen := by
  induction h with
  | refl => exact hle
  | tail _ hturn ih => exact hturn.nextIndex_le ih

/-- **A pull does not panic** while the cursor is within the log. -/
theorem pull_not_panicked {drawn : Set Text} {st : State} {name : Text} {maxMessages : UInt32}
    {sub : SubscriptionState} (hsub : st.subscriptions[name]? = some sub)
    (hx : Exclusive sub.ledger) (hn : Named name drawn sub) (hd : Undrawn env drawn)
    (hle : ∀ topic, st.topics[sub.spec.topic]? = some topic →
      sub.nextIndex ≤ topic.messages.length) :
    (pull env st name maxMessages).1 ≠ .panicked := by
  rcases htopic : st.topics[sub.spec.topic]? with - | topic
  · simp [pull, hsub, htopic]
  rcases hp : pullFrom env name maxMessages sub st.topics topic.messages.length with p | p
  · simp [pull, hsub, htopic, hp]
  obtain ⟨hspec, hnext, -, -⟩ := sweep_frame env sub
  obtain ⟨hturns, index, sub', htake, hover⟩ := turns_of_panicked hp
  rw [hspec] at hturns hover
  obtain ⟨es, hes⟩ := sweep_trace env sub hx
  obtain ⟨es', htrace, -, -⟩ := @turns_trace _ _ _ _ _ False [] _ _ hturns (hes.exclusive hx)
    ((named_sweep hn).mono Set.subset_union_left) hd False.elim False.elim
  -- the index taken is below the cursor, which is within the log
  have hcursor : p.sub.nextIndex ≤ topic.messages.length :=
    nextIndex_le_of_turns hturns (by rw [hnext]; exact hle topic htopic)
  obtain ⟨-, hfree⟩ := (htrace.exclusive (hes.exclusive hx)).take (takeNext_take htake)
  have hlt : index < sub'.nextIndex := hfree.lt
  have hsub' := takeNext_nextIndex htake hcursor
  obtain ⟨topic', htopic', hgrown⟩ := (topicsGrow_of_turns hturns).get htopic
  have hlen := hgrown.length_le
  have hindex := hover topic' htopic'
  omega

end Pull

/-! ### Steps -/

section Step

variable {st : State} {s : Step}

/-- A topic that is there after a step was there before, with a shorter log, or
the step has created it. -/
theorem topic_cases {name : Text} {topic' : TopicState}
    (h : (exec serde st s).topics[name]? = some topic') :
    (∃ topic, st.topics[name]? = some topic ∧ topic.messages <+: topic'.messages) ∨
      (name ∉ st.topics ∧ ∃ spec, s.call = .createTopic spec ∧ topic' = ⟨spec, [], ∅⟩) := by
  have htouch := topicTouch_of_exec name st s serde
  rw [h] at htouch
  generalize hbefore : st.topics[name]? = before at htouch
  cases htouch with
  | grown hg =>
    cases hg with
    | grown hp => exact Or.inl ⟨_, rfl, hp⟩
  | create hcall _ => exact Or.inr ⟨by simpa using hbefore, _, hcall, rfl⟩

/-- **The index of a seek lies within the log.** -/
theorem seekTarget_le (hin : InLog st) {name : Text} {n : ℕ} (hr : seekTarget name st s = some n)
    {sub : SubscriptionState} {topic : TopicState} (hsub : st.subscriptions[name]? = some sub)
    (htopic : st.topics[sub.spec.topic]? = some topic) : n ≤ topic.messages.length := by
  unfold seekTarget at hr
  split at hr
  · split_ifs at hr
    rw [hsub, Option.bind_some, htopic, Option.map_some] at hr
    rw [← Option.some.inj hr]
    exact List.findIdx_le_length
  · split_ifs at hr
    obtain ⟨snap, hsnap, hr⟩ := Option.bind_eq_some_iff.mp hr
    rw [hsub, Option.bind_some] at hr
    split_ifs at hr with hname
    rw [← Option.some.inj hr]
    exact hin.snapshot _ snap topic hsnap (hname ▸ htopic)
  · cases hr

/-- **The cursor after a step** is within the log as it was before, if it was so before and
no seek sets it beyond the end. -/
theorem cursor_of_exec {name : Text} {sub' : SubscriptionState}
    (hsub' : (exec serde st s).subscriptions[name]? = some sub')
    (h : ∀ sub, st.subscriptions[name]? = some sub → sub.spec.topic = sub'.spec.topic →
      ∃ topic, st.topics[sub'.spec.topic]? = some topic ∧
        sub.nextIndex ≤ topic.messages.length ∧
        ∀ n, seekTarget name st s = some n → n ≤ topic.messages.length) :
    ∃ topic, st.topics[sub'.spec.topic]? = some topic ∧
      sub'.nextIndex ≤ topic.messages.length := by
  have htouch := touch_of_exec serde name st s
  rw [hsub'] at htouch
  generalize hbefore : st.subscriptions[name]? = before at htouch
  cases htouch with
  | same _ _ _ =>
    obtain ⟨topic, htopic, hle, -⟩ := h sub' hbefore rfl
    exact ⟨topic, htopic, hle⟩
  | @create arg spec topic _ _ hname htopic =>
    rw [← hname] at htopic
    exact ⟨topic, htopic, le_rfl⟩
  | @respec sub spec _ _ hname =>
    obtain ⟨topic, htopic, hle, -⟩ := h sub hbefore hname.symm
    exact ⟨topic, htopic, hle⟩
  | @pull sub topic _ p _ htopic hp _ _ =>
    -- the loop moves the cursor, but not past the end of the log
    obtain ⟨hspec, hnext, -, -⟩ := sweep_frame s.env sub
    have hturns := turns_of_finished hp
    have hspecs : p.sub.spec = sub.spec := (spec_of_turns hturns).trans hspec
    obtain ⟨topic', htopic', hle, -⟩ := h sub hbefore (congrArg (·.topic) hspecs.symm)
    rw [hspecs] at htopic' ⊢
    obtain rfl := Option.some.inj (htopic.symm.trans htopic')
    refine ⟨topic, htopic, nextIndex_le_of_turns hturns ?_⟩
    rwa [hnext]
  | @acknowledge sub ackIds _ _ _ =>
    obtain ⟨hspec, hnext, -, -⟩ :=
      acknowledgeEach_frame (s.env.now 0) st.topics[sub.spec.topic]? sub ackIds
    obtain ⟨topic, htopic, hle, -⟩ := h sub hbefore (congrArg (·.topic) hspec.symm)
    exact ⟨topic, htopic, hnext ▸ hle⟩
  | @modify sub ackIds extension _ _ _ =>
    obtain ⟨hspec, hnext, -, -⟩ := modify_frame (s.env.now 0) extension sub ackIds
    obtain ⟨topic, htopic, hle, -⟩ := h sub hbefore (congrArg (·.topic) hspec.symm)
    exact ⟨topic, htopic, hnext ▸ hle⟩
  | @rewind sub n hr _ =>
    obtain ⟨topic, htopic, -, hseek⟩ := h sub hbefore rfl
    exact ⟨topic, htopic, hseek n hr⟩

/-- The same, where all cursors and snapshots are within their logs. -/
theorem nextIndex_le_step (hin : InLog st) {name : Text} {sub' : SubscriptionState}
    {topic : TopicState} (hsub' : (exec serde st s).subscriptions[name]? = some sub')
    (htopic : st.topics[sub'.spec.topic]? = some topic) :
    sub'.nextIndex ≤ topic.messages.length := by
  obtain ⟨topic', htopic', hle⟩ : ∃ topic, st.topics[sub'.spec.topic]? = some topic ∧
      sub'.nextIndex ≤ topic.messages.length := by
    refine cursor_of_exec hsub' fun sub hsub hname => ?_
    rw [← hname] at htopic ⊢
    exact ⟨topic, htopic, hin.cursor name sub topic hsub htopic,
      fun n hr => seekTarget_le hin hr hsub htopic⟩
  rw [htopic] at htopic'
  exact Option.some.inj htopic' ▸ hle

/-- The index of a snapshot after a step, where its topic was there before it. -/
theorem topicIndex_le_step (hin : InLog st) {name : Text} {snap' : SnapshotSpec}
    {topic : TopicState} (hsnap' : (exec serde st s).snapshots[name]? = some snap')
    (htopic : st.topics[snap'.topic]? = some topic) :
    snap'.topicIndex ≤ topic.messages.length := by
  have htouch := snapshotTouch_of_exec name st s serde
  rw [hsnap'] at htouch
  generalize hbefore : st.snapshots[name]? = before at htouch
  cases htouch with
  | same _ => exact hin.snapshot name snap' topic hbefore htopic
  | @relabel snap _ => exact hin.snapshot name snap topic hbefore htopic
  | create _ hsub hname hindex =>
    rw [hindex]
    exact hin.cursor _ _ topic hsub (hname ▸ htopic)

/-- The cursor bounds every index a subscription keeps. -/
theorem inLog_of_cursors {past : List Step} (hfresh : past.Pairwise Step.Apart)
    (hcursor : ∀ (name : Text) (sub : SubscriptionState) (topic : TopicState),
      (stateAfter serde past).subscriptions[name]? = some sub →
      (stateAfter serde past).topics[sub.spec.topic]? = some topic →
        sub.nextIndex ≤ topic.messages.length)
    (hsnapshot : ∀ (name : Text) (snap : SnapshotSpec) (topic : TopicState),
      (stateAfter serde past).snapshots[name]? = some snap →
      (stateAfter serde past).topics[snap.topic]? = some topic →
        snap.topicIndex ≤ topic.messages.length) : InLog (stateAfter serde past) where
  cursor := hcursor
  leased := by
    intro name sub topic hsub htopic i hi
    have hx := placesApart_of_exclusive (sound_stateAfter hfresh hsub).exclusive
    exact (hx.leased_lt hi).trans_le (hcursor name sub topic hsub htopic)
  queued := by
    intro name sub topic hsub htopic i hi
    have hx := placesApart_of_exclusive (sound_stateAfter hfresh hsub).exclusive
    exact (hx.queued_lt hi).trans_le (hcursor name sub topic hsub htopic)
  snapshot := hsnapshot

/-- **A step keeps the indices within the logs**, unless it creates a topic that
indices already refer to. -/
theorem inLog_step {past : List Step} (hfresh : (past ++ [s]).Pairwise Step.Apart)
    (hin : InLog (stateAfter serde past))
    (hcreates : CreatesFresh serde (stateAfter serde past) s) :
    InLog (exec serde (stateAfter serde past) s) := by
  rw [← stateAfter_concat]
  refine inLog_of_cursors hfresh ?_ ?_
  · intro name sub' topic' hsub' htopic'
    rw [stateAfter_concat] at hsub' htopic'
    rcases topic_cases htopic' with ⟨topic, htopic, hgrown⟩ | ⟨hnew, spec, hcall, -⟩
    · exact (nextIndex_le_step hin hsub' htopic).trans hgrown.length_le
    · have hsame : (exec serde (stateAfter serde past) s).subscriptions =
          (stateAfter serde past).subscriptions := by simp [exec, hcall]
      rw [hsame] at hsub'
      have hthere : sub'.spec.topic ∈ (exec serde (stateAfter serde past) s).topics := by
        rw [Std.ExtTreeMap.mem_iff_isSome_getElem?, htopic']
        rfl
      rw [(hcreates _ hnew hthere).1 name sub' hsub' rfl]
      exact Nat.zero_le _
  · intro name snap' topic' hsnap' htopic'
    rw [stateAfter_concat] at hsnap' htopic'
    rcases topic_cases htopic' with ⟨topic, htopic, hgrown⟩ | ⟨hnew, spec, hcall, -⟩
    · exact (topicIndex_le_step hin hsnap' htopic).trans hgrown.length_le
    · have hsame : (exec serde (stateAfter serde past) s).snapshots =
          (stateAfter serde past).snapshots := by simp [exec, hcall]
      rw [hsame] at hsnap'
      have hthere : snap'.topic ∈ (exec serde (stateAfter serde past) s).topics := by
        rw [Std.ExtTreeMap.mem_iff_isSome_getElem?, htopic']
        rfl
      rw [(hcreates _ hnew hthere).2 name snap' hsnap' rfl]
      exact Nat.zero_le _

/-- **A topic created under a name that indices refer to has too short a log.** -/
theorem createsFresh_of_inLog (hin : InLog (exec serde st s)) : CreatesFresh serde st s := by
  intro topic hnew hthere
  obtain ⟨topic', htopic'⟩ :=
    Option.isSome_iff_exists.mp (Std.ExtTreeMap.mem_iff_isSome_getElem?.mp hthere)
  rcases topic_cases htopic' with ⟨topic₀, htopic₀, -⟩ | ⟨-, spec, hcall, rfl⟩
  · rw [Std.ExtTreeMap.getElem?_eq_none hnew] at htopic₀
    cases htopic₀
  · have hsubs : (exec serde st s).subscriptions = st.subscriptions := by simp [exec, hcall]
    have hsnaps : (exec serde st s).snapshots = st.snapshots := by simp [exec, hcall]
    refine ⟨fun name sub hsub hname => ?_, fun name snap hsnap hname => ?_⟩
    · subst hname
      exact Nat.le_zero.mp (hin.cursor name sub _ (by rwa [hsubs]) htopic')
    · subst hname
      exact Nat.le_zero.mp (hin.snapshot name snap _ (by rwa [hsnaps]) htopic')

end Step

/-- **Stored indices stay within the logs, and no pull panics, exactly if every
topic created is new to the cursors and snapshots on its name.** What is
published next then lies at or above every cursor, so no message is skipped. -/
theorem inLog_iff (r : Run) :
    (Machine.Always (exec serde) InLog {} r.steps ∧
        Machine.Guarded (exec serde) NoPanic {} r.steps) ↔
      Machine.Guarded (exec serde) (CreatesFresh serde) {} r.steps := by
  constructor
  · rintro ⟨hin, -⟩ past s hpast
    have hafter := hin (past ++ [s]) hpast
    rw [Machine.run_concat] at hafter
    exact createsFresh_of_inLog hafter
  · intro hcreates
    have hin : Machine.Always (exec serde) InLog {} r.steps := by
      refine Machine.invariant (P := fun _ st => InLog st) ?_ fun past s hpast hin => ?_
      · constructor <;> simp
      · exact inLog_step (r.fresh.sublist hpast.sublist) hin (hcreates past s hpast)
    refine ⟨hin, fun past s hpast name maxMessages hcall => ?_⟩
    have hfresh := r.fresh.sublist hpast.sublist
    have hpast' : past <+: r.steps := (List.prefix_append _ _).trans hpast
    change (pull s.env (stateAfter serde past) name maxMessages).1 ≠ .panicked
    rcases hsub : (stateAfter serde past).subscriptions[name]? with - | sub
    · simp [pull, hsub]
    · have hsound := sound_stateAfter (List.pairwise_append.mp hfresh).1 hsub
      exact pull_not_panicked hsub hsound.exclusive hsound.named (undrawn_of_apart hfresh)
        fun topic htopic => (hin past hpast').cursor name sub topic hsub htopic

/-- A topic deleted and created again under the cursor of a subscription. -/
def recreatedTopic : Run := .ofCalls
  [(0, .createTopic sampleTopic),
   (0, .publish sampleTopic.name [sampleMessage "", sampleMessage ""]),
   (0, .createSubscription sampleSubscription),
   (0, .deleteTopic sampleTopic.name),
   (0, .createTopic sampleTopic),
   (0, .publish sampleTopic.name [sampleMessage ""])]

/-- The cursor lies beyond the new log, so that the message published is
skipped. -/
theorem recreatedTopic_not_inLog :
    ¬Machine.Always (exec noJson) InLog {} recreatedTopic.steps := by
  intro h
  have hfacts : ((stateAfter noJson recreatedTopic.steps).subscriptions[
      sampleSubscription.name]?.any fun sub =>
        (stateAfter noJson recreatedTopic.steps).topics[sub.spec.topic]?.any fun topic =>
          sub.nextIndex = 2 ∧ topic.messages.length = 1) = true := by
    decide +kernel
  obtain ⟨sub, hsub, hfacts⟩ := (Option.any_eq_true _ _).mp hfacts
  obtain ⟨topic, htopic, hfacts⟩ := (Option.any_eq_true _ _).mp hfacts
  obtain ⟨hnext, hlen⟩ := of_decide_eq_true hfacts
  have hle := h.last.cursor _ sub topic hsub htopic
  omega

end RelayPubsub.Memory
