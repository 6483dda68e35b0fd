import RelayPubsub.Memory.Bounds

/-!
# A topic that is never deleted

As long as a topic is not deleted, what refers to its log stays within it: the
cursor of every subscription on it, and every snapshot of it
(`RelayPubsub.Memory.anchored_stateAfter`). So a pull from such a subscription
does not read beyond the end of the log
(`RelayPubsub.Memory.pullFrom_finishes`).
-/

namespace RelayPubsub.Memory

open Lib Lib.Ledger

variable {serde : SerdeJson}

/-- **What refers to the topic lies within its log**, and the topic exists if
anything refers to it. -/
structure Anchored (topicName : Text) (st : State) : Prop where
  cursor : ∀ (name : Text) (sub : SubscriptionState), st.subscriptions[name]? = some sub →
    sub.spec.topic = topicName →
      ∃ topic, st.topics[topicName]? = some topic ∧ sub.nextIndex ≤ topic.messages.length
  snapshot : ∀ (name : Text) (snap : SnapshotSpec), st.snapshots[name]? = some snap →
    snap.topic = topicName →
      ∃ topic, st.topics[topicName]? = some topic ∧ snap.topicIndex ≤ topic.messages.length

section Step

variable {topicName : Text} {st : State} {s : Step}

/-- A log that exists is not shorter after a step that does not delete it. -/
theorem longer_of_exec (hkeep : s.call ≠ .deleteTopic topicName) {topic : TopicState}
    (h : st.topics[topicName]? = some topic) :
    ∃ topic', (exec serde st s).topics[topicName]? = some topic' ∧
      topic.messages <+: topic'.messages := by
  have htouch := topicTouch_of_exec topicName st s serde
  rw [h] at htouch
  generalize (exec serde st s).topics[topicName]? = after at htouch ⊢
  cases htouch with
  | grown hg =>
    cases hg with
    | grown hp => exact ⟨_, rfl, hp⟩
  | delete hcall => exact absurd hcall hkeep

/-- A position within the log before a step is within the log after it. -/
theorem within_of_exec (hkeep : s.call ≠ .deleteTopic topicName) {n : ℕ}
    (h : ∃ topic, st.topics[topicName]? = some topic ∧ n ≤ topic.messages.length) :
    ∃ topic, (exec serde st s).topics[topicName]? = some topic ∧ n ≤ topic.messages.length := by
  obtain ⟨topic, htopic, hle⟩ := h
  obtain ⟨topic', htopic', hgrown⟩ : ∃ topic',
      (exec serde st s).topics[topicName]? = some topic' ∧ topic.messages <+: topic'.messages :=
    longer_of_exec hkeep htopic
  exact ⟨topic', htopic', hle.trans hgrown.length_le⟩

/-- **The index of a seek lies within the log.** -/
theorem Anchored.seekTarget_le (ha : Anchored topicName st) {name : Text} {n : ℕ}
    (hr : seekTarget name st s = some n) {sub : SubscriptionState}
    (hsub : st.subscriptions[name]? = some sub) (hname : sub.spec.topic = topicName) :
    ∃ topic, st.topics[topicName]? = some topic ∧ n ≤ topic.messages.length := by
  obtain ⟨topic, htopic, -⟩ := ha.cursor name sub hsub hname
  unfold seekTarget at hr
  split at hr
  · split_ifs at hr
    rw [hsub, Option.bind_some, hname, htopic, Option.map_some] at hr
    rw [← Option.some.inj hr]
    exact ⟨topic, htopic, List.findIdx_le_length⟩
  · split_ifs at hr
    obtain ⟨snap, hsnap, hr⟩ := Option.bind_eq_some_iff.mp hr
    rw [hsub, Option.bind_some] at hr
    split_ifs at hr with htopic'
    rw [← Option.some.inj hr]
    exact ha.snapshot _ snap hsnap (htopic'.symm.trans hname)
  · cases hr

/-- **A step that does not delete the topic keeps what refers to it within its
log.** -/
theorem Anchored.step (ha : Anchored topicName st) (hkeep : s.call ≠ .deleteTopic topicName) :
    Anchored topicName (exec serde st s) where
  cursor name sub' hsub' hname := by
    refine within_of_exec hkeep ?_
    rw [← hname]
    refine cursor_of_exec hsub' fun sub hsub htopicName => ?_
    rw [hname] at htopicName ⊢
    obtain ⟨topic, htopic, hle⟩ := ha.cursor name sub hsub htopicName
    refine ⟨topic, htopic, hle, fun n hr => ?_⟩
    obtain ⟨topic', htopic', hseek⟩ := ha.seekTarget_le hr hsub htopicName
    rw [htopic] at htopic'
    exact Option.some.inj htopic' ▸ hseek
  snapshot name snap' hsnap' hname := by
    refine within_of_exec hkeep ?_
    have htouch := snapshotTouch_of_exec name st s serde
    rw [hsnap'] at htouch
    generalize hbefore : st.snapshots[name]? = before at htouch
    cases htouch with
    | same _ => exact ha.snapshot name snap' hbefore hname
    | @relabel snap _ => exact ha.snapshot name snap hbefore hname
    | create _ hsub htopic hindex =>
      rw [hindex]
      exact ha.cursor _ _ hsub (htopic.symm.trans hname)

end Step

/-- **In every state of a run that never deletes the topic**, what refers to it
lies within its log. -/
theorem anchored_stateAfter {topicName : Text} {steps : List Step}
    (hkeep : ∀ s ∈ steps, s.call ≠ .deleteTopic topicName) :
    Anchored topicName (stateAfter serde steps) := by
  have hempty : Anchored topicName {} := ⟨by simp, by simp⟩
  exact (Machine.always_of_step hempty fun st s hs ha => ha.step (hkeep s hs)).last

/-! ### A pull from a subscription on such a topic -/

section Pull

variable {past : List Step} {s : Step} {name : Text} {sub : SubscriptionState}

/-- **The loop of a pull finishes** while the cursor is within the log: it does not read
beyond the end. -/
theorem pullFrom_finishes_of_le (hfresh : (past ++ [s]).Pairwise Step.Apart)
    (hsub : (stateAfter serde past).subscriptions[name]? = some sub) {topic : TopicState}
    (htopic : (stateAfter serde past).topics[sub.spec.topic]? = some topic)
    (hle : sub.nextIndex ≤ topic.messages.length) (maxMessages : UInt32) :
    ∃ p, pullFrom s.env name maxMessages sub (stateAfter serde past).topics
      topic.messages.length = .finished p := by
  have hsound := sound_stateAfter (List.pairwise_append.mp hfresh).1 hsub
  have hcalm : (pull s.env (stateAfter serde past) name maxMessages).1 ≠ .panicked := by
    refine pull_not_panicked hsub hsound.exclusive hsound.named (undrawn_of_apart hfresh)
      fun topic' htopic' => ?_
    rw [htopic] at htopic'
    exact Option.some.inj htopic' ▸ hle
  rcases hp : pullFrom s.env name maxMessages sub (stateAfter serde past).topics
    topic.messages.length with p | p
  · exact ⟨p, rfl⟩
  · exact absurd (by simp [pull, hsub, htopic, hp]) hcalm

/-- The same for a topic that is never deleted. -/
theorem pullFrom_finishes (hfresh : (past ++ [s]).Pairwise Step.Apart)
    (hsub : (stateAfter serde past).subscriptions[name]? = some sub)
    (hkeep : ∀ t ∈ past, t.call ≠ .deleteTopic sub.spec.topic) (maxMessages : UInt32) :
    ∃ topic p, (stateAfter serde past).topics[sub.spec.topic]? = some topic ∧
      sub.nextIndex ≤ topic.messages.length ∧
      pullFrom s.env name maxMessages sub (stateAfter serde past).topics topic.messages.length =
        .finished p := by
  obtain ⟨topic, htopic, hle⟩ := (anchored_stateAfter hkeep).cursor name sub hsub rfl
  obtain ⟨p, hp⟩ := pullFrom_finishes_of_le hfresh hsub htopic hle maxMessages
  exact ⟨topic, p, htopic, hle, hp⟩

end Pull

end RelayPubsub.Memory
