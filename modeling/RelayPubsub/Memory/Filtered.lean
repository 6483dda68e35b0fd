import RelayPubsub.Memory.Joint

/-!
# A filtered subscription behaves like an unfiltered one

A subscription with a filter and one without filter on the filtered topic cannot be told
apart by pulling (`RelayPubsub.Memory.filtered_as_unfiltered`): the relation
`RelayPubsub.Memory.Comparison.Related` between the two stores is kept by every operation
made on both sides, and makes two corresponding pulls return the same.

The clock is used for one thing. A seek to a time searches the log for the first message
published at or after it, and finds corresponding places because both logs are in the
order of publication.
-/

namespace RelayPubsub.Memory

open Lib Lib.Ledger

/-- **The two stores correspond**: in what the two subscriptions, the logs and the
snapshots are. The identifiers drawn on the two sides so far are `drawn` and `drawn'`. -/
structure Comparison.Related (c : Comparison) (drawn drawn' : Set Text) (j : Joint)
    (sub sub' : SubscriptionState) (topic topic' : TopicState) : Prop where
  left : Sees c.sub c.topic j.left sub topic
  right : Sees c.sub' c.topic' j.right sub' topic'
  twins : Twins c.filter sub.spec sub'.spec
  mirrors : Mirrors c.filter.accepts topic.messages j.pairSet sub sub'
  oneToOne : OneToOne j.pairSet
  sourced : Sourced c.filter.accepts topic.messages sub.spec.enableExactlyOnceDelivery
    c.sub c.sub' drawn drawn' j.pairSet
  snapshots : ∀ x ∈ c.snapshots,
    c.SameSnapshot topic.messages j.left.snapshots[x.1]? j.right.snapshots[x.2]?

section Relation

variable {serde : SerdeJson} {c : Comparison} {drawn drawn' drawn₁ drawn₁' : Set Text}
  {j j₁ : Joint} {sub sub' sub₁ sub₁' : SubscriptionState} {topic topic' : TopicState}
  {s s' : Step} {log log' : List RelayMessage}

/-- Snapshots keep corresponding while the logs grow. -/
theorem Comparison.SameSnapshot.grow {snap snap' : Option SnapshotSpec}
    (h : c.SameSnapshot log snap snap') (hlog : log <+: log') : c.SameSnapshot log' snap snap' := by
  cases h with
  | absent => exact .absent
  | taken htopic htopic' hle hindex =>
    refine .taken htopic htopic' (hle.trans hlog.length_le) ?_
    rw [rank_of_isPrefix hlog hle, hindex]

/-- The start of the comparison. -/
theorem Comparison.Starts.related {st st' : State} {spec spec' : SubscriptionSpec}
    (h : c.Starts st st' spec spec' topic topic')
    (hlog : List.Forall₂ c.same (topic.messages.filter c.filter.accepts) topic'.messages) :
    c.Related drawn drawn' { left := st, right := st' }
      (.created spec topic.messages.length) (.created spec' topic'.messages.length)
      topic topic' where
  left := ⟨h.hasSub, h.onTopic, h.hasTopic⟩
  right := ⟨h.hasSub', h.onTopic', h.hasTopic'⟩
  twins := h.twins
  mirrors :=
    { cursor := length_of_matching hlog
      cursor_le := le_rfl
      queue := rfl
      queued := fun e he => absurd he List.not_mem_nil
      attempts := fun _ _ => by simp [SubscriptionState.created]
      fresh := fun _ _ => by simp [SubscriptionState.created]
      fresh' := fun _ _ => by simp [SubscriptionState.created]
      leased := fun _ _ hentry => by simp [SubscriptionState.created] at hentry
      leases := fun x hx => absurd hx List.not_mem_nil
      issued := fun _ hmem => by simp [SubscriptionState.created] at hmem
      issued' := fun _ hmem => by simp [SubscriptionState.created] at hmem }
  oneToOne := fun x hx => absurd hx List.not_mem_nil
  sourced := ⟨fun _ x hx => absurd hx List.not_mem_nil, fun _ x hx => absurd hx List.not_mem_nil⟩
  snapshots := h.snapshots

/-- A step that hands out no leases and leaves the logs. -/
theorem Comparison.Related.next (h : c.Related drawn drawn' j sub sub' topic topic')
    (hpairs : j₁.pairs = j.pairs) (hdrawn : drawn ⊆ drawn₁) (hdrawn' : drawn' ⊆ drawn₁')
    (hleft : Sees c.sub c.topic j₁.left sub₁ topic)
    (hright : Sees c.sub' c.topic' j₁.right sub₁' topic')
    (hspec : sub₁.spec = sub.spec) (hspec' : sub₁'.spec = sub'.spec)
    (hmirrors : Mirrors c.filter.accepts topic.messages j.pairSet sub₁ sub₁')
    (hsnapshots : ∀ x ∈ c.snapshots,
      c.SameSnapshot topic.messages j₁.left.snapshots[x.1]? j₁.right.snapshots[x.2]?) :
    c.Related drawn₁ drawn₁' j₁ sub₁ sub₁' topic topic' := by
  have hset : j₁.pairSet = j.pairSet := by
    rw [Joint.pairSet, hpairs]
    rfl
  exact
    { left := hleft
      right := hright
      twins := by
        rw [hspec, hspec']
        exact h.twins
      mirrors := by rwa [hset]
      oneToOne := by
        rw [hset]
        exact h.oneToOne
      sourced := by
        rw [hset, hspec]
        exact h.sourced.mono (List.prefix_refl _) hdrawn hdrawn'
      snapshots := hsnapshots }

/-! ### Steps of one side -/

theorem Comparison.Related.left_step (h : c.Related drawn drawn' j sub sub' topic topic')
    (hspares : Spares serde c.sub c.topic (Prod.fst '' c.snapshots) j.left s)
    (hdrawn : drawn ⊆ drawn₁) :
    c.Related drawn₁ drawn' (c.step serde j (.left s)) sub sub' topic topic' := by
  refine h.next rfl hdrawn subset_rfl ⟨?_, h.left.onTopic, ?_⟩ h.right rfl rfl h.mirrors ?_
  · exact hspares.subscription.trans h.left.hasSub
  · exact hspares.topic.trans h.left.hasTopic
  · intro x hx
    have hsame := hspares.snapshots x.1 ⟨x, hx, rfl⟩
    simp only [Comparison.step, hsame]
    exact h.snapshots x hx

theorem Comparison.Related.right_step (h : c.Related drawn drawn' j sub sub' topic topic')
    (hspares : Spares serde c.sub' c.topic' (Prod.snd '' c.snapshots) j.right s')
    (hdrawn' : drawn' ⊆ drawn₁') :
    c.Related drawn drawn₁' (c.step serde j (.right s')) sub sub' topic topic' := by
  refine h.next rfl subset_rfl hdrawn' h.left ⟨?_, h.right.onTopic, ?_⟩ rfl rfl h.mirrors ?_
  · exact hspares.subscription.trans h.right.hasSub
  · exact hspares.topic.trans h.right.hasTopic
  · intro x hx
    have hsame := hspares.snapshots x.2 ⟨x, hx, rfl⟩
    simp only [Comparison.step, hsame]
    exact h.snapshots x hx

/-! ### Operations other than pulls -/

/-- Only pulls make pairs of ack ids. -/
theorem step_pairs (h : ∀ n maxMessages, s.call ≠ .pull n maxMessages) :
    (c.step serde j (.both s s')).pairs = j.pairs := by
  simp only [Comparison.step, issuedTogether, granted_of_not_pull h, List.map_nil,
    List.zip_nil_left, List.append_nil]

/-- An operation that leaves the logs and the snapshots. -/
theorem Comparison.Related.both_step (h : c.Related drawn drawn' j sub sub' topic topic')
    (hcall : ∀ n maxMessages, s.call ≠ .pull n maxMessages)
    (hdrawn : drawn ⊆ drawn₁) (hdrawn' : drawn' ⊆ drawn₁')
    (hleft : Sees c.sub c.topic (exec serde j.left s) sub₁ topic ∧
      (exec serde j.left s).snapshots = j.left.snapshots)
    (hright : Sees c.sub' c.topic' (exec serde j.right s') sub₁' topic' ∧
      (exec serde j.right s').snapshots = j.right.snapshots)
    (hspec : sub₁.spec = sub.spec) (hspec' : sub₁'.spec = sub'.spec)
    (hmirrors : Mirrors c.filter.accepts topic.messages j.pairSet sub₁ sub₁') :
    c.Related drawn₁ drawn₁' (c.step serde j (.both s s')) sub₁ sub₁' topic topic' := by
  refine h.next (step_pairs hcall) hdrawn hdrawn' hleft.1 hright.1 hspec hspec' hmirrors ?_
  intro x hx
  simp only [Comparison.step, hleft.2, hright.2]
  exact h.snapshots x hx

variable (serde) in
/-- **Publishing to both topics.** -/
theorem Comparison.Related.publish (h : c.Related drawn drawn' j sub sub' topic topic')
    {messages messages' : List NewMessage} (hcall : s.call = .publish c.topic messages)
    (hcall' : s'.call = .publish c.topic' messages') (hdrawn : drawn ⊆ drawn₁)
    (hdrawn' : drawn' ⊆ drawn₁') : ∃ topic₁ topic₁',
      c.Related drawn₁ drawn₁' (c.step serde j (.both s s')) sub sub' topic₁ topic₁' := by
  obtain ⟨topic₁, hleft, hlog, hsnaps⟩ := h.left.publish serde hcall
  obtain ⟨topic₁', hright, -, hsnaps'⟩ := h.right.publish serde hcall'
  have hset : (c.step serde j (.both s s')).pairSet = j.pairSet := by
    rw [Joint.pairSet, step_pairs (by simp [hcall])]
    rfl
  refine ⟨topic₁, topic₁', hleft, hright, h.twins, ?_, ?_, ?_, fun x hx => ?_⟩
  · rw [hset]
    exact h.mirrors.grow hlog
  · rw [hset]
    exact h.oneToOne
  · rw [hset]
    exact h.sourced.mono hlog hdrawn hdrawn'
  · simp only [Comparison.step, hsnaps, hsnaps']
    exact (h.snapshots x hx).grow hlog

/-- A seek to a time finds corresponding places in two logs that match, if the first is
in the order of time. -/
theorem rank_seekIndex
    (hlog : List.Forall₂ c.same (topic.messages.filter c.filter.accepts) topic'.messages)
    (hsorted : topic.messages.Pairwise fun a b => a.publishedAt ≤ b.publishedAt) (time : Time) :
    seekIndex topic'.messages time =
      rank c.filter.accepts topic.messages (seekIndex topic.messages time) := by
  have hlater : topic.messages.Pairwise fun a b =>
      decide (time ≤ a.publishedAt) = true → decide (time ≤ b.publishedAt) = true := by
    refine hsorted.imp fun hle ha => ?_
    exact decide_eq_true ((of_decide_eq_true ha).trans hle)
  rw [seekIndex, seekIndex, rank_findIdx hlater]
  refine (findIdx_of_matching (fun a b hab => ?_) hlog).symm
  rw [c.same_publishedAt hab]

/-- Corresponding names are taken on both sides or on neither. -/
theorem Comparison.Related.mem_snapshots (h : c.Related drawn drawn' j sub sub' topic topic')
    {x : Text × Text} (hx : x ∈ c.snapshots) :
    x.1 ∈ j.left.snapshots ↔ x.2 ∈ j.right.snapshots := by
  rw [Std.ExtTreeMap.mem_iff_isSome_getElem?, Std.ExtTreeMap.mem_iff_isSome_getElem?]
  have hsame := h.snapshots x hx
  generalize j.left.snapshots[x.1]? = snap at hsame ⊢
  generalize j.right.snapshots[x.2]? = snap' at hsame ⊢
  cases hsame <;> simp

/-- **Taking a snapshot on both sides.** -/
theorem Comparison.Related.createSnapshot (h : c.Related drawn drawn' j sub sub' topic topic')
    {x : Text × Text} {labels labels' : StrMap Text}
    (hcall : s.call = .createSnapshot x.1 c.sub labels)
    (hcall' : s'.call = .createSnapshot x.2 c.sub' labels') (hx : x ∈ c.snapshots)
    (hdrawn : drawn ⊆ drawn₁) (hdrawn' : drawn' ⊆ drawn₁') :
    c.Related drawn₁ drawn₁' (c.step serde j (.both s s')) sub sub' topic topic' := by
  obtain ⟨hleft, hsnaps⟩ := h.left.createSnapshot serde hcall
  obtain ⟨hright, hsnaps'⟩ := h.right.createSnapshot serde hcall'
  have hmem := h.mem_snapshots hx
  have hnamed := c.snapshots_named x hx
  refine h.next (step_pairs (by simp [hcall])) hdrawn hdrawn' hleft hright rfl rfl h.mirrors ?_
  intro y hy
  simp only [Comparison.step]
  rcases hsnaps with ⟨hrefused, hsame⟩ | ⟨hok, hfree, snap, htopic, hindex, hinsert⟩
  · rcases hsnaps' with ⟨-, hsame'⟩ | ⟨hok', hfree', -⟩
    · rw [hsame, hsame']
      exact h.snapshots y hy
    · exact absurd hrefused (not_or.mpr ⟨not_not_intro (hnamed.mpr hok'), mt hmem.mp hfree'⟩)
  · rcases hsnaps' with ⟨hrefused, -⟩ | ⟨-, -, snap', htopic', hindex', hinsert'⟩
    · exact absurd hrefused (not_or.mpr ⟨not_not_intro (hnamed.mp hok), mt hmem.mpr hfree⟩)
    · rw [hinsert, hinsert']
      rcases eq_or_ne x.1 y.1 with heq | hne
      · rw [← heq, ← (c.snapshots_oneToOne x hx y hy).mp heq, Std.ExtTreeMap.getElem?_insert_self,
          Std.ExtTreeMap.getElem?_insert_self]
        refine .taken htopic htopic' ?_ ?_
        · rw [hindex]
          exact h.mirrors.cursor_le
        · rw [hindex, hindex', h.mirrors.cursor]
      · have hne' : x.2 ≠ y.2 := fun heq => hne ((c.snapshots_oneToOne x hx y hy).mpr heq)
        rw [getElem?_insert_of_ne hne, getElem?_insert_of_ne hne']
        exact h.snapshots y hy

variable (serde) in
/-- **Going back to corresponding snapshots.** -/
theorem Comparison.Related.seekToSnapshot (h : c.Related drawn drawn' j sub sub' topic topic')
    {x : Text × Text} (hcall : s.call = .seekToSnapshot c.sub x.1)
    (hcall' : s'.call = .seekToSnapshot c.sub' x.2) (hx : x ∈ c.snapshots)
    (hdrawn : drawn ⊆ drawn₁) (hdrawn' : drawn' ⊆ drawn₁') : ∃ sub₁ sub₁',
      c.Related drawn₁ drawn₁' (c.step serde j (.both s s')) sub₁ sub₁' topic topic' := by
  have hsame := h.snapshots x hx
  generalize hsnap : j.left.snapshots[x.1]? = snap at hsame
  generalize hsnap' : j.right.snapshots[x.2]? = snap' at hsame
  cases hsame with
  | absent =>
    exact ⟨sub, sub', h.both_step (by simp [hcall]) hdrawn hdrawn' (h.left.seekNowhere hcall hsnap)
      (h.right.seekNowhere hcall' hsnap') rfl rfl h.mirrors⟩
  | @taken snap snap' htopic htopic' hle hindex =>
    refine ⟨_, _, h.both_step (by simp [hcall]) hdrawn hdrawn'
      (h.left.seekToSnapshot hcall hsnap htopic) (h.right.seekToSnapshot hcall' hsnap' htopic')
      rfl rfl ?_⟩
    rw [hindex]
    exact .rewind hle

/-! ### Pulls -/

/-- The identifiers drawn in the course of a step are among those drawn after it. -/
theorem drawnBy_subset {past : List Step} (hfresh : (past ++ [s]).Pairwise Step.Apart)
    (name topicName : Text) (topic : TopicState) (n : ℕ) :
    Side.drawnBy ⟨s.env, name, topicName, topic, drawnIn past, undrawn_of_apart hfresh⟩ n ⊆
      drawnIn (past ++ [s]) := by
  rw [drawnIn_concat]
  exact Set.union_subset_union_right _ (drawnUpTo_subset s.env n)

/-- **Pulling from both subscriptions**, at the same time and with the same limit. -/
theorem Comparison.Related.pull {past past' : List Step} {maxMessages : UInt32}
    (h : c.Related (drawnIn past) (drawnIn past') j sub sub' topic topic')
    (hleft : j.left = stateAfter serde past) (hright : j.right = stateAfter serde past')
    (hfresh : (past ++ [s]).Pairwise Step.Apart) (hfresh' : (past' ++ [s']).Pairwise Step.Apart)
    (hlog : List.Forall₂ c.same (topic.messages.filter c.filter.accepts) topic'.messages)
    (hnow : s.env.now 0 = s'.env.now 0) (hcall : s.call = .pull c.sub maxMessages)
    (hcall' : s'.call = .pull c.sub' maxMessages)
    (hsweep : SameSweep j.pairSet s.env s'.env sub sub') :
    (∃ sub₁ sub₁', c.Related (drawnIn (past ++ [s])) (drawnIn (past' ++ [s']))
        (c.step serde j (.both s s')) sub₁ sub₁' topic topic') ∧
      c.AnswersAlike j (.both s s') := by
  have hsound := sound_stateAfter (List.pairwise_append.mp hfresh).1 (hleft ▸ h.left.hasSub)
  have hsound' := sound_stateAfter (List.pairwise_append.mp hfresh').1 (hright ▸ h.right.hasSub)
  let a : Side := ⟨s.env, c.sub, c.topic, topic, drawnIn past, undrawn_of_apart hfresh⟩
  let b : Side := ⟨s'.env, c.sub', c.topic', topic', drawnIn past', undrawn_of_apart hfresh'⟩
  obtain ⟨p, q, hp, hq, hin⟩ := @pullFrom_inStep c.filter c.same j.pairSet a b sub sub'
    j.left.topics j.right.topics maxMessages h.mirrors h.twins h.oneToOne h.sourced
    hsound.exclusive hsound'.exclusive hsound.named hsound'.named h.left.onTopic h.right.onTopic
    h.left.hasTopic h.right.hasTopic hlog hnow hsweep
  have hspec : p.sub.spec = sub.spec :=
    (spec_of_turns (turns_of_finished hp)).trans (sweep_frame s.env sub).1
  have hspec' : q.sub.spec = sub'.spec :=
    (spec_of_turns (turns_of_finished hq)).trans (sweep_frame s'.env sub').1
  obtain ⟨hsees, hsnaps, hanswer, hgranted⟩ :=
    h.left.pull serde hcall hp hspec hin.left.topic
  obtain ⟨hsees', hsnaps', hanswer', hgranted'⟩ :=
    h.right.pull serde hcall' hq hspec' hin.right.topic
  have hpairs : (c.step serde j (.both s s')).pairSet = j.pairSet ∪ handedTogether p q := by
    ext x
    simp only [Joint.pairSet, Comparison.step, issuedTogether, hgranted, hgranted',
      Pulling.handed, List.map_map, List.mem_append, Set.mem_ofPred_eq, Set.mem_union,
      handedTogether]
    rfl
  refine ⟨⟨p.sub, q.sub, hsees, hsees', hin.twins, ?_, ?_, ?_, fun x hx => ?_⟩,
    fun n hcall₁ _ => ?_⟩
  · rw [hpairs]
    exact hin.mirrors
  · rw [hpairs]
    exact hin.oneToOne
  · rw [hpairs]
    exact hin.sourced.mono (List.prefix_refl _) (drawnBy_subset hfresh _ _ _ _)
      (drawnBy_subset hfresh' _ _ _ _)
  · simp only [Comparison.step, hsnaps, hsnaps']
    exact h.snapshots x hx
  · obtain ⟨-, rfl⟩ := BackendCall.pull.inj (hcall.symm.trans hcall₁)
    exact ⟨_, _, hanswer, hanswer', hin.deliveries⟩

/-! ### The same operation on both sides -/

/-- What is asked of operations that are no pulls is nothing. -/
theorem answersAlike_of_not_pull (h : ∀ n maxMessages, s.call ≠ .pull n maxMessages) :
    c.AnswersAlike j (.both s s') :=
  fun maxMessages hcall _ => absurd hcall (h _ maxMessages)

/-- **One operation keeps the two stores corresponding**, and is answered alike if it is a
pull. -/
theorem Comparison.Related.both {past past' : List Step}
    (h : c.Related (drawnIn past) (drawnIn past') j sub sub' topic topic')
    (hleft : j.left = stateAfter serde past) (hright : j.right = stateAfter serde past')
    (hfresh : (past ++ [s]).Pairwise Step.Apart) (hfresh' : (past' ++ [s']).Pairwise Step.Apart)
    (hclock : ClockMonotone (past ++ [s])) (hmirrored : c.Mirrored j)
    (hnow : s.env.now 0 = s'.env.now 0) (halike : c.Alike j s s') :
    (∃ sub₁ sub₁' topic₁ topic₁', c.Related (drawnIn (past ++ [s])) (drawnIn (past' ++ [s']))
        (c.step serde j (.both s s')) sub₁ sub₁' topic₁ topic₁') ∧
      c.AnswersAlike j (.both s s') := by
  have hlog := hmirrored topic topic' h.left.hasTopic h.right.hasTopic
  have hdrawn : drawnIn past ⊆ drawnIn (past ++ [s]) := by
    rw [drawnIn_concat]
    exact Set.subset_union_left
  have hdrawn' : drawnIn past' ⊆ drawnIn (past' ++ [s']) := by
    rw [drawnIn_concat]
    exact Set.subset_union_left
  cases halike with
  | publish hcall hcall' =>
    obtain ⟨topic₁, topic₁', h₁⟩ := h.publish serde hcall hcall' hdrawn hdrawn'
    exact ⟨⟨sub, sub', topic₁, topic₁', h₁⟩, answersAlike_of_not_pull (by simp [hcall])⟩
  | pull hcall hcall' hsweep =>
    obtain ⟨⟨sub₁, sub₁', h₁⟩, hanswers⟩ := h.pull hleft hright hfresh hfresh' hlog hnow hcall
      hcall' (hsweep sub sub' h.left.hasSub h.right.hasSub)
    exact ⟨⟨sub₁, sub₁', topic, topic', h₁⟩, hanswers⟩
  | @acknowledge ackIds ackIds' hcall hcall' hids =>
    have hspec := (acknowledgeEach_frame (s.env.now 0) (some topic) sub ackIds).1
    have hspec' := (acknowledgeEach_frame (s'.env.now 0) (some topic') sub' ackIds').1
    refine ⟨⟨_, _, topic, topic', h.both_step (by simp [hcall]) hdrawn hdrawn'
      (h.left.acknowledge hcall) (h.right.acknowledge hcall') hspec hspec' ?_⟩,
      answersAlike_of_not_pull (by simp [hcall])⟩
    rw [← hnow]
    exact .acknowledgeEach hids h.mirrors h.twins h.oneToOne
  | @modifyAckDeadline ackIds ackIds' extension hcall hcall' hids =>
    have hspec := (modify_frame (s.env.now 0) extension sub ackIds).1
    have hspec' := (modify_frame (s'.env.now 0) extension sub' ackIds').1
    refine ⟨⟨_, _, topic, topic', h.both_step (by simp [hcall]) hdrawn hdrawn'
      (h.left.modify hcall) (h.right.modify hcall') ?_ ?_ ?_⟩,
      answersAlike_of_not_pull (by simp [hcall])⟩
    · split_ifs
      · rfl
      · exact hspec
    · split_ifs
      · rfl
      · exact hspec'
    · split_ifs
      · exact h.mirrors
      · rw [← hnow]
        exact .modify hids h.mirrors h.twins h.oneToOne
  | @seekToTime time hcall hcall' =>
    -- the log is in the order of time
    have hlogs : LogsBy (s.env.now 0) (stateAfter serde past).topics :=
      logsBy_stateAfter (hclock.of_isPrefix (List.prefix_append past [s]))
        fun t ht m => (List.pairwise_append.mp hclock.across).2.2 t ht s (by simp) m 0
    have hsorted := (hlogs c.topic topic (hleft ▸ h.left.hasTopic)).1
    refine ⟨⟨_, _, topic, topic', h.both_step (by simp [hcall]) hdrawn hdrawn'
      (h.left.seekToTime hcall) (h.right.seekToTime hcall') rfl rfl ?_⟩,
      answersAlike_of_not_pull (by simp [hcall])⟩
    rw [rank_seekIndex hlog hsorted]
    exact .rewind List.findIdx_le_length
  | @createSnapshot name name' _ _ hcall hcall' hmem =>
    exact ⟨⟨sub, sub', topic, topic',
      h.createSnapshot (x := (name, name')) hcall hcall' hmem hdrawn hdrawn'⟩,
      answersAlike_of_not_pull (by simp [hcall])⟩
  | @seekToSnapshot name name' hcall hcall' hmem =>
    obtain ⟨sub₁, sub₁', h₁⟩ :=
      h.seekToSnapshot serde (x := (name, name')) hcall hcall' hmem hdrawn hdrawn'
    exact ⟨⟨sub₁, sub₁', topic, topic', h₁⟩, answersAlike_of_not_pull (by simp [hcall])⟩

end Relation

/-! ### Runs -/

section Runs

variable {serde : SerdeJson} {c : Comparison}

/-- **One step of the two runs.** -/
theorem Comparison.Related.step {past past' : List Step} {j : Joint} {item : JointStep}
    {sub sub' : SubscriptionState} {topic topic' : TopicState}
    (h : c.Related (drawnIn past) (drawnIn past') j sub sub' topic topic')
    (hleft : j.left = stateAfter serde past) (hright : j.right = stateAfter serde past')
    (hfresh : (past ++ lefts [item]).Pairwise Step.Apart)
    (hfresh' : (past' ++ rights [item]).Pairwise Step.Apart)
    (hclock : ClockMonotone (past ++ lefts [item])) (hmirrored : c.Mirrored j)
    (htakes : c.Takes serde j item) :
    (∃ sub₁ sub₁' topic₁ topic₁', c.Related (drawnIn (past ++ lefts [item]))
        (drawnIn (past' ++ rights [item])) (c.step serde j item) sub₁ sub₁' topic₁ topic₁') ∧
      c.AnswersAlike j item := by
  cases item with
  | both s s' => exact h.both hleft hright hfresh hfresh' hclock hmirrored htakes.1 htakes.2
  | left s =>
    refine ⟨⟨sub, sub', topic, topic', ?_⟩, trivial⟩
    rw [rights, rights, List.append_nil]
    refine h.left_step htakes ?_
    rw [lefts, lefts, drawnIn_concat]
    exact Set.subset_union_left
  | right s' =>
    refine ⟨⟨sub, sub', topic, topic', ?_⟩, trivial⟩
    rw [lefts, lefts, List.append_nil]
    refine h.right_step htakes ?_
    rw [rights, rights, drawnIn_concat]
    exact Set.subset_union_left

theorem lefts_isPrefix {items items' : List JointStep} (h : items <+: items') :
    lefts items <+: lefts items' := by
  obtain ⟨rest, rfl⟩ := h
  rw [lefts_append]
  exact List.prefix_append _ _

theorem rights_isPrefix {items items' : List JointStep} (h : items <+: items') :
    rights items <+: rights items' := by
  obtain ⟨rest, rfl⟩ := h
  rw [rights_append]
  exact List.prefix_append _ _

/-- **A filtered subscription behaves like an unfiltered one on the filtered topic.**
From the creation of the two subscriptions on, whatever operations are made on both sides,
as long as the second topic has at any time received exactly the messages of the first that
the filter accepts: corresponding pulls return the same messages with the same delivery
attempts in the same order. -/
theorem filtered_as_unfiltered (c : Comparison) (r r' : Run) {past past' : List Step}
    {items : List JointStep} {spec spec' : SubscriptionSpec} {topic topic' : TopicState}
    (hr : past ++ lefts items <+: r.steps) (hr' : past' ++ rights items <+: r'.steps)
    (hclock : ClockMonotone r.steps)
    (hstart : c.Starts (stateAfter serde past) (stateAfter serde past') spec spec' topic topic')
    (htakes : Machine.Guarded (c.step serde) (c.Takes serde) (.after serde past past') items)
    (hmirrored : Machine.Always (c.step serde) c.Mirrored (.after serde past past') items) :
    Machine.Guarded (c.step serde) c.AnswersAlike (.after serde past past') items := by
  have hstep : ∀ pre item, pre ++ [item] <+: items →
      (∃ sub sub' topic topic', c.Related (drawnIn (past ++ lefts pre))
        (drawnIn (past' ++ rights pre)) (Machine.run (c.step serde) (.after serde past past') pre)
        sub sub' topic topic') →
      (∃ sub sub' topic topic', c.Related (drawnIn (past ++ lefts (pre ++ [item])))
        (drawnIn (past' ++ rights (pre ++ [item])))
        (c.step serde (Machine.run (c.step serde) (.after serde past past') pre) item)
        sub sub' topic topic') ∧
      c.AnswersAlike (Machine.run (c.step serde) (.after serde past past') pre) item := by
    rintro pre item hpre ⟨sub, sub', topic, topic', h⟩
    have hsteps : past ++ lefts (pre ++ [item]) <+: r.steps :=
      ((List.prefix_append_right_inj past).mpr (lefts_isPrefix hpre)).trans hr
    have hsteps' : past' ++ rights (pre ++ [item]) <+: r'.steps :=
      ((List.prefix_append_right_inj past').mpr (rights_isPrefix hpre)).trans hr'
    rw [lefts_append, ← List.append_assoc] at hsteps ⊢
    rw [rights_append, ← List.append_assoc] at hsteps' ⊢
    exact h.step run_after_left run_after_right (r.fresh.sublist hsteps.sublist)
      (r'.fresh.sublist hsteps'.sublist) (hclock.of_isPrefix hsteps)
      (hmirrored pre ((List.prefix_append pre [item]).trans hpre)) (htakes pre item hpre)
  have hstart' : ∃ sub sub' topic topic', c.Related (drawnIn (past ++ lefts []))
      (drawnIn (past' ++ rights [])) (.after serde past past') sub sub' topic topic' :=
    ⟨_, _, topic, topic', hstart.related
      (hmirrored [] List.nil_prefix topic topic' hstart.hasTopic hstart.hasTopic')⟩
  have hrelated := @Machine.invariant _ _ (c.step serde)
    (fun pre j => ∃ sub sub' topic topic', c.Related (drawnIn (past ++ lefts pre))
      (drawnIn (past' ++ rights pre)) j sub sub' topic topic') _ items hstart'
    fun pre item hpre h => (hstep pre item hpre h).1
  intro pre item hpre
  exact (hstep pre item hpre (hrelated pre ((List.prefix_append pre [item]).trans hpre))).2

/-! ### A comparison -/

/-- Two messages with the same fields. -/
def SameFields (m m' : RelayMessage) : Prop :=
  (m.id, m.data, m.attributes.toList, m.orderingKey, m.publishedAt) =
    (m'.id, m'.data, m'.attributes.toList, m'.orderingKey, m'.publishedAt)

instance : DecidableRel SameFields := fun _ _ => inferInstanceAs (Decidable (_ = _))

/-- The two subscriptions have the same name, each in a store of its own. -/
def sampleComparison : Comparison where
  sub := sampleSubscription.name
  topic := sampleTopic.name
  sub' := sampleSubscription.name
  topic' := sampleTopic.name
  filter := ⟨"attributes:k".toList, some (.hasKey "k".toList)⟩
  same := SameFields
  same_publishedAt := by
    intro m m' h
    simp only [SameFields, Prod.mk.injEq] at h
    exact h.2.2.2.2
  snapshots := ∅
  snapshots_oneToOne := fun x hx => absurd hx (Set.notMem_empty x)
  snapshots_named := fun x hx => absurd hx (Set.notMem_empty x)

/-- A message with an id of its own, with the attribute the filter asks for or
without. -/
def keyedMessage (id : Text) (keyed : Bool) : NewMessage where
  data := []
  attributes := if keyed then (∅ : StrMap Text).insert "k" [] else ∅
  messageId := id

/-- Three messages are published, the filter accepts two of them, and two pulls take one
message each. -/
def filteredCalls : List (Time × BackendCall) :=
  [(0, .createTopic sampleTopic),
   (0, .createSubscription { sampleSubscription with filter := "attributes:k" }),
   (0, .publish sampleTopic.name
     [keyedMessage "a" false, keyedMessage "b" true, keyedMessage "c" true]),
   (0, .pull sampleSubscription.name 1),
   (0, .pull sampleSubscription.name 5)]

/-- The same, without a filter and without the message it rejects. -/
def unfilteredCalls : List (Time × BackendCall) :=
  [(0, .createTopic sampleTopic),
   (0, .createSubscription sampleSubscription),
   (0, .publish sampleTopic.name [keyedMessage "b" true, keyedMessage "c" true]),
   (0, .pull sampleSubscription.name 1),
   (0, .pull sampleSubscription.name 5)]

/-- The publish and the pulls, on both sides. -/
def sampleItems : List JointStep :=
  ((Run.ofCalls filteredCalls).steps.drop 2).zipWith .both
    ((Run.ofCalls unfilteredCalls).steps.drop 2)

/-- The two stores after some of them. -/
def sampleJoint (k : ℕ) : Joint :=
  Machine.run (sampleComparison.step noJson)
    (.after noJson ((Run.ofCalls filteredCalls).steps.take 2)
      ((Run.ofCalls unfilteredCalls).steps.take 2)) (sampleItems.take k)

/-- What has to be evaluated at a pull: one order of the pairs is the order of both lease
tables. -/
theorem sample_sameSweep {k : ℕ} {env env' : Env} (hiter : env.iter = id) (hiter' : env'.iter = id)
    (h : ((sampleJoint k).left.subscriptions[sampleComparison.sub]?.all fun sub =>
      (sampleJoint k).right.subscriptions[sampleComparison.sub']?.all fun sub' => decide
        (sub.inflight.toList.map Prod.fst = ((sampleJoint k).pairs.map Prod.fst).filter
            (fun ackId => decide (ackId ∈ sub.inflight)) ∧
          sub'.inflight.toList.map Prod.fst = ((sampleJoint k).pairs.map Prod.snd).filter
            (fun ackId => decide (ackId ∈ sub'.inflight)))) = true)
    (sub sub' : SubscriptionState)
    (hsub : (sampleJoint k).left.subscriptions[sampleComparison.sub]? = some sub)
    (hsub' : (sampleJoint k).right.subscriptions[sampleComparison.sub']? = some sub') :
    SameSweep (sampleJoint k).pairSet env env' sub sub' := by
  rw [hsub, Option.all_some, hsub', Option.all_some] at h
  refine ⟨(sampleJoint k).pairs, fun x hx => hx, ?_⟩
  rw [hiter, hiter']
  exact of_decide_eq_true h

/-- What has to be evaluated of the logs. -/
theorem sample_mirrored {k : ℕ}
    (h : ((sampleJoint k).left.topics[sampleComparison.topic]?.all fun topic =>
      (sampleJoint k).right.topics[sampleComparison.topic']?.all fun topic' => decide
        (List.Forall₂ SameFields (topic.messages.filter sampleComparison.filter.accepts)
          topic'.messages)) = true) :
    sampleComparison.Mirrored (sampleJoint k) := by
  intro topic topic' htopic htopic'
  rw [htopic, Option.all_some, htopic', Option.all_some] at h
  change List.Forall₂ SameFields _ _
  exact of_decide_eq_true h

/-- Corresponding pulls of the two runs return the same. -/
theorem filteredCalls_alike :
    Machine.Guarded (sampleComparison.step noJson) sampleComparison.AnswersAlike
      (.after noJson ((Run.ofCalls filteredCalls).steps.take 2)
        ((Run.ofCalls unfilteredCalls).steps.take 2)) sampleItems := by
  obtain ⟨topic, htopic⟩ := @Sees.created noJson
    (stateAfter noJson ((Run.ofCalls filteredCalls).steps.take 1))
    (Run.ofCalls filteredCalls).steps[1] _ rfl (by decide +kernel) (by decide +kernel)
  obtain ⟨topic', htopic'⟩ := @Sees.created noJson
    (stateAfter noJson ((Run.ofCalls unfilteredCalls).steps.take 1))
    (Run.ofCalls unfilteredCalls).steps[1] _ rfl (by decide +kernel) (by decide +kernel)
  refine filtered_as_unfiltered sampleComparison (.ofCalls filteredCalls) (.ofCalls unfilteredCalls)
    (List.prefix_refl _) (List.prefix_refl _) (clockMonotone_ofCalls (by decide))
    ⟨⟨by decide +kernel, rfl, rfl, rfl⟩, rfl, rfl, htopic.hasTopic, htopic'.hasTopic,
      htopic.hasSub, htopic'.hasSub, fun x hx => absurd hx (Set.notMem_empty x)⟩ ?_ ?_
  · refine Machine.guarded_cons.mpr ⟨⟨rfl, .publish rfl rfl⟩, Machine.guarded_cons.mpr
      ⟨⟨rfl, .pull rfl rfl ?_⟩, Machine.guarded_cons.mpr ⟨⟨rfl, .pull rfl rfl ?_⟩,
        Machine.guarded_nil⟩⟩⟩
    · exact sample_sameSweep (k := 1) rfl rfl (by decide +kernel)
    · exact sample_sameSweep (k := 2) rfl rfl (by decide +kernel)
  · refine Machine.always_cons.mpr ⟨?_, Machine.always_cons.mpr ⟨?_, Machine.always_cons.mpr ⟨?_,
      Machine.always_nil ?_⟩⟩⟩
    · exact sample_mirrored (k := 0) (by decide +kernel)
    · exact sample_mirrored (k := 1) (by decide +kernel)
    · exact sample_mirrored (k := 2) (by decide +kernel)
    · exact sample_mirrored (k := 3) (by decide +kernel)

end Runs

end RelayPubsub.Memory
