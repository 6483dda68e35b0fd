import RelayPubsub.Memory.Dedup
import RelayPubsub.Memory.Lease
import RelayPubsub.Memory.Visits

/-!
# What gets into a schema-bound topic

Two operations append to the log of a topic. `publish` checks every message of its
batch against the schema the topic is bound to before it appends any; `pull` appends
dead letters, and checks nothing. So what a topic is bound to is respected by every
append in a run whose dead letters happen to have valid payloads
(`RelayPubsub.Memory.appends_valid_of_guarded`), and an empty message, which no schema
accepts, gets in as a dead letter (`RelayPubsub.Memory.emptyLetter_not_valid`).
-/

namespace RelayPubsub.Memory

open Lib Lib.Ledger

/-! ### Valid appends -/

/-- **The payload passes the schema** the topic is bound to. -/
def Validated (serde : SerdeJson) (st : State) (spec : TopicSpec) (data : Bytes) : Prop :=
  ∃ schema, st.schemas[spec.schemaName]? = some schema ∧
    validatePayload serde schema spec.schemaEncoding data = .ok ()

/-- **What a step appends to a schema-bound topic passes the schema.** -/
def AppendsValid (serde : SerdeJson) (st : State) (s : Step) : Prop :=
  ∀ (name : Text) (topic topic' : TopicState), st.topics[name]? = some topic →
    (exec serde st s).topics[name]? = some topic' → topic.spec.schemaName ≠ [] →
    ∀ message ∈ topic'.messages.drop topic.messages.length,
      Validated serde st topic.spec message.data

/-- **The index may be taken by a pull**: it is at or beyond the cursor, it waits and its
time has come, or its lease has run out and it may be delivered again at once. -/
def Due (now : Time) (sub : SubscriptionState) (i : ℕ) : Prop :=
  sub.nextIndex ≤ i ∨ (∃ e ∈ sub.retryQueue, e.topicIndex = i ∧ e.availableAt ≤ now) ∨
    ∃ (ackId : Text) (entry : Inflight), sub.inflight[ackId]? = some entry ∧
      entry.topicIndex = i ∧ entry.deadline ≤ now ∧ sub.retryAt i now ≤ now

/-- **The dead letters of a pull would be valid**: where the dead-letter topic is bound to a
schema, it accepts every message that has been delivered too often, is not acked, and may be
taken. -/
def DeadLettersValid (serde : SerdeJson) (st : State) (s : Step) : Prop :=
  ∀ (name : Text) (maxMessages : UInt32) (sub : SubscriptionState) (policy : DeadLetterSpec)
    (deadTopic : TopicState), s.call = .pull name maxMessages →
    st.subscriptions[name]? = some sub → sub.spec.deadLetter = some policy →
    st.topics[policy.topic]? = some deadTopic → deadTopic.spec.schemaName ≠ [] →
    ∀ i message, HasMessage st.topics sub.spec.topic i message → i ∉ sub.acked →
      Due (s.env.now 0) sub i → clamp policy.maxDeliveryAttempts 5 100 < sub.nextAttempt i →
      Validated serde st deadTopic.spec message.data

/-! ### What a pull can take -/

section Taking

variable {env : Env} {subscription topicName : Text} {topicLen : ℕ} {p p' : Pulling}

/-- What can be taken once expired leases have been swept. -/
def Takable (now : Time) (sub : SubscriptionState) (i : ℕ) : Prop :=
  sub.nextIndex ≤ i ∨ ∃ e ∈ sub.retryQueue, e.topicIndex = i ∧ e.availableAt ≤ now

/-- **What a chain of turns acks could be taken before it.** What is put back on the way is
not taken again, and the cursor only advances. -/
theorem takable_of_turns
    (h : Relation.ReflTransGen (Turned env subscription topicName topicLen) p p') :
    (∀ e ∈ p'.sub.retryQueue, e ∈ p.sub.retryQueue ∨ e.topicIndex ∈ p'.skippedOrdering) ∧
      p.sub.nextIndex ≤ p'.sub.nextIndex ∧
      ∀ i ∈ p'.sub.acked, i ∈ p.sub.acked ∨ Takable (env.now 0) p.sub i := by
  induction h with
  | refl => exact ⟨fun e he => Or.inl he, le_rfl, fun i hi => Or.inl hi⟩
  | @tail q p' _ hturn ih =>
    obtain ⟨hqueue, hcursor, hacked⟩ := ih
    cases hturn with
    | skip htake _ =>
      have htaken := takeNext_take htake
      refine ⟨fun e he => hqueue e ((takable_of_takeNext htake).2 he),
        hcursor.trans htaken.cursor_le, fun i hi => hacked i ?_⟩
      have hdone : i ∈ q.sub.ledger.done := htaken.done_eq ▸ hi
      exact hdone
    | @block index sub topic htake _ _ _ _ =>
      have htaken := takeNext_take htake
      refine ⟨fun e he => ?_, hcursor.trans htaken.cursor_le, fun i hi => hacked i ?_⟩
      · rcases List.mem_append.mp he with he | he
        · exact (hqueue e ((takable_of_takeNext htake).2 he)).imp_right Finset.mem_insert_of_mem
        · rw [List.mem_singleton.mp he]
          exact Or.inr (Finset.mem_insert_self _ _)
      · have hdone : i ∈ q.sub.ledger.done := htaken.done_eq ▸ hi
        exact hdone
    | @serve index sub topic message _ htake _ _ _ _ _ hserved =>
      have htaken := takeNext_take htake
      obtain ⟨hsource, hsubset⟩ := takable_of_takeNext htake
      have hindex : Takable (env.now 0) p.sub index := by
        rcases hsource with rfl | ⟨e, he, rfl, htime, hskip⟩
        · exact Or.inl hcursor
        · exact Or.inr ⟨e, (hqueue e he).resolve_right hskip, rfl, htime⟩
      have hold : ∀ i ∈ sub.acked, i ∈ p.sub.acked ∨ Takable (env.now 0) p.sub i := by
        intro i hi
        have hdone : i ∈ q.sub.ledger.done := htaken.done_eq ▸ hi
        exact hacked i hdone
      have hsettled : ∀ i ∈ insert index sub.acked,
          i ∈ p.sub.acked ∨ Takable (env.now 0) p.sub i := by
        intro i hi
        rcases Finset.mem_insert.mp hi with rfl | hi
        · exact Or.inr hindex
        · exact hold i hi
      have hleft : ∀ e ∈ sub.retryQueue, e ∈ p.sub.retryQueue ∨ e.topicIndex ∈ q.skippedOrdering :=
        fun e he => hqueue e (hsubset he)
      have hadvanced : p.sub.nextIndex ≤ sub.nextIndex := hcursor.trans htaken.cursor_le
      cases hserved with
      | dead _ => exact ⟨hleft, hadvanced, hsettled⟩
      | filtered _ => exact ⟨hleft, hadvanced, hsettled⟩
      | delivered _ => exact ⟨hleft, hadvanced, hold⟩

/-- What waits after the sweep waited before, or has just lost its lease. -/
theorem mem_sweep_retryQueue {sub : SubscriptionState} {e : RetryEntry}
    (h : e ∈ (sweep env sub).retryQueue) :
    e ∈ sub.retryQueue ∨ ∃ x ∈ expiredLeases env sub, e = ⟨x.2, sub.retryAt x.2 (env.now 0)⟩ := by
  have hone : ∀ x (s : SubscriptionState), (sweepOne (env.now 0) s x).retryAt = s.retryAt ∧
      ∀ e ∈ (sweepOne (env.now 0) s x).retryQueue,
        e ∈ s.retryQueue ∨ e = ⟨x.2, s.retryAt x.2 (env.now 0)⟩ := by
    intro x s
    unfold sweepOne
    dsimp only
    split_ifs
    · exact ⟨rfl, fun e he => Or.inl he⟩
    · refine ⟨rfl, fun e he => ?_⟩
      exact (List.mem_append.mp he).imp_right List.mem_singleton.mp
  have hall : ∀ (l : List (Text × ℕ)) (s : SubscriptionState),
      ∀ e ∈ (l.foldl (sweepOne (env.now 0)) s).retryQueue,
        e ∈ s.retryQueue ∨ ∃ x ∈ l, e = ⟨x.2, s.retryAt x.2 (env.now 0)⟩ := by
    intro l
    induction l with
    | nil => exact fun s e he => Or.inl he
    | cons x l ih =>
      intro s e he
      obtain ⟨hretry, hqueue⟩ := hone x s
      rcases ih _ e he with hold | ⟨y, hy, rfl⟩
      · exact (hqueue e hold).imp_right fun heq => ⟨x, List.mem_cons_self, heq⟩
      · exact Or.inr ⟨y, List.mem_cons_of_mem x hy, by rw [hretry]⟩
  exact hall _ _ e h

/-- **What a pull acks was due.** -/
theorem due_of_acked {sub : SubscriptionState} {topics : StrMap TopicState}
    (h : Relation.ReflTransGen (Turned env subscription topicName topicLen)
      { sub := sweep env sub, topics } p) {i : ℕ} (hi : i ∈ p.sub.acked) :
    i ∈ sub.acked ∨ Due (env.now 0) sub i := by
  obtain ⟨-, hnext, hacked, -⟩ := sweep_frame env sub
  obtain ⟨-, -, htaken⟩ := takable_of_turns h
  rcases htaken i hi with hold | hcursor | ⟨e, he, hindex, htime⟩
  · exact Or.inl (hacked ▸ hold)
  · exact Or.inr (Or.inl (hnext ▸ hcursor))
  · rcases mem_sweep_retryQueue he with hwaiting | ⟨x, hx, rfl⟩
    · exact Or.inr (Or.inr (Or.inl ⟨e, hwaiting, hindex, htime⟩))
    · obtain ⟨entry, hentry, hdead, hentryIndex⟩ := mem_expiredLeases.mp hx
      refine Or.inr (Or.inr (Or.inr ⟨x.1, entry, hentry, hentryIndex.trans hindex, hdead, ?_⟩))
      rw [← hindex]
      exact htime

end Taking

/-! ### Steps -/

/-- **What holds of the messages dead letters start from holds of all of them**: a copy has
the payload of its original. -/
theorem Visited.forall_dead {subscription topicName : Text} {sub sub' : SubscriptionState}
    {topics topics' : StrMap TopicState} {f : Fates subscription} {P : Bytes → Prop}
    (h : Visited topicName sub topics f sub' topics')
    (hP : ∀ d ∈ f.dead, HasMessage topics topicName d.index d.original → P d.original.data) :
    ∀ d ∈ f.dead, P d.copy.data := by
  have hall : ∀ (k : ℕ) (d : DeadLetter subscription), f.dead[k]? = some d → P d.copy.data := by
    intro k
    induction k using Nat.strong_induction_on with
    | _ k ih =>
      intro d hd
      rw [d.data]
      rcases h.origin k d hd with hmessage | ⟨j, hj, d', hd', hcopy⟩
      · exact hP d (List.mem_of_getElem? hd) hmessage
      · rw [hcopy]
        exact ih j hj d' hd'
  intro d hd
  obtain ⟨k, hk⟩ := List.mem_iff_getElem?.mp hd
  exact hall k d hk

section Steps

variable {serde : SerdeJson} {past : List Step} {s : Step}

/-- **A publish respects the schema.** -/
theorem validated_of_publish {st : State} {name : Text} {topic : TopicState}
    {messages : List NewMessage} (hcheck : checkSchema serde st topic messages = .ok ())
    (hschema : topic.spec.schemaName ≠ []) :
    ∀ message ∈ (topic.publish serde s.env name messages).topicState.messages.drop
      topic.messages.length, Validated serde st topic.spec message.data := by
  unfold checkSchema at hcheck
  rw [if_neg hschema] at hcheck
  split at hcheck
  · cases hcheck
  rename_i schema hfound
  intro message hmessage
  obtain ⟨new, hnew, hdata⟩ := appended_of_publish serde name s.env messages { topicState := topic }
  rw [TopicState.publish, hnew, List.drop_left] at hmessage
  obtain ⟨-, m, hm, heq⟩ := hdata message hmessage
  exact ⟨schema, hfound, heq ▸ forM_eq_ok.mp hcheck m hm⟩

/-- **A pull respects the schema** if its dead letters would. -/
theorem validated_of_pull (hfresh : (past ++ [s]).Pairwise Step.Apart)
    (hguard : DeadLettersValid serde (stateAfter serde past) s) {name : Text}
    {maxMessages : UInt32} (hcall : s.call = .pull name maxMessages) :
    AppendsValid serde (stateAfter serde past) s := by
  intro other topic topic' htopic htopic' hschema message hmessage
  simp only [exec, hcall] at htopic'
  -- a pull that does not get to its loop appends nothing
  have hnothing : (stateAfter serde past).topics[other]? = some topic' → False := by
    intro hsame
    rw [htopic] at hsame
    obtain rfl := Option.some.inj hsame
    rw [List.drop_length] at hmessage
    cases hmessage
  rcases hsub : (stateAfter serde past).subscriptions[name]? with - | sub
  · exact (hnothing (by simpa [pull, hsub] using htopic')).elim
  rcases hown : (stateAfter serde past).topics[sub.spec.topic]? with - | own
  · exact (hnothing (by simpa [pull, hsub, hown] using htopic')).elim
  obtain ⟨p, hp, htopics⟩ : ∃ p,
      (pullFrom s.env name maxMessages sub (stateAfter serde past).topics own.messages.length =
          .finished p ∨
        pullFrom s.env name maxMessages sub (stateAfter serde past).topics own.messages.length =
          .panicked p) ∧
      (pull s.env (stateAfter serde past) name maxMessages).2.topics = p.topics := by
    rcases hend : pullFrom s.env name maxMessages sub (stateAfter serde past).topics
      own.messages.length with p | p
    · exact ⟨p, Or.inl rfl, pull_topics hsub hown hend⟩
    · exact ⟨p, Or.inr rfl, by simp [pull, hsub, hown, hend]⟩
  have hsound := sound_stateAfter (List.pairwise_append.mp hfresh).1 hsub
  obtain ⟨f, -, hvisited⟩ :=
    exists_visited hp hsound.exclusive hsound.named (undrawn_of_apart hfresh)
  have hturns : Relation.ReflTransGen
      (Turned s.env name (sweep s.env sub).spec.topic own.messages.length)
      { sub := sweep s.env sub, topics := (stateAfter serde past).topics } p :=
    hp.elim turns_of_finished fun hp => (turns_of_panicked hp).1
  rw [htopics, hvisited.topics, htopic, Option.map_some] at htopic'
  obtain rfl := Option.some.inj htopic'
  rw [List.drop_left, Fates.copiesTo] at hmessage
  split_ifs at hmessage with hother
  · obtain ⟨policy, hpolicy, rfl⟩ := Option.map_eq_some_iff.mp hother
    obtain ⟨d, hd, rfl⟩ := List.mem_map.mp hmessage
    refine hvisited.forall_dead (P := Validated serde (stateAfter serde past) topic.spec)
      (fun d hd hmessage => ?_) d hd
    -- a dead letter was due, and delivered too often
    have hsettled : d.index ∈ f.settled := List.mem_append_left _ (List.mem_map_of_mem hd)
    have hunacked : d.index ∉ sub.acked :=
      hvisited.unacked _ (List.mem_append_left _ hsettled)
    have hdue := (due_of_acked hturns ((hvisited.acked _).mpr (Or.inr hsettled))).resolve_left
      hunacked
    obtain ⟨-, policy', hpolicy', -, hmany⟩ := hvisited.dead d hd
    obtain rfl := Option.some.inj (hpolicy.symm.trans hpolicy')
    exact hguard name maxMessages sub policy topic hcall hsub hpolicy htopic hschema d.index
      d.original hmessage hunacked hdue hmany
  · cases hmessage

/-- **Every append respects the schema** if dead letters would. -/
theorem appendsValid_of_deadLettersValid (hfresh : (past ++ [s]).Pairwise Step.Apart)
    (hguard : DeadLettersValid serde (stateAfter serde past) s) :
    AppendsValid serde (stateAfter serde past) s := by
  intro name topic topic' htopic htopic' hschema message hmessage
  have hstep := topicStep_of_exec serde name (stateAfter serde past) s
  rw [htopic, htopic'] at hstep
  cases hstep with
  | same _ _ =>
    rw [List.drop_length] at hmessage
    cases hmessage
  | respec _ _ =>
    rw [List.drop_length] at hmessage
    cases hmessage
  | publish _ hcheck => exact validated_of_publish hcheck hschema message hmessage
  | pull hcall _ =>
    exact validated_of_pull hfresh hguard hcall name topic topic' htopic htopic' hschema message
      hmessage

end Steps

/-- **Every append to a schema-bound topic is validated**, in every run whose dead letters
would be valid. -/
theorem appends_valid_of_guarded {serde : SerdeJson} (r : Run)
    (hguard : Machine.Guarded (exec serde) (DeadLettersValid serde) {} r.steps) :
    Machine.Guarded (exec serde) (AppendsValid serde) {} r.steps := fun pre s hpre =>
  appendsValid_of_deadLettersValid (r.fresh.sublist hpre.sublist) (hguard pre s hpre)

/-- An empty message that is pulled again and again, with a schema-bound dead-letter
topic. -/
def emptyLetter : Run := .ofCalls
  [(0, .createSchema
    { name := "projects/p/schemas/x", schemaType := "JSON", definition := "x" }),
   (0, .createTopic
    { name := "projects/p/topics/dead", schemaName := "projects/p/schemas/x" }),
   (0, .createTopic sampleTopic),
   (0, .createSubscription { sampleSubscription with
     deadLetter := some ⟨"projects/p/topics/dead", 5⟩
     retry := some ⟨0, 0⟩ }),
   (0, .publish sampleTopic.name [sampleMessage ""]),
   (0, .pull sampleSubscription.name 1),
   (seconds 20, .pull sampleSubscription.name 1),
   (seconds 40, .pull sampleSubscription.name 1),
   (seconds 60, .pull sampleSubscription.name 1),
   (seconds 80, .pull sampleSubscription.name 1),
   (seconds 100, .pull sampleSubscription.name 1)]

/-- No schema accepts an empty payload. -/
theorem not_validated_nil {serde : SerdeJson} {st : State} {spec : TopicSpec} :
    ¬Validated serde st spec [] := by
  rintro ⟨schema, -, hvalid⟩
  rw [validatePayload, if_pos rfl] at hvalid
  cases hvalid

/-- The empty message gets into the dead-letter topic. -/
theorem emptyLetter_not_valid :
    ¬Machine.Guarded (exec noJson) (AppendsValid noJson) {} emptyLetter.steps := by
  intro h
  have hbefore : ((stateAfter noJson (emptyLetter.steps.take 10)).topics[
      "projects/p/topics/dead".toList]?.any fun topic =>
        topic.messages.length = 0 ∧ topic.spec.schemaName ≠ []) = true := by
    decide +kernel
  have hafter : ((stateAfter noJson emptyLetter.steps).topics[
      "projects/p/topics/dead".toList]?.any fun topic =>
        topic.messages.map (·.data) = [[]]) = true := by
    decide +kernel
  obtain ⟨topic, htopic, hempty⟩ := (Option.any_eq_true _ _).mp hbefore
  obtain ⟨topic', htopic', hdata⟩ := (Option.any_eq_true _ _).mp hafter
  obtain ⟨hlength, hschema⟩ := of_decide_eq_true hempty
  have hvalid := h (emptyLetter.steps.take 10) emptyLetter.steps[10] (List.prefix_refl _)
    "projects/p/topics/dead" topic topic' htopic htopic' hschema
  rw [hlength, List.drop_zero] at hvalid
  have hmem : ([] : Bytes) ∈ topic'.messages.map (·.data) := by
    rw [of_decide_eq_true hdata]
    exact List.mem_cons_self
  obtain ⟨message, hmessage, hnil⟩ := List.mem_map.mp hmem
  have hone := hvalid message hmessage
  rw [hnil] at hone
  exact not_validated_nil hone

/-- A message that the schema of the dead-letter topic accepts, published to both topics and
pulled until it is a dead letter. -/
def boundLetter : Run := .ofCalls
  [(0, .createSchema
    { name := "projects/p/schemas/x", schemaType := "JSON", definition := "x" }),
   (0, .createTopic
    { name := "projects/p/topics/dead", schemaName := "projects/p/schemas/x"
      schemaEncoding := "BINARY" }),
   (0, .createTopic sampleTopic),
   (0, .createSubscription { sampleSubscription with
     deadLetter := some ⟨"projects/p/topics/dead", 5⟩
     retry := some ⟨0, 0⟩ }),
   (0, .publish "projects/p/topics/dead" [{ sampleMessage "" with data := [1] }]),
   (0, .publish sampleTopic.name [{ sampleMessage "" with data := [2] }]),
   (0, .pull sampleSubscription.name 1),
   (seconds 20, .pull sampleSubscription.name 1),
   (seconds 40, .pull sampleSubscription.name 1),
   (seconds 60, .pull sampleSubscription.name 1),
   (seconds 80, .pull sampleSubscription.name 1),
   (seconds 100, .pull sampleSubscription.name 1)]

/-- The dead-letter topic gets both messages, and its schema accepts them. -/
theorem boundLetter_valid :
    Machine.Guarded (exec noJson) (AppendsValid noJson) {} boundLetter.steps ∧
      ((stateAfter noJson boundLetter.steps).topics["projects/p/topics/dead".toList]?.map fun t =>
        t.messages.map (·.data)) = some [[1], [2]] := by
  refine ⟨appends_valid_of_guarded boundLetter fun pre s hpre => ?_, by decide +kernel⟩
  intro name maxMessages sub policy deadTopic _ _ _ hdead hbound i message hmessage _ _ _
  have hstates : ∀ pre ∈ boundLetter.steps.inits,
      ∀ e ∈ (stateAfter noJson pre).topics.toList, (∀ m ∈ e.2.messages, m.data ≠ []) ∧
        (e.2.spec.schemaName ≠ [] → e.2.spec.schemaEncoding = "BINARY".toList ∧
          ((stateAfter noJson pre).schemas[e.2.spec.schemaName]?.any fun schema =>
            (validateDefinition noJson schema).toOption.isSome) = true) := by
    decide +kernel
  have hpre' := hstates pre ((List.mem_inits _ _).mpr ((List.prefix_append pre [s]).trans hpre))
  obtain ⟨topic, htopic, hindex⟩ := hmessage
  have hdata := (hpre' _ (Std.ExtTreeMap.mem_toList_iff_getElem?_eq_some.mpr htopic)).1 message
    (List.mem_of_getElem? hindex)
  obtain ⟨hencoding, hschema⟩ :=
    (hpre' _ (Std.ExtTreeMap.mem_toList_iff_getElem?_eq_some.mpr hdead)).2 hbound
  obtain ⟨schema, hmem, hok⟩ := (Option.any_eq_true _ _).mp hschema
  refine ⟨schema, hmem, ?_⟩
  -- binary payloads are accepted once the definition is
  have hbinary : validatePayload noJson schema deadTopic.spec.schemaEncoding message.data =
      validateDefinition noJson schema := by
    rw [hencoding, validatePayload, if_neg hdata]
    rfl
  rw [hbinary]
  cases hdef : validateDefinition noJson schema with
  | error e =>
    rw [hdef] at hok
    cases hok
  | ok u => rfl

end RelayPubsub.Memory
