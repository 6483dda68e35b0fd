import RelayPubsub.Memory.Dedup
import RelayPubsub.Memory.History
import RelayPubsub.Memory.Visits

/-!
# Where messages come from

A message gets into a log in two ways: a publish stores it, or a pull copies it to a
dead-letter topic from the log of its subscription. So every message of every log goes
back to a publish through a chain of dead letters (`RelayPubsub.Memory.Origin`), and a
pull delivers none that does not: whatever consumers receive, some publisher has sent,
with the same payload and ordering key, and with the same attributes except those that
the gateway sets (`RelayPubsub.Memory.delivered_published`).
-/

namespace RelayPubsub.Memory

open Lib

/-- **Where a message in the log of a topic comes from.** -/
inductive Origin (serde : SerdeJson) (steps : List Step) : Text → RelayMessage → Prop
  /-- It was published to the topic. -/
  | published {past : List Step} {s : Step} {topic : Text} {messages : List NewMessage}
      {m : NewMessage} {r : RelayMessage} : past ++ [s] <+: steps →
      s.call = .publish topic messages → m ∈ messages → Stores serde topic m r →
      r.publishedAt = s.env.now 0 → Origin serde steps topic r
  /-- It is a copy of a message in the log of a subscription whose dead letters go to the
  topic. -/
  | deadLetter {past : List Step} {s : Step} {name : Text} {maxMessages : UInt32}
      {sub : SubscriptionState} {policy : DeadLetterSpec} {r copy : RelayMessage} :
      past ++ [s] <+: steps → s.call = .pull name maxMessages →
      (stateAfter serde past).subscriptions[name]? = some sub →
      sub.spec.deadLetter = some policy → Origin serde steps sub.spec.topic r →
      copy.data = r.data → copy.orderingKey = r.orderingKey →
      copy.attributes = (r.attributes.insert "x-zyvor-dead-letter-source" name).insert
        "x-zyvor-original-message-id" r.id →
      Origin serde steps policy.topic copy

/-- **A message is a dead letter**: a pull has copied it from the log of a subscription whose
dead letters go to the topic. -/
def IsDeadLetter (serde : SerdeJson) (steps : List Step) (topic : Text) (copy : RelayMessage) :
    Prop :=
  ∃ past s name maxMessages sub policy r, past ++ [s] <+: steps ∧
    s.call = .pull name maxMessages ∧ (stateAfter serde past).subscriptions[name]? = some sub ∧
    sub.spec.deadLetter = some policy ∧ policy.topic = topic ∧
    Origin serde steps sub.spec.topic r ∧
    copy.data = r.data ∧ copy.orderingKey = r.orderingKey ∧
    copy.attributes = (r.attributes.insert "x-zyvor-dead-letter-source" name).insert
      "x-zyvor-original-message-id" r.id

variable {serde : SerdeJson}

/-- What was not published to a topic is a dead letter there. -/
theorem Origin.deadLetter_of_unpublished {steps : List Step} {topic : Text} {r : RelayMessage}
    (h : Origin serde steps topic r)
    (hno : ∀ s ∈ steps, ∀ messages, s.call ≠ .publish topic messages) :
    IsDeadLetter serde steps topic r := by
  cases h with
  | published hpre hcall _ _ _ => exact absurd hcall (hno _ (hpre.subset (by simp)) _)
  | deadLetter hpre hcall hsub hpolicy hr hdata hkey hattributes =>
    exact ⟨_, _, _, _, _, _, _, hpre, hcall, hsub, hpolicy, rfl, hr, hdata, hkey, hattributes⟩

theorem Origin.mono {steps steps' : List Step} {topic : Text} {r : RelayMessage}
    (h : Origin serde steps topic r) (hle : steps <+: steps') : Origin serde steps' topic r := by
  induction h with
  | published hpre hcall hm hstores htime =>
    exact .published (hpre.trans hle) hcall hm hstores htime
  | deadLetter hpre hcall hsub hpolicy _ hdata hkey hattributes ih =>
    exact .deadLetter (hpre.trans hle) hcall hsub hpolicy ih hdata hkey hattributes

/-- Every message of every log has an origin in the steps. -/
def Originate (serde : SerdeJson) (steps : List Step) (topics : StrMap TopicState) : Prop :=
  ∀ (name : Text) (topic : TopicState), topics[name]? = some topic →
    ∀ r ∈ topic.messages, Origin serde steps name r

/-! ### Publishing -/

/-- **A batch appends what it publishes.** -/
theorem stores_of_publish (env : Env) (name : Text) (messages : List NewMessage) (p : Publishing) :
    ∀ r ∈ (messages.foldl (publishMessage serde env name) p).topicState.messages,
      r ∈ p.topicState.messages ∨
        ∃ m ∈ messages, Stores serde name m r ∧ r.publishedAt = env.now 0 := by
  induction messages generalizing p with
  | nil => exact fun r hr => Or.inl hr
  | cons m messages ih =>
    intro r hr
    rcases ih (publishMessage serde env name p m) r hr with hr | ⟨m', hm', hstores⟩
    · obtain ⟨hdata, hkey, -⟩ := enrichMessage_frame serde name m
      unfold publishMessage at hr
      dsimp only at hr
      split at hr
      · exact Or.inl hr
      · rcases List.mem_append.mp hr with hr | hr
        · exact Or.inl hr
        · obtain rfl := List.mem_singleton.mp hr
          refine Or.inr ⟨m, List.mem_cons_self, ⟨hdata, hkey, rfl, ?_⟩, rfl⟩
          rw [clientId_enrich]
          split_ifs
          · exact ⟨_, rfl⟩
          · rfl
    · exact Or.inr ⟨m', List.mem_cons_of_mem m hm', hstores⟩

/-! ### Dead letters -/

section Pull

variable {env : Env} {name : Text} {topicLen : ℕ} {p p' : Pulling} {past steps : List Step}
  {s : Step} {maxMessages : UInt32} {sub : SubscriptionState}

theorem originate_of_turned (hpre : past ++ [s] <+: steps) (hcall : s.call = .pull name maxMessages)
    (hsub : (stateAfter serde past).subscriptions[name]? = some sub)
    (hspec : p.sub.spec = sub.spec) (ho : Originate serde steps p.topics)
    (h : Turned env name sub.spec.topic topicLen p p') : Originate serde steps p'.topics := by
  cases h with
  | skip _ _ | block _ _ _ _ _ => exact ho
  | @serve index sub₁ topic message _ htake _ _ htopic _ hmessage hserved =>
    cases hserved with
    | filtered _ | delivered _ => exact ho
    | @dead target deadTopic hdead =>
      obtain ⟨hthere, policy, hpolicy, rfl⟩ := exists_of_deadLetterTopic hdead
      have hspec₁ : sub₁.spec = sub.spec := (takeNext_frame htake).1.trans hspec
      intro name' topic' htopic' r hr
      change (p.topics.insert policy.topic _)[name']? = _ at htopic'
      rcases eq_or_ne policy.topic name' with rfl | hne
      · rw [Std.ExtTreeMap.getElem?_insert_self] at htopic'
        obtain rfl := Option.some.inj htopic'
        rcases List.mem_append.mp hr with hr | hr
        · exact ho _ _ hthere r hr
        · obtain rfl := List.mem_singleton.mp hr
          exact .deadLetter hpre hcall hsub (hspec₁ ▸ hpolicy)
            (ho _ _ htopic message (List.mem_of_getElem? hmessage)) rfl rfl rfl
      · rw [getElem?_insert_of_ne hne] at htopic'
        exact ho _ _ htopic' r hr

theorem originate_of_turns (hpre : past ++ [s] <+: steps)
    (hcall : s.call = .pull name maxMessages)
    (hsub : (stateAfter serde past).subscriptions[name]? = some sub)
    (hspec : p.sub.spec = sub.spec) (ho : Originate serde steps p.topics)
    (h : Relation.ReflTransGen (Turned env name sub.spec.topic topicLen) p p') :
    Originate serde steps p'.topics := by
  induction h with
  | refl => exact ho
  | tail hturns hturn ih =>
    exact originate_of_turned hpre hcall hsub ((spec_of_turns hturns).trans hspec) ih hturn

/-- **A pull copies what has an origin.** -/
theorem originate_of_pull (hcall : s.call = .pull name maxMessages)
    (ho : Originate serde (past ++ [s]) (stateAfter serde past).topics) :
    Originate serde (past ++ [s])
      (pull s.env (stateAfter serde past) name maxMessages).2.topics := by
  unfold pull
  split
  · exact ho
  rename_i sub hsub
  split
  · exact ho
  rename_i topic htopic
  have hspec := (sweep_frame s.env sub).1
  split
  · rename_i p hp
    have hturns := turns_of_finished hp
    rw [hspec] at hturns
    simp only [answer_snd]
    exact originate_of_turns (List.prefix_refl _) hcall hsub hspec ho hturns
  · rename_i p hp
    have hturns := (turns_of_panicked hp).1
    rw [hspec] at hturns
    exact originate_of_turns (List.prefix_refl _) hcall hsub hspec ho hturns

end Pull

/-! ### Runs -/

/-- **Every message of every log has an origin**, in every state of every run. -/
theorem originate_stateAfter (steps : List Step) :
    Originate serde steps (stateAfter serde steps).topics := by
  induction steps using List.reverseRecOn with
  | nil =>
    intro name topic htopic
    simp [stateAfter] at htopic
  | append_singleton past s ih =>
    have hpast : Originate serde (past ++ [s]) (stateAfter serde past).topics :=
      fun name topic htopic r hr => (ih name topic htopic r hr).mono (List.prefix_append _ _)
    by_cases hpull : ∃ name maxMessages, s.call = .pull name maxMessages
    · obtain ⟨name, maxMessages, hcall⟩ := hpull
      rw [stateAfter_concat]
      unfold exec
      rw [hcall]
      exact originate_of_pull hcall hpast
    · intro name topic htopic r hr
      rw [stateAfter_concat] at htopic
      have hstep := topicStep_of_exec serde name (stateAfter serde past) s
      rw [htopic] at hstep
      generalize hbefore : (stateAfter serde past).topics[name]? = before at hstep
      cases hstep with
      | same _ _ => exact hpast name topic hbefore r hr
      | create _ _ => cases hr
      | respec _ _ => exact hpast name _ hbefore r hr
      | @publish before messages hcall _ =>
        rcases stores_of_publish s.env name messages { topicState := before } r hr with
          hr | ⟨m, hm, hstores, htime⟩
        · exact hpast name before hbefore r hr
        · exact .published (List.prefix_refl _) hcall hm hstores htime
      | pull hcall _ => exact absurd ⟨_, _, hcall⟩ hpull

/-! ### What consumers receive -/

/-- The attributes the gateway may set: those of enrichment, and those of dead letters. -/
def gatewayKeys : List Text :=
  enrichedKeys ++ ["x-zyvor-dead-letter-source".toList, "x-zyvor-original-message-id".toList]

/-- **The content of a message was published**: its payload, its ordering key, and the
attributes that the gateway does not set are those of one published message. -/
def WasPublished (steps : List Step) (r : RelayMessage) : Prop :=
  ∃ past s topic messages m, past ++ [s] <+: steps ∧ s.call = .publish topic messages ∧
    m ∈ messages ∧ r.data = m.data ∧ r.orderingKey = m.orderingKey ∧
    ∀ k ∉ gatewayKeys, r.attributes[k]? = m.attributes[k]?

/-- **A chain of dead letters keeps the content.** -/
theorem Origin.wasPublished {steps : List Step} {topic : Text} {r : RelayMessage}
    (h : Origin serde steps topic r) : WasPublished steps r := by
  induction h with
  | @published past s topic messages m r hpre hcall hm hstores _ =>
    refine ⟨past, s, topic, messages, m, hpre, hcall, hm, hstores.data, hstores.orderingKey,
      fun k hk => ?_⟩
    rw [hstores.attributes]
    exact getElem?_enrich serde topic m fun hmem => hk (List.mem_append_left _ hmem)
  | deadLetter _ _ _ _ _ hdata hkey hattributes ih =>
    obtain ⟨past, s, topic, messages, m, hpre, hcall, hm, hdata', hkey', hattributes'⟩ := ih
    refine ⟨past, s, topic, messages, m, hpre, hcall, hm, hdata.trans hdata', hkey.trans hkey',
      fun k hk => ?_⟩
    have hne : ∀ key ∈ ["x-zyvor-dead-letter-source".toList,
        "x-zyvor-original-message-id".toList], key ≠ k :=
      fun key hkey heq => hk (List.mem_append_right _ (heq ▸ hkey))
    rw [hattributes, getElem?_insert_of_ne (hne _ (by simp)),
      getElem?_insert_of_ne (hne _ (by simp))]
    exact hattributes' k hk

/-- What a pull delivers has an origin before the pull. -/
theorem origins_of_pull {steps : List Step} {s : Step} {name : Text} {maxMessages : UInt32}
    {deliveries : List Delivery} (hcall : s.call = .pull name maxMessages)
    (h : (pull s.env (stateAfter serde steps) name maxMessages).1 = .returned (.ok deliveries)) :
    ∃ sub, (stateAfter serde steps).subscriptions[name]? = some sub ∧
      ∀ d ∈ deliveries, Origin serde (steps ++ [s]) sub.spec.topic d.message := by
  obtain ⟨sub, topic, hsub, htopic, -, hmessages⟩ := @pull_answer serde _ _ s _ _ hcall h
  refine ⟨sub, hsub, fun d hd => ?_⟩
  have hmem : some d.message ∈ (granted name (stateAfter serde steps) s).map
      fun lease => topic.messages[lease.2]? := hmessages ▸ List.mem_map_of_mem hd
  obtain ⟨lease, -, hlease⟩ := List.mem_map.mp hmem
  rw [← stateAfter_concat] at htopic
  exact originate_stateAfter (steps ++ [s]) sub.spec.topic topic htopic d.message
    (List.mem_of_getElem? hlease)

/-- **Consumers receive what publishers have sent**: in every state of every run each
message of each log has an origin, and so has each message a pull delivers, in the log of
the topic of the subscription; its content was published. -/
theorem delivered_published (serde : SerdeJson) (steps : List Step) :
    (∀ (name : Text) (topic : TopicState), (stateAfter serde steps).topics[name]? = some topic →
      ∀ r ∈ topic.messages, Origin serde steps name r ∧ WasPublished steps r) ∧
    ∀ (s : Step) (name : Text) (maxMessages : UInt32) (deliveries : List Delivery),
      s.call = .pull name maxMessages →
      (pull s.env (stateAfter serde steps) name maxMessages).1 = .returned (.ok deliveries) →
      ∃ sub, (stateAfter serde steps).subscriptions[name]? = some sub ∧
        ∀ d ∈ deliveries, Origin serde (steps ++ [s]) sub.spec.topic d.message ∧
          WasPublished (steps ++ [s]) d.message := by
  refine ⟨fun name topic htopic r hr => ?_, fun s name maxMessages deliveries hcall hpull => ?_⟩
  · have horigin := originate_stateAfter steps name topic htopic r hr
    exact ⟨horigin, horigin.wasPublished⟩
  · obtain ⟨sub, hsub, horigins⟩ := origins_of_pull hcall hpull
    exact ⟨sub, hsub, fun d hd => ⟨horigins d hd, (horigins d hd).wasPublished⟩⟩

end RelayPubsub.Memory
