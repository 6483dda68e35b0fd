import RelayPubsub.Memory.Exec
import RelayPubsub.Memory.Turn

/-!
# What a step does to a topic, in full

The inversion of a step at one topic: its specification, its log, and the
publisher ids it has seen (`RelayPubsub.Memory.topicStep_of_exec`). A publish is
the fold of `RelayPubsub.Memory.publishMessage` over its batch; a pull appends
messages and leaves the rest of the topic (`RelayPubsub.Memory.Lengthened`).
-/

namespace RelayPubsub.Memory

open Lib

/-- **A topic with messages appended**, and nothing else changed. -/
inductive Lengthened : Option TopicState → Option TopicState → Prop
  | absent : Lengthened none none
  | more (topic : TopicState) (new : List RelayMessage) :
      Lengthened (some topic) (some { topic with messages := topic.messages ++ new })

theorem Lengthened.refl (t : Option TopicState) : Lengthened t t := by
  cases t with
  | none => exact .absent
  | some t => simpa using Lengthened.more t []

theorem Lengthened.trans {t t' t'' : Option TopicState} (h : Lengthened t t')
    (h' : Lengthened t' t'') : Lengthened t t'' := by
  cases h with
  | absent => exact h'
  | more topic new =>
    cases h' with
    | more _ new' => simpa using Lengthened.more topic (new ++ new')

/-- Appending to one topic of a map. -/
theorem Lengthened.insert {m : StrMap TopicState} {name name' : Text} {topic : TopicState}
    (h : m[name]? = some topic) (new : List RelayMessage) :
    Lengthened m[name']?
      (m.insert name { topic with messages := topic.messages ++ new })[name']? := by
  rcases eq_or_ne name name' with rfl | hn
  · rw [h, Std.ExtTreeMap.getElem?_insert_self]
    exact .more topic new
  · rw [getElem?_insert_of_ne hn]
    exact .refl _

section Pull

variable {env : Env} {subscription topicName : Text} {topicLen : ℕ} {p p' : Pulling} {name : Text}

/-- The topic that takes the dead letters is the one the policy names, and exists. -/
theorem exists_of_deadLetterTopic {spec : SubscriptionSpec} {topics : StrMap TopicState}
    {attempt : UInt32} {name : Text} {deadTopic : TopicState}
    (h : deadLetterTopic spec topics attempt = some (name, deadTopic)) :
    topics[name]? = some deadTopic ∧ ∃ d, spec.deadLetter = some d ∧ d.topic = name := by
  unfold deadLetterTopic at h
  split at h
  · simp at h
  · rename_i d hd
    split_ifs at h
    obtain ⟨t, ht, heq⟩ := Option.map_eq_some_iff.mp h
    obtain ⟨rfl, rfl⟩ := Prod.mk.inj heq
    exact ⟨ht, d, hd, rfl⟩

theorem Served.lengthened {index : ℕ} {message : RelayMessage}
    (h : Served env subscription p index message p') :
    Lengthened p.topics[name]? p'.topics[name]? := by
  cases h with
  | dead hd => exact .insert (exists_of_deadLetterTopic hd).1 _
  | filtered _ | delivered _ => exact .refl _

theorem Turned.lengthened (h : Turned env subscription topicName topicLen p p') :
    Lengthened p.topics[name]? p'.topics[name]? := by
  cases h with
  | skip _ _ | block _ _ _ _ _ => exact .refl _
  | serve _ _ _ _ _ _ hs => exact hs.lengthened

theorem lengthened_of_turns
    (h : Relation.ReflTransGen (Turned env subscription topicName topicLen) p p') :
    Lengthened p.topics[name]? p'.topics[name]? := by
  induction h with
  | refl => exact .refl _
  | tail _ hturn ih => exact ih.trans hturn.lengthened

/-- **A pull appends to topics**, also when it panics. -/
theorem pull_lengthened (env : Env) (st : State) (subscription : Text) (maxMessages : UInt32) :
    Lengthened st.topics[name]? (pull env st subscription maxMessages).2.topics[name]? := by
  unfold pull
  split
  · exact .refl _
  split
  · exact .refl _
  split
  · rename_i p hp
    simp only [answer_snd]
    exact lengthened_of_turns (turns_of_finished hp)
  · rename_i p hp
    obtain ⟨hturns, -⟩ := turns_of_panicked hp
    exact lengthened_of_turns hturns

end Pull

/-! ### Steps -/

/-- The topic after a batch has been published to it. -/
def TopicState.publish (serde : SerdeJson) (env : Env) (name : Text) (topic : TopicState)
    (messages : List NewMessage) : Publishing :=
  messages.foldl (publishMessage serde env name) { topicState := topic }

section Publish

variable {serde : SerdeJson} {name : Text} {st : State} {topic : TopicState}

theorem publishMessage_spec (env : Env) (p : Publishing) (m : NewMessage) :
    (publishMessage serde env name p m).topicState.spec = p.topicState.spec := by
  unfold publishMessage
  dsimp only
  split <;> rfl

/-- Publishing a batch leaves the specification as it is. -/
theorem publish_spec (env : Env) (messages : List NewMessage) (p : Publishing) :
    (messages.foldl (publishMessage serde env name) p).topicState.spec = p.topicState.spec := by
  induction messages generalizing p with
  | nil => rfl
  | cons m messages ih => rw [List.foldl_cons, ih, publishMessage_spec]

/-- The store after a batch that passes the schema. -/
theorem publish_snd (env : Env) {messages : List NewMessage} (ht : st.topics[name]? = some topic)
    (h : checkSchema serde st topic messages = .ok ()) :
    (publish serde env st name messages).2 =
      { st with
        topics := st.topics.insert name (topic.publish serde env name messages).topicState } := by
  unfold Memory.publish
  rw [ht]
  dsimp only
  rw [h]
  dsimp only
  rw [answer_snd]
  rfl

/-- A check of every element, in order. -/
theorem forM_eq_ok {α ε : Type} {f : α → Except ε Unit} {l : List α} :
    l.forM f = .ok () ↔ ∀ a ∈ l, f a = .ok () := by
  induction l with
  | nil => exact iff_of_true rfl (by simp)
  | cons a l ih =>
    rw [List.forall_mem_cons, ← ih]
    change (f a >>= fun _ => l.forM f) = .ok () ↔ _
    cases f a with
    | error e => simp [bind, Except.bind]
    | ok u => simp [bind, Except.bind]

end Publish

/-- **What a step does to the topic `name`**, before and after: the inversion of
`RelayPubsub.Memory.exec` at one topic. -/
inductive TopicStep (serde : SerdeJson) (name : Text) (st : State) (s : Step) :
    Option TopicState → Option TopicState → Prop
  /-- Nothing; a publish to it is refused by the schema. -/
  | same (topic : Option TopicState) :
      (∀ messages t, s.call = .publish name messages → topic = some t →
        checkSchema serde st t messages ≠ .ok ()) →
      TopicStep serde name st s topic topic
  /-- It is created, empty. -/
  | create {spec : TopicSpec} : s.call = .createTopic spec → spec.name = name →
      TopicStep serde name st s none (some ⟨spec, [], ∅⟩)
  /-- It is deleted. -/
  | delete {topic : TopicState} : s.call = .deleteTopic name →
      TopicStep serde name st s (some topic) none
  /-- Its specification is changed. -/
  | respec {topic : TopicState} {arg : TopicSpec} {mask : List Text} :
      s.call = .updateTopic arg mask → arg.name = name →
      TopicStep serde name st s (some topic)
        (some { topic with spec := applyTopicMask topic.spec arg mask })
  /-- A batch is published to it. -/
  | publish {topic : TopicState} {messages : List NewMessage} :
      s.call = .publish name messages → checkSchema serde st topic messages = .ok () →
      TopicStep serde name st s (some topic)
        (some (topic.publish serde s.env name messages).topicState)
  /-- Dead letters are appended to it. -/
  | pull {subscription : Text} {maxMessages : UInt32} {topic topic' : Option TopicState} :
      s.call = .pull subscription maxMessages → Lengthened topic topic' →
      TopicStep serde name st s topic topic'

section Steps

variable (serde : SerdeJson) (name : Text) (st : State) (s : Step)

/-- A step that is no publish leaves an entry as it is. -/
theorem TopicStep.of_eq {m : StrMap TopicState} (hc : ∀ messages, s.call ≠ .publish name messages)
    (h : m[name]? = st.topics[name]?) : TopicStep serde name st s st.topics[name]? m[name]? := by
  rw [h]
  exact .same _ fun messages t hcall => absurd hcall (hc messages)

theorem topicStep_createTopic {arg : TopicSpec} (h : s.call = .createTopic arg) :
    TopicStep serde name st s st.topics[name]? (createTopic s.env st arg).2.topics[name]? := by
  have hc : ∀ messages, s.call ≠ .publish name messages := by simp [h]
  unfold createTopic
  split
  · exact .of_eq serde name st s hc rfl
  split
  · exact .of_eq serde name st s hc rfl
  rename_i hmem
  rw [answer_snd]
  rcases eq_or_ne arg.name name with hn | hn
  · subst hn
    have hnone : st.topics[arg.name]? = none := by simpa using hmem
    rw [hnone, Std.ExtTreeMap.getElem?_insert_self]
    exact .create h rfl
  · exact .of_eq serde name st s hc (getElem?_insert_of_ne hn)

theorem topicStep_deleteTopic {arg : Text} (h : s.call = .deleteTopic arg) :
    TopicStep serde name st s st.topics[name]? (deleteTopic s.env st arg).2.topics[name]? := by
  have hc : ∀ messages, s.call ≠ .publish name messages := by simp [h]
  unfold deleteTopic
  split
  · exact .of_eq serde name st s hc rfl
  rename_i hmem
  rw [answer_snd]
  rcases eq_or_ne arg name with hn | hn
  · subst hn
    obtain ⟨topic, htopic⟩ : ∃ topic, st.topics[arg]? = some topic :=
      Option.isSome_iff_exists.mp (by simpa using hmem)
    rw [htopic, Std.ExtTreeMap.getElem?_erase_self]
    exact .delete h
  · exact .of_eq serde name st s hc (getElem?_erase_of_ne hn)

theorem topicStep_updateTopic {arg : TopicSpec} {mask : List Text}
    (h : s.call = .updateTopic arg mask) :
    TopicStep serde name st s st.topics[name]? (updateTopic s.env st arg mask).2.topics[name]? := by
  have hc : ∀ messages, s.call ≠ .publish name messages := by simp [h]
  unfold updateTopic
  split
  · exact .of_eq serde name st s hc rfl
  rename_i entry hentry
  rw [answer_snd]
  rcases eq_or_ne arg.name name with hn | hn
  · subst hn
    rw [hentry, Std.ExtTreeMap.getElem?_insert_self]
    exact .respec h rfl
  · exact .of_eq serde name st s hc (getElem?_insert_of_ne hn)

theorem topicStep_publish {arg : Text} {messages : List NewMessage}
    (h : s.call = .publish arg messages) :
    TopicStep serde name st s st.topics[name]?
      (publish serde s.env st arg messages).2.topics[name]? := by
  rcases eq_or_ne arg name with hn | hn
  · subst hn
    unfold Memory.publish
    split
    · rename_i hnone
      rw [hnone]
      exact .same _ fun _ _ _ hsome => nomatch hsome
    rename_i topic htopic
    split
    · rename_i e hcheck
      refine .same _ fun messages' t hcall hsome => ?_
      obtain rfl := Option.some.inj (htopic.symm.trans hsome)
      obtain ⟨-, rfl⟩ := BackendCall.publish.inj (h.symm.trans hcall)
      rw [hcheck]
      exact nofun
    · rename_i hcheck
      rw [answer_snd, htopic, Std.ExtTreeMap.getElem?_insert_self]
      exact .publish h hcheck
  · have hc : ∀ messages, s.call ≠ .publish name messages := by simp [h, hn]
    unfold Memory.publish
    split
    · exact .of_eq serde name st s hc rfl
    split
    · exact .of_eq serde name st s hc rfl
    · rw [answer_snd]
      exact .of_eq serde name st s hc (getElem?_insert_of_ne hn)

/-- **The inversion of a step**, at one topic. -/
theorem topicStep_of_exec :
    TopicStep serde name st s st.topics[name]? (exec serde st s).topics[name]? := by
  unfold exec
  cases h : s.call with
  | createTopic _ => exact topicStep_createTopic serde name st s h
  | updateTopic _ _ => exact topicStep_updateTopic serde name st s h
  | deleteTopic _ => exact topicStep_deleteTopic serde name st s h
  | publish _ _ => exact topicStep_publish serde name st s h
  | pull _ _ => exact .pull h (pull_lengthened s.env st _ _)
  | _ => exact .of_eq serde name st s (by simp [h]) (by simp)

end Steps

end RelayPubsub.Memory
