import RelayPubsub.Memory.TopicStep

/-!
# What a step does to a log and to a snapshot

The counterparts of `RelayPubsub.Memory.touch_of_exec` for the two other maps
that hold or are referred to by indices. A topic is created empty, its log grows
at the end (`RelayPubsub.Memory.Grown`), and it is deleted; a snapshot is
created at the cursor of a subscription, and its index and topic never change
after that.

A pull makes logs grow as well: it moves messages to dead-letter topics.
-/

namespace RelayPubsub.Memory

open Lib

/-! ### Logs grow at the end -/

/-- **A topic before and after**: its log has grown at the end, or it is
missing both times. -/
inductive Grown : Option TopicState → Option TopicState → Prop
  | absent : Grown none none
  | grown {topic topic' : TopicState} : topic.messages <+: topic'.messages →
      Grown (some topic) (some topic')

theorem Grown.refl (t : Option TopicState) : Grown t t := by
  cases t with
  | none => exact .absent
  | some t => exact .grown (List.prefix_refl _)

theorem Grown.trans {t t' t'' : Option TopicState} (h : Grown t t') (h' : Grown t' t'') :
    Grown t t'' := by
  cases h with
  | absent => exact h'
  | grown h =>
    cases h' with
    | grown h' => exact .grown (h.trans h')

/-- Every topic of a map has grown. -/
def TopicsGrow (m m' : StrMap TopicState) : Prop := ∀ name : Text, Grown m[name]? m'[name]?

theorem TopicsGrow.refl (m : StrMap TopicState) : TopicsGrow m m := fun name => .refl m[name]?

theorem TopicsGrow.trans {m m' m'' : StrMap TopicState} (h : TopicsGrow m m')
    (h' : TopicsGrow m' m'') : TopicsGrow m m'' :=
  fun name => (h name).trans (h' name)

/-- A topic that is still there has a longer log. -/
theorem TopicsGrow.get {m m' : StrMap TopicState} (h : TopicsGrow m m') {name : Text}
    {topic : TopicState} (ht : m[name]? = some topic) :
    ∃ topic', m'[name]? = some topic' ∧ topic.messages <+: topic'.messages := by
  have hname := h name
  rw [ht] at hname
  generalize hm' : m'[name]? = t' at hname
  cases hname with
  | grown hp => exact ⟨_, rfl, hp⟩

/-- Replacing a topic by one with a longer log. -/
theorem TopicsGrow.insert {m : StrMap TopicState} {name : Text} {topic topic' : TopicState}
    (h : m[name]? = some topic) (hp : topic.messages <+: topic'.messages) :
    TopicsGrow m (m.insert name topic') := by
  intro name'
  rcases eq_or_ne name name' with rfl | hn
  · rw [h, Std.ExtTreeMap.getElem?_insert_self]
    exact .grown hp
  · rw [getElem?_insert_of_ne hn]
    exact .refl _

/-- What is in a log stays where it is. -/
theorem getElem?_of_isPrefix {α : Type*} {log log' : List α} {i : ℕ} {message : α}
    (h : log <+: log') (hmessage : log[i]? = some message) : log'[i]? = some message := by
  obtain ⟨rest, rfl⟩ := h
  rwa [List.getElem?_append_left (List.getElem?_eq_some_iff.mp hmessage).1]

/-! ### A pull -/

/-- Appending makes a log grow. -/
theorem Lengthened.grown {t t' : Option TopicState} (h : Lengthened t t') : Grown t t' := by
  cases h with
  | absent => exact .absent
  | more topic new => exact .grown (List.prefix_append _ _)

section Pull

variable {env : Env} {subscription topicName : Text} {topicLen : ℕ} {p p' : Pulling}

theorem Turned.topicsGrow (h : Turned env subscription topicName topicLen p p') :
    TopicsGrow p.topics p'.topics :=
  fun _ => h.lengthened.grown

theorem topicsGrow_of_turns
    (h : Relation.ReflTransGen (Turned env subscription topicName topicLen) p p') :
    TopicsGrow p.topics p'.topics :=
  fun _ => (lengthened_of_turns h).grown

end Pull

/-! ### The messages of a pull -/

/-- **Every delivery carries the message of its index**: the one the log has
there. -/
def Pulling.Truthful (topicName : Text) (p : Pulling) : Prop :=
  ∀ d ∈ p.deliveries, ∃ topic, p.topics[topicName]? = some topic ∧
    topic.messages[d.1]? = some d.2.message

section Messages

variable {env : Env} {subscription topicName : Text} {topicLen : ℕ} {p p' : Pulling}

/-- Deliveries stay truthful while logs grow. -/
theorem Pulling.Truthful.grow (h : p.Truthful topicName) (hd : p'.deliveries = p.deliveries)
    (hg : TopicsGrow p.topics p'.topics) : p'.Truthful topicName := by
  intro d hmem
  rw [hd] at hmem
  obtain ⟨topic, htopic, hmessage⟩ := h d hmem
  obtain ⟨topic', htopic', hgrown⟩ := hg.get htopic
  exact ⟨topic', htopic', getElem?_of_isPrefix hgrown hmessage⟩

theorem Turned.truthful (h : Turned env subscription topicName topicLen p p')
    (ht : p.Truthful topicName) : p'.Truthful topicName := by
  have hg := h.topicsGrow
  cases h with
  | skip _ _ | block _ _ _ _ _ => exact ht.grow rfl hg
  | @serve index sub topic message p' _ _ _ htopic _ hmessage hserved =>
    cases hserved with
    | dead _ | filtered _ => exact ht.grow rfl hg
    | delivered _ =>
      intro d hmem
      rcases List.mem_append.mp hmem with hmem | hmem
      · exact ht d hmem
      · rw [List.mem_singleton.mp hmem]
        exact ⟨topic, htopic, hmessage⟩

/-- **A pull delivers the messages of the log.** -/
theorem truthful_of_turns
    (h : Relation.ReflTransGen (Turned env subscription topicName topicLen) p p')
    (ht : p.Truthful topicName) : p'.Truthful topicName := by
  induction h with
  | refl => exact ht
  | tail _ hturn ih => exact hturn.truthful ih

end Messages

/-! ### Publishing -/

theorem publishMessage_grows (serde : SerdeJson) (env : Env) (topic : Text) (p : Publishing)
    (message : NewMessage) :
    p.topicState.messages <+: (publishMessage serde env topic p message).topicState.messages := by
  unfold publishMessage
  dsimp only
  split
  · exact List.prefix_refl _
  · exact List.prefix_append _ _

/-- Publishing a batch appends. -/
theorem publish_grows (serde : SerdeJson) (env : Env) (name : Text) (topic : TopicState)
    (messages : List NewMessage) :
    topic.messages <+: (topic.publish serde env name messages).topicState.messages := by
  have hfold : ∀ p : Publishing, p.topicState.messages <+:
      (messages.foldl (publishMessage serde env name) p).topicState.messages := by
    induction messages with
    | nil => exact fun p => List.prefix_refl _
    | cons message messages ih =>
      exact fun p => (publishMessage_grows serde env name p message).trans (ih _)
  exact hfold { topicState := topic }

/-! ### Steps -/

/-- **What a step does to the topic `name`**, before and after. -/
inductive TopicTouch (name : Text) (s : Step) : Option TopicState → Option TopicState → Prop
  /-- Its log grows at the end, if it exists. -/
  | grown {topic topic' : Option TopicState} : Grown topic topic' → TopicTouch name s topic topic'
  /-- It is created, with an empty log. -/
  | create {spec : TopicSpec} : s.call = .createTopic spec → spec.name = name →
      TopicTouch name s none (some ⟨spec, [], ∅⟩)
  /-- It is deleted. -/
  | delete {topic : TopicState} : s.call = .deleteTopic name → TopicTouch name s (some topic) none

/-- **What a step does to the snapshot `name`**, before and after. -/
inductive SnapshotTouch (name : Text) (st : State) (s : Step) :
    Option SnapshotSpec → Option SnapshotSpec → Prop
  /-- Nothing. -/
  | same (snap : Option SnapshotSpec) : SnapshotTouch name st s snap snap
  /-- Its labels are changed. -/
  | relabel {snap : SnapshotSpec} {labels : StrMap Text} :
      SnapshotTouch name st s (some snap) (some { snap with labels })
  /-- It is created, at the cursor of a subscription. -/
  | create {subscription : Text} {labels : StrMap Text} {sub : SubscriptionState}
      {snap : SnapshotSpec} : s.call = .createSnapshot name subscription labels →
      st.subscriptions[subscription]? = some sub → snap.topic = sub.spec.topic →
      snap.topicIndex = sub.nextIndex → SnapshotTouch name st s none (some snap)
  /-- It is deleted. -/
  | delete {snap : SnapshotSpec} : s.call = .deleteSnapshot name →
      SnapshotTouch name st s (some snap) none

section Touches

variable (name : Text) (st : State) (s : Step)

variable {name st s} in
/-- What is forgotten of a step at a topic: its specification, and the publisher ids
it has seen. -/
theorem TopicStep.touch {serde : SerdeJson} {t t' : Option TopicState}
    (h : TopicStep serde name st s t t') : TopicTouch name s t t' := by
  cases h with
  | same _ _ => exact .grown (.refl _)
  | create hcall hname => exact .create hcall hname
  | delete hcall => exact .delete hcall
  | respec _ _ => exact .grown (.grown (List.prefix_refl _))
  | publish _ _ => exact .grown (.grown (publish_grows _ _ _ _ _))
  | pull _ hlonger => exact .grown hlonger.grown

/-- **The inversion of a step**, at one topic. -/
theorem topicTouch_of_exec (serde : SerdeJson) :
    TopicTouch name s st.topics[name]? (exec serde st s).topics[name]? :=
  (topicStep_of_exec serde name st s).touch

/-- **Logs grow in a step** that neither creates nor deletes a topic. -/
theorem topicsGrow_of_exec (serde : SerdeJson) (hcreate : ∀ spec, s.call ≠ .createTopic spec)
    (hdelete : ∀ name, s.call ≠ .deleteTopic name) :
    TopicsGrow st.topics (exec serde st s).topics := by
  intro name
  have htouch := topicTouch_of_exec name st s serde
  generalize st.topics[name]? = t at htouch ⊢
  generalize (exec serde st s).topics[name]? = t' at htouch ⊢
  cases htouch with
  | grown hg => exact hg
  | create hcall _ => exact absurd hcall (hcreate _)
  | delete hcall => exact absurd hcall (hdelete _)

/-- A mask changes neither the topic nor the index of a snapshot. -/
theorem snapshotTouch_updateSnapshot (env : Env) (arg : SnapshotSpec) (mask : List Text) :
    SnapshotTouch name st s st.snapshots[name]?
      (updateSnapshot env st arg mask).2.snapshots[name]? := by
  unfold updateSnapshot
  split
  · exact .same _
  rename_i entry hentry
  rw [answer_snd]
  dsimp only
  rcases eq_or_ne arg.name name with hn | hn
  · subst hn
    rw [hentry, Std.ExtTreeMap.getElem?_insert_self]
    split
    · exact .relabel
    · exact .same _
  · rw [getElem?_insert_of_ne hn]
    exact .same _

theorem snapshotTouch_createSnapshot {arg subscription : Text} {labels : StrMap Text}
    (h : s.call = .createSnapshot arg subscription labels) :
    SnapshotTouch name st s st.snapshots[name]?
      (createSnapshot s.env st arg subscription labels).2.snapshots[name]? := by
  unfold createSnapshot
  split
  · exact .same _
  split
  · exact .same _
  rename_i hmem
  split
  · exact .same _
  rename_i sub hsub
  rw [answer_snd]
  dsimp only
  rcases eq_or_ne arg name with hn | hn
  · subst hn
    have hnone : st.snapshots[arg]? = none := by simpa using hmem
    rw [hnone, Std.ExtTreeMap.getElem?_insert_self]
    exact .create h hsub rfl rfl
  · rw [getElem?_insert_of_ne hn]
    exact .same _

theorem snapshotTouch_deleteSnapshot {arg : Text} (h : s.call = .deleteSnapshot arg) :
    SnapshotTouch name st s st.snapshots[name]?
      (deleteSnapshot s.env st arg).2.snapshots[name]? := by
  unfold deleteSnapshot
  split
  · exact .same _
  rename_i hmem
  rw [answer_snd]
  rcases eq_or_ne arg name with hn | hn
  · subst hn
    obtain ⟨snap, hsnap⟩ : ∃ snap, st.snapshots[arg]? = some snap :=
      Option.isSome_iff_exists.mp (by simpa using hmem)
    rw [hsnap, Std.ExtTreeMap.getElem?_erase_self]
    exact .delete h
  · rw [getElem?_erase_of_ne hn]
    exact .same _

/-- **The inversion of a step**, at one snapshot. -/
theorem snapshotTouch_of_exec (serde : SerdeJson) :
    SnapshotTouch name st s st.snapshots[name]? (exec serde st s).snapshots[name]? := by
  unfold exec
  cases h : s.call with
  | createSnapshot _ _ _ => exact snapshotTouch_createSnapshot name st s h
  | updateSnapshot _ _ => exact snapshotTouch_updateSnapshot name st s _ _ _
  | deleteSnapshot _ => exact snapshotTouch_deleteSnapshot name st s h
  | _ => simpa using SnapshotTouch.same _

end Touches

end RelayPubsub.Memory
