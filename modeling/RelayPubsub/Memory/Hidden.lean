import RelayPubsub.Lib.Unwinding
import RelayPubsub.Memory.Elsewhere
import RelayPubsub.Memory.PullHistory

/-!
# Hidden resources

Messages move from resource to resource along references the store keeps: a
subscription reads the topic it was created on, dead letters go to the topic its
policy names, a snapshot keeps a position of a subscription. A part of the store
is *hidden* (`RelayPubsub.Memory.Hidden`), and is a trap if no reference leads
out of it: what reads a hidden topic is hidden, and so on
(`RelayPubsub.Memory.Hidden.Traps`, a condition on calls).

Two states that agree off the hidden part (`RelayPubsub.Memory.Hidden.Agree`)
then agree after the same call (`RelayPubsub.Memory.exec_agree`, in
`RelayPubsub.Memory.Isolate`). This module settles the calls that act on the
hidden part: each leaves the rest of the store as it is
(`RelayPubsub.Memory.agree_of_hides`).

A hidden topic can be seen in one respect: whether it exists, since a topic can
be created only once, and a subscription only on a topic there is.
-/

namespace RelayPubsub.Memory

open Lib

/-- Logs that grow keep their names. -/
theorem TopicsGrow.sameKeys {m m' : StrMap TopicState} (h : TopicsGrow m m') : SameKeys m m' := by
  intro name
  rw [Std.ExtTreeMap.mem_iff_isSome_getElem?, Std.ExtTreeMap.mem_iff_isSome_getElem?]
  have hgrown := h name
  generalize m[name]? = t at hgrown ⊢
  generalize m'[name]? = t' at hgrown ⊢
  cases hgrown <;> simp

/-- **A part of the store**: topics, subscriptions and snapshots, by their names. -/
structure Hidden where
  topics : Set Text
  subscriptions : Set Text
  snapshots : Set Text

namespace Hidden

variable (h : Hidden)

/-- The dead letters of the policy, if there is one, go to a hidden topic. -/
def Takes (deadLetter : Option DeadLetterSpec) : Prop :=
  ∀ d, deadLetter = some d → d.topic ∈ h.topics

/-- **A subscription of that name and specification lets nothing out**: if it reads
a hidden topic it is hidden, and if it is hidden its dead letters are. -/
structure Seals (name : Text) (spec : SubscriptionSpec) : Prop where
  reads : spec.topic ∈ h.topics → name ∈ h.subscriptions
  writes : name ∈ h.subscriptions → h.Takes spec.deadLetter

/-- Every subscription of the store lets nothing out. -/
def Sealed (st : State) : Prop :=
  ∀ name sub, st.subscriptions[name]? = some sub → h.Seals name sub.spec

/-- **The two states agree off the hidden part**, and have the same topics. -/
structure Agree (st st' : State) : Prop where
  topics : AgreeOff h.topics st.topics st'.topics
  exist : SameKeys st.topics st'.topics
  subscriptions : AgreeOff h.subscriptions st.subscriptions st'.subscriptions
  snapshots : AgreeOff h.snapshots st.snapshots st'.snapshots
  schemas : st'.schemas = st.schemas

end Hidden

/-- The paths of an update mask that replace the dead-letter policy. -/
def SetsDeadLetter (mask : List Text) : Prop :=
  mask = [] ∨ "*".toList ∈ mask ∨ "dead_letter_policy".toList ∈ mask ∨
    "deadLetterPolicy".toList ∈ mask

/-- **The call adds no reference out of the hidden part.** -/
def Hidden.Traps (h : Hidden) : BackendCall → Prop
  | .createSubscription spec => h.Seals spec.name spec
  | .updateSubscription spec mask =>
    spec.name ∈ h.subscriptions → SetsDeadLetter mask → h.Takes spec.deadLetter
  | .createSnapshot name subscription _ => subscription ∈ h.subscriptions → name ∈ h.snapshots
  | .seekToSnapshot subscription snapshot => snapshot ∈ h.snapshots → subscription ∈ h.subscriptions
  | _ => True

/-- **The call acts on the hidden part**: it publishes to a hidden topic or updates
one, or it is a call on a hidden subscription or snapshot. -/
def Hidden.Hides (h : Hidden) : BackendCall → Prop
  | .publish topic _ => topic ∈ h.topics
  | .updateTopic topic _ => topic.name ∈ h.topics
  | .createSubscription spec | .updateSubscription spec _ => spec.name ∈ h.subscriptions
  | .deleteSubscription name | .modifyPushConfig name _ _ | .pull name _ | .acknowledge name _
  | .modifyAckDeadline name _ _ | .seekToTime name _ | .seekToSnapshot name _ =>
    name ∈ h.subscriptions
  | .createSnapshot name _ _ | .deleteSnapshot name => name ∈ h.snapshots
  | .updateSnapshot snapshot _ => snapshot.name ∈ h.snapshots
  | _ => False

section Agree

variable {h : Hidden} {st st' st'' : State}

theorem Hidden.Agree.refl (h : Hidden) (st : State) : h.Agree st st :=
  ⟨.refl _ _, .refl _, .refl _ _, .refl _ _, rfl⟩

theorem Hidden.Agree.symm (ha : h.Agree st st') : h.Agree st' st :=
  ⟨ha.topics.symm, ha.exist.symm, ha.subscriptions.symm, ha.snapshots.symm, ha.schemas.symm⟩

theorem Hidden.Agree.trans (ha : h.Agree st st') (ha' : h.Agree st' st'') : h.Agree st st'' :=
  ⟨ha.topics.trans ha'.topics, ha.exist.trans ha'.exist,
    ha.subscriptions.trans ha'.subscriptions, ha.snapshots.trans ha'.snapshots,
    ha'.schemas.trans ha.schemas⟩

/-- Only a hidden subscription has changed. -/
theorem Hidden.Agree.of_subscription {name : Text} (hname : name ∈ h.subscriptions)
    (htopics : st'.topics = st.topics) (hsnapshots : st'.snapshots = st.snapshots)
    (hschemas : st'.schemas = st.schemas) (hsame : ∀ n, name ≠ n → SameAt n st st') :
    h.Agree st st' where
  topics := htopics ▸ .refl _ _
  exist := htopics ▸ .refl _
  subscriptions n hn := (hsame n fun heq => hn (heq ▸ hname)).subscriptions
  snapshots := hsnapshots ▸ .refl _ _
  schemas := hschemas

/-- Only a hidden snapshot has changed. -/
theorem Hidden.Agree.of_snapshot {name : Text} (hname : name ∈ h.snapshots)
    (htopics : st'.topics = st.topics) (hsubscriptions : st'.subscriptions = st.subscriptions)
    (hschemas : st'.schemas = st.schemas) (hsame : ∀ n, name ≠ n → SameAt n st st') :
    h.Agree st st' where
  topics := htopics ▸ .refl _ _
  exist := htopics ▸ .refl _
  subscriptions := hsubscriptions ▸ .refl _ _
  snapshots n hn := (hsame n fun heq => hn (heq ▸ hname)).snapshots
  schemas := hschemas

/-- Only a hidden topic has changed, and none has come or gone. -/
theorem Hidden.Agree.of_topic {name : Text} (hname : name ∈ h.topics)
    (hgrow : TopicsGrow st.topics st'.topics)
    (hsubscriptions : st'.subscriptions = st.subscriptions)
    (hsnapshots : st'.snapshots = st.snapshots) (hschemas : st'.schemas = st.schemas)
    (hsame : ∀ n, name ≠ n → SameAt n st st') : h.Agree st st' where
  topics n hn := (hsame n fun heq => hn (heq ▸ hname)).topics
  exist := hgrow.sameKeys
  subscriptions := hsubscriptions ▸ .refl _ _
  snapshots := hsnapshots ▸ .refl _ _
  schemas := hschemas

end Agree

/-! ### What a pull does to topics -/

section Pull

variable {env : Env} {subscription topicName : Text} {topicLen : ℕ} {p p' : Pulling} {name : Text}

theorem Turned.topics_of_ne (ht : Turned env subscription topicName topicLen p p')
    (hname : ∀ d, p.sub.spec.deadLetter = some d → d.topic ≠ name) :
    p'.topics[name]? = p.topics[name]? := by
  cases ht with
  | skip _ _ | block _ _ _ _ _ => rfl
  | @serve index sub topic message p' htake _ _ _ _ _ hserved =>
    cases hserved with
    | dead hdead =>
      refine getElem?_insert_of_ne ?_
      obtain ⟨-, d, hd, rfl⟩ := exists_of_deadLetterTopic hdead
      rw [(takeNext_frame htake).1] at hd
      exact hname d hd
    | filtered _ | delivered _ => rfl

theorem topics_of_turns
    (ht : Relation.ReflTransGen (Turned env subscription topicName topicLen) p p')
    (hname : ∀ d, p.sub.spec.deadLetter = some d → d.topic ≠ name) :
    p'.topics[name]? = p.topics[name]? := by
  induction ht with
  | refl => rfl
  | tail hturns hturn ih =>
    refine (hturn.topics_of_ne ?_).trans ih
    rwa [spec_of_turns hturns]

/-- **A pull changes no topic but the one of the dead letters.** -/
theorem pull_topics_of_ne {st : State} {maxMessages : UInt32}
    (hname : ∀ sub d, st.subscriptions[subscription]? = some sub →
      sub.spec.deadLetter = some d → d.topic ≠ name) :
    (pull env st subscription maxMessages).2.topics[name]? = st.topics[name]? := by
  unfold pull
  split
  · rfl
  rename_i sub hsub
  have hswept : ∀ d, (sweep env sub).spec.deadLetter = some d → d.topic ≠ name := by
    rw [(sweep_frame env sub).1]
    exact fun d => hname sub d hsub
  split
  · rfl
  split
  · rename_i p hp
    simp only [answer_snd]
    exact topics_of_turns (turns_of_finished hp) hswept
  · rename_i p hp
    exact topics_of_turns (turns_of_panicked hp).1 hswept

end Pull

/-! ### Calls on the hidden part -/

section Hides

variable {h : Hidden} {serde : SerdeJson} {st : State} {s : Step}

/-- A pull from a hidden subscription. -/
theorem pull_agree_of_hides {env : Env} {name : Text} {maxMessages : UInt32} (hst : h.Sealed st)
    (hname : name ∈ h.subscriptions) : h.Agree st (pull env st name maxMessages).2 where
  topics n hn := by
    refine pull_topics_of_ne fun sub d hsub hd heq => hn (heq ▸ ?_)
    exact (hst name sub hsub).writes hname d hd
  exist := TopicsGrow.sameKeys fun _ => (pull_lengthened env st name maxMessages).grown
  subscriptions n hn := by
    unfold pull
    have hne : name ≠ n := fun heq => hn (heq ▸ hname)
    split
    · rfl
    split
    · exact getElem?_insert_of_ne hne
    split
    · simp only [answer_snd]
      exact getElem?_insert_of_ne hne
    · exact getElem?_erase_of_ne hne
  snapshots := by simpa using .refl _ _
  schemas := by simp

/-- **A call on the hidden part leaves the rest as it is.** -/
theorem agree_of_hides (hst : h.Sealed st) (hs : h.Hides s.call) :
    h.Agree st (exec serde st s) := by
  unfold exec
  cases hcall : s.call with
  | publish topic messages =>
    rw [hcall] at hs
    have hgrow := topicsGrow_of_exec st s serde (by simp [hcall]) (by simp [hcall])
    exact .of_topic hs (by simpa [exec, hcall] using hgrow) (by simp) (by simp) (by simp)
      fun n hn => publish_sameAt _ _ _ hn
  | updateTopic topic mask =>
    rw [hcall] at hs
    have hgrow := topicsGrow_of_exec st s serde (by simp [hcall]) (by simp [hcall])
    exact .of_topic hs (by simpa [exec, hcall] using hgrow) (by simp) (by simp) (by simp)
      fun n hn => updateTopic_sameAt _ _ hn
  | createSubscription spec =>
    rw [hcall] at hs
    exact .of_subscription hs (by simp) (by simp) (by simp)
      fun n hn => createSubscription_sameAt _ _ hn
  | updateSubscription spec mask =>
    rw [hcall] at hs
    exact .of_subscription hs (by simp) (by simp) (by simp)
      fun n hn => updateSubscription_sameAt _ _ hn
  | deleteSubscription name =>
    rw [hcall] at hs
    exact .of_subscription hs (by simp) (by simp) (by simp)
      fun n hn => deleteSubscription_sameAt _ _ hn
  | modifyPushConfig name endpoint attributes =>
    rw [hcall] at hs
    exact .of_subscription hs (by simp) (by simp) (by simp)
      fun n hn => modifyPushConfig_sameAt _ _ hn
  | pull name maxMessages =>
    rw [hcall] at hs
    exact pull_agree_of_hides hst hs
  | acknowledge name ackIds =>
    rw [hcall] at hs
    exact .of_subscription hs (by simp) (by simp) (by simp) fun n hn => acknowledge_sameAt _ _ hn
  | modifyAckDeadline name ackIds extension =>
    rw [hcall] at hs
    exact .of_subscription hs (by simp) (by simp) (by simp)
      fun n hn => modifyAckDeadline_sameAt _ _ hn
  | seekToTime name time =>
    rw [hcall] at hs
    exact .of_subscription hs (by simp) (by simp) (by simp) fun n hn => seekToTime_sameAt _ _ hn
  | seekToSnapshot name snapshot =>
    rw [hcall] at hs
    exact .of_subscription hs (by simp) (by simp) (by simp)
      fun n hn => seekToSnapshot_sameAt _ _ hn
  | createSnapshot name subscription labels =>
    rw [hcall] at hs
    exact .of_snapshot hs (by simp) (by simp) (by simp) fun n hn => createSnapshot_sameAt _ _ hn
  | updateSnapshot snapshot mask =>
    rw [hcall] at hs
    exact .of_snapshot hs (by simp) (by simp) (by simp) fun n hn => updateSnapshot_sameAt _ _ hn
  | deleteSnapshot name =>
    rw [hcall] at hs
    exact .of_snapshot hs (by simp) (by simp) (by simp) fun n hn => deleteSnapshot_sameAt _ _ hn
  | _ =>
    rw [hcall] at hs
    exact hs.elim

end Hides

end RelayPubsub.Memory
