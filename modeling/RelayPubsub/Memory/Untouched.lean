import RelayPubsub.Memory.Elsewhere
import RelayPubsub.Memory.PullHistory

/-!
# What calls on other names leave

A run whose calls name other resources leaves everything under a name as it was
(`RelayPubsub.Memory.untouched_run`), with one exception: a subscription may send its
dead letters to any topic, so the log there may have got copies of them. Each such
copy says where it comes from (`RelayPubsub.Memory.DeadLetterOf`).
-/

namespace RelayPubsub.Memory

open Lib

/-- **A topic has received** some messages, each with `P`, and is otherwise the same. -/
inductive Receives (P : RelayMessage → Prop) : Option TopicState → Option TopicState → Prop
  | absent : Receives P none none
  | copies (topic : TopicState) (new : List RelayMessage) : (∀ c ∈ new, P c) →
      Receives P (some topic) (some { topic with messages := topic.messages ++ new })

section Receives

variable {P Q : RelayMessage → Prop} {t t' t'' : Option TopicState}

theorem Receives.refl (P : RelayMessage → Prop) (t : Option TopicState) : Receives P t t := by
  rcases t with - | topic
  · exact .absent
  · have h := Receives.copies (P := P) topic [] (by simp)
    rwa [List.append_nil] at h

theorem Receives.trans (h : Receives P t t') (h' : Receives P t' t'') : Receives P t t'' := by
  cases h with
  | absent => exact h'
  | copies topic new hnew =>
    cases h' with
    | copies _ new' hnew' =>
      dsimp only
      rw [List.append_assoc]
      refine .copies topic (new ++ new') fun c hc => ?_
      rcases List.mem_append.mp hc with hc | hc
      · exact hnew c hc
      · exact hnew' c hc

theorem Receives.mono (h : Receives P t t') (hPQ : ∀ c, P c → Q c) : Receives Q t t' := by
  cases h with
  | absent => exact .absent
  | copies topic new hnew => exact .copies topic new fun c hc => hPQ c (hnew c hc)

end Receives

/-- **What is under the name is untouched**, but for messages with `P` at the end of the
log. -/
structure Untouched (P : RelayMessage → Prop) (name : Text) (st st' : State) : Prop where
  topics : Receives P st.topics[name]? st'.topics[name]?
  subscriptions : st'.subscriptions[name]? = st.subscriptions[name]?
  snapshots : st'.snapshots[name]? = st.snapshots[name]?
  schemas : st'.schemas[name]? = st.schemas[name]?
  iam : st'.iam[name]? = st.iam[name]?

theorem SameAt.untouched {name : Text} {st st' : State} (P : RelayMessage → Prop)
    (h : SameAt name st st') : Untouched P name st st' :=
  ⟨h.topics ▸ .refl P _, h.subscriptions, h.snapshots, h.schemas, h.iam⟩

theorem Untouched.mono {P Q : RelayMessage → Prop} {name : Text} {st st' : State}
    (h : Untouched P name st st') (hPQ : ∀ c, P c → Q c) : Untouched Q name st st' :=
  ⟨h.topics.mono hPQ, h.subscriptions, h.snapshots, h.schemas, h.iam⟩

theorem Untouched.trans {P : RelayMessage → Prop} {name : Text} {st st' st'' : State}
    (h : Untouched P name st st') (h' : Untouched P name st' st'') : Untouched P name st st'' where
  topics := h.topics.trans h'.topics
  subscriptions := h'.subscriptions.trans h.subscriptions
  snapshots := h'.snapshots.trans h.snapshots
  schemas := h'.schemas.trans h.schemas
  iam := h'.iam.trans h.iam

/-! ### Pulls -/

/-- The message is a copy that the subscription has sent to its dead-letter topic. -/
structure SentBy (spec : SubscriptionSpec) (subscription name : Text) (c : RelayMessage) :
    Prop where
  source : c.attributes["x-zyvor-dead-letter-source".toList]? = some subscription
  policy : ∃ policy, spec.deadLetter = some policy ∧ policy.topic = name

section Pull

variable {env : Env} {subscription topicName name : Text} {topicLen : ℕ} {p p' : Pulling}

theorem sentBy_deadMessage {spec : SubscriptionSpec} {policy : DeadLetterSpec}
    (hpolicy : spec.deadLetter = some policy) (message : RelayMessage) :
    SentBy spec subscription policy.topic (deadMessage env subscription p message) where
  source := by
    show ((message.attributes.insert _ subscription).insert _ message.id)[_]? = _
    rw [getElem?_insert_of_ne (by decide), Std.ExtTreeMap.getElem?_insert_self]
  policy := ⟨policy, hpolicy, rfl⟩

/-- **A turn sends dead letters at most.** -/
theorem Turned.receives (name : Text) (h : Turned env subscription topicName topicLen p p') :
    Receives (SentBy p.sub.spec subscription name) p.topics[name]? p'.topics[name]? := by
  cases h with
  | skip _ _ | block _ _ _ _ _ => exact .refl _ _
  | @serve index sub topic message _ htake _ _ _ _ _ hserved =>
    cases hserved with
    | filtered _ | delivered _ => exact .refl _ _
    | @dead target deadTopic hdead =>
      obtain ⟨hthere, policy, hpolicy, rfl⟩ := exists_of_deadLetterTopic hdead
      rw [(takeNext_frame htake).1] at hpolicy
      change Receives _ p.topics[name]? (p.topics.insert policy.topic _)[name]?
      rcases eq_or_ne policy.topic name with rfl | hne
      · rw [hthere, Std.ExtTreeMap.getElem?_insert_self]
        refine .copies deadTopic [_] fun c hc => ?_
        obtain rfl := List.mem_singleton.mp hc
        exact sentBy_deadMessage hpolicy message
      · rw [getElem?_insert_of_ne hne]
        exact .refl _ _

theorem receives_of_turns (name : Text)
    (h : Relation.ReflTransGen (Turned env subscription topicName topicLen) p p') :
    Receives (SentBy p.sub.spec subscription name) p.topics[name]? p'.topics[name]? := by
  induction h with
  | refl => exact .refl _ _
  | tail hturns hturn ih =>
    have hlast := hturn.receives name
    rw [spec_of_turns hturns] at hlast
    exact ih.trans hlast

/-- **A pull of another subscription** sends dead letters at most. -/
theorem pull_untouched {st : State} {maxMessages : UInt32} (hne : subscription ≠ name) :
    Untouched (fun c => ∃ sub, st.subscriptions[subscription]? = some sub ∧
      SentBy sub.spec subscription name c) name st (pull env st subscription maxMessages).2 := by
  unfold pull
  split
  · exact (SameAt.refl name st).untouched _
  rename_i sub hsub
  split
  · exact (SameAt.subscriptions_insert hne sub).untouched _
  -- what the loop has sent, whether it ends or panics
  have hturned : ∀ {p : Pulling} {topicName : Text} {topicLen : ℕ},
      Relation.ReflTransGen (Turned env subscription topicName topicLen)
        { sub := sweep env sub, topics := st.topics } p →
      Receives (fun c => ∃ sub, st.subscriptions[subscription]? = some sub ∧
        SentBy sub.spec subscription name c) st.topics[name]? p.topics[name]? := by
    intro p topicName topicLen hturns
    refine (receives_of_turns name hturns).mono fun c hc => ⟨sub, hsub, ?_⟩
    rwa [(sweep_frame env sub).1] at hc
  split
  · rename_i p hp
    simp only [answer_snd]
    exact ⟨hturned (turns_of_finished hp), getElem?_insert_of_ne hne, rfl, rfl, rfl⟩
  · rename_i p hp
    exact ⟨hturned (turns_of_panicked hp).1, getElem?_erase_of_ne hne, rfl, rfl, rfl⟩

end Pull

/-! ### Runs -/

/-- **A dead letter of a run**, from this state on: a pull of a subscription whose
dead-letter topic this is has made the copy. -/
def DeadLetterOf (serde : SerdeJson) (st : State) (steps : List Step) (name : Text)
    (c : RelayMessage) : Prop :=
  ∃ past s subscription maxMessages sub, past ++ [s] <+: steps ∧
    s.call = .pull subscription maxMessages ∧
    (Machine.run (exec serde) st past).subscriptions[subscription]? = some sub ∧
    SentBy sub.spec subscription name c

section Run

variable {serde : SerdeJson} {st : State} {steps : List Step} {name : Text}

theorem DeadLetterOf.mono {steps' : List Step} {c : RelayMessage}
    (h : DeadLetterOf serde st steps name c) (hle : steps <+: steps') :
    DeadLetterOf serde st steps' name c := by
  obtain ⟨past, s, subscription, maxMessages, sub, hpre, hrest⟩ := h
  exact ⟨past, s, subscription, maxMessages, sub, hpre.trans hle, hrest⟩

/-- **A run of calls on other names leaves what is under the name**, but for dead letters. -/
theorem untouched_run (h : ∀ s ∈ steps, s.call.target ≠ some name) :
    Untouched (DeadLetterOf serde st steps name) name st
      (Machine.run (exec serde) st steps) := by
  induction steps using List.reverseRecOn with
  | nil => exact (SameAt.refl name st).untouched _
  | append_singleton past s ih =>
    have hbefore := (ih fun t ht => h t (List.mem_append_left _ ht)).mono fun c hc =>
      hc.mono (List.prefix_append past [s])
    rw [Machine.run_concat]
    refine hbefore.trans ?_
    have htarget := h s (List.mem_append_right _ (List.mem_singleton_self s))
    by_cases hpull : ∃ subscription maxMessages, s.call = .pull subscription maxMessages
    · obtain ⟨subscription, maxMessages, hcall⟩ := hpull
      have hne : subscription ≠ name := fun heq => htarget (by rw [hcall, ← heq]; rfl)
      unfold exec
      rw [hcall]
      refine (pull_untouched hne).mono ?_
      rintro c ⟨sub, hsub, hsent⟩
      exact ⟨past, s, subscription, maxMessages, sub, List.prefix_refl _, hcall, hsub, hsent⟩
    · exact (exec_sameAt htarget fun n m hcall => hpull ⟨n, m, hcall⟩).untouched _

end Run

end RelayPubsub.Memory
