import RelayPubsub.Memory.Isolate

/-!
# Subscriptions are independent

What the consumers of one subscription do is seen by no other one: the answers
they get, and the subscription they leave, are the same when the calls on a
second subscription are taken out of the run
(`RelayPubsub.Memory.subscriptions_independent`). The second subscription may be
on the same topic; it must have no dead-letter policy, as its dead letters are
appended to a log that the first may read.

The second subscription is hidden in the sense of `RelayPubsub.Memory.Hidden`:
its calls leave the rest of the store as it is, and every other call does the
same on two stores that agree off it.
-/

namespace RelayPubsub.Memory

open Lib

/-! ### Consumers -/

/-- The subscription a consumer's call is on. -/
def consumed : BackendCall → Option Text
  | .pull name _ | .acknowledge name _ | .modifyAckDeadline name _ _ | .seekToTime name _ =>
    some name
  | _ => none

/-- The call is a publish or a consumer's call. -/
def IsTraffic (call : BackendCall) : Prop :=
  (consumed call).isSome = true ∨ ∃ topic messages, call = .publish topic messages

/-- What a consumer is answered. -/
inductive Reply where
  | pulled (answer : PullAnswer)
  | answered (result : Except BackendError Unit)

/-- **The answer to a consumer's call.** -/
def reply (st : State) (s : Step) : Option Reply :=
  match s.call with
  | .pull name maxMessages => some (.pulled (pull s.env st name maxMessages).1)
  | .acknowledge name ackIds => some (.answered (acknowledge s.env st name ackIds).1)
  | .modifyAckDeadline name ackIds extension =>
    some (.answered (modifyAckDeadline s.env st name ackIds extension).1)
  | .seekToTime name time => some (.answered (seekToTime s.env st name time).1)
  | _ => none

/-- **The answers to the consumers of one subscription** along a run. -/
def replies (serde : SerdeJson) (name : Text) : State → List Step → List Reply
  | _, [] => []
  | st, s :: steps =>
    (if consumed s.call = some name then (reply st s).toList else []) ++
      replies serde name (exec serde st s) steps

/-- The run without the calls on a subscription. -/
def without (name : Text) (steps : List Step) : List Step :=
  steps.filter fun s => decide (consumed s.call ≠ some name)

/-! ### One subscription hidden -/

/-- **The part of the store that is one subscription.** -/
def onlySubscription (name : Text) : Hidden where
  topics := ∅
  subscriptions := {name}
  snapshots := ∅

section Hidden

variable {h : Hidden} {name : Text} {st st' : State} {s : Step}

/-- A subscription without a dead-letter policy lets nothing out. -/
theorem sealed_onlySubscription
    (hpolicy : ∀ sub, st.subscriptions[name]? = some sub → sub.spec.deadLetter = none) :
    (onlySubscription name).Sealed st := by
  intro n sub hsub
  refine ⟨fun hreads => absurd hreads (Set.notMem_empty _), ?_⟩
  rintro rfl d hd
  rw [hpolicy sub hsub] at hd
  cases hd

/-- The calls of a run of consumers and publishers add no reference to the store. -/
theorem traps_of_isTraffic (hs : IsTraffic s.call) : h.Traps s.call := by
  rcases hs with hs | ⟨topic, messages, hcall⟩
  · generalize s.call = call at hs ⊢
    cases call <;> first | exact trivial | exact absurd hs (by simp [consumed])
  · rw [hcall]
    exact trivial

/-- A consumer's call on the hidden subscription acts on the hidden part. -/
theorem hides_of_consumed (hs : consumed s.call = some name) :
    (onlySubscription name).Hides s.call := by
  generalize s.call = call at hs ⊢
  cases call <;> first
    | exact Set.mem_singleton_iff.mpr (Option.some.inj hs)
    | exact absurd hs (by simp [consumed])

/-- **Consumers are answered the same on two stores that agree** off a part that
does not contain their subscription. -/
theorem reply_agree (ha : h.Agree st st') (hst : h.Sealed st) (hs : consumed s.call = some name)
    (hname : name ∉ h.subscriptions) : reply st' s = reply st s := by
  unfold reply
  cases hcall : s.call with
  | pull n maxMessages =>
    obtain rfl : n = name := by simpa [consumed, hcall] using hs
    dsimp only
    rw [(pull_agree s.env ha hst hname maxMessages).1]
  | acknowledge n ackIds =>
    obtain rfl : n = name := by simpa [consumed, hcall] using hs
    dsimp only
    unfold acknowledge
    rw [ha.subscriptions _ hname]
    rcases hsub : st.subscriptions[n]? with - | sub
    · rfl
    · dsimp only
      rw [ha.topics _ (mt (hst n sub hsub).reads hname)]
      rcases acknowledgeEach (s.env.now 0) st.topics[sub.spec.topic]? sub ackIds with
        ⟨e | ⟨⟩, left⟩
      · rfl
      · simp only [answer]
        split <;> rfl
  | modifyAckDeadline n ackIds extension =>
    obtain rfl : n = name := by simpa [consumed, hcall] using hs
    dsimp only
    unfold modifyAckDeadline answer
    rw [ha.subscriptions _ hname]
    split_ifs
    · rfl
    · rcases st.subscriptions[n]? with - | sub
      · rfl
      · dsimp only
        split <;> rfl
  | seekToTime n time =>
    obtain rfl : n = name := by simpa [consumed, hcall] using hs
    dsimp only
    unfold seekToTime answer
    rw [ha.subscriptions _ hname]
    rcases hsub : st.subscriptions[n]? with - | sub
    · rfl
    · dsimp only
      rw [ha.topics _ (mt (hst n sub hsub).reads hname)]
      rcases st.topics[sub.spec.topic]? with - | topic
      · rfl
      · dsimp only
        split <;> rfl
  | _ => rfl

end Hidden

/-! ### The two runs -/

/-- Two stores that agree off a subscription, one of them going through the run
without its calls. -/
theorem replies_of_agree {serde : SerdeJson} {name other : Text} (hne : name ≠ other)
    {st st' : State} {steps : List Step} (ha : (onlySubscription other).Agree st st')
    (hst : (onlySubscription other).Sealed st) (hst' : (onlySubscription other).Sealed st')
    (hcalls : ∀ s ∈ steps, IsTraffic s.call) :
    replies serde name st' (without other steps) = replies serde name st steps ∧
      (Machine.run (exec serde) st' (without other steps)).subscriptions[name]? =
        (Machine.run (exec serde) st steps).subscriptions[name]? := by
  have hname : name ∉ (onlySubscription other).subscriptions := hne
  induction steps generalizing st st' with
  | nil => exact ⟨rfl, ha.subscriptions name hname⟩
  | cons s steps ih =>
    have htraps : (onlySubscription other).Traps s.call :=
      traps_of_isTraffic (hcalls s List.mem_cons_self)
    have hrest : ∀ s ∈ steps, IsTraffic s.call :=
      fun t ht => hcalls t (List.mem_cons_of_mem s ht)
    have hsealed : (onlySubscription other).Sealed (exec serde st s) := hst.step htraps
    by_cases hother : consumed s.call = some other
    · -- a call that only the first run makes
      have hskip : without other (s :: steps) = without other steps :=
        List.filter_cons_of_neg (by simp [hother])
      have hnone : consumed s.call ≠ some name := by
        rw [hother]
        exact fun heq => hne (Option.some.inj heq).symm
      rw [hskip, replies, if_neg hnone, List.nil_append, Machine.run_cons]
      exact ih ((agree_of_hides hst (hides_of_consumed hother)).symm.trans ha) hsealed hst' hrest
    · have hkeep : without other (s :: steps) = s :: without other steps :=
        List.filter_cons_of_pos (by simp [hother])
      obtain ⟨hreplies, hsub⟩ := ih (exec_agree ha hst hst' htraps) hsealed (hst'.step htraps) hrest
      rw [hkeep, replies, replies, hreplies, Machine.run_cons, Machine.run_cons]
      refine ⟨?_, hsub⟩
      split_ifs with hs
      · rw [reply_agree ha hst hs hname]
      · rfl

/-- **Subscriptions are independent**: in any interleaving of publishes and of
consumers' calls, the consumers of one subscription get the answers, and leave
the subscription, of the run without the calls on another one that has no
dead-letter policy. -/
theorem subscriptions_independent (serde : SerdeJson) {name other : Text} (hne : name ≠ other)
    {st : State}
    (hpolicy : ∀ sub, st.subscriptions[other]? = some sub → sub.spec.deadLetter = none)
    {steps : List Step} (hcalls : ∀ s ∈ steps, IsTraffic s.call) :
    replies serde name st (without other steps) = replies serde name st steps ∧
      (Machine.run (exec serde) st (without other steps)).subscriptions[name]? =
        (Machine.run (exec serde) st steps).subscriptions[name]? :=
  replies_of_agree hne (.refl _ st) (sealed_onlySubscription hpolicy)
    (sealed_onlySubscription hpolicy) hcalls

/-! ### Two subscriptions on one topic -/

def otherSubscription : SubscriptionSpec :=
  { sampleSubscription with name := "projects/p/subscriptions/r" }

/-- Two subscriptions are created on a topic. -/
def sharedTopic : State := stateAfter noJson (Run.ofCalls
  [(0, .createTopic sampleTopic),
   (0, .createSubscription sampleSubscription),
   (0, .createSubscription otherSubscription)]).steps

/-- A message is published, and the other subscription takes it before the first
one does. -/
def sharedTraffic : List Step := (Run.ofCalls
  [(1, .publish sampleTopic.name [sampleMessage ""]),
   (2, .pull otherSubscription.name 1),
   (3, .seekToTime otherSubscription.name 0),
   (4, .pull sampleSubscription.name 1)]).steps

theorem sharedTraffic_independent :
    replies noJson sampleSubscription.name sharedTopic
        (without otherSubscription.name sharedTraffic) =
      replies noJson sampleSubscription.name sharedTopic sharedTraffic ∧
    (Machine.run (exec noJson) sharedTopic
        (without otherSubscription.name sharedTraffic)).subscriptions[sampleSubscription.name]? =
      (Machine.run (exec noJson) sharedTopic sharedTraffic).subscriptions[
        sampleSubscription.name]? := by
  refine subscriptions_independent noJson (by decide) ?_ fun s hs => ?_
  · have hpolicy : (sharedTopic.subscriptions[otherSubscription.name]?.all fun sub =>
        sub.spec.deadLetter.isNone) = true := by
      decide +kernel
    intro sub hsub
    rw [hsub, Option.all_some] at hpolicy
    exact Option.isNone_iff_eq_none.mp hpolicy
  · simp only [sharedTraffic, Run.ofCalls, List.mapIdx_cons, List.mapIdx_nil, List.mem_cons,
      List.not_mem_nil, or_false] at hs
    rcases hs with rfl | rfl | rfl | rfl
    · exact Or.inr ⟨_, _, rfl⟩
    · exact Or.inl rfl
    · exact Or.inl rfl
    · exact Or.inl rfl

end RelayPubsub.Memory
