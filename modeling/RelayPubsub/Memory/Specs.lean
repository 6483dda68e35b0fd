import RelayPubsub.Memory.PullHistory

/-!
# Specifications along a run

What a step does to the *specification* of a subscription
(`RelayPubsub.Memory.SpecStep`): the consumers' calls leave it as it is, and of
the others only three change it. So a specification that is stored has a name
and an acknowledgement deadline of a kind that the store accepts, whoever wrote it
(`RelayPubsub.Memory.specsKept_stateAfter`).
-/

namespace RelayPubsub.Memory

open Lib

/-- The subscription with the deadline the store gives it. -/
def normalized (spec : SubscriptionSpec) : SubscriptionSpec :=
  { spec with ackDeadlineSeconds := normalizeAckDeadline (max spec.ackDeadlineSeconds 10) }

/-- The check of the filter at creation. -/
def FilterAccepted (filter : Text) : Prop :=
  trim filter = [] ∨ ∃ f, AttributeFilter.parse filter = .ok f

/-- **What a step does to the specification of the subscription `name`**, before and
after. -/
inductive SpecStep (name : Text) (st : State) (s : Step) :
    Option SubscriptionSpec → Option SubscriptionSpec → Prop
  | same (spec : Option SubscriptionSpec) : SpecStep name st s spec spec
  | drop {spec : SubscriptionSpec} : SpecStep name st s (some spec) none
  | create {arg : SubscriptionSpec} {topic : TopicState} :
      s.call = .createSubscription arg → arg.name = name → "projects/".toList <+: arg.name →
      FilterAccepted arg.filter → st.topics[arg.topic]? = some topic →
      SpecStep name st s none (some (normalized arg))
  | update {spec arg : SubscriptionSpec} {mask : List Text} :
      s.call = .updateSubscription arg mask → arg.name = name →
      SpecStep name st s (some spec) (some (normalized (applySubscriptionMask spec arg mask)))
  | push {spec : SubscriptionSpec} {endpoint : Option Text} {attributes : StrMap Text} :
      s.call = .modifyPushConfig name endpoint attributes →
      SpecStep name st s (some spec)
        (some { spec with
          pushEndpoint := endpoint.filter (· ≠ [])
          pushAttributes := attributes })

/-! ### The inversion of a step -/

section Steps

variable (serde : SerdeJson) (name : Text) (st : State) (s : Step)

/-- The specification of an entry of the map. -/
abbrev specAt (m : StrMap SubscriptionState) (name : Text) : Option SubscriptionSpec :=
  m[name]?.map SubscriptionState.spec

/-- Replacing an entry by one with the same specification. -/
theorem specAt_insert {m : StrMap SubscriptionState} {arg : Text} {sub sub' : SubscriptionState}
    (h : m[arg]? = some sub) (hspec : sub'.spec = sub.spec) :
    specAt (m.insert arg sub') name = specAt m name := by
  rcases eq_or_ne arg name with rfl | hn
  · simp [specAt, h, hspec]
  · simp only [specAt, getElem?_insert_of_ne hn]

/-- A call after which the map has the same specification. -/
theorem SpecStep.of_eq {m : StrMap SubscriptionState}
    (h : specAt m name = specAt st.subscriptions name) :
    SpecStep name st s (specAt st.subscriptions name) (specAt m name) := by
  rw [h]
  exact .same _

theorem specStep_createSubscription {arg : SubscriptionSpec}
    (h : s.call = .createSubscription arg) :
    SpecStep name st s (specAt st.subscriptions name)
      (specAt (createSubscription s.env st arg).2.subscriptions name) := by
  unfold createSubscription
  split
  · exact .same _
  rename_i hname
  split
  · exact .same _
  rename_i hmem
  split
  · exact .same _
  rename_i hfilter
  split
  · exact .same _
  rename_i topic htopic
  rw [answer_snd]
  rcases eq_or_ne arg.name name with hn | hn
  · subst hn
    have hnone : st.subscriptions[arg.name]? = none := by simpa using hmem
    simp only [specAt, hnone, Std.ExtTreeMap.getElem?_insert_self]
    refine .create h rfl (not_not.mp (not_or.mp hname).1) ?_ htopic
    by_cases hblank : trim arg.filter = []
    · exact Or.inl hblank
    · rw [if_neg hblank] at hfilter
      rcases hf : AttributeFilter.parse arg.filter with e | f
      · rw [hf] at hfilter
        cases hfilter
      · exact Or.inr ⟨f, hf⟩
  · exact .of_eq name st s (by simp only [specAt, getElem?_insert_of_ne hn])

theorem specStep_updateSubscription {arg : SubscriptionSpec} {mask : List Text}
    (h : s.call = .updateSubscription arg mask) :
    SpecStep name st s (specAt st.subscriptions name)
      (specAt (updateSubscription s.env st arg mask).2.subscriptions name) := by
  unfold updateSubscription
  split
  · exact .same _
  rename_i entry hentry
  split
  · exact .same _
  rw [answer_snd]
  rcases eq_or_ne arg.name name with hn | hn
  · subst hn
    simp only [specAt, hentry, Std.ExtTreeMap.getElem?_insert_self]
    exact .update h rfl
  · exact .of_eq name st s (by simp only [specAt, getElem?_insert_of_ne hn])

theorem specStep_modifyPushConfig {arg : Text} {endpoint : Option Text}
    {attributes : StrMap Text} (h : s.call = .modifyPushConfig arg endpoint attributes) :
    SpecStep name st s (specAt st.subscriptions name)
      (specAt (modifyPushConfig s.env st arg endpoint attributes).2.subscriptions name) := by
  unfold modifyPushConfig
  split
  · exact .same _
  rename_i sub hsub
  rw [answer_snd]
  rcases eq_or_ne arg name with hn | hn
  · subst hn
    simp only [specAt, hsub, Std.ExtTreeMap.getElem?_insert_self]
    exact .push h
  · exact .of_eq name st s (by simp only [specAt, getElem?_insert_of_ne hn])

theorem specStep_deleteSubscription {arg : Text} :
    SpecStep name st s (specAt st.subscriptions name)
      (specAt (deleteSubscription s.env st arg).2.subscriptions name) := by
  unfold deleteSubscription
  split
  · exact .same _
  rename_i hmem
  rw [answer_snd]
  rcases eq_or_ne arg name with rfl | hn
  · obtain ⟨sub, hsub⟩ : ∃ sub, st.subscriptions[arg]? = some sub :=
      Option.isSome_iff_exists.mp (by simpa using hmem)
    simp only [specAt, hsub, Std.ExtTreeMap.getElem?_erase_self]
    exact .drop
  · exact .of_eq name st s (by simp only [specAt, getElem?_erase_of_ne hn])

/-- A pull keeps the specification, or drops the subscription when it panics. -/
theorem specStep_pull {arg : Text} {maxMessages : UInt32} :
    SpecStep name st s (specAt st.subscriptions name)
      (specAt (pull s.env st arg maxMessages).2.subscriptions name) := by
  unfold pull
  split
  · exact .same _
  rename_i sub hsub
  split
  · exact .of_eq name st s (specAt_insert name hsub rfl)
  split
  · rename_i p hp
    simp only [answer_snd]
    refine .of_eq name st s (specAt_insert name hsub ?_)
    exact (spec_of_turns (turns_of_finished hp)).trans (sweep_frame _ _).1
  · rcases eq_or_ne arg name with rfl | hn
    · simp only [specAt, hsub, Std.ExtTreeMap.getElem?_erase_self]
      exact .drop
    · exact .of_eq name st s (by simp only [specAt, getElem?_erase_of_ne hn])

/-- The calls on leases and on the cursor leave the specification as it is. -/
theorem specAt_acknowledge {arg : Text} {ackIds : List Text} :
    specAt (acknowledge s.env st arg ackIds).2.subscriptions name =
      specAt st.subscriptions name := by
  rcases hsub : st.subscriptions[arg]? with - | sub
  · simp only [acknowledge, hsub]
  · rw [acknowledge_subscriptions hsub]
    exact specAt_insert name hsub (acknowledgeEach_frame _ _ _ _).1

theorem specAt_modifyAckDeadline {arg : Text} {ackIds : List Text} {extension : UInt32} :
    specAt (modifyAckDeadline s.env st arg ackIds extension).2.subscriptions name =
      specAt st.subscriptions name := by
  unfold modifyAckDeadline
  split
  · rfl
  split
  · rfl
  · rename_i sub hsub
    rw [answer_snd]
    exact specAt_insert name hsub (modify_frame _ _ _ _).1

theorem specAt_seekToTime {arg : Text} {time : Time} :
    specAt (seekToTime s.env st arg time).2.subscriptions name =
      specAt st.subscriptions name := by
  unfold seekToTime
  split
  · rfl
  rename_i sub hsub
  split
  · rfl
  · rw [answer_snd]
    exact specAt_insert name hsub rfl

theorem specAt_seekToSnapshot {arg snapshot : Text} :
    specAt (seekToSnapshot s.env st arg snapshot).2.subscriptions name =
      specAt st.subscriptions name := by
  unfold seekToSnapshot
  split
  · rfl
  split
  · rfl
  rename_i sub hsub
  split
  · rfl
  · rw [answer_snd]
    exact specAt_insert name hsub rfl

/-- **The inversion of a step**, at one specification. -/
theorem specStep_of_exec :
    SpecStep name st s (specAt st.subscriptions name)
      (specAt (exec serde st s).subscriptions name) := by
  unfold exec
  cases h : s.call with
  | createSubscription _ => exact specStep_createSubscription name st s h
  | updateSubscription _ _ => exact specStep_updateSubscription name st s h
  | deleteSubscription _ => exact specStep_deleteSubscription name st s
  | modifyPushConfig _ _ _ => exact specStep_modifyPushConfig name st s h
  | pull _ _ => exact specStep_pull name st s
  | acknowledge _ _ => exact .of_eq name st s (specAt_acknowledge name st s)
  | modifyAckDeadline _ _ _ => exact .of_eq name st s (specAt_modifyAckDeadline name st s)
  | seekToTime _ _ => exact .of_eq name st s (specAt_seekToTime name st s)
  | seekToSnapshot _ _ => exact .of_eq name st s (specAt_seekToSnapshot name st s)
  | _ => exact .of_eq name st s (by simp)

variable {serde name st s} in
/-- **A subscription that a step has created**, in full. -/
theorem created_of_exec {arg : SubscriptionSpec} (hcall : s.call = .createSubscription arg)
    (hnew : arg.name ∉ st.subscriptions) (hmem : arg.name ∈ (exec serde st s).subscriptions) :
    ∃ topic, st.topics[arg.topic]? = some topic ∧ FilterAccepted arg.filter ∧
      (exec serde st s).subscriptions[arg.name]? =
        some (.created (normalized arg) topic.messages.length) := by
  obtain ⟨sub, hsub⟩ := Option.isSome_iff_exists.mp (Std.ExtTreeMap.mem_iff_isSome_getElem?.mp hmem)
  have hnone : st.subscriptions[arg.name]? = none := Std.ExtTreeMap.getElem?_eq_none hnew
  have htouch := touch_of_exec serde arg.name st s
  have hspec := specStep_of_exec serde arg.name st s
  rw [specAt, specAt, hnone, hsub] at hspec
  rw [hnone, hsub] at htouch
  rw [Option.map_none, Option.map_some] at hspec
  rw [hsub]
  cases htouch with
  | @create arg' spec topic hcall' _ _ htopic =>
    obtain rfl := BackendCall.createSubscription.inj (hcall.symm.trans hcall')
    generalize hafter : (SubscriptionState.created spec topic.messages.length).spec = after at hspec
    cases hspec with
    | create hcall₁ _ _ hfilter _ =>
      obtain rfl := BackendCall.createSubscription.inj (hcall.symm.trans hcall₁)
      obtain rfl : spec = normalized arg := hafter
      exact ⟨topic, htopic, hfilter, rfl⟩

end Steps

/-! ### What is stored -/

/-- **A topic as it is stored** under a name. -/
structure TopicKept (name : Text) (spec : TopicSpec) : Prop where
  name_eq : spec.name = name
  project : "projects/".toList <+: name

/-- **A subscription as it is stored** under a name. -/
structure SpecKept (name : Text) (spec : SubscriptionSpec) : Prop where
  name_eq : spec.name = name
  project : "projects/".toList <+: name
  topic : "projects/".toList <+: spec.topic
  deadline : 10 ≤ spec.ackDeadlineSeconds.toNat ∧ spec.ackDeadlineSeconds.toNat ≤ 600

/-- **Every resource of the store is stored under its name**, with a deadline that is
kept. -/
structure SpecsKept (st : State) : Prop where
  topics : ∀ ⦃name topic⦄, st.topics[name]? = some topic → TopicKept name topic.spec
  subscriptions : ∀ ⦃name sub⦄, st.subscriptions[name]? = some sub → SpecKept name sub.spec

/-- The deadline the store gives lies between 10 and 600 seconds. -/
theorem normalizeAckDeadline_bounds (seconds : UInt32) :
    10 ≤ (normalizeAckDeadline seconds).toNat ∧ (normalizeAckDeadline seconds).toNat ≤ 600 := by
  rw [normalizeAckDeadline, toNat_clamp (by decide)]
  simp only [UInt32.reduceToNat]
  omega

/-- **A deadline is normalized** into the range from 10 to 600 seconds. -/
theorem normalizeAckDeadline_max (n : UInt32) :
    normalizeAckDeadline (max n 10) = clamp n 10 600 := by
  rw [normalizeAckDeadline, ← UInt32.toNat_inj, toNat_clamp (by decide), toNat_clamp (by decide),
    toNat_max, max_assoc, max_self]

/-- A deadline in the range is not changed again. -/
theorem normalized_of_bounds {spec : SubscriptionSpec}
    (h : 10 ≤ spec.ackDeadlineSeconds.toNat ∧ spec.ackDeadlineSeconds.toNat ≤ 600) :
    normalized spec = spec := by
  have hclamp : clamp spec.ackDeadlineSeconds 10 600 = spec.ackDeadlineSeconds := by
    rw [← UInt32.toNat_inj, toNat_clamp (by decide)]
    simp only [UInt32.reduceToNat]
    omega
  rw [normalized, normalizeAckDeadline_max, hclamp]

theorem SpecKept.normalized_eq {name : Text} {spec : SubscriptionSpec} (h : SpecKept name spec) :
    normalized spec = spec :=
  normalized_of_bounds h.deadline

theorem applyTopicMask_name (existing incoming : TopicSpec) (mask : List Text) :
    (applyTopicMask existing incoming mask).name = existing.name := by
  have hfold : ∀ fields : List Text, ∀ spec : TopicSpec,
      (fields.foldl (applyTopicField incoming) spec).name = spec.name := by
    intro fields
    induction fields with
    | nil => exact fun _ => rfl
    | cons field fields ih =>
      intro spec
      rw [List.foldl_cons, ih]
      unfold applyTopicField
      split_ifs <;> rfl
  unfold applyTopicMask
  split_ifs
  · rfl
  · exact hfold mask existing

section Invariant

variable {serde : SerdeJson} {st : State} {s : Step}

/-- A topic is created under a name of the right form. -/
theorem project_of_createTopic {spec : TopicSpec} {topic : TopicState}
    (hcall : s.call = .createTopic spec) (hnone : st.topics[spec.name]? = none)
    (h : (exec serde st s).topics[spec.name]? = some topic) :
    "projects/".toList <+: spec.name := by
  simp only [exec, hcall] at h
  unfold createTopic at h
  split at h
  · rw [hnone] at h
    cases h
  · rename_i hname
    exact not_not.mp (not_or.mp hname).1

theorem SpecsKept.topic_step (hk : SpecsKept st) {name : Text} {topic' : TopicState}
    (h : (exec serde st s).topics[name]? = some topic') : TopicKept name topic'.spec := by
  have hstep := topicStep_of_exec serde name st s
  generalize hbefore : st.topics[name]? = before at hstep
  rw [h] at hstep
  cases hstep with
  | same _ _ => exact hk.topics hbefore
  | create hcall hname =>
    subst hname
    exact ⟨rfl, project_of_createTopic hcall hbefore h⟩
  | @respec topic arg mask _ _ =>
    obtain ⟨hname, hproject⟩ := hk.topics hbefore
    exact ⟨(applyTopicMask_name _ arg mask).trans hname, hproject⟩
  | @publish topic messages _ _ =>
    have hspec : (topic.publish serde s.env name messages).topicState.spec = topic.spec :=
      publish_spec s.env messages { topicState := topic }
    exact hspec ▸ hk.topics hbefore
  | pull _ hlong =>
    cases hlong with
    | more topic new =>
      show TopicKept name topic.spec
      exact hk.topics hbefore

theorem SpecsKept.subscription_step (hk : SpecsKept st) {name : Text} {sub' : SubscriptionState}
    (h : (exec serde st s).subscriptions[name]? = some sub') : SpecKept name sub'.spec := by
  have hstep := specStep_of_exec serde name st s
  have hkept : ∀ spec, specAt st.subscriptions name = some spec → SpecKept name spec := by
    intro spec hspec
    obtain ⟨sub, hsub, rfl⟩ := Option.map_eq_some_iff.mp hspec
    exact hk.subscriptions hsub
  generalize specAt st.subscriptions name = before at hstep hkept
  rw [specAt, h, Option.map_some] at hstep
  generalize sub'.spec = after at hstep
  cases hstep with
  | same _ => exact hkept _ rfl
  | @create arg topic _ hname hproject _ htopic =>
    subst hname
    obtain ⟨hname, htopic⟩ := hk.topics htopic
    exact ⟨rfl, hproject, htopic, normalizeAckDeadline_bounds _⟩
  | @update spec arg mask _ _ =>
    obtain ⟨hname, hproject, htopic, -⟩ := hkept _ rfl
    obtain ⟨hname', htopic', -⟩ := applySubscriptionMask_frame spec arg mask
    exact ⟨hname'.trans hname, hproject, htopic'.symm ▸ htopic, normalizeAckDeadline_bounds _⟩
  | push _ =>
    obtain ⟨hname, hproject, htopic, hdeadline⟩ := hkept _ rfl
    exact ⟨hname, hproject, htopic, hdeadline⟩

/-- **In every reachable state resources are stored as they are kept.** -/
theorem specsKept_stateAfter (steps : List Step) : SpecsKept (stateAfter serde steps) :=
  Machine.invariant (P := fun _ st => SpecsKept st) ⟨by simp, by simp⟩
    (fun _ _ _ hk => ⟨fun _ _ h => hk.topic_step h, fun _ _ h => hk.subscription_step h⟩) steps
    (List.prefix_refl _)

end Invariant

/-! ### What both front ends read back -/

/-- An endpoint is kept by the front ends exactly when it is not empty. -/
theorem filter_endpoint_iff {endpoint : Option Text} :
    endpoint.filter (· ≠ []) = endpoint ↔ endpoint ≠ some [] := by
  rcases endpoint with - | e
  · simp
  · by_cases he : e = [] <;> simp [Option.filter, he]

/-- A topic is kept exactly when it has no schema encoding without a schema. -/
theorem unbound_encoding_iff (topic : TopicSpec) :
    { topic with
        schemaEncoding := if topic.schemaName = [] then [] else topic.schemaEncoding } = topic ↔
      (topic.schemaName = [] → topic.schemaEncoding = []) := by
  constructor
  · intro h hschema
    have hencoding := congrArg TopicSpec.schemaEncoding h
    dsimp only at hencoding
    rw [if_pos hschema] at hencoding
    exact hencoding.symm
  · intro h
    split_ifs with hschema
    · rw [← h hschema]
    · rfl

/-! ### Updates without a mask -/

section Unmasked

variable {env : Env} {st : State} {name : Text}

/-- **An update of a topic without a mask** changes nothing exactly when it writes
what is stored. -/
theorem updateTopic_unmasked_iff {topic : TopicState} {spec : TopicSpec}
    (h : st.topics[name]? = some topic) (hname : spec.name = name)
    (hstored : topic.spec.name = name) :
    (updateTopic env st spec []).2 = st ↔ spec = topic.spec := by
  have hmask : applyTopicMask topic.spec spec [] = spec := by
    rw [applyTopicMask, if_pos (Or.inl rfl), hstored, ← hname]
  have hupdate : (updateTopic env st spec []).2 =
      { st with topics := st.topics.insert name { topic with spec } } := by
    simp only [updateTopic, hname, h, answer_snd, hmask]
  rw [hupdate]
  constructor
  · intro heq
    have htopic := (insert_eq_self_iff h).mp (congrArg State.topics heq)
    exact congrArg TopicState.spec htopic
  · rintro rfl
    rw [(insert_eq_self_iff h).mpr rfl]

/-- **An update of a subscription without a mask** that keeps its topic and filter,
and its deadline, changes nothing exactly when it writes what is stored. -/
theorem updateSubscription_unmasked_iff {sub : SubscriptionState} {spec : SubscriptionSpec}
    (hk : SpecsKept st) (h : st.subscriptions[name]? = some sub) (hname : spec.name = name)
    (htopic : spec.topic = sub.spec.topic) (hfilter : spec.filter = sub.spec.filter)
    (hdeadline : spec.ackDeadlineSeconds = sub.spec.ackDeadlineSeconds) :
    (updateSubscription env st spec []).2 = st ↔ spec = sub.spec := by
  have hkept := hk.subscriptions h
  have hmask : applySubscriptionMask sub.spec spec [] = spec := by
    rw [applySubscriptionMask, if_pos (Or.inl rfl), hkept.name_eq, ← hname, ← htopic, ← hfilter]
  have hspec : SpecKept name spec :=
    ⟨hname, hkept.project, htopic ▸ hkept.topic, hdeadline ▸ hkept.deadline⟩
  have hupdate : (updateSubscription env st spec []).2 =
      { st with subscriptions := st.subscriptions.insert name { sub with spec } } := by
    have hallowed : ¬("filter".toList ∈ ([] : List Text) ∧ spec.filter ≠ [] ∧
        spec.filter ≠ sub.spec.filter) := fun hf => hf.2.2 hfilter
    unfold updateSubscription
    rw [hname, h]
    dsimp only
    rw [if_neg hallowed, answer_snd, hmask]
    exact congrArg (fun x => { st with
      subscriptions := st.subscriptions.insert name { sub with spec := x } }) hspec.normalized_eq
  rw [hupdate]
  constructor
  · intro heq
    have hsub := (insert_eq_self_iff h).mp (congrArg State.subscriptions heq)
    exact congrArg SubscriptionState.spec hsub
  · rintro rfl
    rw [(insert_eq_self_iff h).mpr rfl]

end Unmasked

end RelayPubsub.Memory
