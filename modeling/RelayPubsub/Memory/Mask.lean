import RelayPubsub.Lib.Overwrite
import RelayPubsub.Memory.Specs

/-!
# Update masks

What an update of a topic or a subscription does to what is stored, for every mask. The
source has an interpreter of masks for each of the two; both overwrite the fields that the
mask names (`RelayPubsub.Memory.applyTopicMask_eq`,
`RelayPubsub.Memory.applySubscriptionMask_eq`), all of them if it is empty or contains `*`.
So the result depends on the set of fields only, and an update that is made again changes
nothing (`RelayPubsub.Memory.update_masked`).

The deadline of a subscription is normalized after every update, whether the mask names it
or not; one that is stored is normalized already.
-/

namespace RelayPubsub.Memory

open Lib

/-! ### Masked fields -/

section Masked

variable {F : Type} [Fintype F] (names : F → List Text) (mask : List Text)

/-- **The mask selects a field**, which has some names. -/
def Masked (f : F) : Prop := mask = [] ∨ "*".toList ∈ mask ∨ ∃ name ∈ names f, name ∈ mask

instance (f : F) : Decidable (Masked names mask f) :=
  inferInstanceAs (Decidable (_ ∨ _ ∨ _))

/-- The fields that a mask selects. -/
def maskedFields : Finset F := Finset.univ.filter (Masked names mask)

/-- The fields that have a name. -/
def namedFields (name : Text) : Finset F := Finset.univ.filter fun f => name ∈ names f

theorem mem_maskedFields {f : F} : f ∈ maskedFields names mask ↔ Masked names mask f := by
  simp [maskedFields]

/-- Without a wildcard, the mask selects what its paths name. -/
theorem sup_namedFields [DecidableEq F] (h : ¬(mask = [] ∨ "*".toList ∈ mask)) :
    mask.toFinset.sup (namedFields names) = maskedFields names mask := by
  ext f
  rw [mem_maskedFields, Finset.mem_sup]
  obtain ⟨hne, hstar⟩ := not_or.mp h
  simp only [List.mem_toFinset, namedFields, Finset.mem_filter, Finset.mem_univ, true_and, Masked,
    hne, hstar, false_or]
  exact exists_congr fun _ => and_comm

/-- With one, it selects everything. -/
theorem maskedFields_wildcard (h : mask = [] ∨ "*".toList ∈ mask) :
    maskedFields names mask = Finset.univ :=
  Finset.filter_true_of_mem fun _ _ => h.elim Or.inl fun hstar => Or.inr (Or.inl hstar)

end Masked

/-! ### The fields of a topic -/

/-- What a mask can select of a topic. -/
inductive TopicField where
  | labels
  | kmsKeyName
  /-- The name and the encoding. -/
  | schema
  deriving DecidableEq

instance : Fintype TopicField where
  elems := {.labels, .kmsKeyName, .schema}
  complete f := by cases f <;> decide

def TopicField.names : TopicField → List Text
  | .labels => ["labels".toList]
  | .kmsKeyName => ["kms_key_name".toList, "kmsKeyName".toList]
  | .schema =>
    ["schema_settings".toList, "schemaSettings".toList, "schema_name".toList, "schemaName".toList]

/-- **A topic with some fields of another.** -/
def topicOverwrite : Overwrite (Finset TopicField) TopicSpec where
  write p stored incoming :=
    { name := stored.name
      labels := if .labels ∈ p then incoming.labels else stored.labels
      kmsKeyName := if .kmsKeyName ∈ p then incoming.kmsKeyName else stored.kmsKeyName
      schemaName := if .schema ∈ p then incoming.schemaName else stored.schemaName
      schemaEncoding := if .schema ∈ p then incoming.schemaEncoding else stored.schemaEncoding }
  write_bot _ _ := rfl
  write_write p q s t := by
    simp only [Finset.sup_eq_union, Finset.mem_union, TopicSpec.mk.injEq, true_and]
    refine ⟨?_, ?_, ?_, ?_⟩ <;> split_ifs <;> simp_all

theorem applyTopicField_eq (incoming existing : TopicSpec) (field : Text) :
    applyTopicField incoming existing field =
      topicOverwrite.write (namedFields TopicField.names field) existing incoming := by
  unfold applyTopicField
  split_ifs with hlabels hkms hschema
  · subst hlabels
    rfl
  · rcases hkms with rfl | rfl <;> rfl
  · rcases hschema with rfl | rfl | rfl | rfl <;> rfl
  · have hnone : namedFields TopicField.names field = ∅ := by
      refine Finset.filter_false_of_mem fun f _ => ?_
      cases f <;> simp_all [TopicField.names]
    rw [hnone]
    rfl

/-- **The mask interpreter of topics** overwrites what the mask selects. -/
theorem applyTopicMask_eq (existing incoming : TopicSpec) (mask : List Text) :
    applyTopicMask existing incoming mask =
      topicOverwrite.write (maskedFields TopicField.names mask) existing incoming := by
  unfold applyTopicMask
  split_ifs with hwild
  · rw [maskedFields_wildcard _ _ hwild]
    rfl
  · rw [← sup_namedFields _ _ hwild, ← topicOverwrite.foldl_write]
    congr 1
    funext spec field
    exact applyTopicField_eq incoming spec field

/-! ### The fields of a subscription -/

/-- What a mask can select of a subscription. The filter is not among them. -/
inductive SubscriptionField where
  | ackDeadline
  | labels
  | enableMessageOrdering
  | enableExactlyOnceDelivery
  | deadLetter
  | retry
  /-- The endpoint and the attributes. -/
  | push
  deriving DecidableEq

instance : Fintype SubscriptionField where
  elems := {.ackDeadline, .labels, .enableMessageOrdering, .enableExactlyOnceDelivery, .deadLetter,
    .retry, .push}
  complete f := by cases f <;> decide

def SubscriptionField.names : SubscriptionField → List Text
  | .ackDeadline => ["ack_deadline_seconds".toList, "ackDeadlineSeconds".toList]
  | .labels => ["labels".toList]
  | .enableMessageOrdering => ["enable_message_ordering".toList, "enableMessageOrdering".toList]
  | .enableExactlyOnceDelivery =>
    ["enable_exactly_once_delivery".toList, "enableExactlyOnceDelivery".toList]
  | .deadLetter => ["dead_letter_policy".toList, "deadLetterPolicy".toList]
  | .retry => ["retry_policy".toList, "retryPolicy".toList]
  | .push => ["push_config".toList, "pushConfig".toList]

/-- **A subscription with some fields of another.** -/
def subscriptionOverwrite : Overwrite (Finset SubscriptionField) SubscriptionSpec where
  write p stored incoming :=
    { name := stored.name
      topic := stored.topic
      ackDeadlineSeconds :=
        if .ackDeadline ∈ p then incoming.ackDeadlineSeconds else stored.ackDeadlineSeconds
      labels := if .labels ∈ p then incoming.labels else stored.labels
      enableMessageOrdering :=
        if .enableMessageOrdering ∈ p then incoming.enableMessageOrdering
        else stored.enableMessageOrdering
      enableExactlyOnceDelivery :=
        if .enableExactlyOnceDelivery ∈ p then incoming.enableExactlyOnceDelivery
        else stored.enableExactlyOnceDelivery
      deadLetter := if .deadLetter ∈ p then incoming.deadLetter else stored.deadLetter
      retry := if .retry ∈ p then incoming.retry else stored.retry
      pushEndpoint := if .push ∈ p then incoming.pushEndpoint else stored.pushEndpoint
      pushAttributes := if .push ∈ p then incoming.pushAttributes else stored.pushAttributes
      filter := stored.filter }
  write_bot _ _ := rfl
  write_write p q s t := by
    simp only [Finset.sup_eq_union, Finset.mem_union, SubscriptionSpec.mk.injEq, true_and, and_true]
    refine ⟨?_, ?_, ?_, ?_, ?_, ?_, ?_, ?_⟩ <;> split_ifs <;> simp_all

theorem applySubscriptionField_eq (incoming existing : SubscriptionSpec) (field : Text) :
    applySubscriptionField incoming existing field =
      subscriptionOverwrite.write (namedFields SubscriptionField.names field) existing
        incoming := by
  unfold applySubscriptionField
  split_ifs with h₁ h₂ h₃ h₄ h₅ h₆ h₇
  · rcases h₁ with rfl | rfl <;> rfl
  · subst h₂
    rfl
  · rcases h₃ with rfl | rfl <;> rfl
  · rcases h₄ with rfl | rfl <;> rfl
  · rcases h₅ with rfl | rfl <;> rfl
  · rcases h₆ with rfl | rfl <;> rfl
  · rcases h₇ with rfl | rfl <;> rfl
  · have hnone : namedFields SubscriptionField.names field = ∅ := by
      refine Finset.filter_false_of_mem fun f _ => ?_
      cases f <;> simp_all [SubscriptionField.names]
    rw [hnone]
    rfl

/-- **The mask interpreter of subscriptions** overwrites what the mask selects. -/
theorem applySubscriptionMask_eq (existing incoming : SubscriptionSpec) (mask : List Text) :
    applySubscriptionMask existing incoming mask =
      subscriptionOverwrite.write (maskedFields SubscriptionField.names mask) existing
        incoming := by
  unfold applySubscriptionMask
  split_ifs with hwild
  · rw [maskedFields_wildcard _ _ hwild]
    rfl
  · rw [← sup_namedFields _ _ hwild, ← subscriptionOverwrite.foldl_write]
    congr 1
    funext spec field
    exact applySubscriptionField_eq incoming spec field

/-! ### Updates -/

/-- The deadline is normalized after the mask has been applied, which is the same as before. -/
theorem normalized_write (p : Finset SubscriptionField) (stored incoming : SubscriptionSpec) :
    normalized (subscriptionOverwrite.write p stored incoming) =
      subscriptionOverwrite.write p (normalized stored)
        { incoming with ackDeadlineSeconds := clamp incoming.ackDeadlineSeconds 10 600 } := by
  simp only [normalized, subscriptionOverwrite, normalizeAckDeadline_max,
    SubscriptionSpec.mk.injEq, true_and, and_true]
  split_ifs <;> rfl

/-- The state of a call that succeeds. -/
theorem eq_of_answer_ok {α : Type} {env : Env} {value out : α} {st st' : State}
    (h : answer env value st = (.ok out, st')) : value = out ∧ st = st' := by
  unfold answer at h
  split at h
  · obtain ⟨hout, hst⟩ := Prod.mk.inj h
    exact ⟨Except.ok.inj hout, hst⟩
  · cases (Prod.mk.inj h).1

/-- **What a successful update of a topic does**: the answer, and the store after it. -/
structure TopicUpdated (st : State) (incoming : TopicSpec) (mask : List Text) (out : TopicSpec)
    (st' : State) : Prop where
  /-- The fields that the mask selects are set; the others stay, and so does everything else. -/
  fields : ∃ entry, st.topics[incoming.name]? = some entry ∧
    out = topicOverwrite.write (maskedFields TopicField.names mask) entry.spec incoming ∧
    st' = { st with topics := st.topics.insert incoming.name { entry with spec := out } }
  /-- A mask that selects the same fields does the same. -/
  selection : ∀ env mask' out' st'',
    (∀ f, Masked TopicField.names mask' f ↔ Masked TopicField.names mask f) →
    updateTopic env st incoming mask' = (.ok out', st'') → out' = out ∧ st'' = st'
  /-- The second time, nothing changes. -/
  again : ∀ env, updateTopic env st' incoming mask = answer env out st'

/-- **What a successful update of a subscription does**: the answer, and the store after
it. -/
structure SubscriptionUpdated (st : State) (incoming : SubscriptionSpec) (mask : List Text)
    (out : SubscriptionSpec) (st' : State) : Prop where
  /-- The fields that the mask selects are set, the deadline to the value in its range; the
  others stay, and so does everything else. -/
  fields : ∃ entry, st.subscriptions[incoming.name]? = some entry ∧
    out = subscriptionOverwrite.write (maskedFields SubscriptionField.names mask) entry.spec
      { incoming with ackDeadlineSeconds := clamp incoming.ackDeadlineSeconds 10 600 } ∧
    st' = { st with
      subscriptions := st.subscriptions.insert incoming.name { entry with spec := out } }
  /-- A mask that selects the same fields does the same. -/
  selection : ∀ env mask' out' st'',
    (∀ f, Masked SubscriptionField.names mask' f ↔ Masked SubscriptionField.names mask f) →
    updateSubscription env st incoming mask' = (.ok out', st'') → out' = out ∧ st'' = st'
  /-- The second time, nothing changes. -/
  again : ∀ env, updateSubscription env st' incoming mask = answer env out st'

section Updates

variable {env : Env} {st st' : State} {mask : List Text}

/-- Masks that select the same fields have the same set of them. -/
theorem maskedFields_congr {F : Type} [Fintype F] {names : F → List Text} {mask' : List Text}
    (h : ∀ f, Masked names mask' f ↔ Masked names mask f) :
    maskedFields names mask' = maskedFields names mask := by
  ext f
  rw [mem_maskedFields, mem_maskedFields, h]

theorem updateTopic_eq {topic : TopicSpec} {entry : TopicState}
    (h : st.topics[topic.name]? = some entry) {spec : TopicSpec}
    (hspec : spec =
      topicOverwrite.write (maskedFields TopicField.names mask) entry.spec topic) :
    updateTopic env st topic mask = answer env spec
      { st with topics := st.topics.insert topic.name { entry with spec } } := by
  unfold updateTopic
  rw [h, hspec, ← applyTopicMask_eq]

theorem exists_of_updateTopic {topic out : TopicSpec}
    (h : updateTopic env st topic mask = (.ok out, st')) :
    ∃ entry, st.topics[topic.name]? = some entry ∧
      out = topicOverwrite.write (maskedFields TopicField.names mask) entry.spec topic ∧
      st' = { st with topics := st.topics.insert topic.name { entry with spec := out } } := by
  rcases hentry : st.topics[topic.name]? with - | entry
  · unfold updateTopic at h
    rw [hentry] at h
    cases (Prod.mk.inj h).1
  · rw [updateTopic_eq hentry rfl] at h
    obtain ⟨rfl, rfl⟩ := eq_of_answer_ok h
    exact ⟨entry, rfl, rfl, rfl⟩

/-- A successful update of a topic does what its mask says. -/
theorem topicUpdated {topic out : TopicSpec} (h : updateTopic env st topic mask = (.ok out, st')) :
    TopicUpdated st topic mask out st' := by
  obtain ⟨entry, hentry, hout, hst⟩ := exists_of_updateTopic h
  refine ⟨⟨entry, hentry, hout, hst⟩, fun env' mask' out' st'' hmask h' => ?_, fun env' => ?_⟩
  · obtain ⟨entry', hentry', hout', hst'⟩ := exists_of_updateTopic h'
    obtain rfl := Option.some.inj (hentry.symm.trans hentry')
    rw [maskedFields_congr hmask, ← hout] at hout'
    subst hout'
    exact ⟨rfl, hst'.trans hst.symm⟩
  · have hstored : st'.topics[topic.name]? = some { entry with spec := out } := by
      rw [hst]
      exact Std.ExtTreeMap.getElem?_insert_self
    have hagain : out = topicOverwrite.write (maskedFields TopicField.names mask) out topic := by
      rw [hout, topicOverwrite.write_idem]
    rw [updateTopic_eq hstored hagain, (insert_eq_self_iff hstored).mpr rfl]

theorem updateSubscription_eq {sub : SubscriptionSpec} {entry : SubscriptionState}
    (h : st.subscriptions[sub.name]? = some entry)
    (hfilter : ¬("filter".toList ∈ mask ∧ sub.filter ≠ [] ∧ sub.filter ≠ entry.spec.filter)) :
    updateSubscription env st sub mask =
      answer env (normalized (applySubscriptionMask entry.spec sub mask)) { st with
        subscriptions := st.subscriptions.insert sub.name
          { entry with spec := normalized (applySubscriptionMask entry.spec sub mask) } } := by
  unfold updateSubscription
  rw [h]
  dsimp only
  rw [if_neg hfilter]
  rfl

/-- The entry that a successful update finds, and what it makes of it. -/
theorem exists_of_updateSubscription {sub out : SubscriptionSpec}
    (h : updateSubscription env st sub mask = (.ok out, st')) :
    ∃ entry, st.subscriptions[sub.name]? = some entry ∧
      ¬("filter".toList ∈ mask ∧ sub.filter ≠ [] ∧ sub.filter ≠ entry.spec.filter) ∧
      out = normalized (applySubscriptionMask entry.spec sub mask) ∧
      st' = { st with
        subscriptions := st.subscriptions.insert sub.name { entry with spec := out } } := by
  rcases hentry : st.subscriptions[sub.name]? with - | entry
  · unfold updateSubscription at h
    rw [hentry] at h
    cases (Prod.mk.inj h).1
  by_cases hfilter : "filter".toList ∈ mask ∧ sub.filter ≠ [] ∧ sub.filter ≠ entry.spec.filter
  · unfold updateSubscription at h
    rw [hentry] at h
    dsimp only at h
    rw [if_pos hfilter] at h
    cases (Prod.mk.inj h).1
  · rw [updateSubscription_eq hentry hfilter] at h
    obtain ⟨rfl, rfl⟩ := eq_of_answer_ok h
    exact ⟨entry, rfl, hfilter, rfl, rfl⟩

/-- A successful update of a subscription does what its mask says, where what is stored has a
deadline that is kept. -/
theorem subscriptionUpdated (hk : SpecsKept st) {sub out : SubscriptionSpec}
    (h : updateSubscription env st sub mask = (.ok out, st')) :
    SubscriptionUpdated st sub mask out st' := by
  obtain ⟨entry, hentry, hfilter, hout, hst⟩ := exists_of_updateSubscription h
  have hkept : SpecKept sub.name entry.spec := hk.subscriptions hentry
  have hwrite : ∀ mask', normalized (applySubscriptionMask entry.spec sub mask') =
      subscriptionOverwrite.write (maskedFields SubscriptionField.names mask') entry.spec
        { sub with ackDeadlineSeconds := clamp sub.ackDeadlineSeconds 10 600 } := by
    intro mask'
    rw [applySubscriptionMask_eq, normalized_write, hkept.normalized_eq]
  refine ⟨⟨entry, hentry, hout.trans (hwrite mask), hst⟩, fun env' mask' out' st'' hmask h' => ?_,
    fun env' => ?_⟩
  · obtain ⟨entry', hentry', -, hout', hst'⟩ := exists_of_updateSubscription h'
    obtain rfl := Option.some.inj (hentry.symm.trans hentry')
    rw [hwrite, maskedFields_congr hmask, ← hwrite, ← hout] at hout'
    subst hout'
    exact ⟨rfl, hst'.trans hst.symm⟩
  · have hstored : st'.subscriptions[sub.name]? = some { entry with spec := out } := by
      rw [hst]
      exact Std.ExtTreeMap.getElem?_insert_self
    -- the filter has not changed, and the deadline is in its range
    have hsame : out.filter = entry.spec.filter := by
      rw [hout, hwrite]
      rfl
    have hnormal : normalized out = out := by
      rw [hout]
      exact normalized_of_bounds (normalizeAckDeadline_bounds _)
    have hagain : normalized (applySubscriptionMask out sub mask) = out := by
      rw [applySubscriptionMask_eq, normalized_write, hnormal, hout, hwrite,
        subscriptionOverwrite.write_idem]
    rw [updateSubscription_eq hstored (by rwa [hsame]), hagain,
      (insert_eq_self_iff hstored).mpr rfl]

end Updates

/-- **Masks change exactly what they name**: in every reachable state a successful update of a
topic or of a subscription sets the fields that its mask selects and leaves everything else,
whichever way the mask selects them and however often it is made; and the deadlines that are
stored are in their range. -/
theorem update_masked (serde : SerdeJson) (steps : List Step) :
    let st := stateAfter serde steps
    (∀ env topic mask out st', updateTopic env st topic mask = (.ok out, st') →
      TopicUpdated st topic mask out st') ∧
    (∀ env sub mask out st', updateSubscription env st sub mask = (.ok out, st') →
      SubscriptionUpdated st sub mask out st') ∧
    ∀ (name : Text) (sub : SubscriptionState), st.subscriptions[name]? = some sub →
      10 ≤ sub.spec.ackDeadlineSeconds.toNat ∧ sub.spec.ackDeadlineSeconds.toNat ≤ 600 := by
  intro st
  have hk : SpecsKept st := specsKept_stateAfter steps
  refine ⟨fun env topic mask out st' h => topicUpdated h,
    fun env sub mask out st' h => subscriptionUpdated hk h,
    fun name sub h => (hk.subscriptions h).deadline⟩

/-- A subscription is set up. -/
def subscribedSteps : List Step :=
  [Step.numbered (0, .createTopic sampleTopic) 0,
   Step.numbered (0, .createSubscription sampleSubscription) 1]

/-- A deadline of 700 seconds is asked for, by a name of the field, and becomes one of 600. -/
theorem update_masked_deadline : ∃ out st',
    SubscriptionUpdated (stateAfter noJson subscribedSteps)
      { sampleSubscription with ackDeadlineSeconds := 700 } ["ackDeadlineSeconds".toList] out st' ∧
    out.ackDeadlineSeconds = 600 := by
  set env := (Step.numbered (0, .getTopic []) 2).env
  have hok : (updateSubscription env (stateAfter noJson subscribedSteps)
      { sampleSubscription with ackDeadlineSeconds := 700 }
      ["ackDeadlineSeconds".toList]).1.toOption.any
        (fun out => decide (out.ackDeadlineSeconds = 600)) = true := by decide +kernel
  rcases hupdate : updateSubscription env (stateAfter noJson subscribedSteps)
    { sampleSubscription with ackDeadlineSeconds := 700 } ["ackDeadlineSeconds".toList]
    with ⟨e | out, st'⟩
  · rw [hupdate] at hok
    cases hok
  · rw [hupdate] at hok
    exact ⟨out, st', (update_masked noJson subscribedSteps).2.1 _ _ _ _ _ hupdate,
      of_decide_eq_true hok⟩

end RelayPubsub.Memory
