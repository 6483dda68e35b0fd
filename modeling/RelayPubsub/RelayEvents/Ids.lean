import RelayPubsub.Memory.MessageIds
import RelayPubsub.RelayEvents.Forward

/-!
# The ids answered by the Relay events backend

A publisher may give a message a key in two ways: as its `message_id`, or as its
attribute `idempotency_key`. What a publish answers for it depends on the route.

| route | `message_id` | `idempotency_key` only |
|---|---|---|
| the actions topic, kept in the local store | the key | the key |
| any other topic, forwarded to Relay | the key | a random identifier |

So a second publish with the same key answers the same id on the first route, and on
the second one only if both messages have it as their `message_id`
(`RelayPubsub.RelayEvents.same_id_iff`), though Relay itself is sent the key either
way.
-/

namespace RelayPubsub.RelayEvents

open Lib Memory

/-- **The id answered for a message that is forwarded.** -/
def Forwarded (uuid : ℕ → Uuid) (m : NewMessage) (id : Text) : Prop :=
  if m.messageId = [] then ∃ n, id = (uuid n).text else id = m.messageId

section Publish

variable {σ : Type*} {crates : Crates} {backend : RelayEventsBackend}
  {send : Post → σ → Reply × σ} {env : Env} {topic : Text} {messages : List NewMessage}
  {ids : List Text}

/-- **The ids of a batch that is forwarded.** -/
theorem forward_ids {uuid : ℕ → Uuid} {short : Text} {draws : ℕ} {relay : σ}
    (h : (forward crates backend send uuid short messages draws relay).1 = .ok ids) :
    List.Forall₂ (Forwarded uuid) messages ids := by
  induction messages generalizing draws relay ids with
  | nil =>
    obtain rfl := (Except.ok.inj h).symm
    exact .nil
  | cons m messages ih =>
    unfold forward at h
    rcases haccept : acceptEvent crates backend send short m relay with ⟨e | _, relay'⟩
    · rw [haccept] at h
      cases h
    rw [haccept] at h
    dsimp only at h
    cases hrest : (forward crates backend send uuid short messages
        (if m.messageId = [] then draws + 1 else draws) relay').1 with
    | error e =>
      rw [hrest] at h
      cases h
    | ok rest =>
      rw [hrest] at h
      obtain rfl := (Except.ok.inj h).symm
      refine .cons ?_ (ih hrest)
      unfold Forwarded
      split_ifs with hm
      · exact ⟨draws, rfl⟩
      · rfl

/-- **The ids of a batch that is kept in the local store.** -/
theorem actions_ids {serde : SerdeJson} {steps : List Step}
    (h : (Memory.publish serde env (stateAfter serde steps) topic messages).1 = .ok ids) :
    List.Forall₂ (fun m id => clientId m ≠ [] → id = clientId m) messages ids := by
  obtain ⟨topicState, ht, -, hids⟩ := publish_ok h
  obtain ⟨ids', hids', hall⟩ := SeenSelf.ids serde env topic
    (p := { topicState }) (seenSelf_stateAfter steps ht) messages
  obtain rfl : ids = ids' := hids.symm.trans hids'
  exact hall

/-- **The id answered for a message with a key**: the key, if the store is local or the key
is the `message_id`, and else a random identifier. -/
theorem id_of_publish {st st' : State} {past : List Step} {relay : σ} {key : Text}
    (h : (publish crates backend send env st st' (stateAfter crates.serde past) topic messages
      relay).1 = .ok ids) {i : ℕ} {m : NewMessage} (hm : messages[i]? = some m)
    (hkey : clientId m = key) (hne : key ≠ []) :
    if topic = backend.actionsTopic ∨ m.messageId ≠ [] then ids[i]? = some key
    else ∃ n, ids[i]? = some (env.uuid n).text := by
  unfold publish at h
  cases hprepare : preparePublish crates.serde st st' topic messages with
  | error e =>
    rw [hprepare] at h
    cases h
  | ok prepared =>
    rw [hprepare] at h
    dsimp only at h
    obtain rfl := eq_of_preparePublish hprepare
    have hprepared : (messages.map (enrichMessage crates.serde topic))[i]? =
        some (enrichMessage crates.serde topic m) := by
      rw [List.getElem?_map, hm, Option.map_some]
    obtain ⟨-, -, hid⟩ := enrichMessage_frame crates.serde topic m
    have hclient : m.messageId ≠ [] → m.messageId = key := fun h => by
      rw [← hkey, clientId, if_pos h]
    by_cases hactions : topic = backend.actionsTopic
    · rw [if_pos hactions] at h
      rw [if_pos (Or.inl hactions)]
      obtain ⟨id, hget, hanswer⟩ := exists_getElem?_of_forall₂ (actions_ids h) hprepared
      rw [clientId_enrich, hkey] at hanswer
      rw [hget, hanswer hne]
    · rw [if_neg hactions] at h
      obtain ⟨id, hget, hanswer⟩ := exists_getElem?_of_forall₂ (forward_ids h) hprepared
      unfold Forwarded at hanswer
      rw [hid] at hanswer
      rw [hget]
      split_ifs with hroute
      · have hgiven := hroute.resolve_left hactions
        rw [if_neg hgiven, hclient hgiven] at hanswer
        rw [hanswer]
      · obtain ⟨n, rfl⟩ := (if_pos (not_not.mp (not_or.mp hroute).2)).mp hanswer
        exact ⟨n, rfl⟩

end Publish

/-- **A repeated publish answers the same id exactly if the topic is the actions topic or
both messages carry their key as `message_id`**, where the random identifiers of the two
calls differ from each other and from the key. The stores the calls find are those of any
runs. -/
theorem same_id_iff {σ : Type*} (crates : Crates) (backend : RelayEventsBackend)
    (send : Post → σ → Reply × σ) (topic : Text) {env env' : Env} {st₁ st₂ st₁' st₂' : State}
    {past past' : List Step} {messages messages' : List NewMessage} {relay relay' : σ}
    {ids ids' : List Text} {i j : ℕ} {m m' : NewMessage} {key : Text}
    (h : (publish crates backend send env st₁ st₂ (stateAfter crates.serde past) topic messages
      relay).1 = .ok ids)
    (h' : (publish crates backend send env' st₁' st₂' (stateAfter crates.serde past') topic
      messages' relay').1 = .ok ids')
    (hm : messages[i]? = some m) (hm' : messages'[j]? = some m')
    (hkey : clientId m = key) (hkey' : clientId m' = key) (hne : key ≠ [])
    (hapart : ∀ n n', (env.uuid n).text ≠ (env'.uuid n').text)
    (hrandom : ∀ n, (env.uuid n).text ≠ key ∧ (env'.uuid n).text ≠ key) :
    ids[i]? = ids'[j]? ↔
      topic = backend.actionsTopic ∨ m.messageId ≠ [] ∧ m'.messageId ≠ [] := by
  have hid := id_of_publish h hm hkey hne
  have hid' := id_of_publish h' hm' hkey' hne
  by_cases hactions : topic = backend.actionsTopic
  · rw [if_pos (Or.inl hactions)] at hid hid'
    exact iff_of_true (hid.trans hid'.symm) (Or.inl hactions)
  · simp only [hactions, false_or] at hid hid' ⊢
    split_ifs at hid hid' with hgiven hgiven' hgiven'
    · exact iff_of_true (hid.trans hid'.symm) ⟨hgiven, hgiven'⟩
    · obtain ⟨n, hn⟩ := hid'
      refine iff_of_false (fun heq => ?_) fun hboth => hgiven' hboth.2
      rw [hid, hn] at heq
      exact (hrandom n).2 (Option.some.inj heq).symm
    · obtain ⟨n, hn⟩ := hid
      refine iff_of_false (fun heq => ?_) fun hboth => hgiven hboth.1
      rw [hn, hid'] at heq
      exact (hrandom n).1 (Option.some.inj heq)
    · obtain ⟨n, hn⟩ := hid
      obtain ⟨n', hn'⟩ := hid'
      refine iff_of_false (fun heq => ?_) fun hboth => hgiven hboth.1
      rw [hn, hn'] at heq
      exact hapart n n' (Option.some.inj heq)

/-- A Relay that takes every event. -/
def takesAll (_ : Post) (relay : Unit) : Reply × Unit := (.response 200 [], relay)

/-- The `k`-th publish of one message to a topic that is forwarded. -/
def publishOne (k : ℕ) (m : NewMessage) : Except BackendError (List Text) :=
  (publish sampleCrates sampleBackend takesAll (Step.numbered (0, .getTopic []) k).env {} {}
    (stateAfter noJson []) sampleTopic.name [m] ()).1

/-- A message with its key as its `message_id`. -/
def keyMessageId : NewMessage := { sampleMessage [] with messageId := "k" }

/-- Two messages with the same `message_id` are answered the same id. -/
theorem same_id_keyMessageId : ∃ ids ids' : List Text,
    publishOne 0 keyMessageId = .ok ids ∧ publishOne 1 keyMessageId = .ok ids' ∧
      ids[0]? = ids'[0]? := by
  have hpublish : ∀ k, publishOne k keyMessageId = .ok ["k"] := fun _ => rfl
  have hkey : clientId keyMessageId = "k" := by decide
  have hrandom : ∀ k n, (Uuid.numbered k n).text ≠ "k" := fun _ _ =>
    numbered_ne_of_notMem (by decide)
  refine ⟨["k"], ["k"], hpublish 0, hpublish 1, ?_⟩
  refine (same_id_iff sampleCrates sampleBackend takesAll sampleTopic.name (hpublish 0) (hpublish 1)
    rfl rfl hkey hkey (by decide) (fun n n' heq => ?_) fun n => ⟨hrandom 0 n, hrandom 1 n⟩).mpr
    (Or.inr ⟨by decide, by decide⟩)
  exact absurd (Uuid.numbered_injective heq).1 (by decide)

/-- A message with its key as an attribute. -/
def keyAttribute : NewMessage where
  data := []
  attributes := (∅ : StrMap Text).insert "idempotency_key".toList "k"
  orderingKey := []

/-- **Two messages with the same `idempotency_key` are answered different ids.** -/
theorem idempotencyKey_other_id : ∃ id id',
    publishOne 0 keyAttribute = .ok [id] ∧ publishOne 1 keyAttribute = .ok [id'] ∧ id ≠ id' :=
  ⟨(Uuid.numbered 0 0).text, (Uuid.numbered 1 0).text, rfl, rfl,
    fun h => absurd (Uuid.numbered_injective h).1 (by decide)⟩

end RelayPubsub.RelayEvents
