import RelayPubsub.Memory.Dedup
import RelayPubsub.RelayEvents.Forward

/-!
# The actions topic

What is published to the actions topic stays in the local store, and the Relay events
backend adds nothing to it (`RelayPubsub.RelayEvents.actions_publish`): it comes to
the store, the ids and the outcome that publishing to the in-memory backend comes to,
and no request is sent.

The two do the work in different orders. The Relay events backend enriches a batch,
checks it against the schema and hands it on to the in-memory backend, which checks
it and enriches it once more. Neither shows: enriching twice is enriching once
(`RelayPubsub.RelayEvents.enrich_enrich`), and a schema looks at the data, which
enrichment leaves alone.
-/

namespace RelayPubsub.RelayEvents

open Lib Memory

/-! ### Enriching twice -/

/-- **Attributes with all those of others**, and perhaps more. -/
def Extends (a b : StrMap Text) : Prop := ∀ ⦃k v : Text⦄, a[k]? = some v → b[k]? = some v

section Attributes

variable {a b c : StrMap Text} {key value : Text}

theorem Extends.trans (h : Extends a b) (h' : Extends b c) : Extends a c := fun _ _ hk => h' (h hk)

theorem Extends.mem (h : Extends a b) (hk : key ∈ a) : key ∈ b := by
  rw [Std.ExtTreeMap.mem_iff_isSome_getElem?, Option.isSome_iff_exists] at hk ⊢
  exact hk.imp fun _ hv => h hv

theorem extends_orInsert (a : StrMap Text) (key value : Text) :
    Extends a (orInsert a key value) := by
  intro k v hk
  unfold orInsert
  split_ifs with hmem
  · exact hk
  · have hne : key ≠ k := by
      rintro rfl
      rw [Std.ExtTreeMap.mem_iff_isSome_getElem?, hk] at hmem
      exact hmem rfl
    rwa [getElem?_insert_of_ne hne]

theorem mem_orInsert : key ∈ orInsert a key value := by
  unfold orInsert
  split_ifs with hmem
  · exact hmem
  · exact Std.ExtTreeMap.mem_insert_self

/-- An attribute that has been set is not set again. -/
theorem orInsert_of_extends (h : Extends (orInsert a key value) b) : orInsert b key value = b :=
  if_pos (h.mem mem_orInsert)

theorem extends_stamp (a : StrMap Text) (key : Text) (v : Option Value) :
    Extends a (stamp a key v) := by
  unfold stamp
  split
  · exact fun _ _ h => h
  · exact extends_orInsert a key _

theorem stamp_of_extends {v : Option Value} (h : Extends (stamp a key v) b) :
    stamp b key v = b := by
  unfold stamp at h ⊢
  split at h
  · rfl
  · exact orInsert_of_extends h

end Attributes

section Enrich

variable (serde : SerdeJson) (topic : Text) (m : NewMessage)

/-- The content type as enrichment reads it. -/
def contentType (attributes : StrMap Text) : Text :=
  (attributes["content-type".toList]?.or attributes["Content-Type".toList]?).getD []

/-- The body of a message that enrichment takes for a cloud event. -/
def cloudEvent (contentType : Text) (data : Bytes) : Option Value :=
  match serde.fromSlice data with
  | .error _ => none
  | .ok body =>
    if decide ("cloudevents".toList <:+: contentType) || (body.getStr "specversion").isSome then
      some body
    else none

/-- The context attributes of a cloud event, with what they are set to. -/
def contextAttributes : Option Value → List (Text × Option Value)
  | none => []
  | some body =>
    [("ce-id", body.get "id"), ("ce-source", body.get "source"), ("ce-type", body.get "type"),
      ("ce-specversion", body.get "specversion"), ("ce-subject", body.get "subject")]

def stampAll (attributes : StrMap Text) (context : List (Text × Option Value)) : StrMap Text :=
  context.foldl (fun a entry => stamp a entry.1 entry.2) attributes

theorem enrichMessage_eq : enrichMessage serde topic m =
    { m with
      attributes := stampAll (orInsert m.attributes "relay.topic" (topicLeaf topic))
        (contextAttributes (cloudEvent serde
          (contentType (orInsert m.attributes "relay.topic" (topicLeaf topic))) m.data)) } := by
  unfold enrichMessage cloudEvent contentType
  dsimp only
  cases serde.fromSlice m.data with
  | error e => rfl
  | ok body =>
    dsimp only
    split <;> rfl

theorem extends_stampAll (a : StrMap Text) (context : List (Text × Option Value)) :
    Extends a (stampAll a context) := by
  induction context generalizing a with
  | nil => exact fun _ _ h => h
  | cons entry context ih => exact (extends_stamp a entry.1 entry.2).trans (ih _)

/-- Context attributes that have been stamped are not stamped again. -/
theorem stampAll_of_extends {a b : StrMap Text} {context : List (Text × Option Value)}
    (h : Extends (stampAll a context) b) : stampAll b context = b := by
  induction context generalizing a with
  | nil => rfl
  | cons entry context ih =>
    have hfirst : stamp b entry.1 entry.2 = b :=
      stamp_of_extends ((extends_stampAll (stamp a entry.1 entry.2) context).trans h)
    rw [stampAll, List.foldl_cons, hfirst]
    exact ih h

/-- **Enrichment keeps the attributes of the publisher.** -/
theorem extends_enrich : Extends m.attributes (enrichMessage serde topic m).attributes := by
  rw [enrichMessage_eq]
  exact (extends_orInsert _ _ _).trans (extends_stampAll _ _)

/-- Enrichment does not set the content type. -/
theorem contentType_enrich :
    contentType (enrichMessage serde topic m).attributes = contentType m.attributes := by
  unfold contentType
  rw [getElem?_enrich serde topic m (by decide +kernel),
    getElem?_enrich serde topic m (by decide +kernel)]

theorem contentType_orInsert (a : StrMap Text) (leaf : Text) :
    contentType (orInsert a "relay.topic" leaf) = contentType a := by
  unfold contentType
  rw [getElem?_orInsert (by decide), getElem?_orInsert (by decide)]

/-- **Enriching twice is enriching once.** -/
theorem enrich_enrich :
    enrichMessage serde topic (enrichMessage serde topic m) = enrichMessage serde topic m := by
  obtain ⟨hdata, -, -⟩ := enrichMessage_frame serde topic m
  have htype := contentType_enrich serde topic m
  have hattributes := congrArg NewMessage.attributes (enrichMessage_eq serde topic m)
  rw [contentType_orInsert] at hattributes
  have htopic : Extends (orInsert m.attributes "relay.topic" (topicLeaf topic))
      (enrichMessage serde topic m).attributes := by
    rw [hattributes]
    exact extends_stampAll _ _
  have hcontext : stampAll (enrichMessage serde topic m).attributes
      (contextAttributes (cloudEvent serde (contentType m.attributes) m.data)) =
      (enrichMessage serde topic m).attributes := by
    refine stampAll_of_extends (a := orInsert m.attributes "relay.topic" (topicLeaf topic)) ?_
    rw [hattributes]
    exact fun _ _ h => h
  rw [enrichMessage_eq serde topic (enrichMessage serde topic m), hdata, contentType_orInsert,
    htype, orInsert_of_extends htopic, hcontext, ← hdata]

end Enrich

/-! ### Publishing a batch that has been prepared -/

section Publish

variable {serde : SerdeJson} {st : State} {topic : Text} {messages : List NewMessage}

/-- The schema of a topic does not look at what enrichment sets. -/
theorem checkSchema_enrich (topicState : TopicState) :
    checkSchema serde st topicState (messages.map (enrichMessage serde topic)) =
      checkSchema serde st topicState messages := by
  unfold checkSchema
  split_ifs
  · rfl
  · split
    · rfl
    · rename_i schema _
      have hvalid : ∀ m, validatePayload serde schema topicState.spec.schemaEncoding
          (enrichMessage serde topic m).data =
          validatePayload serde schema topicState.spec.schemaEncoding m.data := fun m => by
        rw [(enrichMessage_frame serde topic m).1]
      induction messages with
      | nil => rfl
      | cons m messages ih =>
        show (_ >>= fun _ => List.forM _ _) = (_ >>= fun _ => List.forM _ _)
        beta_reduce
        rw [hvalid]
        cases validatePayload serde schema topicState.spec.schemaEncoding m.data with
        | error e => rfl
        | ok _ => exact ih

theorem publishMessage_enrich (env : Env) (p : Publishing) (m : NewMessage) :
    publishMessage serde env topic p (enrichMessage serde topic m) =
      publishMessage serde env topic p m := by
  unfold publishMessage
  rw [enrich_enrich]

/-- **A batch that has been enriched is published as it was.** -/
theorem publish_enrich (env : Env) :
    Memory.publish serde env st topic (messages.map (enrichMessage serde topic)) =
      Memory.publish serde env st topic messages := by
  have hfold : ∀ p : Publishing, (messages.map (enrichMessage serde topic)).foldl
      (publishMessage serde env topic) p = messages.foldl (publishMessage serde env topic) p := by
    intro p
    rw [List.foldl_map]
    simp only [publishMessage_enrich]
  unfold Memory.publish
  simp only [checkSchema_enrich, hfold]

/-- A batch that passes the schema of its topic is prepared. -/
theorem preparePublish_ok {topicState : TopicState} (ht : st.topics[topic]? = some topicState)
    (h : checkSchema serde st topicState messages = .ok ()) :
    preparePublish serde st st topic messages = .ok (messages.map (enrichMessage serde topic)) := by
  have hspec : (getTopic st topic).toOption = some topicState.spec := by
    unfold getTopic
    rw [ht]
    rfl
  have hprepare : ∀ schema, (∀ m ∈ messages, ∃ prepared,
      prepareMessage serde topic schema m = .ok prepared) →
      messages.mapM (prepareMessage serde topic schema) =
        .ok (messages.map (enrichMessage serde topic)) := by
    intro schema hall
    induction messages with
    | nil => rfl
    | cons m messages ih =>
      obtain ⟨⟨prepared, hm⟩, hrest⟩ := List.forall_mem_cons.mp hall
      have htail : checkSchema serde st topicState messages = .ok () :=
        ((checkSchema_append rfl rfl [m] messages).mp h).2
      rw [List.mapM_cons, hm, ih htail hrest, eq_of_prepareMessage hm]
      rfl
  unfold preparePublish boundSchema
  rw [hspec]
  unfold checkSchema at h
  split_ifs at h with hname
  · dsimp only
    rw [if_pos hname]
    exact hprepare none fun m _ => ⟨_, rfl⟩
  · split at h
    · cases h
    rename_i schema hschema
    have hget : getSchema st topicState.spec.schemaName = .ok schema := by
      unfold getSchema
      rw [hschema]
    dsimp only
    rw [if_neg hname, hget]
    refine hprepare (some (topicState.spec.schemaEncoding, schema)) fun m hm => ?_
    refine ⟨enrichMessage serde topic m, ?_⟩
    unfold prepareMessage
    dsimp only
    rw [(enrichMessage_frame serde topic m).1, forM_eq_ok.mp h m hm]
    rfl

/-- Preparing a batch twice is preparing it once. -/
theorem preparePublish_enrich (st st' : State) :
    preparePublish serde st st' topic (messages.map (enrichMessage serde topic)) =
      preparePublish serde st st' topic messages := by
  have hmessage : ∀ schema, prepareMessage serde topic schema ∘ enrichMessage serde topic =
      prepareMessage serde topic schema := by
    intro schema
    funext m
    simp only [Function.comp_apply, prepareMessage, enrich_enrich]
  unfold preparePublish
  simp only [List.mapM_map, hmessage]

/-- A publish that is refused leaves the store as it is. -/
theorem publish_refused {env : Env} (hfile : env.persistFault = none) {e : BackendError}
    (h : (Memory.publish serde env st topic messages).1 = .error e) :
    (Memory.publish serde env st topic messages).2 = st := by
  unfold Memory.publish at h ⊢
  split at h
  · rfl
  dsimp only
  split at h
  · rfl
  · unfold answer persistLocked at h
    rw [hfile] at h
    cases h

end Publish

/-- **The Relay events backend adds nothing on the actions topic.** With a state file
that can be written, or none, a batch published to the actions topic through it comes
to the same answer, if it succeeds, to the same store, and to no request to Relay; it
succeeds exactly if the in-memory backend accepts the batch, and else both leave the
store as it is. Enriching is done twice: that is the same as once, and it leaves
whatever the publisher set. -/
theorem actions_publish {σ : Type*} (crates : Crates) (backend : RelayEventsBackend)
    (send : Post → σ → Reply × σ) (env : Env) (hfile : env.persistFault = none) (st : State)
    (messages : List NewMessage) (relay : σ) :
    let inner := Memory.publish crates.serde env st backend.actionsTopic messages
    let outer := publish crates backend send env st st st backend.actionsTopic messages relay
    ((∀ ids, outer.1 = .ok ids ↔ inner.1 = .ok ids) ∧ outer.2.1 = inner.2 ∧ outer.2.2 = relay ∧
      ∀ e, inner.1 = .error e → inner.2 = st) ∧
    (∀ prepared, preparePublish crates.serde st st backend.actionsTopic messages = .ok prepared →
      preparePublish crates.serde st st backend.actionsTopic prepared = .ok prepared ∧
      Memory.publish crates.serde env st backend.actionsTopic prepared = inner) ∧
    ∀ m topic, let enriched := enrichMessage crates.serde topic m
      enrichMessage crates.serde topic enriched = enriched ∧
      Extends m.attributes enriched.attributes ∧ enriched.data = m.data ∧
      enriched.orderingKey = m.orderingKey ∧ dedupKey enriched = dedupKey m := by
  intro inner outer
  refine ⟨?_, fun prepared h => ?_, fun m topic => ?_⟩
  · have hrefused : ∀ e, inner.1 = .error e → inner.2 = st := fun e => publish_refused hfile
    cases hprepare : preparePublish crates.serde st st backend.actionsTopic messages with
    | error e =>
      have houter : outer = (.error e, st, relay) := by
        show publish _ _ _ _ _ _ _ _ _ _ = _
        unfold publish
        rw [hprepare]
      -- what is not prepared is refused by the in-memory backend, too
      have hinner : ∀ ids, inner.1 ≠ .ok ids := by
        intro ids hids
        obtain ⟨topicState, ht, hcheck, -⟩ := publish_ok hids
        rw [preparePublish_ok ht hcheck] at hprepare
        cases hprepare
      rw [houter]
      refine ⟨fun ids => ⟨nofun, fun hids => absurd hids (hinner ids)⟩, ?_, rfl, hrefused⟩
      cases hans : inner.1 with
      | error e' => exact (hrefused e' hans).symm
      | ok ids => exact absurd hans (hinner ids)
    | ok prepared =>
      have houter : outer = (inner.1, inner.2, relay) := by
        show publish _ _ _ _ _ _ _ _ _ _ = _
        unfold publish
        rw [hprepare]
        dsimp only
        rw [if_pos rfl, eq_of_preparePublish hprepare, publish_enrich]
      rw [houter]
      exact ⟨fun ids => Iff.rfl, rfl, rfl, hrefused⟩
  · obtain rfl := eq_of_preparePublish h
    refine ⟨?_, publish_enrich env⟩
    rw [preparePublish_enrich]
    exact h
  · obtain ⟨hdata, hkey, -⟩ := enrichMessage_frame crates.serde topic m
    refine ⟨enrich_enrich _ _ _, extends_enrich _ _ _, hdata, hkey, ?_⟩
    rw [dedupKey, clientId_enrich]
    rfl

/-- A store with the actions topic. -/
def actionsStore : State :=
  (createTopic sampleAttempt.env {} { name := sampleBackend.actionsTopic }).2

/-- A batch of two messages is answered alike. -/
theorem actions_publish_sampleBatch :
    (publish sampleCrates sampleBackend Relay.send sampleAttempt.env actionsStore actionsStore
        actionsStore sampleBackend.actionsTopic sampleBatch sampleRelay).1 = .ok ["1", "2"] :=
  ((actions_publish sampleCrates sampleBackend Relay.send sampleAttempt.env rfl actionsStore
    sampleBatch sampleRelay).1.1 ["1", "2"]).mpr (by decide +kernel)

end RelayPubsub.RelayEvents
