import RelayPubsub.Lib.Firsts
import RelayPubsub.Memory.Frame

/-!
# Publish deduplication

A message may carry an id of its publisher: its `message_id`, or else its
`idempotency_key` attribute (`RelayPubsub.Memory.dedupKey`). Of the messages
published to a topic with one such id, in one batch or in several, the first is
stored and the others are dropped; a message without one is always stored
(`RelayPubsub.Memory.publish_dedups`).

The invariant that carries this is `RelayPubsub.Memory.Deduped`: the ids a topic
has seen are those of the messages accepted so far, each standing for itself.
What a publish stores is then determined by the list of accepted messages, up to
the time and the random identifiers; so it does not matter how that list was cut
into batches.
-/

namespace RelayPubsub.Memory

open Lib

/-- The publisher's id of a message, if it has one. -/
def dedupKey (m : NewMessage) : Option Text := if clientId m = [] then none else some (clientId m)

/-! ### Enrichment -/

section Enrich

variable (serde : SerdeJson) (topic : Text) (m : NewMessage) {attributes : StrMap Text}
  {key k value : Text}

theorem getElem?_orInsert (h : key ≠ k) : (orInsert attributes key value)[k]? = attributes[k]? := by
  unfold orInsert
  split
  · rfl
  · exact getElem?_insert_of_ne h

theorem getElem?_stamp {v : Option Value} (h : key ≠ k) :
    (stamp attributes key v)[k]? = attributes[k]? := by
  unfold stamp
  split
  · rfl
  · exact getElem?_orInsert h

/-- The attributes enrichment may set. -/
def enrichedKeys : List Text :=
  ["relay.topic", "ce-id", "ce-source", "ce-type", "ce-specversion", "ce-subject"]

/-- The other attributes are kept. -/
theorem getElem?_enrich (h : k ∉ enrichedKeys) :
    (enrichMessage serde topic m).attributes[k]? = m.attributes[k]? := by
  have hne : ∀ key ∈ enrichedKeys, key ≠ k := fun key hkey heq => h (heq ▸ hkey)
  unfold enrichedKeys at hne
  simp only [List.forall_mem_cons] at hne
  obtain ⟨htopic, hid, hsource, htype, hversion, hsubject, -⟩ := hne
  unfold enrichMessage
  dsimp only
  cases serde.fromSlice m.data with
  | error e => exact getElem?_orInsert htopic
  | ok body =>
    dsimp only
    split
    · rw [getElem?_stamp hsubject, getElem?_stamp hversion, getElem?_stamp htype,
        getElem?_stamp hsource, getElem?_stamp hid, getElem?_orInsert htopic]
    · exact getElem?_orInsert htopic

theorem enrichMessage_frame : (enrichMessage serde topic m).data = m.data ∧
    (enrichMessage serde topic m).orderingKey = m.orderingKey ∧
    (enrichMessage serde topic m).messageId = m.messageId := by
  unfold enrichMessage
  dsimp only
  cases serde.fromSlice m.data with
  | error e => exact ⟨rfl, rfl, rfl⟩
  | ok body =>
    dsimp only
    split <;> exact ⟨rfl, rfl, rfl⟩

/-- **Enrichment leaves the publisher's id.** -/
theorem clientId_enrich : clientId (enrichMessage serde topic m) = clientId m := by
  unfold clientId
  rw [getElem?_enrich serde topic m (by decide +kernel), (enrichMessage_frame serde topic m).2.2]

/-- **What a batch appends** has the payloads of the batch, and the time of the call. -/
theorem appended_of_publish (env : Env) (messages : List NewMessage) (p : Publishing) :
    ∃ new, (messages.foldl (publishMessage serde env topic) p).topicState.messages =
        p.topicState.messages ++ new ∧
      ∀ stored ∈ new, stored.publishedAt = env.now 0 ∧ ∃ m ∈ messages, stored.data = m.data := by
  induction messages generalizing p with
  | nil => exact ⟨[], by simp, by simp⟩
  | cons m messages ih =>
    obtain ⟨new, hnew, hdata⟩ := ih (publishMessage serde env topic p m)
    rw [List.foldl_cons, hnew]
    have hrest : ∀ stored ∈ new,
        stored.publishedAt = env.now 0 ∧ ∃ m' ∈ m :: messages, stored.data = m'.data := by
      intro stored hstored
      obtain ⟨htime, m', hm', heq⟩ := hdata stored hstored
      exact ⟨htime, m', List.mem_cons_of_mem m hm', heq⟩
    have hone : (publishMessage serde env topic p m).topicState.messages =
          p.topicState.messages ∨
        ∃ stored : RelayMessage, stored.publishedAt = env.now 0 ∧ stored.data = m.data ∧
          (publishMessage serde env topic p m).topicState.messages =
            p.topicState.messages ++ [stored] := by
      unfold publishMessage
      dsimp only
      split
      · exact Or.inl rfl
      · exact Or.inr ⟨_, rfl, (enrichMessage_frame serde topic m).1, rfl⟩
    rcases hone with hsame | ⟨stored, htime, hstored, hmore⟩
    · exact ⟨new, by rw [hsame], hrest⟩
    · refine ⟨stored :: new, by rw [hmore, List.append_assoc, List.singleton_append], ?_⟩
      rintro stored' hmem
      rcases List.mem_cons.mp hmem with rfl | hmem
      · exact ⟨htime, m, List.mem_cons_self, hstored⟩
      · exact hrest stored' hmem

end Enrich

/-! ### What is stored -/

/-- **A stored message is that of a published one**: its payload and ordering key,
its attributes enriched, and its id, or a random one. -/
structure Stores (serde : SerdeJson) (topic : Text) (m : NewMessage) (r : RelayMessage) : Prop where
  data : r.data = m.data
  orderingKey : r.orderingKey = m.orderingKey
  attributes : r.attributes = (enrichMessage serde topic m).attributes
  id : if clientId m = [] then ∃ u : Uuid, r.id = u.text else r.id = clientId m

/-- **The ids answered for a batch**, and the messages that it has stored: one after the
other, a message is stored, and the id answered is the one it is stored under; or it is
dropped, and the id answered is its own. -/
inductive Answered (serde : SerdeJson) (topic : Text) :
    List NewMessage → List Text → List RelayMessage → Prop
  | nil : Answered serde topic [] [] []
  | stored {m : NewMessage} {r : RelayMessage} {messages : List NewMessage} {ids : List Text}
      {rs : List RelayMessage} : Stores serde topic m r → Answered serde topic messages ids rs →
      Answered serde topic (m :: messages) (r.id :: ids) (r :: rs)
  | dropped {m : NewMessage} {messages : List NewMessage} {ids : List Text}
      {rs : List RelayMessage} : clientId m ≠ [] → Answered serde topic messages ids rs →
      Answered serde topic (m :: messages) (clientId m :: ids) rs

/-- **The state of a topic to which these messages have been published, and by
that these messages appended.** -/
structure Deduped (serde : SerdeJson) (name : Text) (accepted : List NewMessage)
    (appended : List RelayMessage) (topic : TopicState) : Prop where
  stores : List.Forall₂ (Stores serde name) (firsts dedupKey accepted) appended
  seen : ∀ k id, topic.seenIds[k]? = some id ↔ id = k ∧ ∃ m ∈ accepted, dedupKey m = some k
  log : appended.Sublist topic.messages

section Answered

variable {serde : SerdeJson} {topic : Text} {messages messages' : List NewMessage}
  {ids ids' : List Text} {rs rs' : List RelayMessage}

theorem Answered.append (h : Answered serde topic messages ids rs)
    (h' : Answered serde topic messages' ids' rs') :
    Answered serde topic (messages ++ messages') (ids ++ ids') (rs ++ rs') := by
  induction h with
  | nil => exact h'
  | stored hr _ ih => exact .stored hr ih
  | dropped hm _ ih => exact .dropped hm ih

/-- **A message with an id of its publisher** is answered that id. -/
theorem Answered.keyed (h : Answered serde topic messages ids rs) :
    List.Forall₂ (fun m id => clientId m ≠ [] → id = clientId m) messages ids := by
  induction h with
  | nil => exact .nil
  | stored hr _ ih =>
    refine .cons (fun hm => ?_) ih
    have hid := hr.id
    rwa [if_neg hm] at hid
  | dropped _ _ ih => exact .cons (fun _ => rfl) ih

end Answered

section Publish

variable {serde : SerdeJson} {name : Text} {accepted : List NewMessage}
  {appended : List RelayMessage} {topic : TopicState} {p : Publishing} {m : NewMessage}

theorem deduped_created (spec : TopicSpec) : Deduped serde name [] [] ⟨spec, [], ∅⟩ :=
  ⟨.nil, by simp, List.nil_sublist _⟩

theorem Deduped.of_seenIds_eq (h : Deduped serde name accepted appended topic) {topic' : TopicState}
    (hseen : topic'.seenIds = topic.seenIds) (hlog : topic.messages <+: topic'.messages) :
    Deduped serde name accepted appended topic' where
  stores := h.stores
  seen := by rw [hseen]; exact h.seen
  log := h.log.trans hlog.sublist

theorem dedupKey_eq_some {k : Text} : dedupKey m = some k ↔ clientId m ≠ [] ∧ clientId m = k := by
  unfold dedupKey
  split
  · rename_i hc
    simp [hc]
  · rename_i hc
    simp [hc]

/-- A message repeats the accepted ones exactly if its id has been seen. -/
theorem Deduped.repeats_iff (h : Deduped serde name accepted appended topic) :
    Repeats dedupKey accepted m ↔
      (if clientId m = [] then none else topic.seenIds[clientId m]?) = some (clientId m) := by
  constructor
  · rintro ⟨k, hk, m', hm', hkey⟩
    obtain ⟨hc, rfl⟩ := dedupKey_eq_some.mp hk
    rw [if_neg hc]
    exact (h.seen _ _).mpr ⟨rfl, m', hm', hkey⟩
  · intro hseen
    split at hseen
    · cases hseen
    · rename_i hc
      obtain ⟨-, m', hm', hkey⟩ := (h.seen _ _).mp hseen
      exact ⟨_, dedupKey_eq_some.mpr ⟨hc, rfl⟩, m', hm', hkey⟩

/-- What has been seen after one more message. -/
theorem Deduped.seen_concat (h : Deduped serde name accepted appended topic) (k id : Text) :
    (if clientId m = [] then topic.seenIds
      else topic.seenIds.insert (clientId m) (clientId m))[k]? =
        some id ↔
      id = k ∧ ∃ m' ∈ accepted ++ [m], dedupKey m' = some k := by
  have hmem : (∃ m' ∈ accepted ++ [m], dedupKey m' = some k) ↔
      (∃ m' ∈ accepted, dedupKey m' = some k) ∨ dedupKey m = some k := by
    simp only [List.mem_append, List.mem_singleton, or_and_right, exists_or, exists_eq_left]
  rw [hmem, dedupKey_eq_some]
  split
  · rename_i hc
    rw [h.seen]
    simp [hc]
  · rename_i hc
    rcases eq_or_ne (clientId m) k with rfl | hk
    · rw [Std.ExtTreeMap.getElem?_insert_self]
      simp [hc, eq_comm]
    · rw [getElem?_insert_of_ne hk, h.seen]
      simp [hk]

/-- **One message of a batch.** -/
theorem Deduped.publishMessage (env : Env)
    (h : Deduped serde name accepted appended p.topicState) :
    ∃ new id, (publishMessage serde env name p m).topicState.messages =
        p.topicState.messages ++ new ∧
      (publishMessage serde env name p m).ids = p.ids ++ [id] ∧
      Deduped serde name (accepted ++ [m]) (appended ++ new)
        (publishMessage serde env name p m).topicState ∧
      Answered serde name [m] [id] new := by
  have hrep := h.repeats_iff (m := m)
  have hseen := h.seen_concat (m := m)
  unfold Memory.publishMessage
  dsimp only
  rw [clientId_enrich]
  rcases hmatch : if clientId m = [] then none else p.topicState.seenIds[clientId m]? with
    - | existing
  · -- the message is stored
    rw [hmatch] at hrep
    have hno : ¬Repeats dedupKey accepted m := fun hr => nomatch hrep.mp hr
    obtain ⟨hdata, hkey, -⟩ := enrichMessage_frame serde name m
    set id := if clientId m = [] then (env.uuid p.draws).text else clientId m with hid
    set stored : RelayMessage :=
      ⟨id, (enrichMessage serde name m).data, (enrichMessage serde name m).attributes,
        (enrichMessage serde name m).orderingKey, env.now 0⟩ with hr
    have hstores : Stores serde name m stored := by
      refine ⟨hdata, hkey, rfl, ?_⟩
      split
      · rename_i hc
        exact ⟨env.uuid p.draws, by rw [hr, hid, if_pos hc]⟩
      · rename_i hc
        rw [hr, hid, if_neg hc]
    have hself : (if clientId m = [] then p.topicState.seenIds
        else p.topicState.seenIds.insert (clientId m) id) =
        if clientId m = [] then p.topicState.seenIds
        else p.topicState.seenIds.insert (clientId m) (clientId m) := by
      split
      · rfl
      · rename_i hc
        rw [hid, if_neg hc]
    refine ⟨[stored], id, rfl, rfl, ⟨?_, fun k id' => ?_, ?_⟩, .stored hstores .nil⟩
    · rw [firsts_concat, if_neg hno]
      exact List.rel_append h.stores (.cons hstores .nil)
    · rw [hself]
      exact hseen k id'
    · exact h.log.append (List.Sublist.refl _)
  · -- its id has been seen, and stands for itself
    have hc : clientId m ≠ [] := by
      rintro hc
      rw [if_pos hc] at hmatch
      cases hmatch
    rw [if_neg hc] at hmatch
    obtain ⟨rfl, m', hm', hkey⟩ := (h.seen _ _).mp hmatch
    have hr : Repeats dedupKey accepted m := ⟨_, dedupKey_eq_some.mpr ⟨hc, rfl⟩, m', hm', hkey⟩
    refine ⟨[], clientId m, (List.append_nil _).symm, rfl, ⟨?_, fun k id' => ?_, ?_⟩,
      .dropped hc .nil⟩
    · rw [firsts_concat, if_pos hr, List.append_nil]
      exact h.stores
    · rw [h.seen]
      refine and_congr_right fun _ => ⟨fun ⟨b, hb, hk⟩ => ⟨b, List.mem_append_left _ hb, hk⟩, ?_⟩
      rintro ⟨b, hb, hk⟩
      rcases List.mem_append.mp hb with hb | hb
      · exact ⟨b, hb, hk⟩
      · obtain rfl := List.mem_singleton.mp hb
        exact ⟨m', hm', hkey.trans ((dedupKey_eq_some.mpr ⟨hc, rfl⟩).symm.trans hk)⟩
    · rw [List.append_nil]
      exact h.log

/-- **A batch.** -/
theorem Deduped.batch (env : Env) (messages : List NewMessage) :
    ∀ {accepted appended p}, Deduped serde name accepted appended p.topicState →
      ∃ new ids, (messages.foldl (Memory.publishMessage serde env name) p).topicState.messages =
          p.topicState.messages ++ new ∧
        (messages.foldl (Memory.publishMessage serde env name) p).ids = p.ids ++ ids ∧
        Deduped serde name (accepted ++ messages) (appended ++ new)
          (messages.foldl (Memory.publishMessage serde env name) p).topicState ∧
        Answered serde name messages ids new := by
  induction messages with
  | nil =>
    intro accepted appended p h
    exact ⟨[], [], by simp, by simp, by simpa using h, .nil⟩
  | cons m messages ih =>
    intro accepted appended p h
    obtain ⟨new, id, hlog, hids, hnext, hanswer⟩ := Deduped.publishMessage (m := m) env h
    obtain ⟨new', ids, hlog', hids', hlast, hanswers⟩ := ih hnext
    refine ⟨new ++ new', id :: ids, ?_, ?_, ?_, hanswer.append hanswers⟩
    · rw [List.foldl_cons, hlog', hlog, List.append_assoc]
    · rw [List.foldl_cons, hids', hids, List.append_assoc, List.singleton_append]
    · simpa using hlast

end Publish

/-! ### Runs -/

section Runs

variable (serde : SerdeJson) (name : Text)

/-- The messages of a topic; none if there is no topic. -/
def State.log (st : State) (name : Text) : List RelayMessage :=
  (st.topics[name]?.map TopicState.messages).getD []

/-- The batch a step publishes to the topic `name`; none if the step is no publish,
or is refused by the schema. -/
def acceptedBy (st : State) (s : Step) : List NewMessage :=
  match s.call, st.topics[name]? with
  | .publish topic messages, some t =>
    if topic = name then
      match checkSchema serde st t messages with
      | .ok () => messages
      | .error _ => []
    else []
  | _, _ => []

/-- What a step appends to the topic `name` as a publish. -/
def appendedBy (st : State) (s : Step) : List RelayMessage :=
  match s.call with
  | .publish topic _ =>
    if topic = name then ((exec serde st s).log name).drop (st.log name).length else []
  | _ => []

/-- **A store, with what has been published to one topic**, and what that appended. -/
structure Published where
  state : State
  accepted : List NewMessage := []
  appended : List RelayMessage := []

def Published.step (w : Published) (s : Step) : Published where
  state := exec serde w.state s
  accepted := w.accepted ++ acceptedBy serde name w.state s
  appended := w.appended ++ appendedBy serde name w.state s

variable {serde name} {w : Published} {s : Step}

theorem acceptedBy_of_ne {st : State} (h : ∀ messages, s.call ≠ .publish name messages) :
    acceptedBy serde name st s = [] := by
  unfold acceptedBy
  split
  · rename_i topic messages t hcall _
    exact if_neg fun hn => h messages (by rw [hcall, hn])
  · rfl

theorem appendedBy_of_ne {st : State} (h : ∀ messages, s.call ≠ .publish name messages) :
    appendedBy serde name st s = [] := by
  unfold appendedBy
  split
  · rename_i topic messages hcall
    exact if_neg fun hn => h messages (by rw [hcall, hn])
  · rfl

/-- A batch that passes the schema is accepted. -/
theorem acceptedBy_of_checkSchema {st : State} {topic : TopicState} {messages : List NewMessage}
    (hc : s.call = .publish name messages) (ht : st.topics[name]? = some topic)
    (h : checkSchema serde st topic messages = .ok ()) : acceptedBy serde name st s = messages := by
  unfold acceptedBy
  rw [hc, ht]
  dsimp only
  rw [if_pos rfl, h]

/-- A batch is accepted as a whole. -/
theorem acceptedBy_eq_or_nil {st : State} {messages : List NewMessage}
    (hc : s.call = .publish name messages) :
    acceptedBy serde name st s = messages ∨ acceptedBy serde name st s = [] := by
  unfold acceptedBy
  rw [hc]
  split
  · rename_i topic messages' t hcall _
    obtain ⟨rfl, rfl⟩ := BackendCall.publish.inj hcall
    rw [if_pos rfl]
    split
    · exact .inl rfl
    · exact .inr rfl
  · exact .inr rfl

/-- A batch that does not is not. -/
theorem acceptedBy_of_refused {st : State}
    (h : ∀ messages t, s.call = .publish name messages → st.topics[name]? = some t →
      checkSchema serde st t messages ≠ .ok ()) : acceptedBy serde name st s = [] := by
  unfold acceptedBy
  split
  · rename_i topic messages t hcall ht
    split
    · rename_i hn
      subst hn
      split
      · rename_i hok
        exact absurd hok (h messages t hcall ht)
      · rfl
    · rfl
  · rfl

theorem appendedBy_of_log {st : State} {messages : List NewMessage} {new : List RelayMessage}
    (hc : s.call = .publish name messages)
    (h : (exec serde st s).log name = st.log name ++ new) : appendedBy serde name st s = new := by
  unfold appendedBy
  rw [hc]
  dsimp only
  rw [if_pos rfl, h, List.drop_left]

/-- A step that leaves the topic alone appends nothing to it. -/
theorem appendedBy_of_log_eq {st : State} (h : (exec serde st s).log name = st.log name) :
    appendedBy serde name st s = [] := by
  unfold appendedBy
  split
  · split
    · rw [h, List.drop_length]
    · rfl
  · rfl

theorem State.log_of_getElem? {st : State} {topic : TopicState}
    (h : st.topics[name]? = some topic) :
    st.log name = topic.messages := by
  unfold State.log
  rw [h]
  rfl

/-- **A log grows** as long as its topic is not deleted. -/
theorem log_of_exec {st : State} (hs : s.call ≠ .deleteTopic name) :
    st.log name <+: (exec serde st s).log name := by
  have htouch := topicTouch_of_exec name st s serde
  unfold State.log
  generalize st.topics[name]? = t at htouch ⊢
  generalize (exec serde st s).topics[name]? = t' at htouch ⊢
  cases htouch with
  | grown hg =>
    cases hg with
    | absent => exact List.prefix_refl _
    | grown hp => exact hp
  | create => exact List.nil_prefix
  | delete hc => exact absurd hc hs

/-- What is known of a topic that may not exist yet. -/
def Tracked (serde : SerdeJson) (name : Text) (w : Published) : Option TopicState → Prop
  | none => w.accepted = [] ∧ w.appended = []
  | some topic => Deduped serde name w.accepted w.appended topic

/-- What has been appended is in the log. -/
theorem Tracked.sublist (h : Tracked serde name w w.state.topics[name]?) :
    w.appended.Sublist (w.state.log name) := by
  generalize ht : w.state.topics[name]? = t at h
  cases t with
  | none =>
    obtain ⟨-, happended⟩ := h
    rw [happended]
    exact List.nil_sublist _
  | some topic =>
    rw [State.log_of_getElem? ht]
    exact Deduped.log h

/-- **The first occurrences have been stored.** -/
theorem Tracked.stores {t : Option TopicState} (h : Tracked serde name w t) :
    List.Forall₂ (Stores serde name) (firsts dedupKey w.accepted) w.appended := by
  cases t with
  | none =>
    obtain ⟨haccepted, happended⟩ := h
    rw [haccepted, happended]
    exact .nil
  | some topic => exact Deduped.stores h

/-- A topic that keeps the ids it has seen, and its messages. -/
theorem Tracked.of_lengthened {t t' : Option TopicState} (h : Tracked serde name w t)
    (ht : Lengthened t t') : Tracked serde name w t' := by
  cases ht with
  | absent => exact h
  | more topic new =>
    exact Deduped.of_seenIds_eq h rfl (List.prefix_append _ _)

/-- **A step keeps track**, unless it deletes the topic. -/
theorem Tracked.step (h : Tracked serde name w w.state.topics[name]?)
    (hs : s.call ≠ .deleteTopic name) :
    Tracked serde name (w.step serde name s) (w.step serde name s).state.topics[name]? := by
  have hstep := topicStep_of_exec serde name w.state s
  have hlog : ∀ {st : State} {topic : TopicState}, st.topics[name]? = some topic →
    st.log name = topic.messages := State.log_of_getElem?
  generalize hb : w.state.topics[name]? = before at h hstep
  unfold Published.step
  dsimp only
  generalize ha : (exec serde w.state s).topics[name]? = after at hstep
  -- a step that does not publish to the topic neither accepts nor appends anything
  have quiet : (∀ messages, s.call ≠ .publish name messages) → Tracked serde name w after →
      Tracked serde name
        ⟨exec serde w.state s, w.accepted ++ acceptedBy serde name w.state s,
          w.appended ++ appendedBy serde name w.state s⟩ after := by
    intro hc hafter
    rw [acceptedBy_of_ne hc, appendedBy_of_ne hc, List.append_nil, List.append_nil]
    exact hafter
  cases hstep with
  | same _ hrefused =>
    have heq : (exec serde w.state s).log name = w.state.log name := by
      unfold State.log
      rw [ha, hb]
    rw [acceptedBy_of_refused fun messages t hc ht => hrefused messages t hc (hb ▸ ht),
      appendedBy_of_log_eq heq, List.append_nil, List.append_nil]
    exact h
  | create hc hn =>
    refine quiet (by simp [hc]) ?_
    obtain ⟨haccepted, happended⟩ := h
    unfold Tracked
    rw [haccepted, happended]
    exact deduped_created _
  | delete hc => exact absurd hc hs
  | respec hc hn =>
    exact quiet (by simp [hc]) (Deduped.of_seenIds_eq h rfl (List.prefix_refl _))
  | publish hc hok =>
    obtain ⟨new, ids, hmessages, -, hd, -⟩ :=
      Deduped.batch s.env _ (p := ⟨_, [], 0⟩) h
    rw [acceptedBy_of_checkSchema hc hb hok,
      appendedBy_of_log hc ((hlog ha).trans (hmessages.trans (by rw [hlog hb])))]
    exact hd
  | pull hc hl => exact quiet (by simp [hc]) (h.of_lengthened hl)

/-- **A run keeps track** of a topic that is not deleted. -/
theorem Tracked.run {steps : List Step} (hkeep : ∀ s ∈ steps, s.call ≠ .deleteTopic name)
    (h : Tracked serde name w w.state.topics[name]?) :
    Tracked serde name (Machine.run (Published.step serde name) w steps)
      (Machine.run (Published.step serde name) w steps).state.topics[name]? :=
  (Machine.always_of_step (P := fun w => Tracked serde name w w.state.topics[name]?) h
    fun _ s hs ht => Tracked.step ht (hkeep s hs)).last

end Runs

/-! ### The answers -/

section Ids

variable {serde : SerdeJson} {name : Text} {st : State} {env : Env} {messages : List NewMessage}
  {ids : List Text}

/-- A publish that succeeds. -/
theorem publish_ok (h : (publish serde env st name messages).1 = .ok ids) :
    ∃ topic, st.topics[name]? = some topic ∧ checkSchema serde st topic messages = .ok () ∧
      (topic.publish serde env name messages).ids = ids := by
  unfold publish at h
  split at h
  · cases h
  rename_i topic htopic
  split at h
  · cases h
  rename_i hcheck
  refine ⟨topic, htopic, hcheck, ?_⟩
  unfold answer at h
  split at h
  · exact Except.ok.inj h
  · cases h

/-- **The ids of a successful publish**, one for each message. -/
theorem answers_of_publish {w : Published} (htracked : Tracked serde name w w.state.topics[name]?)
    (h : (publish serde env w.state name messages).1 = .ok ids) :
    acceptedBy serde name w.state ⟨.publish name messages, env⟩ = messages ∧
      Answered serde name messages ids
        (appendedBy serde name w.state ⟨.publish name messages, env⟩) := by
  obtain ⟨topic, htopic, hcheck, hids⟩ := publish_ok h
  rw [htopic] at htracked
  obtain ⟨new, ids', hmessages, hids', -, hanswers⟩ :=
    Deduped.batch env messages (p := ⟨topic, [], 0⟩) htracked
  have hafter : (exec serde w.state ⟨.publish name messages, env⟩).topics[name]? =
      some (topic.publish serde env name messages).topicState := by
    unfold exec publish
    dsimp only
    rw [htopic]
    dsimp only
    rw [hcheck]
    dsimp only
    rw [answer_snd, Std.ExtTreeMap.getElem?_insert_self]
    rfl
  have haccepted : acceptedBy serde name w.state ⟨.publish name messages, env⟩ = messages :=
    acceptedBy_of_checkSchema rfl htopic hcheck
  refine ⟨haccepted, ?_⟩
  have hlog := (State.log_of_getElem? hafter).trans hmessages
  rw [← State.log_of_getElem? htopic] at hlog
  rw [appendedBy_of_log rfl hlog, ← hids]
  have heq : (topic.publish serde env name messages).ids = ids' := hids'
  rwa [heq]

end Ids

/-! ### One batch or two -/

/-- **The same message, up to its time** and to a random identifier. -/
structure Alike (r r' : RelayMessage) : Prop where
  data : r.data = r'.data
  attributes : r.attributes = r'.attributes
  orderingKey : r.orderingKey = r'.orderingKey
  id : r.id = r'.id ∨ ∃ u u' : Uuid, r.id = u.text ∧ r'.id = u'.text

instance : Std.Refl Alike := ⟨fun _ => ⟨rfl, rfl, rfl, .inl rfl⟩⟩

section Split

variable {serde : SerdeJson} {name : Text} {m : NewMessage} {r r' : RelayMessage}

theorem Stores.alike (h : Stores serde name m r) (h' : Stores serde name m r') : Alike r r' where
  data := h.data.trans h'.data.symm
  attributes := h.attributes.trans h'.attributes.symm
  orderingKey := h.orderingKey.trans h'.orderingKey.symm
  id := by
    have hid := h.id
    have hid' := h'.id
    split at hid
    · rename_i hc
      rw [if_pos hc] at hid'
      obtain ⟨u, hu⟩ := hid
      obtain ⟨u', hu'⟩ := hid'
      exact .inr ⟨u, u', hu, hu'⟩
    · rename_i hc
      rw [if_neg hc] at hid'
      exact .inl (hid.trans hid'.symm)

/-- What two batches append to one topic, if they are the same messages. -/
theorem Deduped.alike {accepted : List NewMessage} {appended new new' : List RelayMessage}
    {topic topic' : TopicState} (h : Deduped serde name accepted (appended ++ new) topic)
    (h' : Deduped serde name accepted (appended ++ new') topic') : List.Forall₂ Alike new new' :=
  forall₂_of_common (fun _ _ _ hr hr' => hr.alike hr')
    (List.forall₂_drop_append _ _ _ h.stores) (List.forall₂_drop_append _ _ _ h'.stores)

variable {st : State} {topic : TopicState}

/-- The schema of a topic is checked message by message. -/
theorem checkSchema_append {st' : State} {topic' : TopicState} (hschemas : st'.schemas = st.schemas)
    (hspec : topic'.spec = topic.spec) (xs ys : List NewMessage) :
    checkSchema serde st topic (xs ++ ys) = .ok () ↔
      checkSchema serde st topic xs = .ok () ∧ checkSchema serde st' topic' ys = .ok () := by
  unfold checkSchema
  rw [hschemas, hspec]
  split
  · simp
  split
  · simp
  · simp only [forM_eq_ok, List.forall_mem_append]

/-- **One batch or two**: the logs are those of the same messages. -/
theorem publish_append {w : Published} {env env₁ env₂ : Env} {xs ys : List NewMessage}
    (htracked : Tracked serde name w w.state.topics[name]?)
    (ht : w.state.topics[name]? = some topic)
    (h : checkSchema serde w.state topic (xs ++ ys) = .ok ()) :
    List.Forall₂ Alike ((publish serde env w.state name (xs ++ ys)).2.log name)
      ((publish serde env₂ (publish serde env₁ w.state name xs).2 name ys).2.log name) := by
  rw [ht] at htracked
  have hxs : checkSchema serde w.state topic xs = .ok () ∧
      checkSchema serde w.state topic ys = .ok () :=
    (checkSchema_append rfl rfl xs ys).mp h
  set first := topic.publish serde env₁ name xs with hfirst
  have hst₁ := publish_snd env₁ ht hxs.1
  have ht₁ : (publish serde env₁ w.state name xs).2.topics[name]? = some first.topicState := by
    rw [hst₁, Std.ExtTreeMap.getElem?_insert_self]
  have hys : checkSchema serde (publish serde env₁ w.state name xs).2 first.topicState ys =
      .ok () := by
    refine ((checkSchema_append ?_ ?_ xs ys).mp h).2
    · rw [hst₁]
    · exact publish_spec env₁ xs _
  -- what the one batch appends, and what the two append
  obtain ⟨new, _, hlog, -, hd, -⟩ := Deduped.batch env (xs ++ ys) (p := ⟨topic, [], 0⟩)
    htracked
  obtain ⟨new₁, _, hlog₁, -, hd₁, -⟩ := Deduped.batch env₁ xs (p := ⟨topic, [], 0⟩) htracked
  obtain ⟨new₂, _, hlog₂, -, hd₂, -⟩ := Deduped.batch env₂ ys
    (p := ⟨first.topicState, [], 0⟩) hd₁
  have hone : (publish serde env w.state name (xs ++ ys)).2.log name = topic.messages ++ new := by
    rw [publish_snd _ ht h]
    exact (State.log_of_getElem? Std.ExtTreeMap.getElem?_insert_self).trans hlog
  have htwo : (publish serde env₂ (publish serde env₁ w.state name xs).2 name ys).2.log name =
      topic.messages ++ (new₁ ++ new₂) := by
    rw [publish_snd _ ht₁ hys, ← List.append_assoc]
    refine (State.log_of_getElem? Std.ExtTreeMap.getElem?_insert_self).trans (hlog₂.trans ?_)
    exact congrArg (· ++ new₂) hlog₁
  rw [hone, htwo]
  rw [List.append_assoc, List.append_assoc] at hd₂
  exact List.rel_append (List.forall₂_refl _) (hd.alike hd₂)

end Split

/-! ### The statement -/

/-- **Publish deduplication.** Along any run that does not delete the topic, from
the time it is created: what the publishes have appended is, message by message,
the first occurrences of what they have accepted; of a publisher's id the first
message is stored and no other, and of the messages without one, all. A publish that
succeeds answers an id for each of its messages, in order: that of the message stored
for it, or its own, which is the same where it has one. And it does not matter if a batch
is cut in two. -/
theorem publish_dedups (serde : SerdeJson) (name : Text) {st : State}
    (hnew : st.topics[name]? = none) (steps : List Step)
    (hkeep : ∀ s ∈ steps, s.call ≠ .deleteTopic name) :
    let w := Machine.run (Published.step serde name) { state := st } steps
    (List.Forall₂ (Stores serde name) (firsts dedupKey w.accepted) w.appended ∧
      w.appended.Sublist (w.state.log name)) ∧
    ((firsts dedupKey w.accepted).Sublist w.accepted ∧
      (∀ k, (firsts dedupKey w.accepted).filter (fun m => decide (dedupKey m = some k)) =
        (w.accepted.filter fun m => decide (dedupKey m = some k)).head?.toList) ∧
      (firsts dedupKey w.accepted).filter (fun m => decide (dedupKey m = none)) =
        w.accepted.filter fun m => decide (dedupKey m = none)) ∧
    (∀ env messages ids, (publish serde env w.state name messages).1 = .ok ids →
      acceptedBy serde name w.state ⟨.publish name messages, env⟩ = messages ∧
      Answered serde name messages ids
        (appendedBy serde name w.state ⟨.publish name messages, env⟩) ∧
      List.Forall₂ (fun m id => clientId m ≠ [] → id = clientId m) messages ids) ∧
    ∀ env env₁ env₂ xs ys,
      ((∃ ids, (publish serde env w.state name (xs ++ ys)).1 = .ok ids) ∨
        ∃ ids₁ ids₂, (publish serde env₁ w.state name xs).1 = .ok ids₁ ∧
          (publish serde env₂ (publish serde env₁ w.state name xs).2 name ys).1 = .ok ids₂) →
      List.Forall₂ Alike ((publish serde env w.state name (xs ++ ys)).2.log name)
        ((publish serde env₂ (publish serde env₁ w.state name xs).2 name ys).2.log name) := by
  intro w
  have htracked : Tracked serde name w w.state.topics[name]? := by
    refine Tracked.run hkeep ?_
    rw [hnew]
    exact ⟨rfl, rfl⟩
  refine ⟨⟨htracked.stores, htracked.sublist⟩,
    ⟨firsts_sublist _, firsts_filter _, firsts_filter_none _⟩, ?_, ?_⟩
  · intro env messages ids h
    obtain ⟨haccepted, hanswered⟩ := answers_of_publish htracked h
    exact ⟨haccepted, hanswered, hanswered.keyed⟩
  · intro env env₁ env₂ xs ys hok
    -- the schema accepts a batch exactly if it accepts both parts
    rcases hok with ⟨ids, hok⟩ | ⟨ids₁, ids₂, hok₁, hok₂⟩
    · obtain ⟨topic, ht, hcheck, -⟩ := publish_ok hok
      exact publish_append htracked ht hcheck
    · obtain ⟨topic, ht, hcheck, -⟩ := publish_ok hok₁
      obtain ⟨topic', ht', hcheck', -⟩ := publish_ok hok₂
      rw [publish_snd _ ht hcheck, Std.ExtTreeMap.getElem?_insert_self] at ht'
      obtain rfl := Option.some.inj ht'
      refine publish_append htracked ht ((checkSchema_append ?_ ?_ xs ys).mpr ⟨hcheck, hcheck'⟩)
      · rw [publish_snd _ ht hcheck]
      · exact publish_spec env₁ xs _

/-- A topic is created, and two messages with one id are published to it. -/
def sampleRepeat : List Step :=
  [Step.numbered (0, .createTopic sampleTopic) 0,
    Step.numbered (1, .publish sampleTopic.name
      [{ sampleMessage [] with data := [1], messageId := "k" },
        { sampleMessage [] with data := [2], messageId := "k" }]) 1]

/-- Only the first of them is stored. -/
theorem sampleRepeat_appended :
    (Machine.run (Published.step noJson sampleTopic.name) { state := {} }
      sampleRepeat).appended.map RelayMessage.data = [[1]] := by
  have hnew : ({} : State).topics[sampleTopic.name]? = none := rfl
  obtain ⟨⟨hstores, -⟩, -⟩ := publish_dedups noJson sampleTopic.name hnew sampleRepeat
    (by simp [sampleRepeat, Step.numbered])
  have hdata := List.forall₂_map_left_iff.mpr (List.forall₂_map_right_iff.mpr
    (hstores.imp fun _ _ h => h.data.symm))
  rw [List.forall₂_eq_eq_eq] at hdata
  exact hdata.symm.trans (by decide +kernel)

end RelayPubsub.Memory
