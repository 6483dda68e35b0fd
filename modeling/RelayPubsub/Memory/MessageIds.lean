import RelayPubsub.Memory.Dedup
import RelayPubsub.Memory.Lease

/-!
# The ids of messages

A message gets its id from its publisher, who may choose any, or from the server, who
draws it at random when a message is published without one, and for every dead
letter. The index a topic deduplicates by has the first kind only. So ids are unique
within a topic as long as no publisher comes with an id that the server has drawn
(`RelayPubsub.Memory.KeysUnused`), and not longer
(`RelayPubsub.Memory.ids_unique_iff`):

| what appends | the id | in the index |
|---|---|---|
| `publish`, with a key | the key | yes |
| `publish`, without | random | no |
| a dead letter | random | no |
-/

namespace RelayPubsub.Memory

open Lib

/-- The ids of the messages of a topic. -/
def TopicState.messageIds (topic : TopicState) : List Text := topic.messages.map (·.id)

/-- The index has every key for itself. -/
def SeenSelf (topic : TopicState) : Prop :=
  ∀ ⦃k id : Text⦄, topic.seenIds[k]? = some id → id = k

/-- **The ids of a topic are in order**: no two of its messages have the same. -/
structure DistinctIds (topic : TopicState) : Prop where
  nodup : topic.messageIds.Nodup
  seen : SeenSelf topic

/-! ### Publishing a message -/

section Publish

variable {serde : SerdeJson} {env : Env} {name : Text} {p p' : Publishing} {m : NewMessage}

/-- **What publishing a message comes to.** -/
inductive Published₁ (env : Env) (p : Publishing) (m : NewMessage) : Publishing → Prop
  /-- Its key has been seen: nothing is appended. -/
  | repeated {existing : Text} : clientId m ≠ [] →
      p.topicState.seenIds[clientId m]? = some existing →
      Published₁ env p m { p with ids := p.ids ++ [existing] }
  /-- It is appended under its key. -/
  | keyed {stored : RelayMessage} : clientId m ≠ [] → clientId m ∉ p.topicState.seenIds →
      stored.id = clientId m →
      Published₁ env p m
        { p with
          topicState := { p.topicState with
            messages := p.topicState.messages ++ [stored]
            seenIds := p.topicState.seenIds.insert (clientId m) (clientId m) }
          ids := p.ids ++ [clientId m] }
  /-- It is appended under a random id. -/
  | unkeyed {stored : RelayMessage} : clientId m = [] → stored.id = (env.uuid p.draws).text →
      Published₁ env p m
        { topicState := { p.topicState with messages := p.topicState.messages ++ [stored] }
          ids := p.ids ++ [(env.uuid p.draws).text]
          draws := p.draws + 1 }

variable (serde env name) in
theorem published₁_publishMessage (p : Publishing) (m : NewMessage) :
    Published₁ env p m (publishMessage serde env name p m) := by
  unfold publishMessage
  dsimp only
  rw [clientId_enrich]
  by_cases hc : clientId m = []
  · simp only [if_pos hc]
    exact .unkeyed hc rfl
  · simp only [if_neg hc]
    cases hseen : p.topicState.seenIds[clientId m]? with
    | some existing => exact .repeated hc hseen
    | none => exact .keyed hc (by simpa using hseen) rfl

variable {messages : List NewMessage}

variable (env messages) in
/-- **A batch on its way**, whose random ids are new. -/
structure KeepsDistinct (p : Publishing) : Prop where
  distinct : DistinctIds p.topicState
  /-- A key of the batch that is the id of a message is in the index. -/
  keyed : ∀ m ∈ messages, clientId m ≠ [] → clientId m ∈ p.topicState.messageIds →
    clientId m ∈ p.topicState.seenIds
  undrawn : ∀ n, p.draws ≤ n → (env.uuid n).text ∉ p.topicState.messageIds

/-- Appending what is absent. -/
theorem nodup_messageIds_concat {topic : TopicState} (h : topic.messageIds.Nodup)
    {stored : RelayMessage} (hnew : stored.id ∉ topic.messageIds) :
    ((topic.messages ++ [stored]).map (·.id)).Nodup := by
  rw [List.map_append, List.map_singleton, List.nodup_append]
  refine ⟨h, List.nodup_singleton _, fun a ha b hb hab => ?_⟩
  exact hnew (List.mem_singleton.mp hb ▸ hab ▸ ha)

theorem KeepsDistinct.step (h : KeepsDistinct env messages p) (hm : m ∈ messages)
    (hfresh : ∀ n, ∀ m ∈ messages, clientId m ≠ (env.uuid n).text)
    (hp : Published₁ env p m p') : KeepsDistinct env messages p' := by
  obtain ⟨⟨hnodup, hseen⟩, hkeyed, hundrawn⟩ := h
  have hconcat : ∀ (stored : RelayMessage) (id : Text),
      id ∈ (p.topicState.messages ++ [stored]).map (·.id) →
      id ∈ p.topicState.messageIds ∨ id = stored.id := by
    intro stored id hid
    rw [List.map_append, List.map_singleton] at hid
    exact (List.mem_append.mp hid).imp_right List.mem_singleton.mp
  cases hp with
  | repeated _ _ => exact ⟨⟨hnodup, hseen⟩, hkeyed, hundrawn⟩
  | @keyed stored hc hnot hstored =>
    have hnew : stored.id ∉ p.topicState.messageIds := fun hid =>
      hnot (hkeyed m hm hc (hstored ▸ hid))
    refine ⟨⟨nodup_messageIds_concat hnodup hnew, fun k id hk => ?_⟩, fun m' hm' hc' hid => ?_,
      fun n hn hid => ?_⟩
    · rcases eq_or_ne (clientId m) k with rfl | hne
      · rw [Std.ExtTreeMap.getElem?_insert_self] at hk
        exact (Option.some.inj hk).symm
      · rw [getElem?_insert_of_ne hne] at hk
        exact hseen hk
    · rw [Std.ExtTreeMap.mem_insert]
      refine (hconcat stored _ hid).elim (fun h => Or.inr (hkeyed m' hm' hc' h)) fun h => Or.inl ?_
      rw [h, hstored]
      exact Std.ReflCmp.compare_self
    · refine (hconcat stored _ hid).elim (hundrawn n hn) fun h => hfresh n m hm ?_
      rw [h, hstored]
  | @unkeyed stored hc hstored =>
    have hnew : stored.id ∉ p.topicState.messageIds := by
      rw [hstored]
      exact hundrawn _ le_rfl
    refine ⟨⟨nodup_messageIds_concat hnodup hnew, hseen⟩, fun m' hm' hc' hid => ?_,
      fun n hn hid => ?_⟩
    · refine (hconcat stored _ hid).elim (hkeyed m' hm' hc') fun h => ?_
      exact absurd (h.trans hstored) (hfresh _ m' hm')
    · have hn' : p.draws + 1 ≤ n := hn
      refine (hconcat stored _ hid).elim (hundrawn n (by omega)) fun h => ?_
      have heq := env.uuid_inj (h.trans hstored)
      omega

theorem KeepsDistinct.batch {xs : List NewMessage} (hxs : xs ⊆ messages)
    (hfresh : ∀ n, ∀ m ∈ messages, clientId m ≠ (env.uuid n).text)
    (h : KeepsDistinct env messages p) :
    KeepsDistinct env messages (xs.foldl (publishMessage serde env name) p) := by
  induction xs generalizing p with
  | nil => exact h
  | cons m xs ih =>
    obtain ⟨hm, hxs⟩ := List.cons_subset.mp hxs
    exact ih hxs (h.step hm hfresh (published₁_publishMessage serde env name p m))

variable (serde env name) in
/-- Publishing keeps the index to itself. -/
theorem SeenSelf.publishMessage (h : SeenSelf p.topicState) (m : NewMessage) :
    SeenSelf (publishMessage serde env name p m).topicState := by
  have hp := published₁_publishMessage serde env name p m
  generalize Memory.publishMessage serde env name p m = p' at hp
  cases hp with
  | repeated _ _ => exact h
  | unkeyed _ _ => exact h
  | keyed _ _ _ =>
    intro k id hk
    rcases eq_or_ne (clientId m) k with rfl | hne
    · rw [Std.ExtTreeMap.getElem?_insert_self] at hk
      exact (Option.some.inj hk).symm
    · rw [getElem?_insert_of_ne hne] at hk
      exact h hk

theorem SeenSelf.batch (h : SeenSelf p.topicState) (messages : List NewMessage) :
    SeenSelf (messages.foldl (Memory.publishMessage serde env name) p).topicState := by
  induction messages generalizing p with
  | nil => exact h
  | cons m messages ih => exact ih (h.publishMessage serde env name m)

variable (serde env name) in
/-- **The ids answered for a batch** are the keys of its messages that have one. -/
theorem SeenSelf.ids (h : SeenSelf p.topicState) (messages : List NewMessage) :
    ∃ ids, (messages.foldl (Memory.publishMessage serde env name) p).ids = p.ids ++ ids ∧
      List.Forall₂ (fun m id => clientId m ≠ [] → id = clientId m) messages ids := by
  induction messages generalizing p with
  | nil => exact ⟨[], (List.append_nil _).symm, .nil⟩
  | cons m messages ih =>
    obtain ⟨ids, hids, hall⟩ := ih (h.publishMessage serde env name m)
    have hp := published₁_publishMessage serde env name p m
    rw [List.foldl_cons]
    generalize Memory.publishMessage serde env name p m = p' at hp hids
    rw [hids]
    cases hp with
    | @repeated existing _ hexisting =>
      refine ⟨existing :: ids, by simp, .cons (fun _ => h hexisting) hall⟩
    | keyed _ _ _ => exact ⟨clientId m :: ids, by simp, .cons (fun _ => rfl) hall⟩
    | unkeyed hc _ =>
      exact ⟨(env.uuid p.draws).text :: ids, by simp, .cons (fun hne => absurd hc hne) hall⟩

end Publish

/-! ### Dead letters -/

section Pull

variable {env : Env} {subscription topicName : Text} {topicLen draws : ℕ} {p p' : Pulling}
  {name : Text} {t : Option TopicState}

/-- **Messages have been appended under random ids**, below the `draws`-th. -/
inductive Copied (env : Env) (draws : ℕ) : Option TopicState → Option TopicState → Prop
  | absent : Copied env draws none none
  | more {topic : TopicState} {new : List RelayMessage} {drawn : List ℕ} :
      new.map (·.id) = drawn.map (fun n => (env.uuid n).text) → drawn.Pairwise (· < ·) →
      (∀ n ∈ drawn, n < draws) →
      Copied env draws (some topic) (some { topic with messages := topic.messages ++ new })

theorem Copied.refl (t : Option TopicState) : Copied env draws t t := by
  cases t with
  | none => exact .absent
  | some topic =>
    have h : Copied env draws (some topic) (some { topic with messages := topic.messages ++ [] }) :=
      @Copied.more env draws topic [] [] rfl .nil (by simp)
    rwa [List.append_nil] at h

theorem Copied.mono {draws' : ℕ} (h : Copied env draws t p.topics[name]?) (hle : draws ≤ draws') :
    Copied env draws' t p.topics[name]? := by
  generalize p.topics[name]? = t' at h
  cases h with
  | absent => exact .absent
  | more hids hdrawn hlt => exact .more hids hdrawn fun n hn => (hlt n hn).trans_le hle

theorem Copied.served {index : ℕ} {message : RelayMessage}
    (h : Copied env p.draws t p.topics[name]?)
    (hs : Served env subscription p index message p') :
    Copied env p'.draws t p'.topics[name]? := by
  cases hs with
  | @dead dead deadTopic hd =>
    have hle : Copied env (p.draws + 1) t p.topics[name]? := h.mono (Nat.le_succ _)
    obtain ⟨hdead, -⟩ := exists_of_deadLetterTopic hd
    show Copied env (p.draws + 1) t (p.topics.insert dead _)[name]?
    rcases eq_or_ne dead name with rfl | hne
    · rw [Std.ExtTreeMap.getElem?_insert_self]
      rw [hdead] at h
      cases h with
      | @more topic new drawn hids hdrawn hlt =>
        dsimp only
        rw [List.append_assoc]
        refine @Copied.more env _ topic (new ++ _) (drawn ++ [p.draws]) ?_ ?_ ?_
        · rw [List.map_append, List.map_append, hids]
          rfl
        · rw [List.pairwise_append]
          refine ⟨hdrawn, List.pairwise_singleton _ _, fun n hn m hm => ?_⟩
          exact List.mem_singleton.mp hm ▸ hlt n hn
        · intro n hn
          rcases List.mem_append.mp hn with hn | hn
          · exact (hlt n hn).trans (Nat.lt_succ_self _)
          · exact List.mem_singleton.mp hn ▸ Nat.lt_succ_self _
    · rw [getElem?_insert_of_ne hne]
      exact hle
  | filtered _ => exact h
  | delivered _ => exact h.mono (draws_le_deliver (p.countAttempt index) _ _ _)

theorem Copied.turned (h : Copied env p.draws t p.topics[name]?)
    (hturn : Turned env subscription topicName topicLen p p') :
    Copied env p'.draws t p'.topics[name]? := by
  cases hturn with
  | skip _ _ | block _ _ _ _ _ => exact h
  | @serve index sub topic message _ _ _ _ _ _ _ hs =>
    have hq : Copied env ({ p with sub } : Pulling).draws t
        ({ p with sub } : Pulling).topics[name]? := h
    exact hq.served hs

theorem copied_of_turns
    (h : Relation.ReflTransGen (Turned env subscription topicName topicLen) p p') :
    Copied env p.draws t p.topics[name]? → Copied env p'.draws t p'.topics[name]? := by
  induction h with
  | refl => exact id
  | tail _ hturn ih => exact fun h => (ih h).turned hturn

/-- **A pull appends under random ids**, also when it panics. -/
theorem pull_copied (env : Env) (st : State) (subscription : Text) (maxMessages : UInt32) :
    ∃ draws, Copied env draws st.topics[name]?
      (pull env st subscription maxMessages).2.topics[name]? := by
  unfold pull
  split
  · exact ⟨0, .refl _⟩
  split
  · exact ⟨0, .refl _⟩
  split
  · rename_i p hp
    simp only [answer_snd]
    exact ⟨_, copied_of_turns (turns_of_finished hp) (.refl _)⟩
  · rename_i p hp
    obtain ⟨hturns, -⟩ := turns_of_panicked hp
    exact ⟨_, copied_of_turns hturns (.refl _)⟩

/-- Dead letters keep the ids distinct. -/
theorem DistinctIds.copied {topic topic' : TopicState} (h : DistinctIds topic)
    (hfresh : ∀ n, (env.uuid n).text ∉ topic.messageIds)
    (hcopied : Copied env draws (some topic) (some topic')) : DistinctIds topic' := by
  cases hcopied with
  | @more _ new drawn hids hdrawn _ =>
    refine ⟨?_, h.seen⟩
    show ((topic.messages ++ new).map (·.id)).Nodup
    rw [List.map_append, hids, List.nodup_append]
    refine ⟨h.nodup, ?_, fun a ha b hb hab => ?_⟩
    · refine (List.nodup_iff_pairwise_ne.mpr (hdrawn.imp ne_of_lt)).map fun m n heq => ?_
      exact env.uuid_inj heq
    · obtain ⟨n, -, rfl⟩ := List.mem_map.mp hb
      exact hfresh n (hab ▸ ha)

end Pull

/-! ### Runs -/

/-- **The random ids of a step are new**: none is the id of a message, or a key of the
batch of the call. -/
structure FreshIds (st : State) (s : Step) : Prop where
  store : ∀ n, ∀ ⦃name : Text⦄ ⦃topic : TopicState⦄, st.topics[name]? = some topic →
    (s.env.uuid n).text ∉ topic.messageIds
  batch : ∀ n, ∀ ⦃name messages⦄, s.call = .publish name messages →
    ∀ m ∈ messages, clientId m ≠ (s.env.uuid n).text

/-- **No publisher comes with an id that the server has drawn**: the keys of a batch that
are ids of messages are in the index of the topic. -/
def KeysUnused (serde : SerdeJson) (st : State) (s : Step) : Prop :=
  ∀ ⦃name messages topic⦄, s.call = .publish name messages → st.topics[name]? = some topic →
    checkSchema serde st topic messages = .ok () →
    ∀ m ∈ messages, clientId m ≠ [] → clientId m ∈ topic.messageIds → clientId m ∈ topic.seenIds

/-- **No two messages of a topic have the same id.** -/
def UniqueIds (st : State) : Prop :=
  ∀ ⦃name : Text⦄ ⦃topic : TopicState⦄, st.topics[name]? = some topic → topic.messageIds.Nodup

/-- **A message published with the id of one that is there** is answered that id, and
appends nothing. -/
def Republishes (serde : SerdeJson) (st : State) (s : Step) : Prop :=
  ∀ ⦃name messages topic⦄, s.call = .publish name messages → st.topics[name]? = some topic →
    checkSchema serde st topic messages = .ok () → ∀ xs m ys, messages = xs ++ m :: ys →
    clientId m ≠ [] →
    clientId m ∈ (topic.publish serde s.env name xs).topicState.messageIds →
    publishMessage serde s.env name (topic.publish serde s.env name xs) m =
      { topic.publish serde s.env name xs with
        ids := (topic.publish serde s.env name xs).ids ++ [clientId m] }

/-- The topics of a store have distinct ids. -/
def AllDistinct (st : State) : Prop :=
  ∀ ⦃name : Text⦄ ⦃topic : TopicState⦄, st.topics[name]? = some topic → DistinctIds topic

section Steps

variable {serde : SerdeJson} {st : State} {s : Step}

/-- The index of every topic that is reached has every key for itself. -/
theorem seenSelf_stateAfter (steps : List Step) {name : Text} {topic : TopicState}
    (ht : (stateAfter serde steps).topics[name]? = some topic) : SeenSelf topic := by
  have hrun : Machine.Always (exec serde) (fun st => ∀ ⦃topic : TopicState⦄,
      st.topics[name]? = some topic → SeenSelf topic) {} steps :=
    Machine.always_of_step (by simp) fun st s _ h topic' htopic' => by
      have hstep := topicStep_of_exec serde name st s
      generalize hbefore : st.topics[name]? = before at hstep
      rw [htopic'] at hstep
      cases hstep with
      | same _ _ => exact h hbefore
      | create _ _ => exact fun k id hk => by simp at hk
      | respec _ _ => exact fun _ _ hk => h hbefore hk
      | publish _ _ =>
        have hbatch := h hbefore
        exact SeenSelf.batch (p := { topicState := _ }) hbatch _
      | pull _ hlong =>
        cases hlong with
        | more topic new => exact fun _ _ hk => h hbefore hk
  exact hrun.last ht

/-- A batch starts out. -/
theorem keepsDistinct_start (hfresh : FreshIds st s) (hkeys : KeysUnused serde st s)
    {name : Text} {messages : List NewMessage} {topic : TopicState} (hd : DistinctIds topic)
    (hcall : s.call = .publish name messages) (ht : st.topics[name]? = some topic)
    (hcheck : checkSchema serde st topic messages = .ok ()) :
    KeepsDistinct s.env messages { topicState := topic } where
  distinct := hd
  keyed := hkeys hcall ht hcheck
  undrawn n _ := hfresh.store n ht

/-- **A step keeps the ids distinct**, if its random ids are new and its keys unused. -/
theorem AllDistinct.step (h : AllDistinct st) (hfresh : FreshIds st s)
    (hkeys : KeysUnused serde st s) : AllDistinct (exec serde st s) := by
  intro name topic' htopic'
  have hstep := topicStep_of_exec serde name st s
  generalize hbefore : st.topics[name]? = before at hstep
  rw [htopic'] at hstep
  cases hstep with
  | same _ _ => exact h hbefore
  | create _ _ => exact ⟨List.nodup_nil, fun k id hk => by simp at hk⟩
  | respec _ _ => exact ⟨(h hbefore).nodup, (h hbefore).seen⟩
  | publish hcall hcheck =>
    exact ((keepsDistinct_start hfresh hkeys (h hbefore) hcall hbefore hcheck).batch
      (List.Subset.refl _) fun n => hfresh.batch n hcall).distinct
  | @pull subscription maxMessages _ _ hcall hlong =>
    cases hlong with
    | more topic new =>
      obtain ⟨draws, hcopied⟩ : ∃ draws, Copied s.env draws st.topics[name]?
          (pull s.env st subscription maxMessages).2.topics[name]? :=
        pull_copied s.env st subscription maxMessages
      have hexec : exec serde st s = (pull s.env st subscription maxMessages).2 := by
        unfold exec
        rw [hcall]
      rw [← hexec, hbefore, htopic'] at hcopied
      exact (h hbefore).copied (fun n => hfresh.store n hbefore) hcopied

/-- **With unused keys a message is not published again.** -/
theorem republishes_of_keysUnused (h : AllDistinct st) (hfresh : FreshIds st s)
    (hkeys : KeysUnused serde st s) : Republishes serde st s := by
  rintro name messages topic hcall ht hcheck xs m ys rfl hc hid
  have hbatch : KeepsDistinct s.env (xs ++ m :: ys) (topic.publish serde s.env name xs) :=
    (keepsDistinct_start hfresh hkeys (h ht) hcall ht hcheck).batch
      (fun _ hx => List.mem_append_left _ hx) fun n => hfresh.batch n hcall
  have hm : m ∈ xs ++ m :: ys := by simp
  have hseen := hbatch.keyed m hm hc hid
  have hp := published₁_publishMessage serde s.env name
    (topic.publish serde s.env name xs) m
  generalize publishMessage serde s.env name (topic.publish serde s.env name xs) m = p' at hp
  cases hp with
  | repeated _ hexisting => rw [hbatch.distinct.seen hexisting]
  | keyed _ hnot _ => exact absurd hseen hnot
  | unkeyed hnil _ => exact absurd hnil hc

/-- What is published again leaves the index as it is, at the ids that were there before. -/
theorem seenIds_of_republishes (h : Republishes serde st s) {name : Text}
    {messages : List NewMessage} {topic : TopicState} (hcall : s.call = .publish name messages)
    (ht : st.topics[name]? = some topic) (hcheck : checkSchema serde st topic messages = .ok ())
    {k : Text} (hk : k ∈ topic.messageIds) {xs : List NewMessage} (hxs : xs <+: messages) :
    k ∈ (topic.publish serde s.env name xs).topicState.seenIds ↔ k ∈ topic.seenIds := by
  induction xs using List.reverseRecOn with
  | nil => exact Iff.rfl
  | append_singleton xs m ih =>
    have hpre : xs <+: messages := (List.prefix_append xs [m]).trans hxs
    refine Iff.trans ?_ (ih hpre)
    obtain ⟨ys, hys⟩ := hxs
    have hsplit : messages = xs ++ m :: ys := by rw [← hys]; simp
    have hagain := h hcall ht hcheck xs m ys hsplit
    have hgrow : k ∈ (topic.publish serde s.env name xs).topicState.messageIds :=
      ((publish_grows serde s.env name topic xs).map _).subset hk
    have hfold : topic.publish serde s.env name (xs ++ [m]) =
        publishMessage serde s.env name (topic.publish serde s.env name xs) m :=
      List.foldl_concat ..
    rw [hfold]
    have hp := published₁_publishMessage serde s.env name
      (topic.publish serde s.env name xs) m
    generalize publishMessage serde s.env name (topic.publish serde s.env name xs) m = p'
      at hp hagain
    cases hp with
    | repeated _ _ => exact Iff.rfl
    | unkeyed _ _ => exact Iff.rfl
    | keyed hc hnot _ =>
      have hne : clientId m ≠ k := by
        rintro rfl
        have hlength := congrArg (fun p : Publishing => p.topicState.messages.length)
          (hagain hc hgrow)
        simp at hlength
      show k ∈ Std.ExtTreeMap.insert _ _ _ ↔ _
      rw [Std.ExtTreeMap.mem_iff_isSome_getElem?, getElem?_insert_of_ne hne,
        ← Std.ExtTreeMap.mem_iff_isSome_getElem?]

theorem keysUnused_of_republishes (h : Republishes serde st s) : KeysUnused serde st s := by
  intro name messages topic hcall ht hcheck m hm hc hid
  obtain ⟨xs, ys, rfl⟩ := List.append_of_mem hm
  have hpre : xs <+: xs ++ m :: ys := List.prefix_append _ _
  have hgrow : clientId m ∈ (topic.publish serde s.env name xs).topicState.messageIds :=
    ((publish_grows serde s.env name topic xs).map _).subset hid
  refine (seenIds_of_republishes h hcall ht hcheck hid hpre).mp ?_
  have hagain := h hcall ht hcheck xs m ys rfl hc hgrow
  have hp := published₁_publishMessage serde s.env name
    (topic.publish serde s.env name xs) m
  generalize publishMessage serde s.env name (topic.publish serde s.env name xs) m = p' at hp hagain
  cases hp with
  | repeated _ hexisting =>
    rw [Std.ExtTreeMap.mem_iff_isSome_getElem?, hexisting]
    rfl
  | keyed _ _ _ =>
    have hlength := congrArg (fun p : Publishing => p.topicState.messages.length) hagain
    simp at hlength
  | unkeyed hnil _ => exact absurd hnil hc

/-- **Ids are unique, and publishing again appends nothing, exactly as long as no publisher
comes with an id that the server has drawn**, if random ids are new when they are drawn. -/
theorem ids_unique_iff (serde : SerdeJson) (steps : List Step)
    (hfresh : Machine.Guarded (exec serde) FreshIds {} steps) :
    (Machine.Always (exec serde) UniqueIds {} steps ∧
      Machine.Guarded (exec serde) (Republishes serde) {} steps) ↔
    Machine.Guarded (exec serde) (KeysUnused serde) {} steps := by
  constructor
  · rintro ⟨-, h⟩
    exact h.mono fun _ _ => keysUnused_of_republishes
  · intro h
    have hdistinct : ∀ pre, pre <+: steps →
        AllDistinct (Machine.run (exec serde) {} pre) :=
      Machine.invariant (P := fun _ st => AllDistinct st) (by simp [AllDistinct])
        fun pre s hpre hd => hd.step (hfresh pre s hpre) (h pre s hpre)
    refine ⟨fun pre hpre name topic ht => (hdistinct pre hpre ht).nodup, fun pre s hpre => ?_⟩
    exact republishes_of_keysUnused (hdistinct pre ((List.prefix_append _ _).trans hpre))
      (hfresh pre s hpre) (h pre s hpre)

end Steps

/-! ### An id that is used again -/

/-- The ids a store has, when they are few. -/
theorem messageIds_of_all {st : State} {p : Text → Bool}
    (h : (st.topics.toList.all fun entry => entry.2.messageIds.all p) = true) {name : Text}
    {topic : TopicState} (ht : st.topics[name]? = some topic) {id : Text}
    (hid : id ∈ topic.messageIds) : p id = true :=
  List.all_eq_true.mp (List.all_eq_true.mp h (name, topic)
    (Std.ExtTreeMap.mem_toList_iff_getElem?_eq_some.mpr ht)) id hid

/-- The random ids of a numbered step are none of those in a list. -/
theorem numbered_fresh {st : State} {call : Time × BackendCall} {k : ℕ} {ids : List Text}
    (hids : ∀ id ∈ ids, ∀ n, (Uuid.numbered k n).text ≠ id)
    (hstore : (st.topics.toList.all fun entry => entry.2.messageIds.all (· ∈ ids)) = true)
    (hbatch : ∀ name messages, call.2 = .publish name messages →
      ∀ m ∈ messages, clientId m ∈ ids) : FreshIds st (Step.numbered call k) where
  store n _ _ ht hid := hids _ (of_decide_eq_true (messageIds_of_all hstore ht hid)) n rfl
  batch n name messages hcall m hm heq :=
    hids _ (hbatch name messages hcall m hm) n heq.symm

theorem numbered_ne_of_notMem {k n : ℕ} {id : Text} (h : '-' ∉ id) :
    (Uuid.numbered k n).text ≠ id := by
  rintro rfl
  exact h (List.mem_append_right _ List.mem_cons_self)

/-- A message whose key is looked up in the index and the log. -/
theorem keysUnused_numbered {serde : SerdeJson} {st : State} {time : Time} {name : Text}
    {m : NewMessage} {k : ℕ}
    (h : (st.topics[name]?.all fun topic =>
      decide (clientId m ∈ topic.messageIds → clientId m ∈ topic.seenIds)) = true) :
    KeysUnused serde st (Step.numbered (time, .publish name [m]) k) := by
  intro name' messages topic hcall ht _ m' hm' _
  obtain ⟨rfl, rfl⟩ := BackendCall.publish.inj hcall
  obtain rfl := List.mem_singleton.mp hm'
  rw [ht, Option.all_some] at h
  exact of_decide_eq_true h

/-- Two messages with the key of their publisher. -/
def keyedTwice : List Step :=
  [Step.numbered (0, .createTopic sampleTopic) 0,
   Step.numbered (0, .publish sampleTopic.name
     [{ sampleMessage [] with messageId := "k" }]) 1,
   Step.numbered (0, .publish sampleTopic.name
     [{ sampleMessage [] with messageId := "k" }]) 2]

/-- It is stored once. -/
theorem keyedTwice_unique : Machine.Always (exec noJson) UniqueIds {} keyedTwice := by
  have hk : ∀ k, ∀ id ∈ ["k".toList], ∀ n, (Uuid.numbered k n).text ≠ id := by
    intro k id hid n
    obtain rfl := List.mem_singleton.mp hid
    exact numbered_ne_of_notMem (by decide)
  have hbatch : ∀ name messages, BackendCall.publish sampleTopic.name
      [{ sampleMessage [] with messageId := "k" }] = .publish name messages →
      ∀ m ∈ messages, clientId m ∈ ["k".toList] := by
    intro name messages hcall m hm
    obtain ⟨-, rfl⟩ := BackendCall.publish.inj hcall
    obtain rfl := List.mem_singleton.mp hm
    decide
  have hfresh : Machine.Guarded (exec noJson) FreshIds {} keyedTwice := by
    unfold keyedTwice
    rw [Machine.guarded_cons, Machine.guarded_cons, Machine.guarded_cons]
    refine ⟨?_, ?_, ?_, Machine.guarded_nil⟩
    · exact numbered_fresh (hk 0) (by decide +kernel) nofun
    · exact numbered_fresh (hk 1) (by decide +kernel) hbatch
    · exact numbered_fresh (hk 2) (by decide +kernel) hbatch
  refine ((ids_unique_iff noJson keyedTwice hfresh).mpr ?_).1
  unfold keyedTwice
  rw [Machine.guarded_cons, Machine.guarded_cons, Machine.guarded_cons]
  refine ⟨nofun, ?_, ?_, Machine.guarded_nil⟩
  · exact keysUnused_numbered (by decide +kernel)
  · exact keysUnused_numbered (by decide +kernel)

/-- A message is published without a key, and another one with the id it was given as
its key. -/
def idUsedAgain : List Step :=
  [Step.numbered (0, .createTopic sampleTopic) 0,
   Step.numbered (0, .publish sampleTopic.name [sampleMessage []]) 1,
   Step.numbered (0, .publish sampleTopic.name
     [{ sampleMessage [] with messageId := (Uuid.numbered 1 0).text }]) 2]

/-- **There are two messages with one id then**, though the random ids are new. -/
theorem idUsedAgain_twice : Machine.Guarded (exec noJson) FreshIds {} idUsedAgain ∧
    ¬Machine.Always (exec noJson) UniqueIds {} idUsedAgain := by
  refine ⟨?_, fun h => ?_⟩
  · have hone : ∀ id ∈ [(Uuid.numbered 1 0).text], ∀ n, (Uuid.numbered 2 n).text ≠ id := by
      intro id hid n
      obtain rfl := List.mem_singleton.mp hid
      exact fun heq => absurd (Uuid.numbered_injective heq).1 (by decide)
    have hnil : ∀ k, ∀ id ∈ [([] : Text)], ∀ n, (Uuid.numbered k n).text ≠ id := by
      intro k id hid n
      obtain rfl := List.mem_singleton.mp hid
      exact numbered_ne_of_notMem List.not_mem_nil
    unfold idUsedAgain
    rw [Machine.guarded_cons, Machine.guarded_cons, Machine.guarded_cons]
    refine ⟨?_, ?_, ?_, Machine.guarded_nil⟩
    · exact numbered_fresh (hnil 0) (by decide +kernel) nofun
    · refine numbered_fresh (hnil 1) (by decide +kernel) fun name messages hcall m hm => ?_
      obtain ⟨-, rfl⟩ := BackendCall.publish.inj hcall
      obtain rfl := List.mem_singleton.mp hm
      decide
    · refine numbered_fresh hone (by decide +kernel) fun name messages hcall m hm => ?_
      obtain ⟨-, rfl⟩ := BackendCall.publish.inj hcall
      obtain rfl := List.mem_singleton.mp hm
      decide
  · have htwice : ((Machine.run (exec noJson) {} idUsedAgain).topics[sampleTopic.name]?.any
        fun topic => topic.messageIds = [(Uuid.numbered 1 0).text, (Uuid.numbered 1 0).text]) =
        true := by
      decide +kernel
    obtain ⟨topic, ht, hids⟩ := (Option.any_eq_true _ _).mp htwice
    have hnodup := h.last ht
    rw [of_decide_eq_true hids] at hnodup
    simp at hnodup

end RelayPubsub.Memory
