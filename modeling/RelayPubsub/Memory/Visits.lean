import RelayPubsub.Memory.PullHistory

/-!
# What a pull does with the indices it serves

A pull serves an index at most once, counts one attempt at it, and then does one
of three things with it:

| fate | the message |
|---|---|
| dead | has been delivered too often: a copy goes to the dead-letter topic |
| filtered | is rejected by the filter |
| delivered | is leased and delivered |

A dead or filtered index is acked. `RelayPubsub.Memory.Visited` says this of a
pull as a whole, whether it finishes or panics
(`RelayPubsub.Memory.exists_visited`).
-/

namespace RelayPubsub.Memory

open Lib Lib.Ledger

/-! ### Fates -/

/-- The log of the topic has the message at the index. -/
def HasMessage (topics : StrMap TopicState) (topicName : Text) (index : ℕ)
    (message : RelayMessage) : Prop :=
  ∃ topic, topics[topicName]? = some topic ∧ topic.messages[index]? = some message

theorem HasMessage.grow {topics topics' : StrMap TopicState} {topicName : Text} {index : ℕ}
    {message : RelayMessage} (h : HasMessage topics topicName index message)
    (hg : TopicsGrow topics topics') : HasMessage topics' topicName index message := by
  obtain ⟨topic, htopic, hmessage⟩ := h
  obtain ⟨topic', htopic', hgrown⟩ := hg.get htopic
  exact ⟨topic', htopic', getElem?_of_isPrefix hgrown hmessage⟩

/-- **An index whose message was moved to the dead-letter topic**, with the message
and its copy there: the copy has the data and the ordering key of the original, and
its attributes, with the source and the original id set. -/
structure DeadLetter (subscription : Text) where
  index : ℕ
  original : RelayMessage
  copy : RelayMessage
  data : copy.data = original.data
  orderingKey : copy.orderingKey = original.orderingKey
  attributes : copy.attributes =
    (original.attributes.insert "x-zyvor-dead-letter-source" subscription).insert
      "x-zyvor-original-message-id" original.id

/-- **What became of the indices a pull has served**, each with its message. -/
structure Fates (subscription : Text) where
  dead : List (DeadLetter subscription) := []
  filtered : List (ℕ × RelayMessage) := []
  delivered : List (ℕ × Delivery) := []

namespace Fates

variable {subscription : Text} (f : Fates subscription)

/-- The indices that were acked. -/
def settled : List ℕ := f.dead.map (·.index) ++ f.filtered.map Prod.fst

/-- The indices served. -/
def indices : List ℕ := f.settled ++ f.delivered.map Prod.fst

/-- The copies appended to a topic. -/
def copiesTo (spec : SubscriptionSpec) (name : Text) : List RelayMessage :=
  if spec.deadLetter.map (·.topic) = some name then f.dead.map (·.copy) else []

end Fates

/-- **The next delivery of the index would be one too many**, and the dead-letter topic
exists. -/
def Exhausted (sub : SubscriptionState) (topics : StrMap TopicState) (index : ℕ) : Prop :=
  ∃ policy, sub.spec.deadLetter = some policy ∧ policy.topic ∈ topics ∧
    clamp policy.maxDeliveryAttempts 5 100 < sub.nextAttempt index

/-- A policy allows five attempts. -/
theorem five_le_clamp (n : UInt32) : 5 ≤ clamp n 5 100 := by
  rw [UInt32.le_iff_toNat_le, toNat_clamp (by decide)]
  simp only [UInt32.reduceToNat]
  omega

/-- So it allows a first one. -/
theorem one_le_clamp (n : UInt32) : ¬clamp n 5 100 < 1 :=
  UInt32.not_lt.mpr (UInt32.le_trans (by decide) (five_le_clamp n))

/-- When there is a topic for the dead letter. -/
theorem deadLetterTopic_isSome_iff {sub : SubscriptionState} {topics : StrMap TopicState}
    {index : ℕ} :
    (deadLetterTopic sub.spec topics (sub.nextAttempt index)).isSome = true ↔
      Exhausted sub topics index := by
  unfold deadLetterTopic Exhausted
  split
  · rename_i hnone
    simp [hnone]
  · rename_i policy hpolicy
    simp only [hpolicy, Option.some.injEq, exists_eq_left']
    split_ifs with hmany
    · simp [hmany]
    · simp [hmany]

/-- **The indices served, and what became of them**, from the subscription and the
topics before to those after. -/
structure Visited {subscription : Text} (topicName : Text) (sub : SubscriptionState)
    (topics : StrMap TopicState) (f : Fates subscription) (sub' : SubscriptionState)
    (topics' : StrMap TopicState) : Prop where
  spec : sub'.spec = sub.spec
  /-- No index is served twice. -/
  nodup : f.indices.Nodup
  /-- No acked index is served. -/
  unacked : ∀ i ∈ f.indices, i ∉ sub.acked
  acked : ∀ i, i ∈ sub'.acked ↔ i ∈ sub.acked ∨ i ∈ f.settled
  /-- One attempt is counted at every index served. -/
  attempts : ∀ i, sub'.attempts[i]? =
    if i ∈ f.indices then some (sub.nextAttempt i) else sub.attempts[i]?
  leased : ∀ d ∈ f.delivered, sub'.ledger.Held d.1
  dead : ∀ d ∈ f.dead, HasMessage topics' topicName d.index d.original ∧
    Exhausted sub topics d.index
  /-- The message of a dead index was in the log before, or is a copy made earlier. -/
  origin : ∀ (k : ℕ) (d : DeadLetter subscription), f.dead[k]? = some d →
    HasMessage topics topicName d.index d.original ∨
      ∃ j < k, ∃ d', f.dead[j]? = some d' ∧ d.original = d'.copy
  filtered : ∀ d ∈ f.filtered, HasMessage topics' topicName d.1 d.2 ∧
    ¬Exhausted sub topics d.1 ∧ filterRejects sub.spec d.2 = true
  delivered : ∀ d ∈ f.delivered, HasMessage topics' topicName d.1 d.2.message ∧
    ¬Exhausted sub topics d.1 ∧ filterRejects sub.spec d.2.message = false ∧
    d.2.deliveryAttempt = sub.nextAttempt d.1
  /-- The copies are appended to the dead-letter topic, and nothing else is changed. -/
  topics : ∀ name : Text, topics'[name]? = topics[name]?.map fun topic =>
    { topic with messages := topic.messages ++ f.copiesTo sub.spec name }

section Visited

variable {subscription topicName : Text} {sub sub₁ sub₂ : SubscriptionState}
  {topics topics₁ topics₂ : StrMap TopicState} {f f' : Fates subscription} {index : ℕ}

/-- Nothing has been served. -/
theorem visited_nil (topicName : Text) (topics : StrMap TopicState)
    (hspec : sub₁.spec = sub.spec) (hacked : sub₁.acked = sub.acked)
    (hattempts : sub₁.attempts = sub.attempts) :
    Visited topicName sub topics ({} : Fates subscription) sub₁ topics := by
  have hnone : ({} : Fates subscription).indices = [] := rfl
  have hcopies : ∀ name, ({} : Fates subscription).copiesTo sub.spec name = [] := by
    intro name
    unfold Fates.copiesTo
    split_ifs <;> rfl
  constructor <;> simp [hnone, hcopies, Fates.settled, hspec, hacked, hattempts]

theorem Visited.mem_topics (h : Visited topicName sub topics f sub₁ topics₁) {name : Text} :
    name ∈ topics₁ ↔ name ∈ topics := by
  rw [Std.ExtTreeMap.mem_iff_isSome_getElem?, Std.ExtTreeMap.mem_iff_isSome_getElem?, h.topics,
    Option.isSome_map]

theorem Visited.topicsGrow (h : Visited topicName sub topics f sub₁ topics₁) :
    TopicsGrow topics topics₁ := by
  intro name
  rw [h.topics]
  cases topics[name]? with
  | none => exact .absent
  | some topic => exact .grown (List.prefix_append _ _)

/-- An index that is neither acked nor leased has not been served. -/
theorem Visited.notMem_indices (h : Visited topicName sub topics f sub₁ topics₁)
    (hacked : index ∉ sub₁.acked) (hheld : ¬sub₁.ledger.Held index) : index ∉ f.indices := by
  intro hmem
  rcases List.mem_append.mp hmem with hsettled | hdelivered
  · exact hacked ((h.acked index).mpr (Or.inr hsettled))
  · obtain ⟨d, hd, rfl⟩ := List.mem_map.mp hdelivered
    exact hheld (h.leased d hd)

theorem Visited.nextAttempt_eq (h : Visited topicName sub topics f sub₁ topics₁)
    (hnew : index ∉ f.indices) : sub₁.nextAttempt index = sub.nextAttempt index := by
  unfold SubscriptionState.nextAttempt
  rw [h.attempts, if_neg hnew]

theorem Visited.exhausted_iff (h : Visited topicName sub topics f sub₁ topics₁)
    (hnew : index ∉ f.indices) : Exhausted sub₁ topics₁ index ↔ Exhausted sub topics index := by
  unfold Exhausted
  rw [h.nextAttempt_eq hnew, h.spec]
  simp only [h.mem_topics]

/-- **Where a message of the log comes from**: it was there before, or is the copy of a
dead letter. -/
theorem Visited.origin_of_hasMessage (h : Visited topicName sub topics f sub₁ topics₁)
    {message : RelayMessage} (hmessage : HasMessage topics₁ topicName index message) :
    HasMessage topics topicName index message ∨
      ∃ j < f.dead.length, ∃ d, f.dead[j]? = some d ∧ message = d.copy := by
  obtain ⟨topic₁, htopic₁, hat⟩ := hmessage
  rw [h.topics] at htopic₁
  obtain ⟨topic, htopic, rfl⟩ := Option.map_eq_some_iff.mp htopic₁
  rcases Nat.lt_or_ge index topic.messages.length with hlt | hge
  · rw [List.getElem?_append_left hlt] at hat
    exact Or.inl ⟨topic, htopic, hat⟩
  · rw [List.getElem?_append_right hge, Fates.copiesTo] at hat
    split_ifs at hat
    · rw [List.getElem?_map] at hat
      obtain ⟨d, hd, rfl⟩ := Option.map_eq_some_iff.mp hat
      exact Or.inr ⟨_, (List.getElem?_eq_some_iff.mp hd).1, d, hd, rfl⟩
    · cases hat

/-- **One more index is served.** What is left to show is what became of it. -/
theorem Visited.serve (h : Visited topicName sub topics f sub₁ topics₁)
    (hacked : index ∉ sub₁.acked) (hheld : ¬sub₁.ledger.Held index)
    (hperm : f'.indices.Perm (index :: f.indices))
    (hattempts : sub₂.attempts = (sub₁.countAttempt index).attempts) :
    f'.indices.Nodup ∧ (∀ i ∈ f'.indices, i ∉ sub.acked) ∧
      ∀ i, sub₂.attempts[i]? =
        if i ∈ f'.indices then some (sub.nextAttempt i) else sub.attempts[i]? := by
  have hnew := h.notMem_indices hacked hheld
  refine ⟨hperm.nodup_iff.mpr (List.nodup_cons.mpr ⟨hnew, h.nodup⟩), fun i hi => ?_, fun i => ?_⟩
  · rcases List.mem_cons.mp (hperm.mem_iff.mp hi) with rfl | hi
    · exact fun hin => hacked ((h.acked i).mpr (Or.inl hin))
    · exact h.unacked i hi
  · rw [hattempts]
    simp only [SubscriptionState.countAttempt, hperm.mem_iff, List.mem_cons]
    rcases eq_or_ne index i with rfl | hne
    · rw [Std.ExtTreeMap.getElem?_insert_self, if_pos (Or.inl rfl), h.nextAttempt_eq hnew]
    · rw [getElem?_insert_of_ne hne, h.attempts]
      simp only [hne.symm, false_or]

/-- What is changed without an index being served. -/
theorem Visited.of_frame (h : Visited topicName sub topics f sub₁ topics₁)
    (hspec : sub₂.spec = sub₁.spec) (hacked : sub₂.acked = sub₁.acked)
    (hattempts : sub₂.attempts = sub₁.attempts)
    (hlease : sub₂.ledger.lease = sub₁.ledger.lease) :
    Visited topicName sub topics f sub₂ topics₁ :=
  { h with
    spec := hspec.trans h.spec
    acked := fun i => by rw [hacked, h.acked]
    attempts := fun i => by rw [hattempts, h.attempts]
    leased := fun d hd => by
      rw [Held, hlease]
      exact h.leased d hd }

/-- A copy of a message goes to the dead-letter topic. -/
theorem Fates.copiesTo_concat (spec : SubscriptionSpec) (name : Text)
    (d : DeadLetter subscription) :
    ({ f with dead := f.dead ++ [d] } : Fates subscription).copiesTo spec name =
      f.copiesTo spec name ++
        if spec.deadLetter.map (·.topic) = some name then [d.copy] else [] := by
  unfold Fates.copiesTo
  split_ifs <;> simp

variable {env : Env} {p p' : Pulling} {message : RelayMessage}

/-- **The fate of the index served.** -/
theorem Visited.served (h : Visited topicName sub topics f p.sub p.topics)
    (hf : f.delivered = p.deliveries) (hacked : index ∉ p.sub.acked)
    (hheld : ¬p.sub.ledger.Held index) (hmessage : HasMessage p.topics topicName index message)
    (hserved : Served env subscription p index message p')
    (hkeep : ∀ i, p.sub.ledger.Held i → p'.sub.ledger.Held i)
    (hgrow : TopicsGrow p.topics p'.topics) :
    ∃ f' : Fates subscription, f'.delivered = p'.deliveries ∧
      Visited topicName sub topics f' p'.sub p'.topics := by
  have hnew := h.notMem_indices hacked hheld
  have hmessage' := hmessage.grow hgrow
  have hdead' := fun d hd => (h.dead d hd).imp_left (·.grow hgrow)
  have hfiltered' := fun d hd => (h.filtered d hd).imp_left (·.grow hgrow)
  have hdelivered' := fun d hd => (h.delivered d hd).imp_left (·.grow hgrow)
  have hexhausted : (deadLetterTopic p.sub.spec p.topics (p.sub.nextAttempt index)).isSome = true ↔
      Exhausted sub topics index := deadLetterTopic_isSome_iff.trans (h.exhausted_iff hnew)
  cases hserved with
  | @dead name deadTopic hdead =>
    obtain ⟨hdeadTopic, policy, hpolicy, rfl⟩ := exists_of_deadLetterTopic hdead
    let d : DeadLetter subscription :=
      { index
        original := message
        copy := deadMessage env subscription (p.countAttempt index) message
        data := rfl
        orderingKey := rfl
        attributes := rfl }
    let f' : Fates subscription := { f with dead := f.dead ++ [d] }
    have hsettled : f'.settled.Perm (index :: f.settled) := by
      simp only [f', Fates.settled, List.map_append, List.map_cons, List.map_nil, List.append_assoc]
      exact List.perm_middle
    have hperm : f'.indices.Perm (index :: f.indices) := hsettled.append_right _
    obtain ⟨hnodup, hunacked, hattempts⟩ := h.serve hacked hheld hperm rfl
    refine ⟨f', hf, h.spec, hnodup, hunacked, fun i => ?_, hattempts, fun d hd => ?_,
      fun d' hd' => ?_, fun k d' hk => ?_, hfiltered', hdelivered', fun name => ?_⟩
    · rw [hsettled.mem_iff, List.mem_cons, or_left_comm, ← h.acked]
      exact Finset.mem_insert
    · exact hkeep d.1 (h.leased d hd)
    · rcases List.mem_append.mp hd' with hold | hd'
      · exact hdead' d' hold
      · rw [List.mem_singleton.mp hd']
        exact ⟨hmessage', hexhausted.mp (by rw [hdead]; rfl)⟩
    · -- earlier dead letters come before this one
      have hearlier : ∀ {j : ℕ} {d₀ : DeadLetter subscription}, f.dead[j]? = some d₀ →
          f'.dead[j]? = some d₀ :=
        fun hj => getElem?_of_isPrefix (List.prefix_append _ _) hj
      rcases Nat.lt_or_ge k f.dead.length with hlt | hge
      · rw [List.getElem?_append_left hlt] at hk
        refine (h.origin k d' hk).imp_right ?_
        rintro ⟨j, hj, d₀, hd₀, hcopy⟩
        exact ⟨j, hj, d₀, hearlier hd₀, hcopy⟩
      · rw [List.getElem?_append_right hge, List.getElem?_singleton] at hk
        split_ifs at hk
        obtain rfl := Option.some.inj hk
        refine (h.origin_of_hasMessage hmessage).imp_right ?_
        rintro ⟨j, hj, d₀, hd₀, hcopy⟩
        exact ⟨j, hj.trans_le hge, d₀, hearlier hd₀, hcopy⟩
    · have hpolicy' : sub.spec.deadLetter = some policy := h.spec ▸ hpolicy
      simp only [f', Fates.copiesTo_concat, hpolicy', Option.map_some, Option.some.injEq,
        deadLetter, Pulling.countAttempt]
      rcases eq_or_ne policy.topic name with rfl | hne
      · rw [Std.ExtTreeMap.getElem?_insert_self, if_pos rfl]
        have hbefore := hdeadTopic
        rw [h.topics] at hbefore
        obtain ⟨topic, htopic, rfl⟩ := Option.map_eq_some_iff.mp hbefore
        rw [htopic, Option.map_some, List.append_assoc]
        rfl
      · rw [getElem?_insert_of_ne hne, if_neg hne, List.append_nil]
        exact h.topics name
  | filtered hfate =>
    obtain ⟨hdead, hrejects⟩ := hfate
    let f' : Fates subscription := { f with filtered := f.filtered ++ [(index, message)] }
    have hsettled : f'.settled.Perm (index :: f.settled) := by
      simp only [f', Fates.settled, List.map_append, List.map_cons, List.map_nil,
        ← List.append_assoc]
      exact List.perm_append_singleton _ _
    have hperm : f'.indices.Perm (index :: f.indices) := hsettled.append_right _
    obtain ⟨hnodup, hunacked, hattempts⟩ := h.serve hacked hheld hperm rfl
    refine ⟨f', hf, h.spec, hnodup, hunacked, fun i => ?_, hattempts, fun d hd => ?_, hdead',
      h.origin, fun d hd => ?_, hdelivered', h.topics⟩
    · rw [hsettled.mem_iff, List.mem_cons, or_left_comm, ← h.acked]
      exact Finset.mem_insert
    · exact hkeep d.1 (h.leased d hd)
    · rcases List.mem_append.mp hd with hold | hd
      · exact hfiltered' d hold
      · rw [List.mem_singleton.mp hd]
        refine ⟨hmessage', fun hex => ?_, h.spec ▸ hrejects⟩
        simp [hdead] at hexhausted
        exact hexhausted hex
  | delivered hfate =>
    obtain ⟨hdead, haccepts⟩ := hfate
    let delivery : Delivery :=
      ⟨ackIdFor env subscription (p.countAttempt index) index (p.sub.nextAttempt index), message,
        p.sub.nextAttempt index⟩
    let f' : Fates subscription := { f with delivered := f.delivered ++ [(index, delivery)] }
    have hperm : f'.indices.Perm (index :: f.indices) := by
      simp only [f', Fates.indices, List.map_append, List.map_cons, List.map_nil,
        ← List.append_assoc]
      exact List.perm_append_singleton _ _
    obtain ⟨hnodup, hunacked, hattempts⟩ := h.serve hacked hheld hperm rfl
    refine ⟨f', ?_, h.spec, hnodup, hunacked, h.acked, hattempts, fun d hd => ?_, hdead',
      h.origin, hfiltered', fun d hd => ?_, h.topics⟩
    · exact congrArg (· ++ [(index, delivery)]) hf
    · rcases List.mem_append.mp hd with hold | hd
      · exact hkeep d.1 (h.leased d hold)
      · rw [List.mem_singleton.mp hd]
        refine ⟨delivery.ackId, (SubscriptionState.ledger_lease_eq_some _ index).mpr
          ⟨⟨index, _⟩, Std.ExtTreeMap.getElem?_insert_self, rfl⟩⟩
    · rcases List.mem_append.mp hd with hold | hd
      · exact hdelivered' d hold
      · rw [List.mem_singleton.mp hd]
        refine ⟨hmessage', fun hex => ?_, h.spec ▸ haccepts, h.nextAttempt_eq hnew⟩
        simp [hdead] at hexhausted
        exact hexhausted hex

/-- A turn serves the index taken, or leaves everything but the queue and the cursor. -/
theorem Visited.turned {topicLen : ℕ} (h : Visited topicName sub topics f p.sub p.topics)
    (hf : f.delivered = p.deliveries) (hturn : Turned env subscription topicName topicLen p p')
    (hkeep : ∀ i, p.sub.ledger.Held i → p'.sub.ledger.Held i) :
    ∃ f' : Fates subscription, f'.delivered = p'.deliveries ∧
      Visited topicName sub topics f' p'.sub p'.topics := by
  have hgrow := hturn.topicsGrow
  cases hturn with
  | skip htake _ =>
    obtain ⟨hspec, hattempts, -⟩ := takeNext_frame htake
    have htaken := takeNext_take htake
    exact ⟨f, hf, h.of_frame hspec htaken.done_eq hattempts htaken.lease_eq⟩
  | block htake _ _ _ _ =>
    obtain ⟨hspec, hattempts, -⟩ := takeNext_frame htake
    have htaken := takeNext_take htake
    exact ⟨f, hf, h.of_frame hspec htaken.done_eq hattempts htaken.lease_eq⟩
  | @serve index sub₁ topic message p' htake hacked hleased htopic _ hmessage hserved =>
    obtain ⟨hspec, hattempts, -⟩ := takeNext_frame htake
    have htaken := takeNext_take htake
    have h₁ : Visited topicName sub topics f sub₁ p.topics :=
      h.of_frame hspec htaken.done_eq hattempts htaken.lease_eq
    have hheld : ¬sub₁.ledger.Held index := by
      rw [← sub₁.isLeased_iff, hleased]
      exact Bool.false_ne_true
    exact Visited.served (p := { p with sub := sub₁ }) h₁ hf hacked hheld ⟨topic, htopic, hmessage⟩
      hserved (fun i hi => hkeep i (htaken.held_iff.mp hi)) hgrow

/-- **A chain of turns serves every index at most once**, and what became of it is one
of the three. -/
theorem visited_of_turns {topicLen : ℕ} {drawn : Set Text}
    (hturns : Relation.ReflTransGen (Turned env subscription topicName topicLen) p p')
    (hx : Exclusive p.sub.ledger)
    (hn : Named subscription (drawn ∪ drawnUpTo env p.draws) p.sub) (hd : Undrawn env drawn)
    (h : Visited topicName sub topics f p.sub p.topics) (hf : f.delivered = p.deliveries) :
    ∃ f' : Fates subscription, f'.delivered = p'.deliveries ∧
      Visited topicName sub topics f' p'.sub p'.topics := by
  induction hturns using Relation.ReflTransGen.head_induction_on generalizing f with
  | refl => exact ⟨f, hf, h⟩
  | @head p p₁ hturn _ ih =>
    obtain ⟨e, he⟩ := @turned_serves _ _ _ _ _ False [] _ _ hx hn hd False.elim False.elim hturn
    obtain ⟨f₁, hf₁, h₁⟩ := h.turned hf hturn fun i => he.move.held_of_service he.service
    exact ih (hx.move he.move) he.named h₁ hf₁

end Visited

/-! ### A pull -/

section Pull

variable {env : Env} {subscription : Text} {maxMessages : UInt32} {sub : SubscriptionState}
  {topics : StrMap TopicState} {topicLen : ℕ} {drawn : Set Text} {p : Pulling}

/-- **What a pull does with the indices it serves**, also when it panics. -/
theorem exists_visited
    (h : pullFrom env subscription maxMessages sub topics topicLen = .finished p ∨
      pullFrom env subscription maxMessages sub topics topicLen = .panicked p)
    (hx : Exclusive sub.ledger) (hn : Named subscription drawn sub) (hd : Undrawn env drawn) :
    ∃ f : Fates subscription, f.delivered = p.deliveries ∧
      Visited sub.spec.topic sub topics f p.sub p.topics := by
  obtain ⟨hspec, -, hacked, hattempts⟩ := sweep_frame env sub
  obtain ⟨es, hes⟩ := sweep_trace env sub hx
  have hturns : Relation.ReflTransGen (Turned env subscription sub.spec.topic topicLen)
      { sub := sweep env sub, topics } p := by
    rw [← hspec]
    exact h.elim turns_of_finished fun hp => (turns_of_panicked hp).1
  have hn₀ : Named subscription (drawn ∪ drawnUpTo env 0) (sweep env sub) :=
    (named_sweep hn).mono Set.subset_union_left
  exact visited_of_turns hturns (hes.exclusive hx) hn₀ hd
    (visited_nil sub.spec.topic topics hspec hacked hattempts) rfl

end Pull

end RelayPubsub.Memory
