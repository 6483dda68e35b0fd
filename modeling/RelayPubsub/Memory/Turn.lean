import RelayPubsub.Memory.Pull

/-!
# The turns of the pull loop

What one turn of the loop of `pull` can do is said once, by
`RelayPubsub.Memory.Turned`: it passes over an index that is acked or leased, it
puts an ordering-blocked index back, or it serves an index, which
`RelayPubsub.Memory.Served` splits further. A finished loop is a chain of such
turns (`RelayPubsub.Memory.turns_of_finished`), and a panicked one is a chain
followed by an access beyond the end of the log
(`RelayPubsub.Memory.turns_of_panicked`).

The number of turns given to the loop is never what ends it
(`RelayPubsub.Memory.stop_of_pullFrom`): a turn takes one index for good, off
the retry queue or off the log.
-/

namespace RelayPubsub.Memory

open Lib

/-! ### One turn -/

section Turn

variable (env : Env) (subscription topicName : Text) (topicLen limit : ℕ)

/-- The pull after an attempt at an index has been counted. -/
def Pulling.countAttempt (p : Pulling) (index : ℕ) : Pulling :=
  { p with sub := p.sub.countAttempt index }

/-- **What serving an index comes to.** -/
inductive Served (p : Pulling) (index : ℕ) (message : RelayMessage) : Pulling → Prop
  /-- The message goes to the dead-letter topic. -/
  | dead {name : Text} {deadTopic : TopicState} :
      deadLetterTopic p.sub.spec p.topics (p.sub.nextAttempt index) = some (name, deadTopic) →
      Served p index message
        (deadLetter env subscription (p.countAttempt index) index message name deadTopic)
  /-- The filter rejects the message, which does not go to the dead-letter topic. -/
  | filtered : deadLetterTopic p.sub.spec p.topics (p.sub.nextAttempt index) = none ∧
        filterRejects p.sub.spec message = true →
      Served p index message
        { p.countAttempt index with sub := (p.sub.countAttempt index).settle index }
  /-- The message is delivered. -/
  | delivered : deadLetterTopic p.sub.spec p.topics (p.sub.nextAttempt index) = none ∧
        filterRejects p.sub.spec message = false →
      Served p index message
        (deliver env subscription (p.countAttempt index) index (p.sub.nextAttempt index) message)

/-- **What a turn does** that does not end the loop. -/
inductive Turned (p : Pulling) : Pulling → Prop
  /-- The index taken is acked or leased, and passed over. -/
  | skip {index : ℕ} {sub : SubscriptionState} :
      takeNext (env.now 0) topicLen p.skippedOrdering p.sub = some (index, sub) →
      index ∈ sub.acked ∨ sub.isLeased index = true → Turned p { p with sub }
  /-- The index taken is blocked by its ordering key, and put back. -/
  | block {index : ℕ} {sub : SubscriptionState} {topic : TopicState} :
      takeNext (env.now 0) topicLen p.skippedOrdering p.sub = some (index, sub) →
      index ∉ sub.acked → sub.isLeased index = false → p.topics[topicName]? = some topic →
      orderingBlocked sub topic index (env.now 0) = some true →
      Turned p { p with
        sub := sub.requeue index (env.now 0)
        skippedOrdering := insert index p.skippedOrdering }
  /-- The index taken is served. -/
  | serve {index : ℕ} {sub : SubscriptionState} {topic : TopicState} {message : RelayMessage}
      {p' : Pulling} :
      takeNext (env.now 0) topicLen p.skippedOrdering p.sub = some (index, sub) →
      index ∉ sub.acked → sub.isLeased index = false → p.topics[topicName]? = some topic →
      orderingBlocked sub topic index (env.now 0) = some false →
      topic.messages[index]? = some message →
      Served env subscription { p with sub } index message p' → Turned p p'

/-- **The access that panics**: the index taken is beyond the end of the log, or
the topic is gone. -/
def Overrun (p : Pulling) : Prop :=
  ∃ index sub, takeNext (env.now 0) topicLen p.skippedOrdering p.sub = some (index, sub) ∧
    ∀ topic, p.topics[topicName]? = some topic → topic.messages.length ≤ index

variable {env subscription topicName topicLen limit}

theorem served_of_serve (p : Pulling) (index : ℕ) (message : RelayMessage) :
    Served env subscription p index message (serve env subscription p index message) := by
  unfold serve
  dsimp only
  split
  · rename_i name deadTopic h
    exact .dead h
  · rename_i hdead
    split
    · rename_i hrejects
      exact .filtered ⟨hdead, hrejects⟩
    · rename_i hrejects
      exact .delivered ⟨hdead, Bool.not_eq_true _ ▸ hrejects⟩

/-- A blocked index is in the log. -/
theorem lt_of_orderingBlocked_none {sub : SubscriptionState} {topic : TopicState} {index : ℕ}
    {now : Time} (h : orderingBlocked sub topic index now = none) :
    topic.messages.length ≤ index := by
  unfold orderingBlocked at h
  split at h
  · cases h
  · split at h
    · rename_i hnone
      exact List.getElem?_eq_none_iff.mp hnone
    · split at h <;> cases h

/-- **The inversion of a turn** after which the loop goes on. -/
theorem turned_of_again {p p' : Pulling}
    (h : pullTurn env subscription topicName topicLen limit p = .again p') :
    p.deliveries.length < limit ∧ Turned env subscription topicName topicLen p p' := by
  unfold pullTurn at h
  split at h
  · cases h
  rename_i hlimit
  refine ⟨Nat.lt_of_not_le hlimit, ?_⟩
  split at h
  · cases h
  rename_i index sub htake
  dsimp only at h
  split at h
  · rename_i hskip
    cases h
    exact .skip htake hskip
  rename_i hfree
  obtain ⟨hacked, hleased⟩ := not_or.mp hfree
  rw [Bool.not_eq_true] at hleased
  split at h
  · cases h
  rename_i topic htopic
  split at h
  · cases h
  · rename_i hblocked
    cases h
    exact .block htake hacked hleased htopic hblocked
  · rename_i hblocked
    split at h
    · cases h
    · rename_i message hmessage
      cases h
      exact .serve htake hacked hleased htopic hblocked hmessage (served_of_serve _ _ _)

/-- **The inversion of a turn that panics.** -/
theorem overrun_of_panic {p : Pulling}
    (h : pullTurn env subscription topicName topicLen limit p = .panic) :
    Overrun env topicName topicLen p := by
  unfold pullTurn at h
  split at h
  · cases h
  split at h
  · cases h
  rename_i index sub htake
  refine ⟨index, sub, htake, fun topic htopic => ?_⟩
  dsimp only at h
  split at h
  · cases h
  rw [htopic] at h
  dsimp only at h
  split at h
  · rename_i hblocked
    exact lt_of_orderingBlocked_none hblocked
  · cases h
  · split at h
    · rename_i hnone
      exact List.getElem?_eq_none_iff.mp hnone
    · cases h

/-! ### The loop -/

/-- A finished loop is a chain of turns. -/
theorem turns_of_finished {fuel : ℕ} {p p' : Pulling}
    (h : pullLoop env subscription topicName topicLen limit fuel p = .finished p') :
    Relation.ReflTransGen (Turned env subscription topicName topicLen) p p' := by
  induction fuel generalizing p with
  | zero =>
    cases h
    exact .refl
  | succ fuel ih =>
    unfold pullLoop at h
    split at h
    · rename_i p₁ h₁
      exact .head (turned_of_again h₁).2 (ih h)
    · cases h
      exact .refl
    · cases h

/-- A panicked loop is a chain of turns, and an access beyond the end of the
log. -/
theorem turns_of_panicked {fuel : ℕ} {p p' : Pulling}
    (h : pullLoop env subscription topicName topicLen limit fuel p = .panicked p') :
    Relation.ReflTransGen (Turned env subscription topicName topicLen) p p' ∧
      Overrun env topicName topicLen p' := by
  induction fuel generalizing p with
  | zero => cases h
  | succ fuel ih =>
    unfold pullLoop at h
    split at h
    · rename_i p₁ h₁
      obtain ⟨hturns, hover⟩ := ih h
      exact ⟨.head (turned_of_again h₁).2 hturns, hover⟩
    · cases h
    · rename_i hpanic
      cases h
      exact ⟨.refl, overrun_of_panic hpanic⟩

end Turn

/-! ### The loop ends by itself -/

section Fuel

variable {env : Env} {subscription topicName : Text} {topicLen limit : ℕ}

/-- How many indices can still be taken in this pull: the entries of the retry
queue that have not been put back, and the rest of the log. -/
def Pulling.untaken (topicLen : ℕ) (p : Pulling) : ℕ :=
  p.sub.retryQueue.countP (fun e => e.topicIndex ∉ p.skippedOrdering) + (topicLen - p.sub.nextIndex)

/-- The index taken, and what is left. -/
theorem takable_of_takeNext {now : Time} {skipped : Finset ℕ} {sub sub' : SubscriptionState}
    {index : ℕ} (h : takeNext now topicLen skipped sub = some (index, sub')) :
    (index = sub.nextIndex ∨ ∃ e ∈ sub.retryQueue, e.topicIndex = index ∧
        e.availableAt ≤ now ∧ e.topicIndex ∉ skipped) ∧
      sub'.retryQueue ⊆ sub.retryQueue := by
  unfold takeNext at h
  split at h
  · rename_i e he
    obtain ⟨rfl, rfl⟩ := Prod.mk.inj (Option.some.inj h)
    have hready : ready now skipped e = true := List.find?_some he
    obtain ⟨htime, hskip⟩ := of_decide_eq_true hready
    exact ⟨Or.inr ⟨e, List.mem_of_find?_eq_some he, rfl, htime, hskip⟩, List.eraseP_subset⟩
  · split_ifs at h
    obtain ⟨rfl, rfl⟩ := Prod.mk.inj (Option.some.inj h)
    exact ⟨Or.inl rfl, List.Subset.refl _⟩

/-- Taking an index leaves one fewer. -/
theorem untaken_take {now : Time} {p : Pulling} {index : ℕ} {sub : SubscriptionState}
    (h : takeNext now topicLen p.skippedOrdering p.sub = some (index, sub)) :
    ({ p with sub } : Pulling).untaken topicLen + 1 ≤ p.untaken topicLen := by
  unfold takeNext at h
  split at h
  · rename_i e he
    obtain ⟨-, rfl⟩ := Prod.mk.inj (Option.some.inj h)
    have hready : ready now p.skippedOrdering e = true := List.find?_some he
    have hmem : e ∈ p.sub.retryQueue := List.mem_of_find?_eq_some he
    obtain ⟨a, l₁, l₂, hl₁, ha, hq, herase⟩ := List.exists_of_eraseP hmem hready
    have hskip : a.topicIndex ∉ p.skippedOrdering := by
      simp only [ready, decide_eq_true_eq] at ha
      exact ha.2
    simp only [Pulling.untaken, herase]
    rw [hq]
    simp [hskip]
  · split at h
    · rename_i hlt
      obtain ⟨-, rfl⟩ := Prod.mk.inj (Option.some.inj h)
      simp only [Pulling.untaken]
      omega
    · cases h

/-- **A turn leaves fewer indices to take.** -/
theorem untaken_turned {p p' : Pulling} (h : Turned env subscription topicName topicLen p p') :
    p'.untaken topicLen < p.untaken topicLen := by
  cases h with
  | skip htake _ => exact untaken_take htake
  | @block index sub _ htake _ _ _ _ =>
    refine Nat.lt_of_le_of_lt ?_ (untaken_take htake)
    have hcount : (sub.retryQueue.countP fun e => e.topicIndex ∉ insert index p.skippedOrdering) ≤
        sub.retryQueue.countP fun e => e.topicIndex ∉ p.skippedOrdering := by
      refine List.countP_mono_left fun e _ he => ?_
      simp only [Finset.mem_insert, not_or, decide_eq_true_eq] at he ⊢
      exact he.2
    simpa [Pulling.untaken, SubscriptionState.requeue] using hcount
  | serve htake _ _ _ _ _ hs =>
    refine Nat.lt_of_le_of_lt (Nat.le_of_eq ?_) (untaken_take htake)
    cases hs <;> rfl

/-- The loop ends with a turn that stops it, if it is given enough turns. -/
theorem stop_of_finished {fuel : ℕ} {p p' : Pulling} (hfuel : p.untaken topicLen < fuel)
    (h : pullLoop env subscription topicName topicLen limit fuel p = .finished p') :
    pullTurn env subscription topicName topicLen limit p' = .stop := by
  induction fuel generalizing p with
  | zero => omega
  | succ fuel ih =>
    unfold pullLoop at h
    split at h
    · rename_i p₁ h₁
      have hless := untaken_turned (turned_of_again h₁).2
      exact ih (by omega) h
    · rename_i hstop
      cases h
      exact hstop
    · cases h

/-- The number of turns given to the loop of a pull is enough. -/
theorem untaken_lt_pullFuel (sub : SubscriptionState) (topics : StrMap TopicState) :
    ({ sub, topics } : Pulling).untaken topicLen < pullFuel topicLen sub := by
  have hcount := List.countP_le_length (l := sub.retryQueue)
    (p := fun e => decide (e.topicIndex ∉ (∅ : Finset ℕ)))
  simp only [Pulling.untaken, pullFuel]
  omega

/-- **A pull goes on until nothing is available or its limit is reached**: its number
of turns is never what ends it. -/
theorem stop_of_pullFrom {maxMessages : UInt32} {sub : SubscriptionState}
    {topics : StrMap TopicState} {p : Pulling}
    (h : pullFrom env subscription maxMessages sub topics topicLen = .finished p) :
    pullTurn env subscription (sweep env sub).spec.topic topicLen
      (clamp maxMessages 1 1000).toNat p = .stop :=
  stop_of_finished (untaken_lt_pullFuel (sweep env sub) topics) h

end Fuel

end RelayPubsub.Memory
