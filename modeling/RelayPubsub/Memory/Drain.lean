import RelayPubsub.Memory.Anchored

/-!
# A pull withholds nothing

The loop of `pull` puts indices that are blocked by their ordering key back into
the queue it scans. It ends all the same, as it remembers them: each turn leaves
fewer indices to take (`RelayPubsub.Memory.untaken_turned`), so that any number
of turns above `RelayPubsub.Memory.Pulling.untaken` gives the same result
(`RelayPubsub.Memory.pullLoop_eq`). When it has not reached its limit, it has
gone through the whole log, and what is still due was blocked
(`RelayPubsub.Memory.pull_drains`).
-/

namespace RelayPubsub.Memory

open Lib Lib.Ledger

/-- **The message can be had now**: the cursor has not reached it, or it waits in the
retry queue and is due. -/
def SubscriptionState.Available (sub : SubscriptionState) (now : Time) (i : ℕ) : Prop :=
  sub.nextIndex ≤ i ∨ ∃ e ∈ sub.retryQueue, e.topicIndex = i ∧ e.availableAt ≤ now

section Loop

variable (env : Env) (subscription topicName : Text) (topicLen limit : ℕ)

/-- **The index was taken during the loop and found blocked** by its ordering key. -/
def FoundBlocked (p₀ : Pulling) (i : ℕ) : Prop :=
  ∃ p sub topic, Relation.ReflTransGen (Turned env subscription topicName topicLen) p₀ p ∧
    takeNext (env.now 0) topicLen p.skippedOrdering p.sub = some (i, sub) ∧
    p.topics[topicName]? = some topic ∧ orderingBlocked sub topic i (env.now 0) = some true

/-- **The loop from `p₀` ends at `p`, having withheld nothing** of a log of length
`topicLen`. -/
structure Drains (p₀ p : Pulling) : Prop where
  /-- The loop ends, however many turns it is allowed beyond what it needs. -/
  ends : ∀ fuel, p₀.untaken topicLen < fuel →
    pullLoop env subscription topicName topicLen limit fuel p₀ = .finished p
  /-- It ends by itself. -/
  stops : pullTurn env subscription topicName topicLen limit p = .stop
  atMost : p.deliveries.length ≤ limit
  /-- With fewer deliveries than the limit, the log has been gone through. -/
  cursor : p.deliveries.length < limit → p.sub.nextIndex = topicLen
  /-- With fewer deliveries than the limit, what is still due was blocked. -/
  blocked : p.deliveries.length < limit → ∀ e ∈ p.sub.retryQueue, e.availableAt ≤ env.now 0 →
    FoundBlocked env subscription topicName topicLen p₀ e.topicIndex
  /-- Without ordering keys nothing of the log is left that can be had now. -/
  unordered : p.deliveries.length < limit → p.sub.spec.enableMessageOrdering = false →
    ∀ i < topicLen, i ∉ p.sub.acked → ¬p.sub.Leased i → ¬p.sub.Available (env.now 0) i

variable {env subscription topicName topicLen limit} {p₀ p p' : Pulling}

/-! ### The number of turns -/

/-- **Enough turns are enough.** -/
theorem pullLoop_eq {fuel fuel' : ℕ} (h : p.untaken topicLen < fuel)
    (h' : p.untaken topicLen < fuel') :
    pullLoop env subscription topicName topicLen limit fuel p =
      pullLoop env subscription topicName topicLen limit fuel' p := by
  induction fuel generalizing fuel' p with
  | zero => omega
  | succ fuel ih =>
    rcases fuel' with - | fuel'
    · omega
    unfold pullLoop
    rcases hturn : pullTurn env subscription topicName topicLen limit p with p₁ | - | -
    · have hless := untaken_turned (turned_of_again hturn).2
      exact ih (by omega) (by omega)
    · rfl
    · rfl

/-- A turn delivers one message at most. -/
theorem Turned.length_deliveries (h : Turned env subscription topicName topicLen p p') :
    p'.deliveries.length ≤ p.deliveries.length + 1 := by
  cases h with
  | skip _ _ | block _ _ _ _ _ => exact Nat.le_succ _
  | serve _ _ _ _ _ _ hserved =>
    cases hserved with
    | dead _ | filtered _ => exact Nat.le_succ _
    | delivered _ => simp [deliver, Pulling.countAttempt]

/-- **The limit is kept.** -/
theorem length_deliveries_le {fuel : ℕ} (hle : p.deliveries.length ≤ limit)
    (h : pullLoop env subscription topicName topicLen limit fuel p = .finished p') :
    p'.deliveries.length ≤ limit := by
  induction fuel generalizing p with
  | zero =>
    cases h
    exact hle
  | succ fuel ih =>
    unfold pullLoop at h
    split at h
    · rename_i p₁ hturn
      obtain ⟨hlt, hturned⟩ := turned_of_again hturn
      exact ih (hturned.length_deliveries.trans hlt) h
    · cases h
      exact hle
    · cases h

/-! ### What is left at the end -/

/-- A turn stops the loop at the limit, or when there is nothing to take. -/
theorem takeNext_of_stop (h : pullTurn env subscription topicName topicLen limit p = .stop)
    (hlt : p.deliveries.length < limit) :
    takeNext (env.now 0) topicLen p.skippedOrdering p.sub = none := by
  unfold pullTurn at h
  rw [if_neg (Nat.not_le.mpr hlt)] at h
  split at h
  · assumption
  · dsimp only at h
    split at h
    · cases h
    split at h
    · cases h
    split at h
    · cases h
    · cases h
    · split at h <;> cases h

/-- When there is nothing to take, the log has been gone through, and what is due
has been skipped. -/
theorem takeNext_eq_none {now : Time} {skipped : Finset ℕ} {sub : SubscriptionState}
    (h : takeNext now topicLen skipped sub = none) :
    topicLen ≤ sub.nextIndex ∧
      ∀ e ∈ sub.retryQueue, e.availableAt ≤ now → e.topicIndex ∈ skipped := by
  unfold takeNext at h
  split at h
  · cases h
  rename_i hnone
  split at h
  · cases h
  rename_i hcursor
  refine ⟨Nat.not_lt.mp hcursor, fun e he hdue => ?_⟩
  by_contra hskipped
  exact List.find?_eq_none.mp hnone e he (decide_eq_true ⟨hdue, hskipped⟩)

/-- **What has been skipped was found blocked.** -/
theorem foundBlocked_of_skipped
    (h : Relation.ReflTransGen (Turned env subscription topicName topicLen) p₀ p) {i : ℕ}
    (hi : i ∈ p.skippedOrdering) :
    i ∈ p₀.skippedOrdering ∨ FoundBlocked env subscription topicName topicLen p₀ i := by
  induction h with
  | refl => exact Or.inl hi
  | @tail p p' hturns hturn ih =>
    cases hturn with
    | skip _ _ => exact ih hi
    | @block index sub topic htake _ _ htopic hblocked =>
      rcases Finset.mem_insert.mp hi with rfl | hi
      · exact Or.inr ⟨p, sub, topic, hturns, htake, htopic, hblocked⟩
      · exact ih hi
    | serve _ _ _ _ _ _ hserved => cases hserved <;> exact ih hi

/-- Without ordering keys nothing is found blocked. -/
theorem ordering_of_foundBlocked {i : ℕ}
    (h : FoundBlocked env subscription topicName topicLen p₀ i) :
    p₀.sub.spec.enableMessageOrdering = true := by
  obtain ⟨p, sub, topic, hturns, htake, -, hblocked⟩ := h
  have hspec : sub.spec = p₀.sub.spec := (takeNext_frame htake).1.trans (spec_of_turns hturns)
  rw [← hspec]
  exact (orderingBlocked_eq_true_iff.mp hblocked).1

/-- **A loop that finishes has withheld nothing**, if it starts with the cursor within
the log and nothing skipped. -/
theorem drains_of_finished {fuel : ℕ} (hfuel : p₀.untaken topicLen < fuel)
    (hcursor : p₀.sub.nextIndex ≤ topicLen) (hnone : p₀.deliveries = [])
    (hskipped : p₀.skippedOrdering = ∅)
    (h : pullLoop env subscription topicName topicLen limit fuel p₀ = .finished p) :
    Drains env subscription topicName topicLen limit p₀ p := by
  have hturns := turns_of_finished h
  have hstop := stop_of_finished hfuel h
  have hblocked : p.deliveries.length < limit → ∀ e ∈ p.sub.retryQueue,
      e.availableAt ≤ env.now 0 →
        FoundBlocked env subscription topicName topicLen p₀ e.topicIndex := by
    intro hlt e he hdue
    have hmem := (takeNext_eq_none (takeNext_of_stop hstop hlt)).2 e he hdue
    refine (foundBlocked_of_skipped hturns hmem).resolve_left fun hmem₀ => ?_
    rw [hskipped] at hmem₀
    exact Finset.notMem_empty _ hmem₀
  have hend : p.deliveries.length < limit → p.sub.nextIndex = topicLen := fun hlt =>
    Nat.le_antisymm (nextIndex_le_of_turns hturns hcursor)
      (takeNext_eq_none (takeNext_of_stop hstop hlt)).1
  refine ⟨fun fuel' hfuel' => (pullLoop_eq hfuel' hfuel).trans h, hstop, ?_, hend, hblocked, ?_⟩
  · exact length_deliveries_le (by simp [hnone]) h
  · rintro hlt hoff i hi - - (hbeyond | ⟨e, he, rfl, hdue⟩)
    · rw [hend hlt] at hbeyond
      omega
    · have hon := ordering_of_foundBlocked (hblocked hlt e he hdue)
      rw [← spec_of_turns hturns, hoff] at hon
      cases hon

end Loop

variable {serde : SerdeJson}

/-- **A pull ends and withholds nothing**, in every state of a run in which the topic
of the subscription has not been deleted: what it answers, unless the state file
cannot be written, are the deliveries of a loop that ends, keeps the limit and
drains the log as it was at the start. -/
theorem pull_drains (r : Run) {past : List Step} {s : Step} (hpast : past ++ [s] <+: r.steps)
    {name : Text} {sub : SubscriptionState}
    (hsub : (stateAfter serde past).subscriptions[name]? = some sub)
    (hkeep : ∀ t ∈ past, t.call ≠ .deleteTopic sub.spec.topic) (maxMessages : UInt32) :
    ∃ topic p, (stateAfter serde past).topics[sub.spec.topic]? = some topic ∧
      Drains s.env name sub.spec.topic topic.messages.length (clamp maxMessages 1 1000).toNat
        { sub := sweep s.env sub, topics := (stateAfter serde past).topics } p ∧
      (pull s.env (stateAfter serde past) name maxMessages).1 =
        .returned ((persistLocked s.env).map fun _ => p.deliveries.map Prod.snd) ∧
      (pull s.env (stateAfter serde past) name maxMessages).2.subscriptions[name]? =
        some p.sub := by
  obtain ⟨topic, p, htopic, hle, hp⟩ :=
    pullFrom_finishes (r.fresh.sublist hpast.sublist) hsub hkeep maxMessages
  obtain ⟨hspec, hnext, -, -⟩ := sweep_frame s.env sub
  refine ⟨topic, p, htopic, ?_, ?_, ?_⟩
  · have hloop := hp
    unfold pullFrom at hloop
    dsimp only at hloop
    rw [hspec] at hloop
    exact drains_of_finished (untaken_lt_pullFuel _ _) (hnext ▸ hle) rfl rfl hloop
  · simp only [pull, hsub, htopic, hp, answer]
    split
    · rename_i hok
      rw [hok]
      rfl
    · rename_i e he
      rw [he]
      rfl
  · simp [pull, hsub, htopic, hp]

/-! ### A pull that finds a message blocked -/

/-- Two messages of one key on an ordered subscription. -/
def sameKeyTwice : Run := .ofCalls
  [(0, .createTopic sampleTopic),
   (0, .createSubscription { sampleSubscription with enableMessageOrdering := true }),
   (0, .publish sampleTopic.name [sampleMessage "k", sampleMessage "k"]),
   (0, .pull sampleSubscription.name 5)]

/-- The subscription before the pull. -/
def sameKeyTwice.before : SubscriptionState :=
  ((stateAfter noJson (sameKeyTwice.steps.take 3)).subscriptions[sampleSubscription.name]?).get
    (by decide +kernel)

/-- The pull asks for five messages and ends, with the second message skipped. -/
theorem sameKeyTwice_drains :
    ∃ topic p, (stateAfter noJson (sameKeyTwice.steps.take 3)).topics[
        sameKeyTwice.before.spec.topic]? = some topic ∧
      Drains sameKeyTwice.steps[3].env sampleSubscription.name sameKeyTwice.before.spec.topic
        topic.messages.length (clamp 5 1 1000).toNat
        { sub := sweep sameKeyTwice.steps[3].env sameKeyTwice.before
          topics := (stateAfter noJson (sameKeyTwice.steps.take 3)).topics } p ∧
      (pull sameKeyTwice.steps[3].env (stateAfter noJson (sameKeyTwice.steps.take 3))
        sampleSubscription.name 5).1 =
        .returned ((persistLocked sameKeyTwice.steps[3].env).map fun _ =>
          p.deliveries.map Prod.snd) ∧
      (pull sameKeyTwice.steps[3].env (stateAfter noJson (sameKeyTwice.steps.take 3))
        sampleSubscription.name 5).2.subscriptions[sampleSubscription.name]? = some p.sub := by
  have hsub : (stateAfter noJson (sameKeyTwice.steps.take 3)).subscriptions[
      sampleSubscription.name]? = some sameKeyTwice.before := (Option.some_get _).symm
  refine pull_drains sameKeyTwice (List.prefix_refl _) hsub ?_ 5
  simp [sameKeyTwice, Run.ofCalls, List.mapIdx_cons, Step.numbered]

end RelayPubsub.Memory
