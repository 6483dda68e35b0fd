import RelayPubsub.Memory.AckIds

/-!
# Exactly-once delivery

Two promises an exactly-once subscription makes to whoever holds an ack id, and
how far the store keeps them.

* *An acknowledgement that succeeds has acked.* It acks what is still leased
  under the ids given, and refuses an expired lease; but an id whose lease has
  been swept by a later pull, or given back, is passed over in silence
  (`RelayPubsub.Memory.ack_truthful_iff`).
* *An ack id names one lease for ever.* The id is made of the index and a count
  of attempts, and the count is forgotten by a seek: ids repeat when a seek goes
  back over an index that has been delivered, and only then, as long as the
  count does not wrap (`RelayPubsub.Memory.issued_once`).
-/

namespace RelayPubsub.Memory

open Lib Lib.Ledger

variable {serde : SerdeJson}

/-! ### Acknowledgements that succeed -/

/-- **If the acknowledgement succeeds, every index its ids were issued for is
acked**, and is not handed out again in the run until a seek. -/
def AckTruthful (serde : SerdeJson) (r : Run) (name : Text) (past : List Step) (s : Step)
    (issued : List (Text × ℕ)) : Prop :=
  (acknowledge s.env (stateAfter serde past) name (issued.map Prod.fst)).1 = .ok () →
    ∀ sub, (stateAfter serde (past ++ [s])).subscriptions[name]? = some sub → ∀ x ∈ issued,
      x.2 ∈ sub.acked ∧
      ∀ seg, past ++ [s] ++ seg <+: r.steps →
        Machine.Guarded (exec serde) (Stays serde name) (stateAfter serde (past ++ [s])) seg →
        ∀ ackId, (ackId, x.2) ∉ grantedAlong serde name (stateAfter serde (past ++ [s])) seg

/-- When an acknowledgement answers `Ok`. -/
theorem acknowledge_ok_iff {env : Env} {st : State} {name : Text} {ackIds : List Text}
    {sub : SubscriptionState} (hsub : st.subscriptions[name]? = some sub) :
    (acknowledge env st name ackIds).1 = .ok () ↔
      env.persistFault = none ∧ ∀ ackId ∈ ackIds, ¬sub.Expired (env.now 0) ackId := by
  have hpersist : ∀ st' : State, (answer env () st').1 = .ok () ↔ env.persistFault = none := by
    intro st'
    unfold answer persistLocked
    rcases env.persistFault with - | (_ | _ | _) <;> simp
  have heach : (acknowledgeEach (env.now 0) st.topics[sub.spec.topic]? sub ackIds).1 = .ok () ↔
      ∀ ackId ∈ ackIds, ¬sub.Expired (env.now 0) ackId := acknowledgeEach_ok_iff
  rw [← heach]
  simp only [acknowledge, hsub]
  split
  · rename_i e he
    simp [he]
  · rename_i hok
    rw [hpersist]
    simp [hok]

/-- A lease on the table is on the index its ack id was issued for. -/
theorem topicIndex_of_issued {past : List Step} (hfresh : past.Pairwise Step.Apart) {name : Text}
    {sub : SubscriptionState} (hsub : (stateAfter serde past).subscriptions[name]? = some sub)
    {x : Text × ℕ} (hx : x ∈ (watch serde name past).issued) {entry : Inflight}
    (hentry : sub.inflight[x.1]? = some entry) : entry.topicIndex = x.2 := by
  have hlease := (sub.ledger_lease_eq_some _).mpr ⟨entry, hentry, rfl⟩
  exact (traced_watch hfresh).single _ ((sound_stateAfter hfresh hsub).issued _ _ hlease) _ hx rfl

/-- **An acknowledgement is truthful exactly if** it does not succeed – the state
file cannot be written, or one of its ids names an expired lease –, or every
index its ids were issued for is acked already or still leased under one of
them. -/
theorem ack_truthful_iff (r : Run) (name : Text) {past : List Step} {s : Step}
    (hpast : past ++ [s] <+: r.steps) {sub : SubscriptionState}
    (hsub : (stateAfter serde past).subscriptions[name]? = some sub) {issued : List (Text × ℕ)}
    (hissued : ∀ x ∈ issued, x ∈ (watch serde name past).issued)
    (hcall : s.call = .acknowledge name (issued.map Prod.fst)) :
    AckTruthful serde r name past s issued ↔
      s.env.persistFault ≠ none ∨ (∃ x ∈ issued, sub.Expired (s.env.now 0) x.1) ∨
        ∀ x ∈ issued, x.2 ∈ sub.acked ∨ ∃ y ∈ issued, y.2 = x.2 ∧ y.1 ∈ sub.inflight := by
  have hfresh := r.fresh.sublist hpast.sublist
  have hsub' : (stateAfter serde (past ++ [s])).subscriptions[name]? = some
      (acknowledgeEach (s.env.now 0) (stateAfter serde past).topics[sub.spec.topic]? sub
        (issued.map Prod.fst)).2 := by
    rw [stateAfter_concat]
    simp only [exec, hcall]
    rw [acknowledge_subscriptions hsub, Std.ExtTreeMap.getElem?_insert_self]
  -- what is acked after a call that stops at no expired lease
  have hacked : (∀ x ∈ issued, ¬sub.Expired (s.env.now 0) x.1) → ∀ i,
      i ∈ (acknowledgeEach (s.env.now 0) (stateAfter serde past).topics[sub.spec.topic]? sub
        (issued.map Prod.fst)).2.acked ↔
      i ∈ sub.acked ∨ ∃ y ∈ issued, y.2 = i ∧ y.1 ∈ sub.inflight := by
    intro hlive i
    rw [mem_acked_of_ok (acknowledgeEach_ok_iff.mpr (by simpa using hlive))]
    simp only [List.mem_map, exists_exists_and_eq_and]
    refine or_congr_right (exists_congr fun y => and_congr_right fun hy => ?_)
    have hindex := @topicIndex_of_issued _ _ (List.pairwise_append.mp hfresh).1 _ _ hsub y
      (hissued y hy)
    rw [SubscriptionState.ledger_lease_eq_some, Std.ExtTreeMap.mem_iff_isSome_getElem?,
      Option.isSome_iff_exists]
    constructor
    · rintro ⟨entry, hentry, rfl⟩
      exact ⟨(hindex hentry).symm, entry, hentry⟩
    · rintro ⟨rfl, entry, hentry⟩
      exact ⟨entry, hentry, hindex hentry⟩
  rw [AckTruthful, acknowledge_ok_iff hsub]
  constructor
  · intro htruth
    by_cases hfault : s.env.persistFault = none
    · by_cases hlive : ∀ x ∈ issued, ¬sub.Expired (s.env.now 0) x.1
      · refine Or.inr (Or.inr fun x hx => ?_)
        exact (hacked hlive x.2).mp (htruth ⟨hfault, by simpa using hlive⟩ _ hsub' x hx).1
      · push Not at hlive
        exact Or.inr (Or.inl hlive)
    · exact Or.inl hfault
  · rintro hcond ⟨hfault, hlive⟩ sub' hsub'' x hx
    rw [hsub'] at hsub''
    obtain rfl := Option.some.inj hsub''
    have hlive' : ∀ x ∈ issued, ¬sub.Expired (s.env.now 0) x.1 := by simpa using hlive
    have hmem : x.2 ∈ (acknowledgeEach (s.env.now 0)
        (stateAfter serde past).topics[sub.spec.topic]? sub (issued.map Prod.fst)).2.acked := by
      rw [hacked hlive']
      rcases hcond with hne | ⟨y, hy, hexp⟩ | hall
      · exact absurd hfault hne
      · exact absurd hexp (hlive' y hy)
      · exact hall x hx
    -- and what is acked is not handed out again
    refine ⟨hmem, fun seg hseg hstays ackId => ?_⟩
    exact acked_not_granted (r.fresh.sublist hseg.sublist) hsub' hstays hmem ackId

/-- Two messages of an exactly-once subscription. The first is acknowledged at
once; the second after 11 seconds and another pull. -/
def sweptAck : Run := .ofCalls
  [(0, .createTopic sampleTopic),
   (0, .createSubscription { sampleSubscription with enableExactlyOnceDelivery := true }),
   (0, .publish sampleTopic.name [sampleMessage "", sampleMessage ""]),
   (0, .pull sampleSubscription.name 2),
   (0, .acknowledge sampleSubscription.name [exactlyOnceId sampleSubscription.name 0 1]),
   (seconds 11, .pull sampleSubscription.name 2),
   (seconds 11, .acknowledge sampleSubscription.name [exactlyOnceId sampleSubscription.name 1 1])]

/-- The subscription before the first acknowledgement. -/
def sweptAck.leased : SubscriptionState :=
  ((stateAfter noJson (sweptAck.steps.take 4)).subscriptions[sampleSubscription.name]?).get
    (by decide +kernel)

/-- The first acknowledgement is truthful. -/
theorem sweptAck_truthful : AckTruthful noJson sweptAck sampleSubscription.name
    (sweptAck.steps.take 4) sweptAck.steps[4]
    [(exactlyOnceId sampleSubscription.name 0 1, 0)] := by
  have hsub : (stateAfter noJson (sweptAck.steps.take 4)).subscriptions[sampleSubscription.name]? =
      some sweptAck.leased := (Option.some_get _).symm
  refine (ack_truthful_iff sweptAck sampleSubscription.name ⟨sweptAck.steps.drop 5, rfl⟩ hsub
    (by decide +kernel) rfl).mpr (Or.inr (Or.inr ?_))
  decide +kernel

/-- The second one, of an id that the pull handed out, answers `Ok`, and the
message is not acked. -/
theorem sweptAck_not_truthful :
    (exactlyOnceId sampleSubscription.name 1 1, 1) ∈
        (watch noJson sampleSubscription.name (sweptAck.steps.take 6)).issued ∧
      ¬AckTruthful noJson sweptAck sampleSubscription.name (sweptAck.steps.take 6)
        sweptAck.steps[6] [(exactlyOnceId sampleSubscription.name 1 1, 1)] := by
  refine ⟨by decide +kernel, fun h => ?_⟩
  have hacked : ((stateAfter noJson (sweptAck.steps.take 6 ++ [sweptAck.steps[6]])).subscriptions[
      sampleSubscription.name]?.any fun sub => 1 ∉ sub.acked) = true := by
    decide +kernel
  obtain ⟨sub, hsub, hacked⟩ := (Option.any_eq_true _ _).mp hacked
  exact of_decide_eq_true hacked (h (by decide +kernel) sub hsub _ List.mem_cons_self).1

/-! ### Ack ids are not handed out again -/

/-- There is a lease under the id. -/
def OnTable (name : Text) (st : State) (ackId : Text) : Prop :=
  ∃ sub entry, st.subscriptions[name]? = some sub ∧ sub.inflight[ackId]? = some entry

/-- **A lease that has ended does not come back**, as long as no id is handed out
twice. -/
theorem not_onTable_step {name : Text} {past : List Step} {s : Step}
    (hfresh : (past ++ [s]).Pairwise Step.Apart)
    (hthere : name ∈ (stateAfter serde past).subscriptions)
    (hdistinct : ((watch serde name (past ++ [s])).issued.map Prod.fst).Nodup) {ackId : Text}
    (hissued : ackId ∈ (watch serde name past).issued.map Prod.fst)
    (hended : ¬OnTable name (stateAfter serde past) ackId) :
    ackId ∈ (watch serde name (past ++ [s])).issued.map Prod.fst ∧
      ¬OnTable name (stateAfter serde (past ++ [s])) ackId := by
  obtain ⟨sub, hsub⟩ := Option.isSome_iff_exists.mp
    (Std.ExtTreeMap.mem_iff_isSome_getElem?.mp hthere)
  rw [← watch_state name] at hsub
  rw [watch_concat] at hdistinct ⊢
  have hgrown : ((watch serde name past).step serde name s).issued =
      (watch serde name past).issued ++ granted name (watch serde name past).state s := by
    rw [Watched.step_of_some hsub]
  constructor
  · rw [hgrown, List.map_append]
    exact List.mem_append_left _ hissued
  · rintro ⟨sub', entry', hsub', hentry'⟩
    rw [stateAfter_concat, ← watch_state name] at hsub'
    have hlease := (sub'.ledger_lease_eq_some _).mpr ⟨entry', hentry', rfl⟩
    have hpast := (List.pairwise_append.mp hfresh).1
    rcases step_cases hfresh (fun sub hsub => sound_watch hpast hsub) hsub' with
      hledger | ⟨sub₁, es, hsub₁, htrace, -, hgrants, -⟩
    · rw [hledger] at hlease
      cases hlease
    · rcases htrace.lease_of (fun _ _ h => h.rewind) hlease with hheld | hgranted
      · obtain ⟨entry, hentry, -⟩ := (sub₁.ledger_lease_eq_some _).mp hheld
        rw [watch_state] at hsub₁
        exact hended ⟨sub₁, entry, hsub₁, hentry⟩
      · rw [hgrants, List.map_append] at hdistinct
        exact (List.disjoint_of_nodup_append hdistinct) hissued
          (List.mem_map_of_mem (f := Prod.fst) hgranted)

/-- **An ack id names one lease for ever, in the runs that advance**: whose seeks
go past what has been handed out, and whose counters of attempts do not wrap. No
id is handed out twice, and a lease that has ended is not found again under its
id. -/
theorem issued_once (r : Run) (name : Text)
    (hadv : Machine.Guarded (Watched.step serde name) (Advances name) {} r.steps) :
    Machine.Always (Watched.step serde name) (fun w => (w.issued.map Prod.fst).Nodup) {} r.steps ∧
      ∀ past seg, past ++ seg <+: r.steps →
        Machine.Guarded (exec serde) (fun st _ => name ∈ st.subscriptions) (stateAfter serde past)
          seg →
        ∀ ackId ∈ (watch serde name past).issued.map Prod.fst,
          ¬OnTable name (stateAfter serde past) ackId →
          ¬OnTable name (stateAfter serde (past ++ seg)) ackId := by
  have hdistinct := distinct_watch r hadv
  refine ⟨fun past hpast => (hdistinct past hpast).nodup, ?_⟩
  intro past seg hpast hthere ackId hissued hended
  suffices h : ackId ∈ (watch serde name (past ++ seg)).issued.map Prod.fst ∧
      ¬OnTable name (stateAfter serde (past ++ seg)) ackId from h.2
  induction seg using List.reverseRecOn with
  | nil => exact ⟨by simpa using hissued, by simpa using hended⟩
  | append_singleton seg s ih =>
    rw [← List.append_assoc] at hpast ⊢
    rw [Machine.guarded_concat, ← stateAfter_append] at hthere
    obtain ⟨hissued', hended'⟩ := ih ((List.prefix_append _ _).trans hpast) hthere.1
    exact not_onTable_step (r.fresh.sublist hpast.sublist) hthere.2 (hdistinct _ hpast).nodup
      hissued' hended'

/-- A message of an exactly-once subscription pulled twice: again after its lease
has run out, and the delay before the retry has passed. -/
def retried : Run := .ofCalls
  [(0, .createTopic sampleTopic),
   (0, .createSubscription { sampleSubscription with enableExactlyOnceDelivery := true }),
   (0, .publish sampleTopic.name [sampleMessage ""]),
   (0, .pull sampleSubscription.name 1),
   (seconds 11, .pull sampleSubscription.name 1),
   (seconds 22, .pull sampleSubscription.name 1)]

/-- The message pulled twice has been leased under two ids. -/
theorem retried_issued : (watch noJson sampleSubscription.name retried.steps).issued =
      [(exactlyOnceId sampleSubscription.name 0 1, 0),
        (exactlyOnceId sampleSubscription.name 0 2, 0)] ∧
    ((watch noJson sampleSubscription.name retried.steps).issued.map Prod.fst).Nodup := by
  have hseeks : ∀ past ∈ retried.steps.inits, ∀ s ∈ retried.steps,
      seekTarget sampleSubscription.name (watch noJson sampleSubscription.name past).state s =
        none := by
    decide +kernel
  have hcounts : ∀ past ∈ retried.steps.inits,
      ((watch noJson sampleSubscription.name past).state.subscriptions[
        sampleSubscription.name]?.all fun sub => ∀ e ∈ sub.attempts.toList, e.2 ≠ 0) = true := by
    decide +kernel
  refine ⟨by decide +kernel, (issued_once retried sampleSubscription.name ?_).1 _
    (List.prefix_refl _)⟩
  intro past s hpast
  have hinits := (List.mem_inits _ _).mpr ((List.prefix_append past [s]).trans hpast)
  refine ⟨fun n hn => ?_, fun _ sub _ hsub i hi => ?_⟩
  · rw [← watch, hseeks past hinits s (hpast.subset (by simp))] at hn
    cases hn
  · have hall := hcounts past hinits
    rw [watch, hsub, Option.all_some] at hall
    have hmem := Std.ExtTreeMap.mem_toList_iff_getElem?_eq_some.mpr hi
    exact absurd rfl (of_decide_eq_true hall _ hmem)

/-- A seek that goes back over a message pulled. -/
def soughtBack : Run := .ofCalls
  [(0, .createTopic sampleTopic),
   (0, .createSubscription { sampleSubscription with enableExactlyOnceDelivery := true }),
   (0, .publish sampleTopic.name [sampleMessage ""]),
   (0, .pull sampleSubscription.name 1),
   (0, .seekToTime sampleSubscription.name 0),
   (0, .pull sampleSubscription.name 1)]

/-- The id of the first lease is handed out again. -/
theorem soughtBack_repeats : ¬Machine.Always (Watched.step noJson sampleSubscription.name)
    (fun w => (w.issued.map Prod.fst).Nodup) {} soughtBack.steps := by
  intro h
  have hissued : (watch noJson sampleSubscription.name soughtBack.steps).issued =
      [(exactlyOnceId sampleSubscription.name 0 1, 0),
        (exactlyOnceId sampleSubscription.name 0 1, 0)] := by
    decide +kernel
  have hnodup := h.last
  rw [← watch, hissued] at hnodup
  simp at hnodup

end RelayPubsub.Memory
