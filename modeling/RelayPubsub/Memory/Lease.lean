import RelayPubsub.Memory.History

/-!
# Leases are exclusive, and acks are final

In every state of every run the indices a subscription has taken are kept in at
most one of its three sets (`RelayPubsub.Memory.PlacesApart`). So a pull hands
out no index twice, and none whose lease has not run out; and an index that is
acked is not handed out again before the next seek
(`RelayPubsub.Memory.lease_exclusivity`).
-/

namespace RelayPubsub.Memory

open Lib Lib.Ledger

variable {serde : SerdeJson}

/-- **The three sets of a subscription are apart**, and below its cursor. -/
structure PlacesApart (sub : SubscriptionState) : Prop where
  /-- No index is leased twice. -/
  lease_inj : ∀ {ackId ackId' : Text} {entry entry' : Inflight}, sub.inflight[ackId]? = some entry →
    sub.inflight[ackId']? = some entry' → entry.topicIndex = entry'.topicIndex → ackId = ackId'
  /-- No index waits twice. -/
  queue_nodup : (sub.retryQueue.map (·.topicIndex)).Nodup
  leased_acked : ∀ {i}, sub.Leased i → i ∉ sub.acked
  leased_queued : ∀ {i}, sub.Leased i → ¬sub.Queued i
  queued_acked : ∀ {i}, sub.Queued i → i ∉ sub.acked
  leased_lt : ∀ {i}, sub.Leased i → i < sub.nextIndex
  queued_lt : ∀ {i}, sub.Queued i → i < sub.nextIndex
  acked_lt : ∀ {i}, i ∈ sub.acked → i < sub.nextIndex

/-- The places of a subscription are those of its ledger. -/
theorem placesApart_of_exclusive {sub : SubscriptionState} (h : Exclusive sub.ledger) :
    PlacesApart sub where
  lease_inj := by
    intro ackId ackId' entry entry' hentry hentry' hindex
    refine h.lease_inj (i := entry.topicIndex) ?_ ?_
    · exact (sub.ledger_lease_eq_some _).mpr ⟨entry, hentry, rfl⟩
    · exact (sub.ledger_lease_eq_some _).mpr ⟨entry', hentry', hindex.symm⟩
  queue_nodup := Multiset.coe_nodup.mp h.nodup
  leased_acked := fun hl => h.not_done_of_held ((sub.ledger_held_iff _).mpr hl)
  leased_queued := by
    intro i hl hq
    obtain ⟨ackId, hlease⟩ := (sub.ledger_held_iff i).mpr hl
    exact h.lease_waiting hlease ((sub.mem_ledger_waiting i).mpr hq)
  queued_acked := fun hq => h.waiting_done ((sub.mem_ledger_waiting _).mpr hq)
  leased_lt := by
    intro i hl
    obtain ⟨ackId, hlease⟩ := (sub.ledger_held_iff i).mpr hl
    exact h.lease_lt hlease
  queued_lt := fun hq => h.waiting_lt ((sub.mem_ledger_waiting _).mpr hq)
  acked_lt := h.done_lt

section Runs

variable {name : Text} {past : List Step} {s : Step}

/-- A subscription is sound in the state a run has reached. -/
theorem sound_stateAfter (hfresh : past.Pairwise Step.Apart) {sub : SubscriptionState}
    (hsub : (stateAfter serde past).subscriptions[name]? = some sub) :
    Sound name past (watch serde name past) sub :=
  sound_watch hfresh (by rwa [watch_state])

/-- **One pull hands out every index once**, and none that has a live lease. -/
theorem granted_apart (hfresh : (past ++ [s]).Pairwise Step.Apart) :
    ((granted name (stateAfter serde past) s).map Prod.snd).Nodup ∧
      ∀ sub (ackId : Text) (entry : Inflight),
        (stateAfter serde past).subscriptions[name]? = some sub →
        sub.inflight[ackId]? = some entry → s.env.now 0 < entry.deadline →
        ∀ ackId', (ackId', entry.topicIndex) ∉ granted name (stateAfter serde past) s := by
  rcases granted_cases name (stateAfter serde past) s with
    hnone | ⟨maxMessages, sub, topic, p, -, hsub, -, hp, hgranted⟩
  · rw [hnone]
    exact ⟨List.nodup_nil, fun _ _ _ _ _ _ _ => List.not_mem_nil⟩
  · have hsound := sound_stateAfter (List.pairwise_append.mp hfresh).1 hsub
    obtain ⟨es, es', hes, hes', hhanded, -, -⟩ := @pullFrom_trace _ _ _ _ _ _ _ False [] _ hp
      hsound.exclusive hsound.named (undrawn_of_apart hfresh) False.elim False.elim
    have hx := hes.exclusive hsound.exclusive
    rw [hgranted, hhanded]
    refine ⟨hes'.grants_nodup (fun _ _ h => h.1) hx, ?_⟩
    intro sub₁ ackId entry hsub₁ hentry hlive ackId'
    rw [hsub] at hsub₁
    obtain rfl := Option.some.inj hsub₁
    have hheld : (sweep s.env sub).ledger.Held entry.topicIndex :=
      ⟨ackId, ((sweep s.env sub).ledger_lease_eq_some _).mpr
        ⟨entry, getElem?_of_sweep.mpr ⟨hentry, hlive⟩, rfl⟩⟩
    exact hes'.not_granted_of_held (fun _ _ h => h.1) hx hheld ackId'

/-- A lease handed out by a pull is on the table after it. -/
theorem leased_of_granted (hfresh : (past ++ [s]).Pairwise Step.Apart) {ackId : Text} {i : ℕ}
    (h : (ackId, i) ∈ granted name (stateAfter serde past) s) :
    ∃ sub entry, (stateAfter serde (past ++ [s])).subscriptions[name]? = some sub ∧
      sub.inflight[ackId]? = some entry ∧ entry.topicIndex = i := by
  rcases granted_cases name (stateAfter serde past) s with
    hnone | ⟨maxMessages, sub, topic, p, hcall, hsub, htopic, hp, hgranted⟩
  · rw [hnone] at h
    cases h
  · have hsound := sound_stateAfter (List.pairwise_append.mp hfresh).1 hsub
    obtain ⟨es, es', hes, hes', hhanded, -, -⟩ := @pullFrom_trace _ _ _ _ _ _ _ False [] _ hp
      hsound.exclusive hsound.named (undrawn_of_apart hfresh) False.elim False.elim
    rw [hgranted, hhanded] at h
    obtain ⟨entry, hentry, hindex⟩ := (p.sub.ledger_lease_eq_some i).mp
      (hes'.lease_of_granted (fun _ _ h => h.1) (Or.inr h))
    refine ⟨p.sub, entry, ?_, hentry, hindex⟩
    rw [stateAfter_concat]
    simp [exec, hcall, pull, hsub, htopic, hp]

/-- **An acked index is not handed out again** while the subscription stays. -/
theorem acked_not_granted {seg : List Step} (hfresh : (past ++ seg).Pairwise Step.Apart)
    {sub : SubscriptionState} (hsub : (stateAfter serde past).subscriptions[name]? = some sub)
    (hstays : Machine.Guarded (exec serde) (Stays serde name) (stateAfter serde past) seg) {i : ℕ}
    (hi : i ∈ sub.acked) (ackId : Text) :
    (ackId, i) ∉ grantedAlong serde name (stateAfter serde past) seg := by
  have hsound := sound_stateAfter (List.pairwise_append.mp hfresh).1 hsub
  obtain ⟨_, es, -, htrace, hgrants, -⟩ := @segment_trace _ _ _ _ _ False False [] hfresh hsub
    hstays False.elim False.elim False.elim
  rw [← hgrants]
  exact htrace.not_granted (fun _ _ h => h.rewind) hsound.exclusive hi ackId

end Runs

/-- **Leases are exclusive and acks are final**, in every run: the three sets of a
subscription are apart in every state; a pull hands out no index twice, and none
under a live lease; and no index acked at some point is handed out later, unless
a seek intervenes or the subscription is removed. -/
theorem lease_exclusivity (r : Run) (name : Text) :
    (∀ past, past <+: r.steps → ∀ sub, (stateAfter serde past).subscriptions[name]? = some sub →
      PlacesApart sub) ∧
    (∀ past s, past ++ [s] <+: r.steps →
      ((granted name (stateAfter serde past) s).map Prod.snd).Nodup ∧
        ∀ sub (ackId : Text) (entry : Inflight),
          (stateAfter serde past).subscriptions[name]? = some sub →
          sub.inflight[ackId]? = some entry → s.env.now 0 < entry.deadline →
          ∀ ackId', (ackId', entry.topicIndex) ∉ granted name (stateAfter serde past) s) ∧
    (∀ past seg, past ++ seg <+: r.steps →
      ∀ sub, (stateAfter serde past).subscriptions[name]? = some sub →
      Machine.Guarded (exec serde) (Stays serde name) (stateAfter serde past) seg →
      ∀ i ∈ sub.acked, ∀ ackId,
        (ackId, i) ∉ grantedAlong serde name (stateAfter serde past) seg) := by
  refine ⟨fun past hpast sub hsub => ?_, fun past s hpast => ?_,
    fun past seg hpast sub hsub hstays i hi ackId => ?_⟩
  · exact placesApart_of_exclusive (sound_stateAfter (r.fresh.sublist hpast.sublist) hsub).exclusive
  · exact granted_apart (r.fresh.sublist hpast.sublist)
  · exact acked_not_granted (r.fresh.sublist hpast.sublist) hsub hstays hi ackId

end RelayPubsub.Memory
