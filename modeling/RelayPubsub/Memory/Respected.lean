import RelayPubsub.Memory.Attempts
import RelayPubsub.Memory.Bounds
import RelayPubsub.Memory.Lease

/-!
# Filters are valid, immutable and respected

A filter is checked when the subscription is created and never written again, so that the
one found in the store is the one of that call and parses
(`RelayPubsub.Memory.filter_created`, `RelayPubsub.Memory.filter_parses`). What is
delivered or moved to a dead-letter topic by a pull then matches it, and what is acked
because of it does not, as long as no topic is created again under leases and attempts
that are left from the one before (`RelayPubsub.Memory.filters_respected`).

The attempts matter because a pull counts one, and asks whether it is one too many, before
it looks at the filter. A message that does not match is attempted once; the counter of its
index says more only if it was counted at another message.

| what is left on an index that is not acked | what it does to a message that does not match |
|---|---|
| a lease | the message is leased |
| five attempts or more | the message is moved to the dead-letter topic |
-/

namespace RelayPubsub.Memory

open Lib Lib.Ledger

/-! ### The filter of a subscription -/

/-- **The message matches the filter** of the subscription, which parses. -/
def Matches (spec : SubscriptionSpec) (message : RelayMessage) : Prop :=
  ∃ filter, AttributeFilter.parse spec.filter = .ok filter ∧
    filter.matches message.attributes = true

/-- **The message does not match the filter** of the subscription, which parses. -/
def Mismatches (spec : SubscriptionSpec) (message : RelayMessage) : Prop :=
  ∃ filter, AttributeFilter.parse spec.filter = .ok filter ∧
    filter.matches message.attributes = false

section Filters

variable {spec : SubscriptionSpec} {message : RelayMessage}

/-- A blank filter parses, and matches every message. -/
theorem parse_blank {filter : Text} (h : trim filter = []) :
    AttributeFilter.parse filter = .ok ⟨[], none⟩ := by
  rw [AttributeFilter.parse]
  exact if_pos h

/-- What passes the check at creation parses. -/
theorem FilterAccepted.parses {filter : Text} (h : FilterAccepted filter) :
    ∃ f, AttributeFilter.parse filter = .ok f :=
  h.elim (fun hblank => ⟨_, parse_blank hblank⟩) id

/-- What a pull asks of a filter that parses is whether the message matches. -/
theorem filterRejects_of_parse {filter : AttributeFilter}
    (h : AttributeFilter.parse spec.filter = .ok filter) :
    filterRejects spec message = !filter.matches message.attributes := by
  unfold filterRejects
  split_ifs with hempty
  · rw [hempty, parse_blank rfl] at h
    rw [← Except.ok.inj h]
    rfl
  · rw [h]

theorem matches_iff (h : ∃ filter, AttributeFilter.parse spec.filter = .ok filter) :
    Matches spec message ↔ filterRejects spec message = false := by
  obtain ⟨filter, hfilter⟩ := h
  simp [Matches, filterRejects_of_parse hfilter, hfilter]

theorem mismatches_iff (h : ∃ filter, AttributeFilter.parse spec.filter = .ok filter) :
    Mismatches spec message ↔ filterRejects spec message = true := by
  obtain ⟨filter, hfilter⟩ := h
  simp [Mismatches, filterRejects_of_parse hfilter, hfilter]

/-- A blank filter rejects nothing. -/
theorem filterRejects_of_blank (h : trim spec.filter = []) :
    filterRejects spec message = false := by
  rw [filterRejects_of_parse (parse_blank h)]
  rfl

end Filters

/-! ### Valid and immutable -/

variable {serde : SerdeJson}

/-- **The call that created the subscription** found under a name after some steps: from
that step on the name has been taken in every state. -/
def CreatedBy (serde : SerdeJson) (steps : List Step) (name : Text) (arg : SubscriptionSpec) :
    Prop :=
  ∃ (past : List Step) (s : Step) (rest : List Step), steps = past ++ [s] ++ rest ∧
    s.call = .createSubscription arg ∧ arg.name = name ∧
    name ∉ (stateAfter serde past).subscriptions ∧
    Machine.Always (exec serde) (fun st => name ∈ st.subscriptions)
      (stateAfter serde (past ++ [s])) rest

/-- A subscription that is still there has been created by the same call. -/
theorem CreatedBy.concat {steps : List Step} {s : Step} {name : Text} {arg : SubscriptionSpec}
    (h : CreatedBy serde steps name arg)
    (hmem : name ∈ (exec serde (stateAfter serde steps) s).subscriptions) :
    CreatedBy serde (steps ++ [s]) name arg := by
  obtain ⟨past, t, rest, rfl, hcall, hname, hnew, hthere⟩ := h
  refine ⟨past, t, rest ++ [s], by simp, hcall, hname, hnew, Machine.always_concat.mpr ⟨hthere, ?_⟩⟩
  rwa [← stateAfter_append]

/-- **A filter is the one of the call that created the subscription**, and was accepted by
it. -/
theorem filter_created {steps : List Step} {name : Text} {sub : SubscriptionState}
    (hsub : (stateAfter serde steps).subscriptions[name]? = some sub) :
    ∃ arg, CreatedBy serde steps name arg ∧ sub.spec.filter = arg.filter ∧
      FilterAccepted arg.filter := by
  induction steps using List.reverseRecOn generalizing sub with
  | nil => simp [stateAfter] at hsub
  | append_singleton past s ih =>
    rw [stateAfter_concat] at hsub
    have hmem : name ∈ (exec serde (stateAfter serde past) s).subscriptions := by
      rw [Std.ExtTreeMap.mem_iff_isSome_getElem?, hsub]
      rfl
    rcases hbefore : (stateAfter serde past).subscriptions[name]? with - | sub₀
    · have hstep := specStep_of_exec serde name (stateAfter serde past) s
      rw [specAt, specAt, hbefore, hsub, Option.map_none, Option.map_some] at hstep
      generalize sub.spec = spec at hstep
      cases hstep with
      | @create arg _ hcall hname _ hfilter _ =>
        refine ⟨arg, ⟨past, s, [], by simp, hcall, hname, by simpa using hbefore, ?_⟩, rfl, hfilter⟩
        rw [stateAfter_concat]
        exact Machine.always_nil hmem
    · obtain ⟨arg, hcreated, hfilter, haccepted⟩ := ih hbefore
      exact ⟨arg, hcreated.concat hmem, (filter_of_exec hbefore hsub).trans hfilter, haccepted⟩

/-- **A filter that is stored parses.** -/
theorem filter_parses {steps : List Step} {name : Text} {sub : SubscriptionState}
    (hsub : (stateAfter serde steps).subscriptions[name]? = some sub) :
    ∃ filter, AttributeFilter.parse sub.spec.filter = .ok filter := by
  obtain ⟨arg, -, hfilter, haccepted⟩ := filter_created hsub
  rw [hfilter]
  exact haccepted.parses

/-! ### Respected -/

/-- **Every lease in force is on a message that matches**, where the log has the message. -/
def LeasesMatch (st : State) : Prop :=
  ∀ (name : Text) (sub : SubscriptionState) (topic : TopicState),
    st.subscriptions[name]? = some sub → st.topics[sub.spec.topic]? = some topic →
    ∀ (ackId : Text) (entry : Inflight) (message : RelayMessage),
      sub.inflight[ackId]? = some entry → topic.messages[entry.topicIndex]? = some message →
      Matches sub.spec message

/-- **What a pull makes of the filter**: it delivers and moves to the dead-letter topic only
what matches, and acks because of the filter only what does not. -/
structure Fates.Respect {name : Text} (spec : SubscriptionSpec) (f : Fates name) : Prop where
  delivered : ∀ d ∈ f.delivered, Matches spec d.2.message
  dead : ∀ d ∈ f.dead, Matches spec d.original
  filtered : ∀ d ∈ f.filtered, Mismatches spec d.2

/-- **A pull respects the filter** of its subscription, whether it finishes or panics. -/
def PullRespects (st : State) (s : Step) : Prop :=
  ∀ (name : Text) (maxMessages : UInt32) (sub : SubscriptionState) (topic : TopicState),
    s.call = .pull name maxMessages → st.subscriptions[name]? = some sub →
    st.topics[sub.spec.topic]? = some topic →
    ∃ (p : Pulling) (f : Fates name),
      (pullFrom s.env name maxMessages sub st.topics topic.messages.length = .finished p ∨
        pullFrom s.env name maxMessages sub st.topics topic.messages.length = .panicked p) ∧
      f.delivered = p.deliveries ∧ Visited sub.spec.topic sub st.topics f p.sub p.topics ∧
      f.Respect sub.spec

/-- **Filters are valid, immutable and respected** along the steps. -/
structure FiltersRespected (serde : SerdeJson) (steps : List Step) : Prop where
  created : ∀ (past : List Step) (name : Text) (sub : SubscriptionState), past <+: steps →
    (stateAfter serde past).subscriptions[name]? = some sub →
    ∃ arg, CreatedBy serde past name arg ∧ sub.spec.filter = arg.filter
  parses : ∀ (past : List Step) (name : Text) (sub : SubscriptionState), past <+: steps →
    (stateAfter serde past).subscriptions[name]? = some sub →
    ∃ filter, AttributeFilter.parse sub.spec.filter = .ok filter
  leases : Machine.Always (exec serde) LeasesMatch {} steps
  pulls : Machine.Guarded (exec serde) PullRespects {} steps

/-- **The message could not be dead-lettered at its first attempt**, were it the next one
counted at the index. -/
def FewAttempts (sub : SubscriptionState) (i : ℕ) : Prop := sub.attempts[i]?.getD 0 < 5

/-- **A topic is created clear of what filters are about**: a subscription with a filter
that is on its name has no lease, and on no unacked index five attempts or more. -/
def CreatesClear (serde : SerdeJson) (st : State) (s : Step) : Prop :=
  ∀ topic : Text, topic ∉ st.topics → topic ∈ (exec serde st s).topics →
    ∀ (name : Text) (sub : SubscriptionState), st.subscriptions[name]? = some sub →
      sub.spec.topic = topic → trim sub.spec.filter ≠ [] →
      (∀ ackId : Text, ackId ∉ sub.inflight) ∧ ∀ i, i ∉ sub.acked → FewAttempts sub i

/-- **What a subscription keeps of the log agrees with its filter**: its leases are on
messages that the filter accepts, and an unacked index of another message, or beyond the
end of the log, has few attempts. -/
structure Agrees (sub : SubscriptionState) (log : List RelayMessage) : Prop where
  leases : ∀ (ackId : Text) (entry : Inflight), sub.inflight[ackId]? = some entry →
    ∃ message, log[entry.topicIndex]? = some message ∧ filterRejects sub.spec message = false
  attempts : ∀ i, i ∉ sub.acked →
    (∀ message, log[i]? = some message → filterRejects sub.spec message = true) → FewAttempts sub i

section Agrees

variable {name : Text} {sub sub' : SubscriptionState} {log log' : List RelayMessage}
  {topics topics' : StrMap TopicState} {topic topic' : TopicState} {f : Fates name}

/-- Nothing is kept of the log. -/
theorem agrees_of_cleared (hinflight : sub.inflight = ∅) (hattempts : sub.attempts = ∅) :
    Agrees sub log where
  leases ackId entry hentry := by simp [hinflight] at hentry
  attempts i _ _ := by simp [FewAttempts, hattempts]

/-- An index whose message is rejected as long as the log is longer. -/
theorem rejected_of_isPrefix {i : ℕ} (hlog : log <+: log')
    (h : ∀ message, log'[i]? = some message → filterRejects sub.spec message = true) :
    ∀ message, log[i]? = some message → filterRejects sub.spec message = true := by
  intro message hmessage
  exact h message (getElem?_of_isPrefix hlog hmessage)

/-- **A step that counts no attempt and hands out no lease**, while the log grows. -/
theorem Agrees.of_frame (h : Agrees sub log) (hlog : log <+: log')
    (hfilter : sub'.spec.filter = sub.spec.filter) (hacked : sub.acked ⊆ sub'.acked)
    (hattempts : sub'.attempts = sub.attempts)
    (hinflight : ∀ (ackId : Text) (entry : Inflight), sub'.inflight[ackId]? = some entry →
      ∃ entry', sub.inflight[ackId]? = some entry' ∧ entry'.topicIndex = entry.topicIndex) :
    Agrees sub' log' := by
  have hrejects : ∀ message, filterRejects sub'.spec message = filterRejects sub.spec message := by
    intro message
    unfold filterRejects
    rw [hfilter]
  refine ⟨fun ackId entry hentry => ?_, fun i hi hmessage => ?_⟩
  · obtain ⟨entry', hentry', hindex⟩ := hinflight ackId entry hentry
    obtain ⟨message, hmessage, haccepts⟩ := h.leases ackId entry' hentry'
    rw [← hindex]
    exact ⟨message, getElem?_of_isPrefix hlog hmessage, (hrejects message).trans haccepts⟩
  · rw [FewAttempts, hattempts]
    refine h.attempts i (fun hin => hi (hacked hin)) (rejected_of_isPrefix hlog fun m hm => ?_)
    rw [← hrejects]
    exact hmessage m hm

/-- **A pull**: what it leases is accepted, and an index it serves of a message that is not
is acked. -/
theorem Agrees.visited (h : Agrees sub topic.messages)
    (htopic : topics[sub.spec.topic]? = some topic)
    (htopic' : topics'[sub.spec.topic]? = some topic')
    (hv : Visited sub.spec.topic sub topics f sub' topics')
    (hleases : ∀ (ackId : Text) (entry : Inflight), sub'.inflight[ackId]? = some entry →
      (∃ entry', sub.inflight[ackId]? = some entry' ∧ entry'.topicIndex = entry.topicIndex) ∨
        ∃ d ∈ f.delivered, d.1 = entry.topicIndex) : Agrees sub' topic'.messages := by
  obtain ⟨_, hsome, hlog⟩ := hv.topicsGrow.get htopic
  obtain rfl := Option.some.inj (htopic'.symm.trans hsome)
  have hdelivered : ∀ d ∈ f.delivered, ∃ message, topic'.messages[d.1]? = some message ∧
      filterRejects sub'.spec message = false := by
    intro d hd
    obtain ⟨⟨topic₁, htopic₁, hmessage⟩, -, haccepts, -⟩ := hv.delivered d hd
    obtain rfl := Option.some.inj (htopic'.symm.trans htopic₁)
    exact ⟨d.2.message, hmessage, hv.spec ▸ haccepts⟩
  refine ⟨fun ackId entry hentry => ?_, fun i hi hrejects => ?_⟩
  · rcases hleases ackId entry hentry with ⟨entry', hentry', hindex⟩ | ⟨d, hd, hindex⟩
    · obtain ⟨message, hmessage, haccepts⟩ := h.leases ackId entry' hentry'
      rw [← hindex, hv.spec]
      exact ⟨message, getElem?_of_isPrefix hlog hmessage, haccepts⟩
    · rw [← hindex]
      exact hdelivered d hd
  · have hunserved : i ∉ f.indices := by
      intro hserved
      rcases List.mem_append.mp hserved with hsettled | hmem
      · exact hi ((hv.acked i).mpr (Or.inr hsettled))
      · obtain ⟨d, hd, rfl⟩ := List.mem_map.mp hmem
        obtain ⟨message, hmessage, haccepts⟩ := hdelivered d hd
        rw [hrejects message hmessage] at haccepts
        cases haccepts
    rw [FewAttempts, hv.attempts, if_neg hunserved]
    refine h.attempts i (fun hin => hi ((hv.acked i).mpr (Or.inl hin))) ?_
    rw [hv.spec] at hrejects
    exact rejected_of_isPrefix hlog hrejects

/-- **An index with few attempts is not attempted once too often.** -/
theorem FewAttempts.not_exhausted {i : ℕ} (h : FewAttempts sub i) : ¬Exhausted sub topics i := by
  rintro ⟨policy, -, -, hmany⟩
  have hfive := five_le_clamp policy.maxDeliveryAttempts
  rw [FewAttempts, UInt32.lt_iff_toNat_lt] at h
  rw [UInt32.le_iff_toNat_le] at hfive
  rw [UInt32.lt_iff_toNat_lt, SubscriptionState.nextAttempt, UInt32.toNat_add] at hmany
  simp only [UInt32.reduceToNat] at h hfive hmany
  omega

end Agrees

/-- **Every subscription with a filter agrees with the log of its topic.** -/
def AllAgree (st : State) : Prop :=
  ∀ (name : Text) (sub : SubscriptionState) (topic : TopicState),
    st.subscriptions[name]? = some sub → trim sub.spec.filter ≠ [] →
    st.topics[sub.spec.topic]? = some topic → Agrees sub topic.messages

section Steps

variable {past : List Step} {s : Step}

/-- **A step keeps the agreement**, if it creates no topic where something is left that
filters are about. -/
theorem AllAgree.step (hfresh : (past ++ [s]).Pairwise Step.Apart)
    (h : AllAgree (stateAfter serde past)) (hclear : CreatesClear serde (stateAfter serde past) s) :
    AllAgree (exec serde (stateAfter serde past) s) := by
  intro name sub' topic' hsub' hblank htopic'
  have htouch := touch_of_exec serde name (stateAfter serde past) s
  rw [hsub'] at htouch
  rcases hsub : (stateAfter serde past).subscriptions[name]? with - | sub
  · rw [hsub] at htouch
    cases htouch with
    | create _ _ _ _ => exact agrees_of_cleared rfl rfl
  rw [hsub] at htouch
  rcases hr : seekTarget name (stateAfter serde past) s with - | n
  case some =>
    cases htouch with
    | rewind _ _ => exact agrees_of_cleared rfl rfl
    | same _ hnone _ | respec hnone _ _ | pull _ _ _ hnone _ | acknowledge _ hnone _
    | modify _ hnone _ =>
      rw [hr] at hnone
      cases hnone
  have hsound := sound_stateAfter (List.pairwise_append.mp hfresh).1 hsub
  obtain ⟨es, htrace, hgrants, -, htopicName⟩ := @step_trace _ _ _ _ _ _ _ False [] hsub hsub' hr
    hsound.exclusive hsound.named (undrawn_of_apart hfresh) False.elim False.elim
  have hfilter : sub'.spec.filter = sub.spec.filter := filter_of_exec hsub hsub'
  rw [hfilter] at hblank
  rw [htopicName] at htopic'
  have hacked : sub.acked ⊆ sub'.acked := htrace.done_subset fun _ _ h => h.rewind
  -- a lease was there before, or has been handed out by the step
  have hleases : ∀ (ackId : Text) (entry : Inflight), sub'.inflight[ackId]? = some entry →
      (∃ entry', sub.inflight[ackId]? = some entry' ∧ entry'.topicIndex = entry.topicIndex) ∨
        (ackId, entry.topicIndex) ∈ granted name (stateAfter serde past) s := by
    intro ackId entry hentry
    have hlease := (sub'.ledger_lease_eq_some entry.topicIndex).mpr ⟨entry, hentry, rfl⟩
    rw [← hgrants]
    exact (htrace.lease_of (fun _ _ h => h.rewind) hlease).imp_left
      (sub.ledger_lease_eq_some entry.topicIndex).mp
  rcases topic_cases htopic' with ⟨topic, htopic, hlog⟩ | ⟨hnew, spec, hcall, rfl⟩
  · have hagrees := h name sub topic hsub hblank htopic
    have hquiet : granted name (stateAfter serde past) s = [] → sub'.attempts = sub.attempts →
        Agrees sub' topic'.messages := by
      intro hnone hattempts
      refine hagrees.of_frame hlog hfilter hacked hattempts fun ackId entry hentry => ?_
      refine (hleases ackId entry hentry).resolve_right ?_
      rw [hnone]
      exact List.not_mem_nil
    cases htouch with
    | same _ _ hg => exact hquiet hg rfl
    | respec _ hg _ => exact hquiet hg rfl
    | acknowledge _ _ hg => exact hquiet hg (acknowledgeEach_frame _ _ _ _).2.2.1
    | modify _ _ hg => exact hquiet hg (modify_frame _ _ _ _).2.2.1
    | rewind hseek _ =>
      rw [hr] at hseek
      cases hseek
    | @pull _ topic₀ maxMessages p hcall htopic₀ hp _ _ =>
      obtain ⟨f, -, -, hf, hvisited⟩ := visited_of_finished hfresh hsub htopic₀ hcall hp
      refine hagrees.visited htopic htopic' hvisited fun ackId entry hentry => ?_
      refine (hleases ackId entry hentry).imp_right fun hgranted => ?_
      rw [granted_eq_map_deliveredIn, List.mem_map] at hgranted
      obtain ⟨d, hd, heq⟩ := hgranted
      exact ⟨d, hf ▸ hd, (Prod.mk.inj heq).2⟩
  · -- the topic is new, and nothing was left
    have hsame : (exec serde (stateAfter serde past) s).subscriptions =
        (stateAfter serde past).subscriptions := by simp [exec, hcall]
    rw [hsame, hsub] at hsub'
    obtain rfl := Option.some.inj hsub'
    have hthere : sub.spec.topic ∈ (exec serde (stateAfter serde past) s).topics := by
      rw [Std.ExtTreeMap.mem_iff_isSome_getElem?, htopic']
      rfl
    obtain ⟨hnone, hfew⟩ := hclear _ hnew hthere name sub hsub rfl hblank
    refine ⟨fun ackId entry hentry => absurd ?_ (hnone ackId), fun i hi _ => hfew i hi⟩
    rw [Std.ExtTreeMap.mem_iff_isSome_getElem?, hentry]
    rfl

/-- What a filter rejects is neither leased nor dead-lettered, if all agrees. -/
theorem AllAgree.leasesMatch (h : AllAgree (stateAfter serde past)) :
    LeasesMatch (stateAfter serde past) := by
  intro name sub topic hsub htopic ackId entry message hentry hmessage
  rw [matches_iff (filter_parses hsub)]
  by_cases hblank : trim sub.spec.filter = []
  · exact filterRejects_of_blank hblank
  · obtain ⟨message', hmessage', haccepts⟩ :=
      (h name sub topic hsub hblank htopic).leases ackId entry hentry
    obtain rfl := Option.some.inj (hmessage.symm.trans hmessage')
    exact haccepts

theorem AllAgree.pullRespects (hfresh : (past ++ [s]).Pairwise Step.Apart)
    (h : AllAgree (stateAfter serde past)) : PullRespects (stateAfter serde past) s := by
  intro name maxMessages sub topic hcall hsub htopic
  have hsound := sound_stateAfter (List.pairwise_append.mp hfresh).1 hsub
  obtain ⟨p, hp⟩ : ∃ p,
      pullFrom s.env name maxMessages sub (stateAfter serde past).topics topic.messages.length =
        .finished p ∨
      pullFrom s.env name maxMessages sub (stateAfter serde past).topics topic.messages.length =
        .panicked p := by
    rcases pullFrom s.env name maxMessages sub (stateAfter serde past).topics
      topic.messages.length with p | p
    · exact ⟨p, .inl rfl⟩
    · exact ⟨p, .inr rfl⟩
  obtain ⟨f, hf, hvisited⟩ :=
    exists_visited hp hsound.exclusive hsound.named (undrawn_of_apart hfresh)
  have hparses := filter_parses hsub
  refine ⟨p, f, hp, hf, hvisited,
    ⟨fun d hd => (matches_iff hparses).mpr (hvisited.delivered d hd).2.2.1, fun d hd => ?_,
      fun d hd => (mismatches_iff hparses).mpr (hvisited.filtered d hd).2.2⟩⟩
  obtain ⟨⟨topic', htopic', hmessage⟩, hexhausted⟩ := hvisited.dead d hd
  rw [matches_iff hparses]
  by_contra hne
  rw [Bool.not_eq_false] at hne
  have hblank : trim sub.spec.filter ≠ [] := by
    intro hblank
    rw [filterRejects_of_blank hblank] at hne
    cases hne
  have hunacked : d.index ∉ sub.acked := by
    refine hvisited.unacked d.index (List.mem_append_left _ (List.mem_append_left _ ?_))
    exact List.mem_map_of_mem hd
  -- a message that does not match has too few attempts behind it
  refine FewAttempts.not_exhausted ?_ hexhausted
  refine (h name sub topic hsub hblank htopic).attempts d.index hunacked fun message hbefore => ?_
  obtain ⟨topic₁, htopic₁, hlog⟩ := hvisited.topicsGrow.get htopic
  obtain rfl := Option.some.inj (htopic'.symm.trans htopic₁)
  obtain rfl := Option.some.inj (hmessage.symm.trans (getElem?_of_isPrefix hlog hbefore))
  exact hne

/-- **Filters are valid, immutable and respected** in every run that creates no topic under
the name of a subscription with a filter that still has leases, or five attempts or more
behind an index that is not acked. -/
theorem filters_respected (r : Run)
    (h : Machine.Guarded (exec serde) (CreatesClear serde) {} r.steps) :
    FiltersRespected serde r.steps := by
  have hagree : ∀ past, past <+: r.steps → AllAgree (stateAfter serde past) := by
    refine Machine.invariant (P := fun _ st => AllAgree st) (fun name sub topic hsub => ?_)
      fun past s hpast hbefore => ?_
    · simp at hsub
    · exact hbefore.step (r.fresh.sublist hpast.sublist) (h past s hpast)
  refine
    { created := fun past name sub _ hsub => ?_
      parses := fun past name sub _ hsub => filter_parses hsub
      leases := fun past hpast => (hagree past hpast).leasesMatch
      pulls := fun past s hpast => ?_ }
  · obtain ⟨arg, hcreated, hfilter, -⟩ := filter_created hsub
    exact ⟨arg, hcreated, hfilter⟩
  · have hpast' : past <+: r.steps := (List.prefix_append past [s]).trans hpast
    exact (hagree past hpast').pullRespects (r.fresh.sublist hpast.sublist)

/-- The topics after a pull, also when it panics. -/
theorem topics_of_pull {env : Env} {st : State} {name : Text} {maxMessages : UInt32}
    {sub : SubscriptionState} {topic : TopicState} {p : Pulling}
    (hsub : st.subscriptions[name]? = some sub) (htopic : st.topics[sub.spec.topic]? = some topic)
    (hp : pullFrom env name maxMessages sub st.topics topic.messages.length = .finished p ∨
      pullFrom env name maxMessages sub st.topics topic.messages.length = .panicked p) :
    (pull env st name maxMessages).2.topics = p.topics := by
  rcases hp with hp | hp
  · exact pull_topics hsub htopic hp
  · simp [pull, hsub, htopic, hp]

/-- Only the creation of a topic can fail to be clear. -/
theorem createsClear_of_call {st : State} (h : ∀ spec, s.call ≠ .createTopic spec) :
    CreatesClear serde st s := by
  intro topic hnew hthere
  obtain ⟨topicState, htopic⟩ :=
    Option.isSome_iff_exists.mp (Std.ExtTreeMap.mem_iff_isSome_getElem?.mp hthere)
  rcases topic_cases htopic with ⟨before, hbefore, -⟩ | ⟨-, spec, hcall, -⟩
  · rw [Std.ExtTreeMap.getElem?_eq_none hnew] at hbefore
    cases hbefore
  · exact absurd hcall (h spec)

end Steps

/-! ### Runs -/

def deadLetters : TopicSpec := { sampleTopic with name := "projects/p/topics/dead" }

/-- A subscription to the messages that have the attribute `k`, with a dead-letter topic
and without backoff. -/
def keyedSubscription : SubscriptionSpec :=
  { sampleSubscription with
    filter := "attributes:k"
    deadLetter := some ⟨deadLetters.name, 5⟩
    retry := some ⟨0, 0⟩ }

/-- An empty message that has the attribute. -/
def matchingMessage : NewMessage :=
  { sampleMessage "" with attributes := (∅ : StrMap Text).insert "k" [] }

/-- A message that matches is pulled five times, its topic is deleted and created again,
and a message that does not match is pulled next. -/
def refilledTopic : Run := .ofCalls
  [(0, .createTopic sampleTopic),
   (0, .createTopic deadLetters),
   (0, .createSubscription keyedSubscription),
   (0, .publish sampleTopic.name [matchingMessage]),
   (0, .pull keyedSubscription.name 1),
   (seconds 20, .pull keyedSubscription.name 1),
   (seconds 40, .pull keyedSubscription.name 1),
   (seconds 60, .pull keyedSubscription.name 1),
   (seconds 80, .pull keyedSubscription.name 1),
   (seconds 90, .deleteTopic sampleTopic.name),
   (seconds 90, .createTopic sampleTopic),
   (seconds 90, .publish sampleTopic.name [sampleMessage ""]),
   (seconds 100, .pull keyedSubscription.name 1)]

/-- The message that does not match is moved to the dead-letter topic, as its index has
been attempted five times. -/
theorem refilledTopic_dead : ¬FiltersRespected noJson refilledTopic.steps := by
  intro h
  let st := stateAfter noJson (refilledTopic.steps.take 12)
  let st' := (pull refilledTopic.steps[12].env st keyedSubscription.name 1).2
  have hfacts : (st.subscriptions[keyedSubscription.name]?.any fun sub =>
      st.topics[sub.spec.topic]?.any fun _ => decide (
        (st'.topics[sub.spec.topic]?.all fun topic =>
          topic.messages.all fun message => filterRejects sub.spec message) = true ∧
        st.topics[deadLetters.name]?.map (·.messages.length) = some 0 ∧
        st'.topics[deadLetters.name]?.map (·.messages.length) = some 1)) = true := by
    decide +kernel
  obtain ⟨sub, hsub, hfacts⟩ := (Option.any_eq_true _ _).mp hfacts
  obtain ⟨topic, htopic, hfacts⟩ := (Option.any_eq_true _ _).mp hfacts
  obtain ⟨hrejects, hempty, hone⟩ := of_decide_eq_true hfacts
  obtain ⟨p, f, hp, -, hvisited, hrespect⟩ := h.pulls (refilledTopic.steps.take 12)
    refilledTopic.steps[12] (List.prefix_refl _) keyedSubscription.name 1 sub topic rfl hsub htopic
  have htopics : st'.topics = p.topics := topics_of_pull hsub htopic hp
  rw [htopics] at hrejects hone
  -- a copy has been made, so that there is a dead letter
  rcases hdead : f.dead with - | ⟨d, rest⟩
  · have hcopies : f.copiesTo sub.spec deadLetters.name = [] := by
      simp [Fates.copiesTo, hdead]
    rw [hvisited.topics, hcopies] at hone
    simp only [List.append_nil, Option.map_id'] at hone
    exact absurd (hempty.symm.trans hone) (by decide)
  · have hd : d ∈ f.dead := by simp [hdead]
    obtain ⟨⟨topic', htopic', hmessage⟩, -⟩ := hvisited.dead d hd
    rw [htopic', Option.all_some, List.all_eq_true] at hrejects
    obtain ⟨filter, hparse, hmatch⟩ := hrespect.dead d hd
    have hrejected := hrejects d.original (List.mem_of_getElem? hmessage)
    rw [filterRejects_of_parse hparse, hmatch] at hrejected
    cases hrejected

/-- A message that matches and one that does not are published and pulled. -/
def bothPulled : Run := .ofCalls
  [(0, .createTopic sampleTopic),
   (0, .createTopic deadLetters),
   (0, .createSubscription keyedSubscription),
   (0, .publish sampleTopic.name [matchingMessage, sampleMessage ""]),
   (0, .pull keyedSubscription.name 2)]

/-- The filter is respected. -/
theorem bothPulled_respected : FiltersRespected noJson bothPulled.steps := by
  refine filters_respected bothPulled ?_
  have hfirst : ∀ (st : State) (s : Step), st.subscriptions = ∅ → CreatesClear noJson st s := by
    intro st s hnone topic _ _ name sub hsub
    simp [hnone] at hsub
  have hlater : ∀ s ∈ bothPulled.steps.drop 2, ∀ spec, s.call ≠ .createTopic spec := by
    simp only [bothPulled, Run.ofCalls, List.mapIdx_cons, List.mapIdx_nil, List.drop_succ_cons,
      List.drop_zero, List.mem_cons, List.not_mem_nil, or_false]
    rintro s (rfl | rfl | rfl) spec hspec <;> cases hspec
  refine Machine.guarded_cons.mpr ⟨hfirst _ _ rfl, Machine.guarded_cons.mpr ⟨hfirst _ _ rfl, ?_⟩⟩
  exact fun pre s hpre => createsClear_of_call (hlater s (hpre.subset (by simp)))

end RelayPubsub.Memory
