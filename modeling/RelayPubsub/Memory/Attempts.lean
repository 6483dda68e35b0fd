import RelayPubsub.Memory.Anchored
import RelayPubsub.Memory.Outcome
import RelayPubsub.Memory.Specs
import RelayPubsub.Memory.Visits

/-!
# Attempts, and dead letters

Between two seeks a subscription counts the deliveries of every index from one
(`RelayPubsub.Memory.Counting`): the counter of an unacked index is the number of
its deliveries, as an index that an attempt was counted at without a delivery is
acked. So an index is not delivered once more when it has been delivered as often
as the dead-letter policy allows; it is acked, and a copy of its message goes to
the dead-letter topic, if that exists (`RelayPubsub.Memory.attempt_law`).

What is counted is what pulls put on lease. A pull whose state file cannot be
written answers with an error and leaves its leases in the store, so the numbers a
caller gets to see may have a gap (`RelayPubsub.Memory.unwrittenPull_gap`).
-/

namespace RelayPubsub.Memory

open Lib Lib.Ledger

/-! ### What is delivered along a run -/

/-- What a step delivers on `name`, each delivery with its topic index: what a pull
puts on lease, whatever it answers. -/
def deliveredIn (name : Text) (st : State) (s : Step) : List (ℕ × Delivery) :=
  match s.call with
  | .pull subscription maxMessages =>
    if subscription = name then
      match st.subscriptions[name]? with
      | none => []
      | some sub =>
        match st.topics[sub.spec.topic]? with
        | none => []
        | some topic =>
          match pullFrom s.env name maxMessages sub st.topics topic.messages.length with
          | .finished p => p.deliveries
          | .panicked _ => []
    else []
  | _ => []

/-- What a step reports on `name`: the deliveries of a pull that answers with them. -/
def reportedIn (name : Text) (st : State) (s : Step) : List (ℕ × Delivery) :=
  match s.call with
  | .pull subscription maxMessages =>
    match (pull s.env st subscription maxMessages).1 with
    | .returned (.ok _) => deliveredIn name st s
    | _ => []
  | _ => []

/-- What the steps of a run deliver or report. -/
def along (serde : SerdeJson) (out : State → Step → List (ℕ × Delivery)) (st : State) :
    List Step → List (ℕ × Delivery)
  | [] => []
  | s :: seg => out st s ++ along serde out (exec serde st s) seg

/-- The attempt numbers of the deliveries of an index. -/
def attemptsOf (i : ℕ) (l : List (ℕ × Delivery)) : List UInt32 :=
  (l.filter fun d => decide (d.1 = i)).map fun d => d.2.deliveryAttempt

/-- **The numbers count from one**, without gap or repetition. -/
def CountsFromOne (l : List UInt32) : Prop :=
  l = (List.range l.length).map fun k => UInt32.ofNat (k + 1)

instance (l : List UInt32) : Decidable (CountsFromOne l) := inferInstanceAs (Decidable (l = _))

section Lists

variable {serde : SerdeJson} {name : Text} {st : State} {s : Step} {i : ℕ}
  {l l' : List (ℕ × Delivery)}

theorem along_concat (out : State → Step → List (ℕ × Delivery)) (seg : List Step) :
    along serde out st (seg ++ [s]) =
      along serde out st seg ++ out (Machine.run (exec serde) st seg) s := by
  induction seg generalizing st with
  | nil => simp [along]
  | cons s' seg ih => simp [along, ih]

/-- The leases a step hands out are those of its deliveries. -/
theorem granted_eq_map_deliveredIn (name : Text) (st : State) (s : Step) :
    granted name st s = (deliveredIn name st s).map fun d => (d.2.ackId, d.1) := by
  cases hcall : s.call with
  | pull subscription maxMessages =>
    by_cases hname : subscription = name
    · rcases hsub : st.subscriptions[name]? with - | sub
      · simp [granted, deliveredIn, hcall, hname, hsub]
      rcases htopic : st.topics[sub.spec.topic]? with - | topic
      · simp [granted, deliveredIn, hcall, hname, hsub, htopic]
      rcases hp : pullFrom s.env name maxMessages sub st.topics topic.messages.length with p | p
      · simp [granted, deliveredIn, hcall, hname, hsub, htopic, hp]
      · simp [granted, deliveredIn, hcall, hname, hsub, htopic, hp]
    · simp [granted, deliveredIn, hcall, hname]
  | _ => simp [granted, deliveredIn, hcall]

theorem attemptsOf_append (i : ℕ) (l l' : List (ℕ × Delivery)) :
    attemptsOf i (l ++ l') = attemptsOf i l ++ attemptsOf i l' := by
  simp [attemptsOf]

theorem attemptsOf_eq_nil : attemptsOf i l = [] ↔ ∀ d ∈ l, d.1 ≠ i := by
  simp [attemptsOf, List.filter_eq_nil_iff]

/-- An index that is delivered once. -/
theorem attemptsOf_of_nodup (h : (l.map Prod.fst).Nodup) {d : ℕ × Delivery} (hd : d ∈ l) :
    attemptsOf d.1 l = [d.2.deliveryAttempt] := by
  induction l with
  | nil => cases hd
  | cons e l ih =>
    rw [List.map_cons, List.nodup_cons] at h
    rcases List.mem_cons.mp hd with rfl | hd
    · have hrest : attemptsOf d.1 l = [] :=
        attemptsOf_eq_nil.mpr fun e he heq => h.1 (heq ▸ List.mem_map_of_mem he)
      have hsplit := attemptsOf_append d.1 [d] l
      rw [List.singleton_append, hrest] at hsplit
      simpa [attemptsOf] using hsplit
    · have hne : e.1 ≠ d.1 := fun heq => h.1 (heq ▸ List.mem_map_of_mem hd)
      rw [← ih h.2 hd]
      simp [attemptsOf, hne]

theorem countsFromOne_nil : CountsFromOne [] := rfl

/-- The next number. -/
theorem CountsFromOne.concat {l : List UInt32} (h : CountsFromOne l) :
    CountsFromOne (l ++ [UInt32.ofNat (l.length + 1)]) := by
  unfold CountsFromOne at h ⊢
  rw [List.length_append, List.length_singleton, List.range_succ, List.map_append, ← h]
  rfl

end Lists

/-! ### The counter -/

/-- **The counters agree with what has been delivered** since they were cleared. -/
structure Counting (l : List (ℕ × Delivery)) (sub : SubscriptionState)
    (topics : StrMap TopicState) : Prop where
  inOrder : ∀ i, CountsFromOne (attemptsOf i l)
  /-- The counter of an unacked index is the number of its deliveries. -/
  count : ∀ i, i ∉ sub.acked → sub.attempts[i]? =
    if attemptsOf i l = [] then none else some (UInt32.ofNat (attemptsOf i l).length)
  /-- The filter accepts what has been delivered. -/
  accepted : ∀ d ∈ l, ∃ message, HasMessage topics sub.spec.topic d.1 message ∧
    filterRejects sub.spec message = false

section Counting

variable {l : List (ℕ × Delivery)} {sub sub' : SubscriptionState}
  {topics topics' : StrMap TopicState} {subscription : Text} {f : Fates subscription}

/-- Nothing has been delivered. -/
theorem counting_nil (topics : StrMap TopicState) (hcleared : sub.attempts = ∅) :
    Counting [] sub topics := by
  refine ⟨fun i => countsFromOne_nil, fun i _ => ?_, by simp⟩
  rw [hcleared]
  rfl

/-- The next attempt at an unacked index. -/
theorem Counting.nextAttempt (h : Counting l sub topics) {i : ℕ} (hi : i ∉ sub.acked) :
    sub.nextAttempt i = UInt32.ofNat ((attemptsOf i l).length + 1) := by
  unfold SubscriptionState.nextAttempt
  rw [h.count i hi]
  split_ifs with hnone
  · rw [hnone]
    rfl
  · rw [Option.getD_some, UInt32.ofNat_add]
    rfl

/-- **The filter rejects nothing that has been attempted before.** -/
theorem Counting.unattempted (h : Counting l sub topics) {i : ℕ} (hi : i ∉ sub.acked)
    (hgrow : TopicsGrow topics topics') {message : RelayMessage}
    (hmessage : HasMessage topics' sub.spec.topic i message)
    (hrejects : filterRejects sub.spec message = true) : sub.attempts[i]? = none := by
  rw [h.count i hi, if_pos]
  by_contra hne
  rw [attemptsOf_eq_nil] at hne
  push Not at hne
  obtain ⟨d, hd, rfl⟩ := hne
  obtain ⟨message', hmessage', haccepts⟩ := h.accepted d hd
  obtain ⟨topic, htopic, hat⟩ := hmessage
  obtain ⟨topic', htopic', hat'⟩ := hmessage'.grow hgrow
  rw [htopic] at htopic'
  obtain rfl := Option.some.inj htopic'
  rw [hat] at hat'
  obtain rfl := Option.some.inj hat'
  rw [hrejects] at haccepts
  cases haccepts

/-- What a step leaves that counts no attempt. -/
theorem Counting.of_frame (h : Counting l sub topics) (hattempts : sub'.attempts = sub.attempts)
    (hacked : sub.acked ⊆ sub'.acked) (htopic : sub'.spec.topic = sub.spec.topic)
    (hfilter : sub'.spec.filter = sub.spec.filter)
    (hlog : ∀ {i m}, HasMessage topics sub.spec.topic i m → HasMessage topics' sub.spec.topic i m) :
    Counting l sub' topics' where
  inOrder := h.inOrder
  count i hi := by
    rw [hattempts]
    exact h.count i fun hin => hi (hacked hin)
  accepted d hd := by
    obtain ⟨message, hmessage, haccepts⟩ := h.accepted d hd
    refine ⟨message, htopic ▸ hlog hmessage, ?_⟩
    unfold filterRejects at haccepts ⊢
    rwa [hfilter]

/-- **A pull goes on counting.** -/
theorem Counting.visited (h : Counting l sub topics)
    (hv : Visited sub.spec.topic sub topics f sub' topics') :
    Counting (l ++ f.delivered) sub' topics' := by
  have hnodup : (f.delivered.map Prod.fst).Nodup := (List.nodup_append.mp hv.nodup).2.1
  have hnew : ∀ d ∈ f.delivered, d.1 ∉ sub.acked := fun d hd =>
    hv.unacked d.1 (List.mem_append_right _ (List.mem_map_of_mem hd))
  -- an index is delivered once, with the next number, or not at all
  have hcases : ∀ i, (i ∉ sub.acked ∧ i ∈ f.indices ∧
      attemptsOf i f.delivered = [UInt32.ofNat ((attemptsOf i l).length + 1)]) ∨
      attemptsOf i f.delivered = [] ∧ i ∉ f.delivered.map Prod.fst := by
    intro i
    by_cases hmem : i ∈ f.delivered.map Prod.fst
    · obtain ⟨d, hd, rfl⟩ := List.mem_map.mp hmem
      refine Or.inl ⟨hnew d hd, List.mem_append_right _ hmem, ?_⟩
      rw [attemptsOf_of_nodup hnodup hd, (hv.delivered d hd).2.2.2, h.nextAttempt (hnew d hd)]
    · exact Or.inr ⟨attemptsOf_eq_nil.mpr fun d hd heq => hmem (heq ▸ List.mem_map_of_mem hd), hmem⟩
  refine ⟨fun i => ?_, fun i hi => ?_, fun d hd => ?_⟩
  · rw [attemptsOf_append]
    rcases hcases i with ⟨-, -, hnext⟩ | ⟨hnone, -⟩
    · rw [hnext]
      exact (h.inOrder i).concat
    · rw [hnone, List.append_nil]
      exact h.inOrder i
  · have hbefore : i ∉ sub.acked := fun hin => hi ((hv.acked i).mpr (Or.inl hin))
    rw [hv.attempts, attemptsOf_append]
    rcases hcases i with ⟨-, hserved, hnext⟩ | ⟨hnone, hout⟩
    · rw [if_pos hserved, hnext, h.nextAttempt hbefore, if_neg (by simp)]
      simp
    · have hunserved : i ∉ f.indices := by
        intro hserved
        rcases List.mem_append.mp hserved with hsettled | hdelivered
        · exact hi ((hv.acked i).mpr (Or.inr hsettled))
        · exact hout hdelivered
      rw [if_neg hunserved, hnone, List.append_nil]
      exact h.count i hbefore
  · rw [hv.spec]
    rcases List.mem_append.mp hd with hold | hnew
    · obtain ⟨message, hmessage, haccepts⟩ := h.accepted d hold
      exact ⟨message, hmessage.grow hv.topicsGrow, haccepts⟩
    · obtain ⟨hmessage, -, haccepts, -⟩ := hv.delivered d hnew
      exact ⟨d.2.message, hmessage, haccepts⟩

end Counting

/-! ### Steps between two seeks -/

/-- **The step starts the subscription afresh**: it creates it, or sets its cursor. -/
def Restarts (serde : SerdeJson) (name : Text) (st : State) (s : Step) : Prop :=
  name ∈ (exec serde st s).subscriptions ∧
    (name ∉ st.subscriptions ∨ seekTarget name st s ≠ none)

/-- The step neither seeks on the subscription nor deletes it. -/
def Continues (name : Text) (st : State) (s : Step) : Prop :=
  seekTarget name st s = none ∧ s.call ≠ .deleteSubscription name

section Steps

variable {serde : SerdeJson} {name : Text} {st : State} {past : List Step} {s : Step}
  {sub sub' : SubscriptionState}

/-- A start clears the counters. -/
theorem attempts_of_restarts (h : Restarts serde name st s)
    (hsub' : (exec serde st s).subscriptions[name]? = some sub') : sub'.attempts = ∅ := by
  have htouch := touch_of_exec serde name st s
  rw [hsub'] at htouch
  generalize hbefore : st.subscriptions[name]? = before at htouch
  have hstart : before = none ∨ seekTarget name st s ≠ none := by
    refine h.2.imp_left fun hnot => ?_
    rw [← hbefore]
    simpa using hnot
  cases htouch with
  | create _ _ _ _ => rfl
  | rewind _ _ => rfl
  | same _ hr _ => exact (hstart.elim (nomatch ·) (· hr)).elim
  | respec hr _ _ | pull _ _ _ hr _ | acknowledge _ hr _ | modify _ hr _ =>
    exact (hstart.elim (nomatch ·) (· hr)).elim

/-- The filter of a subscription does not change. -/
theorem filter_of_exec (hsub : st.subscriptions[name]? = some sub)
    (hsub' : (exec serde st s).subscriptions[name]? = some sub') :
    sub'.spec.filter = sub.spec.filter := by
  have hstep := specStep_of_exec serde name st s
  simp only [specAt, hsub, hsub', Option.map_some] at hstep
  generalize sub.spec = spec, sub'.spec = spec' at hstep
  cases hstep with
  | same _ => rfl
  | update _ _ => exact (applySubscriptionMask_frame _ _ _).2.2
  | push _ => rfl

/-- **A pull that finishes**, as the fates of the indices it serves. -/
theorem visited_of_finished (hfresh : (past ++ [s]).Pairwise Step.Apart)
    (hsub : (stateAfter serde past).subscriptions[name]? = some sub) {topic : TopicState}
    (htopic : (stateAfter serde past).topics[sub.spec.topic]? = some topic)
    {maxMessages : UInt32} (hcall : s.call = .pull name maxMessages) {p : Pulling}
    (hp : pullFrom s.env name maxMessages sub (stateAfter serde past).topics
      topic.messages.length = .finished p) :
    ∃ f : Fates name,
      (exec serde (stateAfter serde past) s).subscriptions[name]? = some p.sub ∧
      (pull s.env (stateAfter serde past) name maxMessages).1 =
        .returned ((persistLocked s.env).map fun _ => f.delivered.map Prod.snd) ∧
      f.delivered = deliveredIn name (stateAfter serde past) s ∧
      Visited sub.spec.topic sub (stateAfter serde past).topics f p.sub
        (exec serde (stateAfter serde past) s).topics := by
  have hsound := sound_stateAfter (List.pairwise_append.mp hfresh).1 hsub
  obtain ⟨f, hf, hvisited⟩ :=
    exists_visited (.inl hp) hsound.exclusive hsound.named (undrawn_of_apart hfresh)
  refine ⟨f, ?_, ?_, ?_, ?_⟩
  · simp [exec, hcall, pull, hsub, htopic, hp]
  · simp only [pull, hsub, htopic, hp, answer, hf]
    cases persistLocked s.env <;> rfl
  · simp [hf, deliveredIn, hcall, hsub, htopic, hp]
  · simp only [exec, hcall]
    rwa [pull_topics hsub htopic hp]

/-- **A pull on a topic that is never deleted**, as the fates of the indices it
serves. -/
theorem visited_of_pull (hfresh : (past ++ [s]).Pairwise Step.Apart)
    (hsub : (stateAfter serde past).subscriptions[name]? = some sub)
    (hkeep : ∀ t ∈ past, t.call ≠ .deleteTopic sub.spec.topic) {maxMessages : UInt32}
    (hcall : s.call = .pull name maxMessages) :
    ∃ (sub' : SubscriptionState) (f : Fates name),
      (exec serde (stateAfter serde past) s).subscriptions[name]? = some sub' ∧
      (pull s.env (stateAfter serde past) name maxMessages).1 =
        .returned ((persistLocked s.env).map fun _ => f.delivered.map Prod.snd) ∧
      f.delivered = deliveredIn name (stateAfter serde past) s ∧
      Visited sub.spec.topic sub (stateAfter serde past).topics f sub'
        (exec serde (stateAfter serde past) s).topics := by
  obtain ⟨topic, p, htopic, -, hp⟩ := pullFrom_finishes hfresh hsub hkeep maxMessages
  obtain ⟨f, hf⟩ := visited_of_finished hfresh hsub htopic hcall hp
  exact ⟨p.sub, f, hf⟩

/-- The subscription stays while its cursor is within the log, as no pull panics. -/
theorem Continues.stays_of_le (hfresh : (past ++ [s]).Pairwise Step.Apart)
    (hsub : (stateAfter serde past).subscriptions[name]? = some sub) {topic : TopicState}
    (htopic : (stateAfter serde past).topics[sub.spec.topic]? = some topic)
    (hle : sub.nextIndex ≤ topic.messages.length)
    (h : Continues name (stateAfter serde past) s) :
    Stays serde name (stateAfter serde past) s := by
  refine ⟨h.1, ?_⟩
  have htouch := touch_of_exec serde name (stateAfter serde past) s
  rw [hsub] at htouch
  rw [Std.ExtTreeMap.mem_iff_isSome_getElem?]
  generalize (exec serde (stateAfter serde past) s).subscriptions[name]? = after at htouch
  cases htouch with
  | drop _ _ hcalls =>
    rcases hcalls with hdelete | ⟨maxMessages, -, hpanic⟩
    · exact absurd hdelete h.2
    · obtain ⟨p, hp⟩ := pullFrom_finishes_of_le hfresh hsub htopic hle maxMessages
      simp [pull, hsub, htopic, hp] at hpanic
  | _ => rfl

/-- The same for a topic that is never deleted. -/
theorem Continues.stays (hfresh : (past ++ [s]).Pairwise Step.Apart)
    (hsub : (stateAfter serde past).subscriptions[name]? = some sub)
    (hkeep : ∀ t ∈ past, t.call ≠ .deleteTopic sub.spec.topic)
    (h : Continues name (stateAfter serde past) s) :
    Stays serde name (stateAfter serde past) s := by
  obtain ⟨topic, htopic, hle⟩ := (anchored_stateAfter hkeep).cursor name sub hsub rfl
  exact h.stays_of_le hfresh hsub htopic hle

/-- What a step delivers is delivered by a pull that finishes. -/
theorem deliveredIn_cases {d : ℕ × Delivery} (hd : d ∈ deliveredIn name st s) :
    ∃ maxMessages sub topic p, s.call = .pull name maxMessages ∧
      st.subscriptions[name]? = some sub ∧ st.topics[sub.spec.topic]? = some topic ∧
      pullFrom s.env name maxMessages sub st.topics topic.messages.length = .finished p ∧
      deliveredIn name st s = p.deliveries := by
  have hgranted : granted name st s ≠ [] := by
    rw [granted_eq_map_deliveredIn]
    exact List.ne_nil_of_mem (List.mem_map_of_mem hd)
  rcases granted_cases name st s with
    hnone | ⟨maxMessages, sub, topic, p, hcall, hsub, htopic, hp, -⟩
  · exact absurd hnone hgranted
  · exact ⟨maxMessages, sub, topic, p, hcall, hsub, htopic, hp, by
      simp [deliveredIn, hcall, hsub, htopic, hp]⟩

/-- A message stays where it is, as the topic is not deleted. -/
theorem HasMessage.exec {topicName : Text} {i : ℕ} {message : RelayMessage}
    (h : HasMessage st.topics topicName i message) (hkeep : s.call ≠ .deleteTopic topicName) :
    HasMessage (exec serde st s).topics topicName i message := by
  obtain ⟨topic, htopic, hmessage⟩ := h
  obtain ⟨topic', htopic', hgrown⟩ : ∃ topic',
      (Memory.exec serde st s).topics[topicName]? = some topic' ∧
        topic.messages <+: topic'.messages := longer_of_exec hkeep htopic
  exact ⟨topic', htopic', getElem?_of_isPrefix hgrown hmessage⟩

/-- **A step between two seeks goes on counting.** -/
theorem Counting.step {l : List (ℕ × Delivery)} (hfresh : (past ++ [s]).Pairwise Step.Apart)
    (hsub : (stateAfter serde past).subscriptions[name]? = some sub)
    (hkeep : s.call ≠ .deleteTopic sub.spec.topic)
    (hseek : seekTarget name (stateAfter serde past) s = none)
    (h : Counting l sub (stateAfter serde past).topics)
    (hsub' : (exec serde (stateAfter serde past) s).subscriptions[name]? = some sub') :
    Counting (l ++ deliveredIn name (stateAfter serde past) s) sub'
      (exec serde (stateAfter serde past) s).topics := by
  have hsound := sound_stateAfter (List.pairwise_append.mp hfresh).1 hsub
  obtain ⟨es, htrace, -, -, htopic⟩ := @step_trace _ _ _ _ _ _ _ False [] hsub hsub' hseek
    hsound.exclusive hsound.named (undrawn_of_apart hfresh) False.elim False.elim
  have hacked : sub.acked ⊆ sub'.acked := htrace.done_subset fun _ _ h => h.rewind
  have hfilter : sub'.spec.filter = sub.spec.filter := filter_of_exec hsub hsub'
  have hlog : ∀ {i m}, HasMessage (stateAfter serde past).topics sub.spec.topic i m →
      HasMessage (Memory.exec serde (stateAfter serde past) s).topics sub.spec.topic i m :=
    fun hm => hm.exec hkeep
  -- what is left is that the counters are as before, and nothing is delivered
  have hquiet : granted name (stateAfter serde past) s = [] → sub'.attempts = sub.attempts →
      Counting (l ++ deliveredIn name (stateAfter serde past) s) sub'
        (Memory.exec serde (stateAfter serde past) s).topics := by
    intro hnone hattempts
    rw [granted_eq_map_deliveredIn, List.map_eq_nil_iff] at hnone
    rw [hnone, List.append_nil]
    exact h.of_frame hattempts hacked htopic hfilter hlog
  have htouch := touch_of_exec serde name (stateAfter serde past) s
  rw [hsub, hsub'] at htouch
  cases htouch with
  | same _ _ hg => exact hquiet hg rfl
  | respec _ hg _ => exact hquiet hg rfl
  | acknowledge _ _ hg => exact hquiet hg (acknowledgeEach_frame _ _ _ _).2.2.1
  | modify _ _ hg => exact hquiet hg (modify_frame _ _ _ _).2.2.1
  | rewind hr _ =>
    rw [hseek] at hr
    cases hr
  | pull hcall hthere hp _ _ =>
    obtain ⟨f, -, -, hf, hvisited⟩ := visited_of_finished hfresh hsub hthere hcall hp
    rw [← hf]
    exact h.visited hvisited

end Steps

/-! ### The law -/

/-- **What a pull does with dead letters**, told from the states before and after it
and from the fates of the indices it serves. -/
structure DeadLetterLaw {name : Text} (sub sub' : SubscriptionState)
    (topics topics' : StrMap TopicState) (f : Fates name) : Prop where
  /-- No index is served twice, and what is acked by it is what was dead or filtered. -/
  nodup : f.indices.Nodup
  settled : ∀ i, i ∈ f.settled ↔ i ∉ sub.acked ∧ i ∈ sub'.acked
  /-- While the dead-letter topic exists, nothing is delivered too often; what would be is
  dead. -/
  bounded : ∀ policy, sub.spec.deadLetter = some policy → policy.topic ∈ topics →
    ∀ d ∈ f.delivered, d.2.deliveryAttempt ≤ clamp policy.maxDeliveryAttempts 5 100
  dead : ∀ policy, sub.spec.deadLetter = some policy → policy.topic ∈ topics → ∀ i ∈ f.indices,
    (i ∈ f.dead.map (·.index) ↔ clamp policy.maxDeliveryAttempts 5 100 < sub.nextAttempt i)
  /-- One copy of every dead letter is appended to the dead-letter topic, and nothing to the
  others. -/
  copied : ∀ policy topic, sub.spec.deadLetter = some policy →
    topics[policy.topic]? = some topic →
    topics'[policy.topic]? =
      some { topic with messages := topic.messages ++ f.dead.map (·.copy) }
  elsewhere : ∀ other : Text, (∀ policy, sub.spec.deadLetter = some policy → policy.topic ≠ other) →
    topics'[other]? = topics[other]?
  original : ∀ d ∈ f.dead, HasMessage topics' sub.spec.topic d.index d.original
  /-- While the dead-letter topic is missing, nothing is dead; what is delivered too often
  is delivered all the same. -/
  missing : ∀ policy, sub.spec.deadLetter = some policy → policy.topic ∉ topics →
    f.dead = [] ∧ ∀ i ∈ f.indices, clamp policy.maxDeliveryAttempts 5 100 < sub.nextAttempt i →
      i ∈ f.delivered.map Prod.fst
  /-- What the filter rejects has not been attempted before. -/
  filtered : ∀ d ∈ f.filtered, sub.attempts[d.1]? = none ∧
    HasMessage topics' sub.spec.topic d.1 d.2 ∧ filterRejects sub.spec d.2 = true

section Law

variable {name : Text} {sub sub' : SubscriptionState} {topics topics' : StrMap TopicState}
  {f : Fates name} {l : List (ℕ × Delivery)}

theorem exhausted_iff_of_policy {policy : DeadLetterSpec}
    (hpolicy : sub.spec.deadLetter = some policy) (hmem : policy.topic ∈ topics) {i : ℕ} :
    Exhausted sub topics i ↔ clamp policy.maxDeliveryAttempts 5 100 < sub.nextAttempt i := by
  simp [Exhausted, hpolicy, hmem]

/-- **The law, from what is served and from the counters.** -/
theorem Visited.law (hv : Visited sub.spec.topic sub topics f sub' topics')
    (h : Counting l sub topics) : DeadLetterLaw sub sub' topics topics' f := by
  have hunattempted : ∀ d ∈ f.filtered, sub.attempts[d.1]? = none := by
    intro d hd
    obtain ⟨hmessage, -, hrejects⟩ := hv.filtered d hd
    refine h.unattempted (hv.unacked d.1 ?_) hv.topicsGrow hmessage hrejects
    exact List.mem_append_left _ (List.mem_append_right _ (List.mem_map_of_mem hd))
  refine
    { nodup := hv.nodup
      settled := fun i => ⟨fun hi => ⟨?_, ?_⟩, fun hi => ?_⟩
      bounded := fun policy hpolicy hmem d hd => ?_
      dead := fun policy hpolicy hmem i hi => ⟨fun hdead => ?_, fun hmany => ?_⟩
      copied := fun policy topic hpolicy htopic => ?_
      elsewhere := fun other hother => ?_
      original := fun d hd => (hv.dead d hd).1
      missing := fun policy hpolicy hmem => ⟨?_, fun i hi hmany => ?_⟩
      filtered := fun d hd => ⟨hunattempted d hd, (hv.filtered d hd).1, (hv.filtered d hd).2.2⟩ }
  · exact hv.unacked i (List.mem_append_left _ hi)
  · exact (hv.acked i).mpr (Or.inr hi)
  · exact ((hv.acked i).mp hi.2).resolve_left hi.1
  · obtain ⟨-, hfew, -, hattempt⟩ := hv.delivered d hd
    rw [exhausted_iff_of_policy hpolicy hmem] at hfew
    rw [hattempt]
    exact UInt32.not_lt.mp hfew
  · obtain ⟨d, hd, rfl⟩ := List.mem_map.mp hdead
    exact (exhausted_iff_of_policy hpolicy hmem).mp (hv.dead d hd).2
  · have hexhausted := (exhausted_iff_of_policy hpolicy hmem).mpr hmany
    rcases List.mem_append.mp hi with hsettled | hdelivered
    · refine (List.mem_append.mp hsettled).resolve_right fun hfiltered => ?_
      obtain ⟨d, hd, rfl⟩ := List.mem_map.mp hfiltered
      exact (hv.filtered d hd).2.1 hexhausted
    · obtain ⟨d, hd, rfl⟩ := List.mem_map.mp hdelivered
      exact absurd hexhausted (hv.delivered d hd).2.1
  · rw [hv.topics, htopic, Option.map_some, Fates.copiesTo, hpolicy, Option.map_some, if_pos rfl]
  · have hnone : f.copiesTo sub.spec other = [] := by
      rw [Fates.copiesTo, if_neg]
      intro heq
      obtain ⟨policy, hpolicy, htopic⟩ := Option.map_eq_some_iff.mp heq
      exact hother policy hpolicy htopic
    rw [hv.topics, hnone]
    simp
  · refine List.eq_nil_iff_forall_not_mem.mpr fun d hd => ?_
    obtain ⟨-, policy', hpolicy', hmem', -⟩ := hv.dead d hd
    obtain rfl := Option.some.inj (hpolicy.symm.trans hpolicy')
    exact hmem hmem'
  · rcases List.mem_append.mp hi with hsettled | hdelivered
    · rcases List.mem_append.mp hsettled with hdead | hfiltered
      · obtain ⟨d, hd, -⟩ := List.mem_map.mp hdead
        obtain ⟨-, policy', hpolicy', hmem', -⟩ := hv.dead d hd
        obtain rfl := Option.some.inj (hpolicy.symm.trans hpolicy')
        exact absurd hmem' hmem
      · -- the filter rejects an index at its first attempt, which is not one too many
        obtain ⟨d, hd, rfl⟩ := List.mem_map.mp hfiltered
        rw [SubscriptionState.nextAttempt, hunattempted d hd] at hmany
        exact absurd hmany (one_le_clamp _)
    · exact hdelivered

end Law

section Runs

variable {serde : SerdeJson} {name : Text} {init seg : List Step} {sub₀ : SubscriptionState}

/-- While the topic is not deleted, steps that neither seek nor delete the subscription
leave it in the store. -/
theorem stays_of_continues (hfresh : (init ++ seg).Pairwise Step.Apart)
    (hsub₀ : (stateAfter serde init).subscriptions[name]? = some sub₀)
    (hseg : Machine.Guarded (exec serde) (Continues name) (stateAfter serde init) seg)
    (hkeep : ∀ s ∈ init ++ seg, s.call ≠ .deleteTopic sub₀.spec.topic) :
    Machine.Guarded (exec serde) (Stays serde name) (stateAfter serde init) seg := by
  induction seg using List.reverseRecOn with
  | nil => exact fun pre s hpre => absurd hpre (by simp)
  | append_singleton seg s ih =>
    rw [Machine.guarded_concat] at hseg ⊢
    rw [← List.append_assoc] at hfresh hkeep
    have hbefore := ih (List.pairwise_append.mp hfresh).1 hseg.1 fun t ht =>
      hkeep t (List.mem_append_left _ ht)
    obtain ⟨sub, es, hsub, -, -, htopic⟩ := @segment_trace _ _ _ _ _ False False []
      (List.pairwise_append.mp hfresh).1 hsub₀ hbefore False.elim False.elim False.elim
    refine ⟨hbefore, ?_⟩
    rw [← stateAfter_append] at hseg ⊢
    refine hseg.2.stays hfresh hsub fun t ht => ?_
    rw [htopic]
    exact hkeep t (List.mem_append_left _ ht)

/-- **The counters agree with what has been delivered**, at every point between two
seeks, while the subscription and the topic are there. -/
theorem counting_of_stays (hfresh : (init ++ seg).Pairwise Step.Apart)
    (hsub₀ : (stateAfter serde init).subscriptions[name]? = some sub₀)
    (hcleared : sub₀.attempts = ∅)
    (hstays : Machine.Guarded (exec serde) (Stays serde name) (stateAfter serde init) seg)
    (hkeep : ∀ s ∈ seg, s.call ≠ .deleteTopic sub₀.spec.topic) :
    ∃ sub, (stateAfter serde (init ++ seg)).subscriptions[name]? = some sub ∧
      sub.spec.topic = sub₀.spec.topic ∧
      Counting (along serde (deliveredIn name) (stateAfter serde init) seg) sub
        (stateAfter serde (init ++ seg)).topics := by
  induction seg using List.reverseRecOn with
  | nil => exact ⟨sub₀, by simpa using hsub₀, rfl, counting_nil _ hcleared⟩
  | append_singleton seg s ih =>
    rw [Machine.guarded_concat] at hstays
    rw [← List.append_assoc] at hfresh
    obtain ⟨sub, hsub, htopic, hcounting⟩ := ih (List.pairwise_append.mp hfresh).1 hstays.1
      fun t ht => hkeep t (List.mem_append_left _ ht)
    rw [← stateAfter_append] at hstays
    obtain ⟨sub', hsub'⟩ : ∃ sub',
        (exec serde (stateAfter serde (init ++ seg)) s).subscriptions[name]? = some sub' :=
      Option.isSome_iff_exists.mp (by simpa using hstays.2.2)
    have hsound := sound_stateAfter (List.pairwise_append.mp hfresh).1 hsub
    obtain ⟨es, -, -, -, htopic'⟩ := @step_trace _ _ _ _ _ _ _ False [] hsub hsub' hstays.2.1
      hsound.exclusive hsound.named (undrawn_of_apart hfresh) False.elim False.elim
    rw [← htopic] at hkeep
    have hnext := hcounting.step hfresh hsub (hkeep s (by simp)) hstays.2.1 hsub'
    rw [along_concat, ← List.append_assoc, stateAfter_concat, ← stateAfter_append]
    exact ⟨sub', hsub', htopic'.trans htopic, hnext⟩

/-- The same, in a run that never deletes the topic, so that no pull panics. -/
theorem counting_of_continues (hfresh : (init ++ seg).Pairwise Step.Apart)
    (hsub₀ : (stateAfter serde init).subscriptions[name]? = some sub₀)
    (hcleared : sub₀.attempts = ∅)
    (hseg : Machine.Guarded (exec serde) (Continues name) (stateAfter serde init) seg)
    (hkeep : ∀ s ∈ init ++ seg, s.call ≠ .deleteTopic sub₀.spec.topic) :
    ∃ sub, (stateAfter serde (init ++ seg)).subscriptions[name]? = some sub ∧
      sub.spec.topic = sub₀.spec.topic ∧
      Counting (along serde (deliveredIn name) (stateAfter serde init) seg) sub
        (stateAfter serde (init ++ seg)).topics :=
  counting_of_stays hfresh hsub₀ hcleared (stays_of_continues hfresh hsub₀ hseg hkeep)
    fun s hs => hkeep s (List.mem_append_right _ hs)

/-- **Attempts and dead letters**, between two seeks, in every run that never deletes
the topic. The deliveries of every index are numbered from one. Every pull finishes,
and does with dead letters what `RelayPubsub.Memory.DeadLetterLaw` says; and what has
been acked at any point before it is not served by it again. -/
theorem attempt_law (r : Run) (name : Text) {past : List Step} {s₀ : Step} {seg : List Step}
    {sub₀ : SubscriptionState} (hrun : past ++ [s₀] ++ seg <+: r.steps)
    (hstart : Restarts serde name (stateAfter serde past) s₀)
    (hsub₀ : (stateAfter serde (past ++ [s₀])).subscriptions[name]? = some sub₀)
    (hseg : Machine.Guarded (exec serde) (Continues name) (stateAfter serde (past ++ [s₀])) seg)
    (hkeep : ∀ s ∈ past ++ [s₀] ++ seg, s.call ≠ .deleteTopic sub₀.spec.topic) :
    (∀ i, CountsFromOne (attemptsOf i
      (along serde (deliveredIn name) (stateAfter serde (past ++ [s₀])) seg))) ∧
    ∀ pre s maxMessages, pre ++ [s] <+: seg → s.call = .pull name maxMessages →
      ∃ (sub sub' : SubscriptionState) (f : Fates name),
        (stateAfter serde (past ++ [s₀] ++ pre)).subscriptions[name]? = some sub ∧
        (stateAfter serde (past ++ [s₀] ++ pre ++ [s])).subscriptions[name]? = some sub' ∧
        (pull s.env (stateAfter serde (past ++ [s₀] ++ pre)) name maxMessages).1 =
          .returned ((persistLocked s.env).map fun _ => f.delivered.map Prod.snd) ∧
        f.delivered = deliveredIn name (stateAfter serde (past ++ [s₀] ++ pre)) s ∧
        DeadLetterLaw sub sub' (stateAfter serde (past ++ [s₀] ++ pre)).topics
          (stateAfter serde (past ++ [s₀] ++ pre ++ [s])).topics f ∧
        ∀ pre₀ sub₁, pre₀ <+: pre →
          (stateAfter serde (past ++ [s₀] ++ pre₀)).subscriptions[name]? = some sub₁ →
          ∀ i ∈ sub₁.acked, i ∉ f.indices := by
  have hcleared : sub₀.attempts = ∅ :=
    attempts_of_restarts hstart (by rwa [← stateAfter_concat])
  generalize past ++ [s₀] = init at *
  have hfresh : (init ++ seg).Pairwise Step.Apart := r.fresh.sublist hrun.sublist
  refine ⟨?_, fun pre s maxMessages hpre hcall => ?_⟩
  · obtain ⟨_, -, -, hcounting⟩ := counting_of_continues hfresh hsub₀ hcleared hseg hkeep
    exact hcounting.inOrder
  have hpre' : pre <+: seg := (List.prefix_append pre [s]).trans hpre
  have hinit : init ++ pre <+: init ++ seg := (List.prefix_append_right_inj init).mpr hpre'
  have hstep : init ++ pre ++ [s] <+: init ++ seg := by
    rw [List.append_assoc]
    exact (List.prefix_append_right_inj init).mpr hpre
  have hkeep' : ∀ t ∈ init ++ pre, t.call ≠ .deleteTopic sub₀.spec.topic := fun t ht =>
    hkeep t (hinit.subset ht)
  have hfresh' := hfresh.sublist hinit.sublist
  obtain ⟨sub, hsub, htopic, hcounting⟩ :=
    counting_of_continues hfresh' hsub₀ hcleared (hseg.of_isPrefix hpre') hkeep'
  obtain ⟨sub', f, hsub', hanswer, hf, hvisited⟩ :=
    visited_of_pull (hfresh.sublist hstep.sublist) hsub (htopic ▸ hkeep') hcall
  rw [stateAfter_concat]
  refine ⟨sub, sub', f, hsub, hsub', hanswer, hf, hvisited.law hcounting,
    fun pre₀ sub₁ hpre₀ hsub₁ i hi hserved => hvisited.unacked i hserved ?_⟩
  -- what is acked stays acked
  obtain ⟨mid, rfl⟩ := hpre₀
  have hstays := (stays_of_continues hfresh' hsub₀ (hseg.of_isPrefix hpre') hkeep').of_append
  rw [← stateAfter_append] at hstays
  rw [← List.append_assoc] at hfresh' hsub
  obtain ⟨sub₂, es, hsub₂, htrace, -, -⟩ := @segment_trace _ _ _ _ _ False False [] hfresh' hsub₁
    hstays False.elim False.elim False.elim
  obtain rfl := Option.some.inj (hsub.symm.trans hsub₂)
  exact htrace.done_subset (fun _ _ h => h.rewind) hi

/-- A message is pulled again and again, on a subscription with a dead-letter topic and
without backoff. -/
def pulledSixTimes : Run := .ofCalls
  [(0, .createTopic sampleTopic),
   (0, .createTopic { sampleTopic with name := "projects/p/topics/dead" }),
   (0, .createSubscription { sampleSubscription with
     deadLetter := some ⟨"projects/p/topics/dead", 5⟩
     retry := some ⟨0, 0⟩ }),
   (0, .publish sampleTopic.name [sampleMessage ""]),
   (0, .pull sampleSubscription.name 1),
   (seconds 20, .pull sampleSubscription.name 1),
   (seconds 40, .pull sampleSubscription.name 1),
   (seconds 60, .pull sampleSubscription.name 1),
   (seconds 80, .pull sampleSubscription.name 1),
   (seconds 100, .pull sampleSubscription.name 1)]

/-- Five deliveries are numbered from one, and the sixth pull moves the message. -/
theorem pulledSixTimes_attempts :
    CountsFromOne (attemptsOf 0 (along noJson (deliveredIn sampleSubscription.name)
      (stateAfter noJson (pulledSixTimes.steps.take 3)) (pulledSixTimes.steps.drop 3))) ∧
    ∃ (sub sub' : SubscriptionState) (f : Fates sampleSubscription.name),
      (stateAfter noJson (pulledSixTimes.steps.take 9)).subscriptions[
        sampleSubscription.name]? = some sub ∧
      (stateAfter noJson pulledSixTimes.steps).subscriptions[sampleSubscription.name]? =
        some sub' ∧
      DeadLetterLaw sub sub' (stateAfter noJson (pulledSixTimes.steps.take 9)).topics
        (stateAfter noJson pulledSixTimes.steps).topics f := by
  have hstart : Restarts noJson sampleSubscription.name
      (stateAfter noJson (pulledSixTimes.steps.take 2)) pulledSixTimes.steps[2] := by
    exact ⟨by decide +kernel, Or.inl (by decide +kernel)⟩
  obtain ⟨sub₀, hsub₀, htopic⟩ : ∃ sub₀, (stateAfter noJson
      (pulledSixTimes.steps.take 2 ++ [pulledSixTimes.steps[2]])).subscriptions[
        sampleSubscription.name]? = some sub₀ ∧ sub₀.spec.topic = sampleTopic.name := by
    have hany : ((stateAfter noJson
        (pulledSixTimes.steps.take 2 ++ [pulledSixTimes.steps[2]])).subscriptions[
          sampleSubscription.name]?.any fun sub => sub.spec.topic = sampleTopic.name) = true := by
      decide +kernel
    obtain ⟨sub₀, hsub₀, htopic⟩ := (Option.any_eq_true _ _).mp hany
    exact ⟨sub₀, hsub₀, of_decide_eq_true htopic⟩
  have hsplit : pulledSixTimes.steps.take 2 ++ [pulledSixTimes.steps[2]] ++
      pulledSixTimes.steps.drop 3 = pulledSixTimes.steps := rfl
  have hseg : Machine.Guarded (exec noJson) (Continues sampleSubscription.name)
      (stateAfter noJson (pulledSixTimes.steps.take 2 ++ [pulledSixTimes.steps[2]]))
      (pulledSixTimes.steps.drop 3) := by
    intro pre s hpre
    have hs : s ∈ pulledSixTimes.steps.drop 3 := hpre.subset (by simp)
    revert hs
    simp only [pulledSixTimes, Run.ofCalls, List.mapIdx_cons, List.mapIdx_nil,
      List.drop_succ_cons, List.drop_zero, List.mem_cons, List.not_mem_nil, or_false]
    rintro (rfl | rfl | rfl | rfl | rfl | rfl | rfl) <;> exact ⟨rfl, nofun⟩
  have hkeep : ∀ s ∈ pulledSixTimes.steps.take 2 ++ [pulledSixTimes.steps[2]] ++
      pulledSixTimes.steps.drop 3, s.call ≠ .deleteTopic sub₀.spec.topic := by
    rw [hsplit]
    simp only [pulledSixTimes, Run.ofCalls, List.mapIdx_cons, List.mapIdx_nil, List.mem_cons,
      List.not_mem_nil, or_false]
    rintro s (rfl | rfl | rfl | rfl | rfl | rfl | rfl | rfl | rfl | rfl) <;> nofun
  obtain ⟨hcount, hpulls⟩ := attempt_law pulledSixTimes sampleSubscription.name
    (by rw [hsplit]) hstart hsub₀ hseg hkeep
  refine ⟨hcount 0, ?_⟩
  obtain ⟨sub, sub', f, hsub, hsub', -, -, hlaw, -⟩ := hpulls
    ((pulledSixTimes.steps.drop 3).take 6) pulledSixTimes.steps[9] 1 (List.prefix_refl _) rfl
  exact ⟨sub, sub', f, hsub, hsub', hlaw⟩

/-- The same steps, with the state file not writable at one of them. -/
def Run.failingAt (r : Run) (k : ℕ) (fault : PersistFault) : Run where
  steps := r.steps.mapIdx fun j s => if j = k then s.withFault (some fault) else s
  fresh := by
    rw [List.pairwise_iff_getElem]
    intro i j hi hj hij m n
    rw [List.length_mapIdx] at hi hj
    have hapart := List.pairwise_iff_getElem.mp r.fresh i j hi hj hij m n
    simp only [List.getElem_mapIdx]
    split_ifs <;> exact hapart

/-- The answer to the first pull is an error, as the state file cannot be written. -/
def unwrittenPull : Run := .failingAt (.ofCalls
  [(0, .createTopic sampleTopic),
   (0, .createSubscription { sampleSubscription with retry := some ⟨0, 0⟩ }),
   (0, .publish sampleTopic.name [sampleMessage ""]),
   (0, .pull sampleSubscription.name 1),
   (seconds 20, .pull sampleSubscription.name 1)]) 3 (.write "No space left on device")

/-- **The numbers reported may have a gap**: the first number a caller gets to see is
two. -/
theorem unwrittenPull_gap :
    ¬∀ (r : Run) (name : Text) (past : List Step) (s₀ : Step) (seg : List Step)
      (sub₀ : SubscriptionState), past ++ [s₀] ++ seg <+: r.steps →
      Restarts noJson name (stateAfter noJson past) s₀ →
      (stateAfter noJson (past ++ [s₀])).subscriptions[name]? = some sub₀ →
      Machine.Guarded (exec noJson) (Continues name) (stateAfter noJson (past ++ [s₀])) seg →
      (∀ s ∈ past ++ [s₀] ++ seg, s.call ≠ .deleteTopic sub₀.spec.topic) →
      ∀ i, CountsFromOne (attemptsOf i
        (along noJson (reportedIn name) (stateAfter noJson (past ++ [s₀])) seg)) := by
  intro h
  have hsplit : unwrittenPull.steps.take 1 ++ [unwrittenPull.steps[1]] ++
      unwrittenPull.steps.drop 2 = unwrittenPull.steps := rfl
  have hsub : ((stateAfter noJson
      (unwrittenPull.steps.take 1 ++ [unwrittenPull.steps[1]])).subscriptions[
        sampleSubscription.name]?.any fun sub => sub.spec.topic = sampleTopic.name) = true := by
    decide +kernel
  obtain ⟨sub₀, hsub₀, -⟩ := (Option.any_eq_true _ _).mp hsub
  have hcount := h unwrittenPull sampleSubscription.name _ _ _ sub₀
    (by rw [hsplit]) ⟨by decide +kernel, Or.inl (by decide +kernel)⟩ hsub₀ ?_ ?_ 0
  · have hreported : attemptsOf 0 (along noJson (reportedIn sampleSubscription.name)
        (stateAfter noJson (unwrittenPull.steps.take 1 ++ [unwrittenPull.steps[1]]))
        (unwrittenPull.steps.drop 2)) = [2] := by
      decide +kernel
    rw [hreported] at hcount
    exact absurd hcount (by decide)
  · intro pre s hpre
    have hs : s ∈ unwrittenPull.steps.drop 2 := hpre.subset (by simp)
    revert hs
    simp only [unwrittenPull, Run.failingAt, Run.ofCalls, List.mapIdx_cons, List.mapIdx_nil,
      List.drop_succ_cons, List.drop_zero, List.mem_cons, List.not_mem_nil, or_false]
    rintro (rfl | rfl | rfl) <;> exact ⟨rfl, nofun⟩
  · rw [hsplit]
    simp only [unwrittenPull, Run.failingAt, Run.ofCalls, List.mapIdx_cons, List.mapIdx_nil,
      List.mem_cons, List.not_mem_nil, or_false]
    rintro s (rfl | rfl | rfl | rfl | rfl) <;> nofun

end Runs

end RelayPubsub.Memory
