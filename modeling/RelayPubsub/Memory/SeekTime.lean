import RelayPubsub.Memory.Clock
import RelayPubsub.Memory.Drain
import RelayPubsub.Memory.Respected

/-!
# Seeking to a time

A seek to a time sets the cursor to the first message of the log that was published at or
after it. As long as the clock does not go back the log is in the order of publication, so
that this splits it: everything earlier is below the cursor, and everything else is not
(`RelayPubsub.Memory.lt_seekIndex`). Without that, nothing at or after the time is below the
cursor all the same (`RelayPubsub.Memory.seekIndex_le`).

What pulls deliver from there on, until the next seek, is
`RelayPubsub.Memory.ReadsFrom`: they do not reach below the cursor set by the seek, they
count the attempts from one again, and, without ordering keys and without a filter, a pull
that delivers fewer messages than it may has nothing left to deliver for the first time. The
last holds as the cursor passes no index without delivering it: at a first attempt a message
is not moved to the dead-letter topic, and what has been taken off the log is in some place.
-/

namespace RelayPubsub.Memory

open Lib Lib.Ledger

/-! ### The split -/

section Split

variable {log : List RelayMessage} {time : Time} {i : ℕ} {m : RelayMessage}

/-- **Nothing at or after the time is below the index.** -/
theorem seekIndex_le (hm : log[i]? = some m) (htime : time ≤ m.publishedAt) :
    seekIndex log time ≤ i := by
  by_contra hlt
  obtain ⟨hi, rfl⟩ := List.getElem?_eq_some_iff.mp hm
  have hearlier := List.not_of_lt_findIdx (Nat.lt_of_not_le hlt)
  exact absurd htime (of_decide_eq_false hearlier)

/-- **Everything before the time is below the index**, if the log is in the order of
time. -/
theorem lt_seekIndex (hlog : log.Pairwise fun a b => a.publishedAt ≤ b.publishedAt)
    (hm : log[i]? = some m) (htime : m.publishedAt < time) : i < seekIndex log time := by
  obtain ⟨hi, rfl⟩ := List.getElem?_eq_some_iff.mp hm
  by_contra hge
  have hfound : seekIndex log time < log.length := (Nat.le_of_not_lt hge).trans_lt hi
  have hfirst : time ≤ log[seekIndex log time].publishedAt :=
    of_decide_eq_true (List.findIdx_getElem (w := hfound))
  -- the message found is not later than one further on
  have hle : log[seekIndex log time].publishedAt ≤ log[i].publishedAt := by
    rcases (Nat.le_of_not_lt hge).eq_or_lt with heq | hlt
    · simp only [heq, le_refl]
    · exact List.pairwise_iff_getElem.mp hlog _ _ hfound hi hlt
  exact absurd (hfirst.trans hle) (not_le.mpr htime)

end Split

/-! ### What the cursor passes -/

section Passing

variable {env : Env} {subscription topicName : Text} {topicLen i : ℕ} {p p' : Pulling}
  {drawn : Set Text}

/-- Without ordering keys a turn puts nothing into the retry queue. -/
theorem Turned.retryQueue_subset (h : Turned env subscription topicName topicLen p p')
    (hoff : p.sub.spec.enableMessageOrdering = false) : p'.sub.retryQueue ⊆ p.sub.retryQueue := by
  cases h with
  | skip htake _ => exact (takable_of_takeNext htake).2
  | block htake _ _ _ hblocked =>
    have hon := (orderingBlocked_eq_true_iff.mp hblocked).1
    rw [(takeNext_frame htake).1, hoff] at hon
    cases hon
  | serve htake _ _ _ _ _ hserved =>
    have hsubset := (takable_of_takeNext htake).2
    cases hserved <;> exact hsubset

theorem retryQueue_subset_of_turns
    (h : Relation.ReflTransGen (Turned env subscription topicName topicLen) p p')
    (hoff : p.sub.spec.enableMessageOrdering = false) : p'.sub.retryQueue ⊆ p.sub.retryQueue := by
  induction h with
  | refl => exact List.Subset.refl _
  | tail hturns hturn ih =>
    rw [← spec_of_turns hturns] at hoff
    exact List.Subset.trans (hturn.retryQueue_subset hoff) ih

/-- **Without ordering keys, what the cursor passes is acked or leased.** -/
theorem passed_of_turns
    (h : Relation.ReflTransGen (Turned env subscription topicName topicLen) p p')
    (hx : Exclusive p.sub.ledger)
    (hn : Named subscription (drawn ∪ drawnUpTo env p.draws) p.sub) (hd : Undrawn env drawn)
    (hoff : p.sub.spec.enableMessageOrdering = false) (hi : p.sub.nextIndex ≤ i)
    (hlt : i < p'.sub.nextIndex) : i ∈ p'.sub.acked ∨ p'.sub.ledger.Held i := by
  obtain ⟨es, htrace, -, -⟩ :=
    @turns_trace _ _ _ _ _ False [] _ _ h hx hn hd False.elim False.elim
  have hservice : ∀ (L : Ledger Text) e, Serving False [] L e → e.IsService := fun _ _ he => he.1
  -- nothing is lost, and what waits has been below the cursor from the start
  have hkept : p'.sub.ledger.Retains p.sub.nextIndex := by
    refine htrace.retains (fun L e he => ?_) (fun L e he => ?_) fun j hj hjlt => ?_
    · cases e with
      | forfeit _ _ => exact absurd (hservice L _ he) id
      | _ => exact id
    · exact Event.not_isRewind_of_isService (hservice L e he)
    · exact absurd hjlt (Nat.not_lt.mpr hj)
  rcases hkept i hi hlt with hacked | hheld | hwaiting
  · exact Or.inl hacked
  · exact Or.inr hheld
  · obtain ⟨e, he, rfl⟩ := (p'.sub.mem_ledger_waiting i).mp hwaiting
    have hold := retryQueue_subset_of_turns h hoff he
    have hbelow := hx.waiting_lt ((p.sub.mem_ledger_waiting _).mpr ⟨e, hold, rfl⟩)
    exact absurd hbelow (Nat.not_lt.mpr hi)

end Passing

/-! ### Reading on from an index -/

/-- **What is known of a subscription since its cursor was set to `n`**, where `log` was the
log of its topic then, and `l` is what has been delivered. -/
structure Reading (topicName : Text) (n : ℕ) (log : List RelayMessage) (l : List (ℕ × Delivery))
    (sub : SubscriptionState) (topics : StrMap TopicState) : Prop where
  topic : sub.spec.topic = topicName
  cursor : ∃ topic, topics[topicName]? = some topic ∧ log <+: topic.messages ∧
    sub.nextIndex ≤ topic.messages.length
  counting : Counting l sub topics
  above : sub.ledger.Above n
  delivered : ∀ d ∈ l, n ≤ d.1 ∧ HasMessage topics topicName d.1 d.2.message

/-- **Every index that the cursor has passed since has been delivered.** -/
def Complete (n : ℕ) (l : List (ℕ × Delivery)) (sub : SubscriptionState) : Prop :=
  ∀ i, n ≤ i → i < sub.nextIndex → ∃ d ∈ l, d.1 = i

/-- Ordering is disabled. -/
def Unordered (name : Text) (st : State) : Prop :=
  ∀ sub, st.subscriptions[name]? = some sub → sub.spec.enableMessageOrdering = false

section Steps

variable {serde : SerdeJson} {name topicName : Text} {n : ℕ} {log : List RelayMessage}
  {l : List (ℕ × Delivery)} {past : List Step} {s : Step} {sub sub' : SubscriptionState}

/-- **A step between two seeks** leaves the subscription where it is, and what it delivers
lies above the index. -/
theorem Reading.step (hfresh : (past ++ [s]).Pairwise Step.Apart)
    (hsub : (stateAfter serde past).subscriptions[name]? = some sub)
    (h : Reading topicName n log l sub (stateAfter serde past).topics)
    (hcontinues : Continues name (stateAfter serde past) s)
    (hkeep : s.call ≠ .deleteTopic topicName) :
    ∃ sub', (exec serde (stateAfter serde past) s).subscriptions[name]? = some sub' ∧
      Reading topicName n log (l ++ deliveredIn name (stateAfter serde past) s) sub'
        (exec serde (stateAfter serde past) s).topics := by
  obtain ⟨topic, htopic, hlog, hle⟩ := h.cursor
  have hthere := htopic
  rw [← h.topic] at hthere
  have hstays := hcontinues.stays_of_le hfresh hsub hthere hle
  obtain ⟨sub', hsub'⟩ : ∃ sub',
      (exec serde (stateAfter serde past) s).subscriptions[name]? = some sub' :=
    Option.isSome_iff_exists.mp (by simpa using hstays.2)
  have hsound := sound_stateAfter (List.pairwise_append.mp hfresh).1 hsub
  obtain ⟨es, htrace, hgrants, -, hname⟩ := @step_trace _ _ _ _ _ _ _ False [] hsub hsub' hstays.1
    hsound.exclusive hsound.named (undrawn_of_apart hfresh) False.elim False.elim
  have hname' : sub'.spec.topic = topicName := hname.trans h.topic
  refine ⟨sub', hsub', hname', ?_, ?_, ?_, fun d hd => ?_⟩
  · -- the log has grown, and the cursor is still within it
    obtain ⟨topic', htopic', hgrown⟩ : ∃ topic',
        (exec serde (stateAfter serde past) s).topics[topicName]? = some topic' ∧
          topic.messages <+: topic'.messages := longer_of_exec hkeep htopic
    obtain ⟨topic₀, htopic₀, hle'⟩ := cursor_of_exec hsub' fun sub₀ hsub₀ _ => by
      obtain rfl := Option.some.inj (hsub.symm.trans hsub₀)
      refine ⟨topic, hname' ▸ htopic, hle, fun k hk => ?_⟩
      rw [hstays.1] at hk
      cases hk
    rw [hname', htopic] at htopic₀
    obtain rfl := Option.some.inj htopic₀
    exact ⟨topic', htopic', hlog.trans hgrown, hle'.trans hgrown.length_le⟩
  · exact h.counting.step hfresh hsub (h.topic ▸ hkeep) hstays.1 hsub'
  · exact htrace.above (fun _ _ he => he.rewind) h.above
  · rcases List.mem_append.mp hd with hold | hnew
    · exact (h.delivered d hold).imp_right (·.exec hkeep)
    · have hgranted : (d.2.ackId, d.1) ∈ grants es := by
        rw [hgrants, granted_eq_map_deliveredIn]
        exact List.mem_map_of_mem hnew
      refine ⟨htrace.le_of_granted (fun _ _ he => he.rewind) h.above hgranted, ?_⟩
      obtain ⟨maxMessages, sub₀, topic₀, p, hcall, hsub₀, htopic₀, hp, -⟩ := deliveredIn_cases hnew
      obtain rfl := Option.some.inj (hsub.symm.trans hsub₀)
      obtain ⟨f, -, -, hf, hvisited⟩ := visited_of_finished hfresh hsub htopic₀ hcall hp
      rw [← hf] at hnew
      rw [← h.topic]
      exact (hvisited.delivered d hnew).1

/-- **A pull between two seeks finishes**, and answers with what it delivers. -/
theorem Reading.pull_finishes (hfresh : (past ++ [s]).Pairwise Step.Apart)
    (hsub : (stateAfter serde past).subscriptions[name]? = some sub)
    (h : Reading topicName n log l sub (stateAfter serde past).topics) {maxMessages : UInt32}
    (hcall : s.call = .pull name maxMessages) :
    ∃ (topic : TopicState) (p : Pulling), log <+: topic.messages ∧
      sub.nextIndex ≤ topic.messages.length ∧
      pullFrom s.env name maxMessages sub (stateAfter serde past).topics topic.messages.length =
        .finished p ∧
      (exec serde (stateAfter serde past) s).subscriptions[name]? = some p.sub ∧
      (pull s.env (stateAfter serde past) name maxMessages).1 =
        .returned ((persistLocked s.env).map fun _ =>
          (deliveredIn name (stateAfter serde past) s).map Prod.snd) ∧
      deliveredIn name (stateAfter serde past) s = p.deliveries := by
  obtain ⟨topic, htopic, hlog, hle⟩ := h.cursor
  rw [← h.topic] at htopic
  obtain ⟨p, hp⟩ := pullFrom_finishes_of_le hfresh hsub htopic hle maxMessages
  obtain ⟨f, hsub', hanswer, hf, -⟩ := visited_of_finished hfresh hsub htopic hcall hp
  rw [hf] at hanswer
  refine ⟨topic, p, hlog, hle, hp, hsub', hanswer, ?_⟩
  simp [deliveredIn, hcall, hsub, htopic, hp]

/-- The message at an index of the log that the log has had from the start. -/
theorem Reading.message_eq {topics : StrMap TopicState} (h : Reading topicName n log l sub topics)
    {d : ℕ × Delivery} (hd : d ∈ l) {m : RelayMessage} (hm : log[d.1]? = some m) :
    d.2.message = m := by
  obtain ⟨topic, htopic, hlog, -⟩ := h.cursor
  obtain ⟨-, topic', htopic', hmessage⟩ := h.delivered d hd
  obtain rfl := Option.some.inj (htopic.symm.trans htopic')
  exact Option.some.inj (hmessage.symm.trans (getElem?_of_isPrefix hlog hm))

/-- **A step between two seeks delivers what the cursor passes**, without ordering keys and
without a filter. -/
theorem Complete.step (hfresh : (past ++ [s]).Pairwise Step.Apart)
    (hsub : (stateAfter serde past).subscriptions[name]? = some sub)
    (hsub' : (exec serde (stateAfter serde past) s).subscriptions[name]? = some sub')
    (hseek : seekTarget name (stateAfter serde past) s = none)
    (hoff : sub.spec.enableMessageOrdering = false) (hblank : trim sub.spec.filter = [])
    (hcounting : Counting l sub (stateAfter serde past).topics) (h : Complete n l sub) :
    Complete n (l ++ deliveredIn name (stateAfter serde past) s) sub' := by
  intro i hn hi
  by_cases hold : ∃ d ∈ l, d.1 = i
  · obtain ⟨d, hd, heq⟩ := hold
    exact ⟨d, List.mem_append_left _ hd, heq⟩
  have hpassed : sub.nextIndex ≤ i := by
    by_contra hlt
    exact hold (h i hn (Nat.lt_of_not_le hlt))
  have hsound := sound_stateAfter (List.pairwise_append.mp hfresh).1 hsub
  have hunacked : i ∉ sub.acked := fun hin =>
    absurd (hsound.exclusive.done_lt hin) (Nat.not_lt.mpr hpassed)
  have hunheld : ∀ k, sub.ledger.lease k ≠ some i := fun k hk =>
    absurd (hsound.exclusive.lease_lt hk) (Nat.not_lt.mpr hpassed)
  have htouch := touch_of_exec serde name (stateAfter serde past) s
  rw [hsub, hsub'] at htouch
  cases htouch with
  | same _ _ _ => exact absurd hi (Nat.not_lt.mpr hpassed)
  | respec _ _ _ => exact absurd hi (Nat.not_lt.mpr hpassed)
  | acknowledge _ _ _ =>
    rw [(acknowledgeEach_frame _ _ _ _).2.1] at hi
    exact absurd hi (Nat.not_lt.mpr hpassed)
  | modify _ _ _ =>
    rw [(modify_frame _ _ _ _).2.1] at hi
    exact absurd hi (Nat.not_lt.mpr hpassed)
  | rewind hr _ =>
    rw [hseek] at hr
    cases hr
  | @pull _ topic maxMessages p hcall htopic hp _ hg =>
    obtain ⟨f, -, -, hf, hvisited⟩ := visited_of_finished hfresh hsub htopic hcall hp
    obtain ⟨hspec, hnext, -, -⟩ := sweep_frame s.env sub
    obtain ⟨es, hes⟩ := sweep_trace s.env sub hsound.exclusive
    have hn₀ : Named name (drawnIn past ∪ drawnUpTo s.env 0) (sweep s.env sub) :=
      (named_sweep hsound.named).mono Set.subset_union_left
    have hplaced := passed_of_turns (turns_of_finished hp) (hes.exclusive hsound.exclusive) hn₀
      (undrawn_of_apart hfresh) (hspec ▸ hoff) (hnext.le.trans hpassed) hi
    rcases hplaced with hacked | ⟨k, hk⟩
    · -- at a first attempt the index is neither a dead letter nor filtered
      rcases List.mem_append.mp (((hvisited.acked i).mp hacked).resolve_left hunacked) with
        hdead | hfiltered
      · obtain ⟨d, hd, rfl⟩ := List.mem_map.mp hdead
        obtain ⟨-, policy, -, -, hmany⟩ := hvisited.dead d hd
        have hfirst : sub.attempts[d.index]? = none := by
          rw [hcounting.count d.index hunacked, if_pos]
          exact attemptsOf_eq_nil.mpr fun d' hd' heq => hold ⟨d', hd', heq⟩
        rw [SubscriptionState.nextAttempt, hfirst] at hmany
        exact absurd hmany (one_le_clamp _)
      · obtain ⟨d, hd, -⟩ := List.mem_map.mp hfiltered
        have hrejects := (hvisited.filtered d hd).2.2
        rw [filterRejects_of_blank hblank] at hrejects
        cases hrejects
    · obtain ⟨es', htrace, hgrants, -, -⟩ := @step_trace _ _ _ _ _ _ _ False [] hsub hsub' hseek
        hsound.exclusive hsound.named (undrawn_of_apart hfresh) False.elim False.elim
      have hgranted := (htrace.lease_of (fun _ _ he => he.rewind) hk).resolve_left (hunheld k)
      rw [hgrants, granted_eq_map_deliveredIn] at hgranted
      obtain ⟨d, hd, heq⟩ := List.mem_map.mp hgranted
      exact ⟨d, List.mem_append_right _ hd, (Prod.mk.inj heq).2⟩

end Steps

/-! ### From one seek to the next -/

section Runs

variable {serde : SerdeJson} {name topicName : Text} {n : ℕ} {log : List RelayMessage}
  {init seg : List Step} {sub₀ : SubscriptionState}

/-- The start, at a cursor that has just been set. -/
theorem reading_of_rewind {sub : SubscriptionState} {topics : StrMap TopicState}
    {topic : TopicState} (htopic : topics[sub.spec.topic]? = some topic)
    (hn : n ≤ topic.messages.length) :
    Reading sub.spec.topic n topic.messages [] (sub.rewind n) topics where
  topic := rfl
  cursor := ⟨topic, htopic, List.prefix_refl _, hn⟩
  counting := counting_nil topics rfl
  above := by
    rw [SubscriptionState.ledger_rewind]
    exact above_rewound n
  delivered := by simp

/-- **What is known since the cursor was set** stays known until the next seek. -/
theorem reading_of_continues (hfresh : (init ++ seg).Pairwise Step.Apart)
    (hsub₀ : (stateAfter serde init).subscriptions[name]? = some sub₀)
    (h₀ : Reading topicName n log [] sub₀ (stateAfter serde init).topics)
    (hseg : Machine.Guarded (exec serde) (Continues name) (stateAfter serde init) seg)
    (hkeep : ∀ s ∈ seg, s.call ≠ .deleteTopic topicName) :
    ∃ sub, (stateAfter serde (init ++ seg)).subscriptions[name]? = some sub ∧
      Reading topicName n log (along serde (deliveredIn name) (stateAfter serde init) seg) sub
        (stateAfter serde (init ++ seg)).topics ∧
      sub.spec.filter = sub₀.spec.filter ∧
      (Machine.Guarded (exec serde) (fun st _ => Unordered name st) (stateAfter serde init) seg →
        trim sub₀.spec.filter = [] → Complete n [] sub₀ →
        Complete n (along serde (deliveredIn name) (stateAfter serde init) seg) sub) := by
  induction seg using List.reverseRecOn with
  | nil => exact ⟨sub₀, by simpa using hsub₀, by simpa [along] using h₀, rfl, fun _ _ h => h⟩
  | append_singleton seg s ih =>
    rw [Machine.guarded_concat, ← stateAfter_append] at hseg
    rw [← List.append_assoc] at hfresh
    obtain ⟨sub, hsub, hreading, hfilter, hcomplete⟩ := ih (List.pairwise_append.mp hfresh).1
      hseg.1 fun t ht => hkeep t (List.mem_append_left _ ht)
    obtain ⟨sub', hsub', hreading'⟩ := hreading.step hfresh hsub hseg.2 (hkeep s (by simp))
    rw [along_concat, ← List.append_assoc, stateAfter_concat, ← stateAfter_append]
    refine ⟨sub', hsub', hreading', (filter_of_exec hsub hsub').trans hfilter, ?_⟩
    intro hunordered hblank hstart
    rw [Machine.guarded_concat, ← stateAfter_append] at hunordered
    exact (hcomplete hunordered.1 hblank hstart).step hfresh hsub hsub' hseg.2.1
      (hunordered.2 sub hsub) (hfilter ▸ hblank) hreading.counting

/-- **What pulls on `name` deliver** in the steps `seg` after the steps `init`, which have set
the cursor to `n`. -/
structure ReadsFrom (serde : SerdeJson) (name : Text) (n : ℕ) (log : List RelayMessage)
    (filter : Text) (init seg : List Step) : Prop where
  /-- No pull panics, and it answers with what it delivers. -/
  answers : ∀ pre s maxMessages, pre ++ [s] <+: seg → s.call = .pull name maxMessages →
    (pull s.env (stateAfter serde (init ++ pre)) name maxMessages).1 =
      .returned ((persistLocked s.env).map fun _ =>
        (deliveredIn name (stateAfter serde (init ++ pre)) s).map Prod.snd)
  attempts : ∀ i, CountsFromOne
    (attemptsOf i (along serde (deliveredIn name) (stateAfter serde init) seg))
  /-- Nothing below the index is delivered, and of the log what stands at the index
  delivered. -/
  delivered : ∀ d ∈ along serde (deliveredIn name) (stateAfter serde init) seg,
    n ≤ d.1 ∧ ∀ m, log[d.1]? = some m → d.2.message = m
  /-- Once a pull delivers fewer messages than it may, exactly those of the log from the index
  on have been delivered. -/
  complete : trim filter = [] →
    Machine.Guarded (exec serde) (fun st _ => Unordered name st) (stateAfter serde init) seg →
    ∀ pre s maxMessages, pre ++ [s] <+: seg → s.call = .pull name maxMessages →
      (deliveredIn name (stateAfter serde (init ++ pre)) s).length <
        (clamp maxMessages 1 1000).toNat →
      ∀ i m, log[i]? = some m → (n ≤ i ↔
        ∃ d ∈ along serde (deliveredIn name) (stateAfter serde init) (pre ++ [s]),
          d.1 = i ∧ d.2.message = m)

/-- **Reading from where the cursor was set.** -/
theorem readsFrom_of_continues (hfresh : (init ++ seg).Pairwise Step.Apart)
    (hsub₀ : (stateAfter serde init).subscriptions[name]? = some sub₀)
    (h₀ : Reading topicName n log [] sub₀ (stateAfter serde init).topics)
    (hstart : Complete n [] sub₀)
    (hseg : Machine.Guarded (exec serde) (Continues name) (stateAfter serde init) seg)
    (hkeep : ∀ s ∈ seg, s.call ≠ .deleteTopic topicName) :
    ReadsFrom serde name n log sub₀.spec.filter init seg := by
  have hat := fun pre (hpre : pre <+: seg) =>
    reading_of_continues (hfresh.sublist ((List.prefix_append_right_inj init).mpr hpre).sublist)
      hsub₀ h₀ (hseg.of_isPrefix hpre) fun t ht => hkeep t (hpre.subset ht)
  have hfresh' : ∀ pre s, pre ++ [s] <+: seg → (init ++ pre ++ [s]).Pairwise Step.Apart := by
    intro pre s hpre
    rw [List.append_assoc]
    exact hfresh.sublist ((List.prefix_append_right_inj init).mpr hpre).sublist
  obtain ⟨_, -, hreading, -, -⟩ := hat seg (List.prefix_refl seg)
  refine
    { answers := fun pre s maxMessages hpre hcall => ?_
      attempts := hreading.counting.inOrder
      delivered := fun d hd =>
        ⟨(hreading.delivered d hd).1, fun m hm => hreading.message_eq hd hm⟩
      complete := fun hblank hunordered pre s maxMessages hpre hcall hfew i m hm => ?_ }
  · obtain ⟨sub, hsub, hbefore, -, -⟩ := hat pre ((List.prefix_append pre [s]).trans hpre)
    obtain ⟨_, _, -, -, -, -, hanswer, -⟩ := hbefore.pull_finishes (hfresh' pre s hpre) hsub hcall
    exact hanswer
  obtain ⟨sub, hsub, hbefore, -, -⟩ := hat pre ((List.prefix_append pre [s]).trans hpre)
  obtain ⟨topic, p, hlog, hle, hp, hsub', -, hdelivered⟩ :=
    hbefore.pull_finishes (hfresh' pre s hpre) hsub hcall
  obtain ⟨sub', hsub'', hafter, -, hcomplete⟩ := hat (pre ++ [s]) hpre
  rw [← List.append_assoc, stateAfter_concat, hsub'] at hsub''
  obtain rfl := Option.some.inj hsub''
  constructor
  · intro hn
    -- the pull has gone through the whole log
    have hend : p.sub.nextIndex = topic.messages.length := by
      have hnext := (sweep_frame s.env sub).2.1
      rw [hdelivered] at hfew
      exact (drains_of_finished (untaken_lt_pullFuel _ _) (hnext.le.trans hle) rfl rfl hp).cursor
        hfew
    have hlt : i < p.sub.nextIndex := by
      rw [hend]
      exact (List.getElem?_eq_some_iff.mp hm).1.trans_le hlog.length_le
    obtain ⟨d, hd, rfl⟩ := hcomplete (hunordered.of_isPrefix hpre) hblank hstart i hn hlt
    exact ⟨d, hd, rfl, hafter.message_eq hd hm⟩
  · rintro ⟨d, hd, rfl, -⟩
    exact (hafter.delivered d hd).1

/-- A seek that succeeds finds the subscription and its topic. -/
theorem exists_of_seekToTime {env : Env} {st : State} {time : Time}
    (hok : (seekToTime env st name time).1 = .ok ()) :
    ∃ sub topic, st.subscriptions[name]? = some sub ∧ st.topics[sub.spec.topic]? = some topic ∧
      (seekToTime env st name time).2.subscriptions[name]? =
        some (sub.rewind (seekIndex topic.messages time)) := by
  rcases hsub : st.subscriptions[name]? with - | sub
  · simp [seekToTime, hsub] at hok
  rcases htopic : st.topics[sub.spec.topic]? with - | topic
  · simp [seekToTime, hsub, htopic] at hok
  refine ⟨sub, topic, rfl, htopic, ?_⟩
  simp [seekToTime, hsub, htopic]

/-- **A seek to a time splits the log exactly**, and pulls go on from the split. While the
clock does not go back, every log is in the order of publication; so the messages below the
cursor after a seek are those published before the time. Also when it does go back, no
message published at or after the time is below it. -/
theorem seekToTime_splits (r : Run) :
    (ClockMonotone r.steps → ∀ past, past <+: r.steps → ∀ (name : Text) (topic : TopicState),
      (stateAfter serde past).topics[name]? = some topic →
      topic.messages.Pairwise fun a b => a.publishedAt ≤ b.publishedAt) ∧
    ∀ past s name time, past ++ [s] <+: r.steps → s.call = .seekToTime name time →
      (seekToTime s.env (stateAfter serde past) name time).1 = .ok () →
      ∃ sub topic n, (stateAfter serde past).subscriptions[name]? = some sub ∧
        (stateAfter serde (past ++ [s])).subscriptions[name]? = some (sub.rewind n) ∧
        (stateAfter serde (past ++ [s])).topics[sub.spec.topic]? = some topic ∧
        (∀ i m, topic.messages[i]? = some m → time ≤ m.publishedAt → n ≤ i) ∧
        (ClockMonotone r.steps → ∀ i m, topic.messages[i]? = some m →
          (i < n ↔ m.publishedAt < time)) ∧
        ∀ seg, past ++ [s] ++ seg <+: r.steps →
          Machine.Guarded (exec serde) (Continues name) (stateAfter serde (past ++ [s])) seg →
          (∀ t ∈ seg, t.call ≠ .deleteTopic sub.spec.topic) →
          ReadsFrom serde name n topic.messages sub.spec.filter (past ++ [s]) seg := by
  refine ⟨fun hclock past hpast name topic htopic => ?_, ?_⟩
  · exact ordered_stateAfter (hclock.of_isPrefix hpast) htopic
  intro past s name time hpast hcall hok
  obtain ⟨sub, topic, hsub, htopic, hsub'⟩ := exists_of_seekToTime hok
  have hafter : (stateAfter serde (past ++ [s])).subscriptions[name]? =
      some (sub.rewind (seekIndex topic.messages time)) := by
    simp only [stateAfter_concat, exec, hcall]
    exact hsub'
  have htopic' : (stateAfter serde (past ++ [s])).topics[sub.spec.topic]? = some topic := by
    simp only [stateAfter_concat, exec, hcall, seekToTime_frame]
    exact htopic
  refine ⟨sub, topic, seekIndex topic.messages time, hsub, hafter, htopic', ?_, ?_, ?_⟩
  · exact fun i m hm htime => seekIndex_le hm htime
  · intro hclock i m hm
    have hlog := ordered_stateAfter (hclock.of_isPrefix hpast) htopic'
    refine ⟨fun hlt => ?_, lt_seekIndex hlog hm⟩
    by_contra hge
    exact absurd (seekIndex_le hm (not_lt.mp hge)) (Nat.not_le.mpr hlt)
  · intro seg hseg hcontinues hkeep
    have hstart : Complete (seekIndex topic.messages time) []
        (sub.rewind (seekIndex topic.messages time)) := fun i hn hi =>
      absurd hi (Nat.not_lt.mpr hn)
    have hreads := readsFrom_of_continues (r.fresh.sublist hseg.sublist) hafter
      (reading_of_rewind htopic' List.findIdx_le_length) hstart hcontinues hkeep
    exact hreads

/-- Three messages are published one second apart, one is pulled, and the subscription is
set back to the time of the second. -/
def rewoundByTime : Run := .ofCalls
  [(0, .createTopic sampleTopic),
   (0, .createSubscription sampleSubscription),
   (0, .publish sampleTopic.name [sampleMessage ""]),
   (seconds 1, .publish sampleTopic.name [sampleMessage ""]),
   (seconds 2, .publish sampleTopic.name [sampleMessage ""]),
   (seconds 3, .pull sampleSubscription.name 1),
   (seconds 4, .seekToTime sampleSubscription.name (seconds 1)),
   (seconds 5, .pull sampleSubscription.name 5)]

/-- The next pull delivers the second message and the third. -/
theorem rewoundByTime_splits : ∃ (topic : TopicState) (n : ℕ),
    (stateAfter noJson (rewoundByTime.steps.take 7)).topics[sampleTopic.name]? = some topic ∧
    (∀ i m, topic.messages[i]? = some m → (i < n ↔ m.publishedAt < seconds 1)) ∧
    ∀ i m, topic.messages[i]? = some m → (n ≤ i ↔
      ∃ d ∈ along noJson (deliveredIn sampleSubscription.name)
        (stateAfter noJson (rewoundByTime.steps.take 7)) [rewoundByTime.steps[7]],
        d.1 = i ∧ d.2.message = m) := by
  have hclock : ClockMonotone rewoundByTime.steps := clockMonotone_ofCalls (by decide +kernel)
  have hspec : ((stateAfter noJson (rewoundByTime.steps.take 6)).subscriptions[
      sampleSubscription.name]?.all fun sub => decide (sub.spec.topic = sampleTopic.name ∧
        trim sub.spec.filter = [])) = true := by
    decide +kernel
  have hoff : ((stateAfter noJson (rewoundByTime.steps.take 7)).subscriptions[
      sampleSubscription.name]?.all fun sub =>
        decide (sub.spec.enableMessageOrdering = false)) = true := by
    decide +kernel
  have hok : (seekToTime rewoundByTime.steps[6].env (stateAfter noJson (rewoundByTime.steps.take 6))
      sampleSubscription.name (seconds 1)).1 = .ok () := by
    decide +kernel
  obtain ⟨sub, topic, n, hsub, -, htopic, -, hsplit, hreads⟩ :=
    (seekToTime_splits rewoundByTime).2 (rewoundByTime.steps.take 6) rewoundByTime.steps[6]
      sampleSubscription.name (seconds 1) (List.take_prefix 7 rewoundByTime.steps) rfl hok
  rw [hsub, Option.all_some] at hspec
  obtain ⟨hname, hblank⟩ := of_decide_eq_true hspec
  rw [hname] at htopic hreads
  have hreading := hreads [rewoundByTime.steps[7]] (List.prefix_refl _)
    (Machine.guarded_cons.mpr ⟨⟨rfl, nofun⟩, Machine.guarded_nil⟩) (by
      intro t ht
      rw [List.mem_singleton.mp ht]
      exact nofun)
  refine ⟨topic, n, htopic, hsplit hclock, ?_⟩
  refine hreading.complete hblank (Machine.guarded_cons.mpr ⟨?_, Machine.guarded_nil⟩) []
    rewoundByTime.steps[7] 5 (List.prefix_refl _) rfl (by decide +kernel)
  intro sub' hsub'
  have hthere : (stateAfter noJson (rewoundByTime.steps.take 7)).subscriptions[
      sampleSubscription.name]? = some sub' := hsub'
  rw [hthere, Option.all_some] at hoff
  exact of_decide_eq_true hoff

end Runs

end RelayPubsub.Memory
