import RelayPubsub.Memory.PullHistory

/-!
# A run as a history of one subscription

Every step of a run that touches a subscription and is no seek on it is a
history of its ledger (`RelayPubsub.Memory.step_trace`). The events of such a
history are `RelayPubsub.Memory.Allowed`: none sets the cursor anew; none loses
an index unless the step acknowledges an expired exactly-once lease; and where
ordering is enabled, every grant respects the ordering keys.

From it, what holds of a subscription in every state of every run
(`RelayPubsub.Memory.sound_watch`), and what happens to it between two seeks
(`RelayPubsub.Memory.segment_trace`).
-/

namespace RelayPubsub.Memory

open Lib Lib.Ledger

variable {serde : SerdeJson}

/-! ### One step -/

/-- **What the events of a step are like.** `calm` says that the step
acknowledges no expired lease of an exactly-once subscription, `ordered` that
ordering is enabled. -/
structure Allowed (ordered calm : Prop) (log : List RelayMessage) (L : Ledger Text)
    (e : Event Text) : Prop where
  rewind : ¬e.IsRewind
  forfeit : calm → ¬e.IsForfeit
  inOrder : ordered → L.InOrder (SameKey log) e

section Allowed

variable {ordered calm : Prop} {log : List RelayMessage} {L : Ledger Text} {e : Event Text}

theorem allowed_of_requeues (h : Requeues L e) : Allowed ordered calm log L e := by
  obtain ⟨k, i, rfl⟩ := h
  exact ⟨id, fun _ => id, fun _ => trivial⟩

theorem allowed_of_settles (h : Settles L e) : Allowed ordered calm log L e := by
  obtain ⟨k, i, rfl⟩ := h
  exact ⟨id, fun _ => id, fun _ => trivial⟩

theorem allowed_of_serving (h : Serving ordered log L e) : Allowed ordered calm log L e := by
  obtain ⟨hservice, horder⟩ := h
  cases e with
  | park _ | retire _ | grant _ _ => exact ⟨id, fun _ => id, horder⟩
  | _ => exact absurd hservice id

end Allowed

/-- **The step acknowledges an expired lease of an exactly-once subscription.** -/
def AcksExpired (name : Text) (st : State) (s : Step) : Prop :=
  ∃ ackIds sub, s.call = .acknowledge name ackIds ∧ st.subscriptions[name]? = some sub ∧
    ∃ ackId ∈ ackIds, sub.Expired (s.env.now 0) ackId

/-- The random identifiers that the steps of a run can draw. -/
def drawnIn (steps : List Step) : Set Text := {t | ∃ s ∈ steps, ∃ n, t = (s.env.uuid n).text}

theorem drawnIn_concat (steps : List Step) (s : Step) :
    drawnIn (steps ++ [s]) = drawnIn steps ∪ {t | ∃ n, t = (s.env.uuid n).text} := by
  ext t
  simp only [drawnIn, List.mem_append, List.mem_singleton, Set.mem_ofPred_eq, Set.mem_union]
  constructor
  · rintro ⟨s', hs' | rfl, hn⟩
    · exact Or.inl ⟨s', hs', hn⟩
    · exact Or.inr hn
  · rintro (⟨s', hs', hn⟩ | hn)
    · exact ⟨s', Or.inl hs', hn⟩
    · exact ⟨s, Or.inr rfl, hn⟩

/-- **Nothing drawn before is drawn again.** -/
theorem undrawn_of_apart {steps : List Step} {s : Step} (h : (steps ++ [s]).Pairwise Step.Apart) :
    Undrawn s.env (drawnIn steps) where
  colon := by
    rintro t ⟨s', -, n, rfl⟩
    exact (s'.env.uuid n).colon_notMem
  apart := by
    rintro t ⟨s', hs', m, rfl⟩ n
    exact (List.pairwise_append.mp h).2.2 s' hs' s (by simp) m n

theorem drawnUpTo_subset (env : Env) (n : ℕ) :
    drawnUpTo env n ⊆ {t | ∃ k, t = (env.uuid k).text} := by
  rintro t ⟨k, -, rfl⟩
  exact ⟨k, rfl⟩

/-- The topics a pull leaves behind. -/
theorem pull_topics {env : Env} {st : State} {name : Text} {maxMessages : UInt32}
    {sub : SubscriptionState} {topic : TopicState} {p : Pulling}
    (hsub : st.subscriptions[name]? = some sub) (htopic : st.topics[sub.spec.topic]? = some topic)
    (hp : pullFrom env name maxMessages sub st.topics topic.messages.length = .finished p) :
    (pull env st name maxMessages).2.topics = p.topics := by
  simp [pull, hsub, htopic, hp]

/-- **Where leases come from**: a step that hands one out is a pull whose loop
has finished. -/
theorem granted_cases (name : Text) (st : State) (s : Step) :
    granted name st s = [] ∨ ∃ maxMessages sub topic p, s.call = .pull name maxMessages ∧
      st.subscriptions[name]? = some sub ∧ st.topics[sub.spec.topic]? = some topic ∧
      pullFrom s.env name maxMessages sub st.topics topic.messages.length = .finished p ∧
      granted name st s = p.handed := by
  unfold granted
  split
  · rename_i subscription maxMessages hcall
    split
    · rename_i hname
      subst hname
      split
      · exact Or.inl rfl
      · rename_i sub hsub
        split
        · exact Or.inl rfl
        · rename_i topic htopic
          split
          · rename_i p hp
            exact Or.inr ⟨maxMessages, sub, topic, p, hcall, hsub, htopic, hp, rfl⟩
          · exact Or.inl rfl
    · exact Or.inl rfl
  · exact Or.inl rfl

/-- **The answer of a pull, and the leases it hands out**: one lease a delivery,
on an index at which the log has the message delivered. -/
theorem pull_answer {name : Text} {st : State} {s : Step} {maxMessages : UInt32}
    {deliveries : List Delivery} (hcall : s.call = .pull name maxMessages)
    (h : (pull s.env st name maxMessages).1 = .returned (.ok deliveries)) :
    ∃ sub topic, st.subscriptions[name]? = some sub ∧
      (exec serde st s).topics[sub.spec.topic]? = some topic ∧
      deliveries.map (·.ackId) = (granted name st s).map Prod.fst ∧
      deliveries.map (fun d => some d.message) =
        (granted name st s).map fun lease => topic.messages[lease.2]? := by
  rcases hsub : st.subscriptions[name]? with - | sub
  · simp [pull, hsub] at h
  rcases htopic : st.topics[sub.spec.topic]? with - | topic
  · simp [pull, hsub, htopic] at h
  rcases hp : pullFrom s.env name maxMessages sub st.topics topic.messages.length with p | p
  · have htopics : (exec serde st s).topics = p.topics := by
      simp only [exec, hcall]
      exact pull_topics hsub htopic hp
    have hdeliveries : p.deliveries.map Prod.snd = deliveries := by
      simp only [pull, hsub, htopic, hp, answer] at h
      split at h
      · simpa using h
      · simp at h
    have hgranted : granted name st s = p.handed := by simp [granted, hcall, hsub, htopic, hp,
      Pulling.handed]
    have hspec : (sweep s.env sub).spec.topic = sub.spec.topic := by rw [(sweep_frame s.env sub).1]
    have hturns := turns_of_finished hp
    rw [hspec] at hturns
    have htruth : p.Truthful sub.spec.topic :=
      truthful_of_turns hturns fun d hmem => absurd hmem (List.not_mem_nil)
    obtain ⟨topic', htopic', -⟩ := (topicsGrow_of_turns hturns).get htopic
    refine ⟨sub, topic', rfl, by rw [htopics]; exact htopic', ?_, ?_⟩
    · rw [hgranted, ← hdeliveries]
      simp [Pulling.handed]
    · rw [hgranted, ← hdeliveries]
      simp only [Pulling.handed, List.map_map]
      refine List.map_congr_left fun d hmem => ?_
      obtain ⟨topic'', htopic'', hmessage⟩ := htruth d hmem
      rw [htopic'] at htopic''
      obtain rfl := Option.some.inj htopic''
      exact hmessage.symm
  · simp [pull, hsub, htopic, hp] at h

/-- **A step that is no seek is a history of the ledger**, with the leases it
hands out as its grants. -/
theorem step_trace {name : Text} {st : State} {s : Step} {sub sub' : SubscriptionState}
    {drawn : Set Text} {ordered : Prop} {log : List RelayMessage}
    (hsub : st.subscriptions[name]? = some sub)
    (hsub' : (exec serde st s).subscriptions[name]? = some sub') (hr : seekTarget name st s = none)
    (hx : Exclusive sub.ledger) (hn : Named name drawn sub) (hd : Undrawn s.env drawn)
    (hon : ordered → sub.spec.enableMessageOrdering = true)
    (hlog : ordered → ∀ topic, (exec serde st s).topics[sub.spec.topic]? = some topic →
      topic.messages <+: log) :
    ∃ es, Trace (Allowed ordered (¬AcksExpired name st s) log) sub.ledger es sub'.ledger ∧
      grants es = granted name st s ∧
      Named name (drawn ∪ {t | ∃ n, t = (s.env.uuid n).text}) sub' ∧
      sub'.spec.topic = sub.spec.topic := by
  have htouch := touch_of_exec serde name st s
  rw [hsub, hsub'] at htouch
  have hn' : Named name (drawn ∪ {t | ∃ n, t = (s.env.uuid n).text}) sub :=
    hn.mono Set.subset_union_left
  cases htouch with
  | same _ _ hg => exact ⟨[], .nil _, hg.symm, hn', rfl⟩
  | respec _ hg htopic => exact ⟨[], .nil _, hg.symm, hn', htopic⟩
  | rewind hrew _ =>
    rw [hr] at hrew
    cases hrew
  | @pull _ topic maxMessages p hcall htopic hp _ hg =>
    have htopics : (exec serde st s).topics = p.topics := by
      simp only [exec, hcall]
      exact pull_topics hsub htopic hp
    rw [htopics] at hlog
    -- a sweep, and then a visit
    obtain ⟨es, es', hes, hes', hhanded, hnamed, hspec⟩ := pullFrom_trace hp hx hn hd hon hlog
    refine ⟨es ++ es', (hes.mono fun _ _ => allowed_of_requeues).append
      (hes'.mono fun _ _ => allowed_of_serving), ?_, ?_, by rw [hspec]⟩
    · rw [grants_append, grants_of_requeues hes, List.nil_append, ← hhanded, hg]
      rfl
    · exact hnamed.mono (Set.union_subset_union_right _ (drawnUpTo_subset _ _))
  | @acknowledge _ ackIds hcall _ hg =>
    obtain ⟨hspec, -, -, hinflight⟩ :=
      acknowledgeEach_frame (s.env.now 0) st.topics[sub.spec.topic]? sub ackIds
    have hnamed := hn'.of_subset fun id entry h => ⟨entry, hinflight id entry h, rfl⟩
    obtain ⟨es, M, htrace, hend⟩ :=
      acknowledgeEach_trace (s.env.now 0) st.topics[sub.spec.topic]? sub ackIds
    have htrace := htrace.mono fun _ _ => SettlesOf.settles
    have hgrants := grants_of_settles htrace
    have htrace : Trace (Allowed ordered (¬AcksExpired name st s) log) sub.ledger es M :=
      htrace.mono fun _ _ => allowed_of_settles
    rcases hend with ⟨-, hledger⟩ | ⟨hne, k, -, i, hk, hledger⟩
    · rw [hledger]
      exact ⟨es, htrace, hgrants.trans hg.symm, hnamed, by rw [hspec]⟩
    · -- the call stops at an expired lease, which is forfeited
      have hexpired : AcksExpired name st s := by
        rw [Ne, acknowledgeEach_ok_iff] at hne
        push Not at hne
        exact ⟨ackIds, sub, hcall, hsub, hne⟩
      rw [hledger]
      refine ⟨es ++ [.forfeit k i], htrace.append (.single (.forfeit hk) ⟨id, ?_, ?_⟩), ?_, hnamed,
        by rw [hspec]⟩
      · exact fun hcalm => absurd hexpired hcalm
      · exact fun _ => trivial
      · rw [grants_append, hgrants, hg]
        rfl
  | @modify _ ackIds extension hcall _ hg =>
    obtain ⟨hspec, -, -, hinflight⟩ := modify_frame (s.env.now 0) extension sub ackIds
    obtain ⟨es, hes⟩ := modify_trace (s.env.now 0) extension sub ackIds
    have hes := hes.mono fun _ _ => RequeuesOf.requeues
    refine ⟨es, hes.mono fun _ _ => allowed_of_requeues, ?_, hn'.of_subset hinflight, by rw [hspec]⟩
    exact (grants_of_requeues hes).trans hg.symm

/-! ### Every state of every run -/

/-- **What holds of a subscription in every state of a run.** -/
structure Sound (name : Text) (past : List Step) (w : Watched) (sub : SubscriptionState) :
    Prop where
  /-- An index is in one place at most. -/
  exclusive : Exclusive sub.ledger
  /-- Nothing is owed below the index the cursor was last set to. -/
  above : Above w.base sub.ledger
  /-- The ack ids in use are exactly-once ids or have been drawn. -/
  named : Named name (drawnIn past) sub
  /-- Every lease was handed out by a pull. -/
  issued : ∀ ackId i, sub.ledger.lease ackId = some i → (ackId, i) ∈ w.issued

/-- A subscription without leases and retries whose cursor has just been set. -/
theorem sound_of_rewound {name : Text} {past : List Step} {w : Watched} {sub : SubscriptionState}
    (hledger : sub.ledger = rewound w.base) : Sound name past w sub := by
  have hnone : ∀ (ackId : Text) (i : ℕ), sub.ledger.lease ackId ≠ some i := by
    intro ackId i h
    rw [hledger] at h
    cases h
  refine ⟨?_, ?_, fun ackId entry hentry => ?_, fun ackId i hi => absurd hi (hnone ackId i)⟩
  · rw [hledger]
    exact exclusive_rewound _
  · rw [hledger]
    exact above_rewound _
  · exact absurd ((sub.ledger_lease_eq_some _).mpr ⟨entry, hentry, rfl⟩) (hnone ackId _)

section Watching

variable {name : Text} {w : Watched} {s : Step}

/-- A step after which the subscription is there and was there before. -/
theorem Watched.step_of_some {sub : SubscriptionState}
    (h : w.state.subscriptions[name]? = some sub) :
    w.step serde name s =
      { state := exec serde w.state s
        base := (seekTarget name w.state s).getD w.base
        issued := w.issued ++ granted name w.state s } := by
  simp [Watched.step, h]

/-- A step that creates the subscription. -/
theorem Watched.step_of_none {sub : SubscriptionState} (h : w.state.subscriptions[name]? = none)
    (h' : (exec serde w.state s).subscriptions[name]? = some sub) :
    w.step serde name s =
      { state := exec serde w.state s, base := sub.nextIndex, issued := [] } := by
  simp [Watched.step, h, h']

/-- **What a step has done to a subscription that is there after it**: it has set
its cursor, by creating it or by a seek, or it was a history of its ledger. -/
theorem step_cases {past : List Step} (hfresh : (past ++ [s]).Pairwise Step.Apart)
    (hsound : ∀ sub, w.state.subscriptions[name]? = some sub → Sound name past w sub)
    {sub' : SubscriptionState} (hsub' : (exec serde w.state s).subscriptions[name]? = some sub') :
    sub'.ledger = rewound (w.step serde name s).base ∨
      ∃ sub es, w.state.subscriptions[name]? = some sub ∧
        Trace (Allowed False (¬AcksExpired name w.state s) []) sub.ledger es sub'.ledger ∧
        (w.step serde name s).base = w.base ∧
        (w.step serde name s).issued = w.issued ++ grants es ∧
        Named name (drawnIn (past ++ [s])) sub' := by
  have htouch := touch_of_exec serde name w.state s
  rcases hsub : w.state.subscriptions[name]? with - | sub
  · rw [hsub, hsub'] at htouch
    rw [Watched.step_of_none hsub hsub']
    cases htouch with
    | create _ _ _ _ => exact Or.inl (SubscriptionState.ledger_created _ _)
  rw [Watched.step_of_some hsub]
  rcases hr : seekTarget name w.state s with - | n
  · obtain ⟨es, htrace, hgrants, hnamed, -⟩ := step_trace hsub hsub' hr (hsound sub hsub).exclusive
      (hsound sub hsub).named (undrawn_of_apart hfresh) False.elim False.elim
    refine Or.inr ⟨sub, es, rfl, htrace, rfl, by rw [hgrants], ?_⟩
    rw [drawnIn_concat]
    exact hnamed
  · rw [hsub, hsub'] at htouch
    cases htouch with
    | rewind hr' _ =>
      rw [hr] at hr'
      obtain rfl := Option.some.inj hr'
      exact Or.inl (SubscriptionState.ledger_rewind sub _)
    | same _ hr' _ | respec hr' _ _ | pull _ _ _ hr' _ | acknowledge _ hr' _ | modify _ hr' _ =>
      rw [hr] at hr'
      cases hr'

/-- **One step keeps a subscription sound.** -/
theorem sound_step {past : List Step} (hfresh : (past ++ [s]).Pairwise Step.Apart)
    (ih : ∀ sub, w.state.subscriptions[name]? = some sub → Sound name past w sub)
    {sub' : SubscriptionState}
    (hsub' : (w.step serde name s).state.subscriptions[name]? = some sub') :
    Sound name (past ++ [s]) (w.step serde name s) sub' := by
  rw [Watched.step_state] at hsub'
  rcases step_cases hfresh ih hsub' with hledger | ⟨sub, es, hsub, htrace, hbase, hissued, hnamed⟩
  · exact sound_of_rewound hledger
  · have hsound := ih sub hsub
    refine ⟨htrace.exclusive hsound.exclusive, ?_, hnamed, fun ackId i hi => ?_⟩
    · rw [hbase]
      exact htrace.above (fun _ _ h => h.rewind) hsound.above
    · rw [hissued, List.mem_append]
      exact (htrace.lease_of (fun _ _ h => h.rewind) hi).imp_left (hsound.issued ackId i)

end Watching

/-- **Every subscription is sound in every state of every run.** -/
theorem sound_watch {name : Text} {steps : List Step} (hfresh : steps.Pairwise Step.Apart)
    {sub : SubscriptionState}
    (hsub : (watch serde name steps).state.subscriptions[name]? = some sub) :
    Sound name steps (watch serde name steps) sub := by
  induction steps using List.reverseRecOn generalizing sub with
  | nil => simp [watch] at hsub
  | append_singleton past s ih =>
    rw [watch_concat] at hsub ⊢
    have hpast : past.Pairwise Step.Apart := (List.pairwise_append.mp hfresh).1
    exact sound_step hfresh (fun sub hsub => ih hpast hsub) hsub

/-! ### Between two seeks -/

/-- **The step leaves the subscription alone in the large**: it is no seek on it,
and does not remove it. -/
def Stays (serde : SerdeJson) (name : Text) (st : State) (s : Step) : Prop :=
  seekTarget name st s = none ∧ name ∈ (exec serde st s).subscriptions

/-- A topic that is gone is not created again. -/
def KeepsTopic (serde : SerdeJson) (topic : Text) (st : State) (s : Step) : Prop :=
  topic ∉ st.topics → topic ∉ (exec serde st s).topics

/-- Ordering is enabled. -/
def Ordered (name : Text) (st : State) : Prop :=
  ∀ sub, st.subscriptions[name]? = some sub → sub.spec.enableMessageOrdering = true

/-- The leases handed out along a list of steps. -/
def grantedAlong (serde : SerdeJson) (name : Text) (st : State) : List Step → List (Text × ℕ)
  | [] => []
  | s :: seg => granted name st s ++ grantedAlong serde name (exec serde st s) seg

theorem grantedAlong_concat (name : Text) (st : State) (seg : List Step) (s : Step) :
    grantedAlong serde name st (seg ++ [s]) =
      grantedAlong serde name st seg ++ granted name (Machine.run (exec serde) st seg) s := by
  induction seg generalizing st with
  | nil => simp [grantedAlong]
  | cons s' seg ih => simp [grantedAlong, ih]

section Segment

variable {name : Text} {pre : List Step} {sub₀ : SubscriptionState}

theorem stateAfter_append (pre seg : List Step) :
    stateAfter serde (pre ++ seg) = Machine.run (exec serde) (stateAfter serde pre) seg :=
  Machine.run_append _ _ _ _

/-- **What happens to a subscription between two seeks**, as one history, with
the leases handed out as its grants. -/
theorem segment_trace {seg : List Step} {ordered calm : Prop} {log : List RelayMessage}
    (hfresh : (pre ++ seg).Pairwise Step.Apart)
    (h₀ : (stateAfter serde pre).subscriptions[name]? = some sub₀)
    (hstays : Machine.Guarded (exec serde) (Stays serde name) (stateAfter serde pre) seg)
    (hordered : ordered →
      Machine.Guarded (exec serde) (fun st _ => Ordered name st) (stateAfter serde pre) seg)
    (hcalm : calm → Machine.Guarded (exec serde) (fun st s => ¬AcksExpired name st s)
      (stateAfter serde pre) seg)
    (hlog : ordered → Machine.Always (exec serde) (fun st => ∀ topic,
      st.topics[sub₀.spec.topic]? = some topic → topic.messages <+: log)
      (stateAfter serde pre) seg) :
    ∃ sub es, (stateAfter serde (pre ++ seg)).subscriptions[name]? = some sub ∧
      Trace (Allowed ordered calm log) sub₀.ledger es sub.ledger ∧
      grants es = grantedAlong serde name (stateAfter serde pre) seg ∧
      sub.spec.topic = sub₀.spec.topic := by
  induction seg using List.reverseRecOn with
  | nil => exact ⟨sub₀, [], by simpa using h₀, .nil _, rfl, rfl⟩
  | append_singleton seg s ih =>
    rw [Machine.guarded_concat] at hstays
    rw [← List.append_assoc] at hfresh
    obtain ⟨sub, es, hsub, htrace, hgrants, htopic⟩ :=
      ih (List.pairwise_append.mp hfresh).1 hstays.1
        (fun ho => (Machine.guarded_concat.mp (hordered ho)).1)
        (fun hc => (Machine.guarded_concat.mp (hcalm hc)).1)
        (fun ho => (Machine.always_concat.mp (hlog ho)).1)
    have hsound : Sound name (pre ++ seg) (watch serde name (pre ++ seg)) sub :=
      sound_watch (List.pairwise_append.mp hfresh).1 (by rwa [watch_state])
    rw [← stateAfter_append] at hstays
    obtain ⟨-, hr, hmem⟩ := hstays
    obtain ⟨sub', hsub'⟩ : ∃ sub',
        (exec serde (stateAfter serde (pre ++ seg)) s).subscriptions[name]? =
        some sub' := Option.isSome_iff_exists.mp (by simpa using hmem)
    have hon : ordered → sub.spec.enableMessageOrdering = true := by
      intro ho
      have honw := (Machine.guarded_concat.mp (hordered ho)).2
      rw [← stateAfter_append] at honw
      exact honw sub hsub
    have hlogs : ordered → ∀ topic, (exec serde (stateAfter serde (pre ++ seg)) s).topics[
        sub.spec.topic]? = some topic → topic.messages <+: log := by
      intro ho
      rw [htopic, stateAfter_append]
      exact (Machine.always_concat.mp (hlog ho)).2
    -- the last step, as a history that starts where the others end
    obtain ⟨es', htrace', hgrants', -, htopic'⟩ := step_trace hsub hsub' hr hsound.exclusive
      hsound.named (undrawn_of_apart hfresh) hon hlogs
    have hallowed : ∀ L e, Allowed ordered (¬AcksExpired name (stateAfter serde (pre ++ seg)) s)
        log L e → Allowed ordered calm log L e := by
      intro L e he
      refine ⟨he.rewind, fun hc => he.forfeit ?_, he.inOrder⟩
      rw [stateAfter_append]
      exact (Machine.guarded_concat.mp (hcalm hc)).2
    refine ⟨sub', es ++ es', ?_, htrace.append (htrace'.mono hallowed), ?_, htopic'.trans htopic⟩
    · rw [← List.append_assoc, stateAfter_concat]
      exact hsub'
    · rw [grants_append, hgrants, hgrants', grantedAlong_concat, stateAfter_append]

/-- **One log for a whole segment**: all the logs of a topic that is not created
again are prefixes of the last one. -/
theorem exists_log {seg : List Step} (topicName : Text) (st : State)
    (hkeeps : Machine.Guarded (exec serde) (KeepsTopic serde topicName) st seg) :
    ∃ log, Machine.Always (exec serde) (fun st => ∀ topic, st.topics[topicName]? = some topic →
        topic.messages <+: log) st seg ∧
      ∀ topic, (Machine.run (exec serde) st seg).topics[topicName]? = some topic →
        topic.messages = log := by
  induction seg using List.reverseRecOn with
  | nil =>
    refine ⟨(st.topics[topicName]?.map (·.messages)).getD [], fun pre hpre topic htopic => ?_,
      fun topic htopic => ?_⟩
    · rw [List.prefix_nil.mp hpre, Machine.run_nil] at htopic
      rw [htopic]
      exact List.prefix_refl _
    · rw [Machine.run_nil] at htopic
      rw [htopic]
      rfl
  | append_singleton seg s ih =>
    rw [Machine.guarded_concat] at hkeeps
    obtain ⟨log, halways, hlast⟩ := ih hkeeps.1
    set st' := Machine.run (exec serde) st seg with hst'
    have htouch := topicTouch_of_exec topicName st' s serde
    rcases htopic' : (exec serde st' s).topics[topicName]? with - | topic'
    · refine ⟨log, Machine.always_concat.mpr ⟨halways, fun topic htopic => ?_⟩,
        fun topic htopic => ?_⟩
      · rw [← hst', htopic'] at htopic
        cases htopic
      · rw [Machine.run_concat, ← hst', htopic'] at htopic
        cases htopic
    · -- the log the topic had, if it had one, is a prefix of the one it has
      have hgrow : log <+: topic'.messages ∧ st'.topics[topicName]? ≠ none := by
        rw [htopic'] at htouch
        generalize hst'' : st'.topics[topicName]? = t at htouch
        cases htouch with
        | grown hg =>
          cases hg with
          | grown hp => exact ⟨hlast _ hst'' ▸ hp, by simp⟩
        | create _ _ =>
          have hgone : topicName ∉ st'.topics := by simpa using hst''
          refine absurd ?_ (hkeeps.2 hgone)
          rw [Std.ExtTreeMap.mem_iff_isSome_getElem?, htopic']
          rfl
      refine ⟨topic'.messages, Machine.always_concat.mpr ⟨?_, fun topic htopic => ?_⟩,
        fun topic htopic => ?_⟩
      · exact halways.mono fun t ht topic htopic => (ht topic htopic).trans hgrow.1
      · rw [← hst', htopic'] at htopic
        rw [Option.some.inj htopic]
      · rw [Machine.run_concat, ← hst', htopic'] at htopic
        rw [Option.some.inj htopic]

end Segment

end RelayPubsub.Memory
