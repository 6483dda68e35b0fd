import RelayPubsub.Memory.History

/-!
# What a subscription retains

A subscription takes indices off the log by advancing its cursor, and owes each
of them until it is acked. The indices taken since the cursor was last set are
kept track of by `acked`, `inflight` and `retry_queue`
(`RelayPubsub.Memory.Retained`), with one exception: `acknowledge` takes an
expired lease of an exactly-once subscription off the table before it refuses
it, and puts its index nowhere. A run retains every message exactly if none of
its steps does that (`RelayPubsub.Memory.retained_iff`).

A snapshot keeps the cursor of a subscription, and none of its three sets. What
is owed after seeking to it is what lies at or above that cursor
(`RelayPubsub.Memory.owed_after_seekToSnapshot`).
-/

namespace RelayPubsub.Memory

open Lib Lib.Ledger

variable (serde : SerdeJson)

/-! ### Nothing is lost -/

/-- **Every index taken since the cursor was last set is accounted for**: it is
acked, leased, or waiting for another delivery. -/
def Retained (name : Text) (w : Watched) : Prop :=
  ∀ sub, w.state.subscriptions[name]? = some sub → ∀ i, w.base ≤ i → i < sub.nextIndex →
    i ∈ sub.acked ∨ sub.Leased i ∨ sub.Queued i

variable {serde}

theorem retained_of_ledger {name : Text} {w : Watched}
    (h : ∀ sub, w.state.subscriptions[name]? = some sub → sub.ledger.Retains w.base) :
    Retained name w := by
  intro sub hsub i hbase hlt
  rw [← SubscriptionState.ledger_held_iff, ← SubscriptionState.mem_ledger_waiting]
  exact h sub hsub i hbase hlt

theorem Retained.ledger {name : Text} {w : Watched} (h : Retained name w) {sub : SubscriptionState}
    (hsub : w.state.subscriptions[name]? = some sub) : sub.ledger.Retains w.base := by
  intro i hbase hlt
  rw [Placed, SubscriptionState.ledger_held_iff, SubscriptionState.mem_ledger_waiting]
  exact h sub hsub i hbase hlt

section Step

variable {name : Text} {past : List Step} {s : Step}

/-- A step that acknowledges no expired exactly-once lease loses nothing. -/
theorem retained_step (hfresh : (past ++ [s]).Pairwise Step.Apart)
    (hret : Retained name (watch serde name past))
    (hcalm : ¬AcksExpired name (watch serde name past).state s) :
    Retained name ((watch serde name past).step serde name s) := by
  refine retained_of_ledger fun sub' hsub' => ?_
  rw [Watched.step_state] at hsub'
  have hsound : ∀ sub, (watch serde name past).state.subscriptions[name]? = some sub →
      Sound name past (watch serde name past) sub :=
    fun _ hsub => sound_watch (List.pairwise_append.mp hfresh).1 hsub
  rcases step_cases hfresh hsound hsub' with hledger | ⟨sub, es, hsub, htrace, hbase, -, -⟩
  · rw [hledger]
    exact retains_rewound _
  · rw [hbase]
    exact htrace.retains (fun _ _ h => h.forfeit hcalm) (fun _ _ h => h.rewind) (hret.ledger hsub)

/-- **Acknowledging an expired exactly-once lease loses its index.** -/
theorem not_retained_step (hfresh : past.Pairwise Step.Apart)
    (hexp : AcksExpired name (watch serde name past).state s) :
    ¬Retained name ((watch serde name past).step serde name s) := by
  obtain ⟨ackIds, sub, hcall, hsub, ackId, hmem, hexp⟩ := hexp
  have hsound := sound_watch hfresh hsub
  set w := watch serde name past with hw
  intro hret
  have hsub' : (exec serde w.state s).subscriptions[name]? =
      some (acknowledgeEach (s.env.now 0) w.state.topics[sub.spec.topic]? sub ackIds).2 := by
    simp only [exec, hcall]
    rw [acknowledge_subscriptions hsub, Std.ExtTreeMap.getElem?_insert_self]
  have hr : seekTarget name w.state s = none := by simp [seekTarget, hcall]
  have hledger := hret.ledger (by rw [Watched.step_state]; exact hsub')
  rw [Watched.step_of_some hsub, hr] at hledger
  obtain ⟨es, M, htrace, hend⟩ :=
    acknowledgeEach_trace (s.env.now 0) w.state.topics[sub.spec.topic]? sub ackIds
  rcases hend with ⟨hok, -⟩ | ⟨-, k, -, i, hk, hM⟩
  · exact acknowledgeEach_ok_iff.mp hok ackId hmem hexp
  · rw [hM] at hledger
    have hnorewind : ∀ (L : Ledger Text) (e : Event Text), SettlesOf ackIds L e → ¬e.IsRewind := by
      rintro L e ⟨k, -, i, rfl⟩
      exact id
    exact not_retains_forfeit (htrace.exclusive hsound.exclusive)
      (htrace.above hnorewind hsound.above) hk hledger

end Step

/-- A run that acknowledges no expired exactly-once lease retains every message. -/
theorem retained_of_calm (r : Run) (name : Text)
    (hcalm : Machine.Guarded (Watched.step serde name) (fun w s => ¬AcksExpired name w.state s) {}
      r.steps) :
    Machine.Always (Watched.step serde name) (Retained name) {} r.steps := by
  refine Machine.invariant (P := fun _ w => Retained name w) (fun sub hsub => ?_)
    fun pre s hpre hret => ?_
  · simp at hsub
  · exact retained_step (r.fresh.sublist hpre.sublist) hret (hcalm pre s hpre)

/-- The call is an acknowledgement. -/
def isAcknowledge : BackendCall → Bool
  | .acknowledge _ _ => true
  | _ => false

/-- A run without acknowledgements acknowledges no expired lease. -/
theorem calm_of_no_acknowledge {steps : List Step} (name : Text) (w : Watched)
    (h : (steps.all fun s => !isAcknowledge s.call) = true) :
    Machine.Guarded (Watched.step serde name) (fun w s => ¬AcksExpired name w.state s) w steps := by
  rintro pre s hpre ⟨ackIds, sub, hcall, -⟩
  have hs := List.all_eq_true.mp h s (hpre.subset (by simp))
  simp [hcall, isAcknowledge] at hs

/-- **A run retains every message exactly if it acknowledges no expired lease of
an exactly-once subscription.** -/
theorem retained_iff (r : Run) (name : Text) :
    Machine.Always (Watched.step serde name) (Retained name) {} r.steps ↔
      Machine.Guarded (Watched.step serde name) (fun w s => ¬AcksExpired name w.state s) {}
        r.steps := by
  refine ⟨fun hret pre s hpre hexp => ?_, retained_of_calm r name⟩
  have hfresh := (List.pairwise_append.mp (r.fresh.sublist hpre.sublist)).1
  have hafter := hret (pre ++ [s]) hpre
  rw [Machine.run_concat] at hafter
  exact not_retained_step hfresh hexp hafter

/-- A message whose lease on an exactly-once subscription has run out, and that is
acknowledged before the next pull. -/
def lateAck : Run := .ofCalls
  [(0, .createTopic sampleTopic),
   (0, .createSubscription { sampleSubscription with enableExactlyOnceDelivery := true }),
   (0, .publish sampleTopic.name [sampleMessage ""]),
   (0, .pull sampleSubscription.name 1),
   (seconds 11, .acknowledge sampleSubscription.name [exactlyOnceId sampleSubscription.name 0 1])]

/-- The message has been taken, and is neither acked nor leased nor waiting. -/
theorem lateAck_loses : ¬Machine.Always (Watched.step noJson sampleSubscription.name)
    (Retained sampleSubscription.name) {} lateAck.steps := by
  intro h
  set w := watch noJson sampleSubscription.name lateAck.steps with hw
  obtain ⟨hlost, hbase⟩ : (w.state.subscriptions[sampleSubscription.name]?.any fun sub =>
      sub.nextIndex = 1 ∧ 0 ∉ sub.acked ∧ sub.isLeased 0 = false ∧ sub.retryQueue = []) = true ∧
      w.base = 0 := by
    rw [hw]
    decide +kernel
  obtain ⟨sub, hsub, hfields⟩ := (Option.any_eq_true _ _).mp hlost
  obtain ⟨hnext, hacked, hleased, hqueue⟩ := of_decide_eq_true hfields
  rcases h.last sub hsub 0 (Nat.le_of_eq hbase) (by omega) with hd | hl | ⟨e, he, -⟩
  · exact hacked hd
  · rw [← SubscriptionState.ledger_held_iff, ← SubscriptionState.isLeased_iff, hleased] at hl
    cases hl
  · rw [hqueue] at he
    cases he

/-! ### Snapshots -/

/-- The subscription is due to process the index: it has not taken it yet, or it
waits for another delivery. -/
def SubscriptionState.Owes (sub : SubscriptionState) (i : ℕ) : Prop :=
  sub.nextIndex ≤ i ∨ sub.Queued i

/-- The snapshot is there, and keeps an index. -/
def Keeps (snapshot : Text) (index : ℕ) (st : State) : Prop :=
  ∃ snap, st.snapshots[snapshot]? = some snap ∧ snap.topicIndex = index

/-- A snapshot that is not deleted keeps its index. -/
theorem keeps_step {snapshot : Text} {index : ℕ} {st : State} {s : Step}
    (h : Keeps snapshot index st) (hdel : s.call ≠ .deleteSnapshot snapshot) :
    Keeps snapshot index (exec serde st s) := by
  obtain ⟨snap, hsnap, rfl⟩ := h
  have htouch := snapshotTouch_of_exec snapshot st s serde
  rw [hsnap] at htouch
  generalize hsnap' : (exec serde st s).snapshots[snapshot]? = after at htouch
  cases htouch with
  | same _ => exact ⟨snap, hsnap', rfl⟩
  | relabel => exact ⟨_, hsnap', rfl⟩
  | delete hcall => exact absurd hcall hdel

/-- **A new snapshot keeps the cursor of its subscription.** -/
theorem keeps_of_createSnapshot {snapshot name : Text} {labels : StrMap Text} {st : State}
    {s : Step}
    {sub : SubscriptionState} (hcall : s.call = .createSnapshot snapshot name labels)
    (hsub : st.subscriptions[name]? = some sub) (hnew : snapshot ∉ st.snapshots)
    (hthere : snapshot ∈ (exec serde st s).snapshots) :
    Keeps snapshot sub.nextIndex (exec serde st s) := by
  have htouch := snapshotTouch_of_exec snapshot st s serde
  rw [Std.ExtTreeMap.getElem?_eq_none hnew] at htouch
  obtain ⟨snap, hsnap⟩ :=
    Option.isSome_iff_exists.mp (Std.ExtTreeMap.mem_iff_isSome_getElem?.mp hthere)
  rw [hsnap] at htouch
  cases htouch with
  | create hcall' hsub' _ hindex =>
    rw [hcall] at hcall'
    obtain ⟨-, rfl, -⟩ := BackendCall.createSnapshot.inj hcall'
    rw [hsub] at hsub'
    obtain rfl := Option.some.inj hsub'
    exact ⟨snap, hsnap, hindex⟩

/-- A seek to a snapshot that succeeds sets the cursor to its index. -/
theorem exists_rewind_of_seekToSnapshot {env : Env} {st : State} {name snapshot : Text}
    {snap : SnapshotSpec} {sub : SubscriptionState} (hsnap : st.snapshots[snapshot]? = some snap)
    (hok : (seekToSnapshot env st name snapshot).1 = .ok ())
    (hsub : (seekToSnapshot env st name snapshot).2.subscriptions[name]? = some sub) :
    ∃ sub₁ : SubscriptionState, sub = sub₁.rewind snap.topicIndex := by
  unfold seekToSnapshot at hok hsub
  rw [hsnap] at hok hsub
  dsimp only at hok hsub
  split at hok
  · cases hok
  rename_i sub₁ hsub₁
  split at hok
  · cases hok
  rename_i htopic
  rw [hsub₁] at hsub
  dsimp only at hsub
  rw [if_neg htopic, answer_snd, Std.ExtTreeMap.getElem?_insert_self] at hsub
  exact ⟨sub₁, (Option.some.inj hsub).symm⟩

/-- The step appends the index to the log of the topic. -/
def Appends (serde : SerdeJson) (topic : Text) (st : State) (s : Step) (i : ℕ) : Prop :=
  ∃ log log' : TopicState, st.topics[topic]? = some log ∧
    (exec serde st s).topics[topic]? = some log' ∧
    log.messages.length ≤ i ∧ i < log'.messages.length

/-- The topic is there, and its log reaches up to the index. -/
def LogReaches (topic : Text) (n : ℕ) (st : State) : Prop :=
  ∃ log, st.topics[topic]? = some log ∧ n ≤ log.messages.length

/-- The log of a topic that is not deleted gets no shorter. -/
theorem logReaches_step {topic : Text} {n : ℕ} {st : State} {s : Step}
    (h : LogReaches topic n st) (hdel : s.call ≠ .deleteTopic topic) :
    LogReaches topic n (exec serde st s) := by
  obtain ⟨log, hlog, hle⟩ := h
  have htouch := topicTouch_of_exec topic st s serde
  rw [hlog] at htouch
  generalize hlog' : (exec serde st s).topics[topic]? = after at htouch
  cases htouch with
  | grown hgrown =>
    cases hgrown with
    | grown hlonger => exact ⟨_, hlog', hle.trans hlonger.length_le⟩
  | delete hcall => exact absurd hcall hdel

/-- **What is owed after seeking to a snapshot** is what had not been taken when the
snapshot was created: what was leased or waiting then is not owed. What was appended to
the topic in between is, unless the topic was deleted in between, or its log did not
reach the cursor when the snapshot was created. -/
theorem owed_after_seekToSnapshot {pre mid : List Step} {s t : Step} {snapshot name : Text}
    {labels : StrMap Text} {sub sub' : SubscriptionState}
    (hcreate : s.call = .createSnapshot snapshot name labels)
    (hsub : (stateAfter serde pre).subscriptions[name]? = some sub)
    (hnew : snapshot ∉ (stateAfter serde pre).snapshots)
    (hthere : snapshot ∈ (stateAfter serde (pre ++ [s])).snapshots)
    (hkept : ∀ u ∈ mid, u.call ≠ .deleteSnapshot snapshot)
    (hseek : t.call = .seekToSnapshot name snapshot)
    (hok : (seekToSnapshot t.env (stateAfter serde (pre ++ [s] ++ mid)) name snapshot).1 = .ok ())
    (hsub' : (stateAfter serde (pre ++ [s] ++ mid ++ [t])).subscriptions[name]? = some sub') :
    (∀ i, sub'.Owes i ↔ sub.nextIndex ≤ i) ∧
      (pre.Pairwise Step.Apart → ∀ i, sub.Leased i ∨ sub.Queued i → ¬sub'.Owes i) ∧
      ((∀ u ∈ mid, u.call ≠ .deleteTopic sub.spec.topic) →
        LogReaches sub.spec.topic sub.nextIndex (stateAfter serde pre) →
        ∀ mid₁ u, mid₁ ++ [u] <+: mid →
          ∀ i, Appends serde sub.spec.topic (stateAfter serde (pre ++ [s] ++ mid₁)) u i →
            sub'.Owes i) := by
  have howed : ∀ i, sub'.Owes i ↔ sub.nextIndex ≤ i := by
    have hkeeps : Keeps snapshot sub.nextIndex (stateAfter serde (pre ++ [s] ++ mid)) := by
      rw [stateAfter_append]
      refine Machine.Always.last
        (Machine.always_of_step ?_ fun st u hu h => keeps_step h (hkept u hu))
      rw [stateAfter_concat] at hthere ⊢
      exact keeps_of_createSnapshot hcreate hsub hnew hthere
    obtain ⟨snap, hsnap, hindex⟩ := hkeeps
    rw [stateAfter_concat] at hsub'
    simp only [exec, hseek] at hsub'
    obtain ⟨sub₁, rfl⟩ := exists_rewind_of_seekToSnapshot hsnap hok hsub'
    intro i
    rw [← hindex]
    simp [SubscriptionState.Owes, SubscriptionState.Queued, SubscriptionState.rewind]
  refine ⟨howed, fun hpast i hplace => ?_, fun hdel hreaches mid₁ u hmid i happends => ?_⟩
  · -- what is leased or waits has been taken
    have hx := (sound_watch hpast (by rwa [watch_state])).exclusive
    rw [howed i, not_le]
    rcases hplace with hleased | hqueued
    · obtain ⟨k, hk⟩ := (sub.ledger_held_iff i).mpr hleased
      exact hx.lease_lt hk
    · exact hx.waiting_lt ((sub.mem_ledger_waiting i).mpr hqueued)
  · -- the log has only grown since, so that what is appended lies above the cursor
    have hreaches₁ : LogReaches sub.spec.topic sub.nextIndex
        (stateAfter serde (pre ++ [s] ++ mid₁)) := by
      rw [stateAfter_append]
      refine Machine.Always.last (Machine.always_of_step ?_ fun st v hv h => ?_)
      · rw [stateAfter_concat]
        exact logReaches_step hreaches (by simp [hcreate])
      · exact logReaches_step h (hdel v (hmid.subset (List.mem_append_left _ hv)))
    obtain ⟨log, log', hlog, -, hle, -⟩ := happends
    obtain ⟨log₁, hlog₁, hcursor⟩ := hreaches₁
    obtain rfl := Option.some.inj (hlog.symm.trans hlog₁)
    exact (howed i).mpr (hcursor.trans hle)

/-- A snapshot taken while a message is leased, another message, and a seek to it. -/
def leasedSnapshot : Run := .ofCalls
  [(0, .createTopic sampleTopic),
   (0, .createSubscription sampleSubscription),
   (0, .publish sampleTopic.name [sampleMessage ""]),
   (0, .pull sampleSubscription.name 1),
   (0, .createSnapshot "projects/p/snapshots/n" sampleSubscription.name ∅),
   (0, .publish sampleTopic.name [sampleMessage ""]),
   (0, .seekToSnapshot sampleSubscription.name "projects/p/snapshots/n")]

/-- The subscription when the snapshot is created. -/
def leasedSnapshot.created : SubscriptionState :=
  ((stateAfter noJson (leasedSnapshot.steps.take 4)).subscriptions[sampleSubscription.name]?).get
    (by decide +kernel)

/-- The subscription after the seek. -/
def leasedSnapshot.sought : SubscriptionState :=
  ((stateAfter noJson leasedSnapshot.steps).subscriptions[sampleSubscription.name]?).get
    (by decide +kernel)

/-- After the seek the second message is owed, and the first is not. -/
theorem owed_after_leasedSnapshot :
    leasedSnapshot.sought.Owes 1 ∧ ¬leasedSnapshot.sought.Owes 0 := by
  have hcursor : leasedSnapshot.created.nextIndex = 1 := by decide +kernel
  obtain ⟨howed, -, hlater⟩ := @owed_after_seekToSnapshot noJson (leasedSnapshot.steps.take 4)
    [leasedSnapshot.steps[5]] leasedSnapshot.steps[4] leasedSnapshot.steps[6] _ _ _
    leasedSnapshot.created leasedSnapshot.sought rfl (Option.some_get _).symm (by decide +kernel)
    (by decide +kernel) (by simp [leasedSnapshot, Run.ofCalls, Step.numbered]) rfl
    (by decide +kernel) (Option.some_get _).symm
  rw [hcursor] at howed hlater
  refine ⟨?_, fun h => absurd ((howed 0).mp h) (by decide)⟩
  refine hlater (by simp [leasedSnapshot, Run.ofCalls, Step.numbered]) ?_ [] _
    (List.prefix_refl _) 1 ?_
  · have hlog : ((stateAfter noJson (leasedSnapshot.steps.take 4)).topics[
        leasedSnapshot.created.spec.topic]?.any fun log => 1 ≤ log.messages.length) = true := by
      decide +kernel
    obtain ⟨log, hlog, hle⟩ := (Option.any_eq_true _ _).mp hlog
    exact ⟨log, hlog, of_decide_eq_true hle⟩
  · have hlog : ((stateAfter noJson (leasedSnapshot.steps.take 5)).topics[
        leasedSnapshot.created.spec.topic]?.any fun log => log.messages.length ≤ 1) = true := by
      decide +kernel
    have hlog' : ((stateAfter noJson (leasedSnapshot.steps.take 6)).topics[
        leasedSnapshot.created.spec.topic]?.any fun log => 1 < log.messages.length) = true := by
      decide +kernel
    obtain ⟨log, hlog, hle⟩ := (Option.any_eq_true _ _).mp hlog
    obtain ⟨log', hlog', hlt⟩ := (Option.any_eq_true _ _).mp hlog'
    exact ⟨log, log', hlog, hlog', of_decide_eq_true hle, of_decide_eq_true hlt⟩

/-- The first message was leased when the snapshot was created, and is not owed
after the seek. -/
theorem leasedSnapshot_forgets :
    (seekToSnapshot leasedSnapshot.steps[6].env (stateAfter noJson (leasedSnapshot.steps.take 6))
        sampleSubscription.name "projects/p/snapshots/n").1 = .ok () ∧
      leasedSnapshot.created.Leased 0 ∧ 0 ∉ leasedSnapshot.created.acked ∧
      ¬leasedSnapshot.sought.Owes 0 := by
  refine ⟨by decide +kernel, ?_, by decide +kernel, ?_⟩
  · rw [← SubscriptionState.ledger_held_iff, ← SubscriptionState.isLeased_iff]
    decide +kernel
  · rintro (hcursor | ⟨e, he, -⟩)
    · exact absurd hcursor (by decide +kernel)
    · have hqueue : leasedSnapshot.sought.retryQueue = [] := by decide +kernel
      rw [hqueue] at he
      cases he

end RelayPubsub.Memory
