import RelayPubsub.Memory.Lease
import RelayPubsub.Memory.Retain

/-!
# Delivery in the order of the ordering keys

With ordering enabled, a message with an ordering key is delivered only when the
earlier messages of its key are acked. So from one seek to the next no key has
two leases, no pull returns two messages of one key, and the messages of a key
are delivered in the order of the log
(`RelayPubsub.Memory.ordering_safety`).

The price is that a message may be held back for ever. What blocks it is an
earlier message of its key that is not *acked*, in the whole log; but a
subscription processes only what lies at or above the index its cursor was last
set to. A key that occurs on both sides of that index is stuck
(`RelayPubsub.Memory.not_wedged_iff`).
-/

namespace RelayPubsub.Memory

open Lib Lib.Ledger

variable {serde : SerdeJson}

/-! ### Safety -/

/-- One turn of the loop of `pull`. -/
def Turns (env : Env) (subscription topicName : Text) (topicLen limit : ℕ) (p p' : Pulling) :
    Prop :=
  pullTurn env subscription topicName topicLen limit p = .again p'

/-- **What is delivered follows what is acked**: an index handed out in a turn of
the loop finds the earlier indices of its key acked. -/
theorem acked_of_delivered {env : Env} {subscription topicName : Text} {topicLen limit : ℕ}
    {p p' : Pulling} {topic : TopicState} {ackId : Text} {i : ℕ}
    (h : Turns env subscription topicName topicLen limit p p')
    (hon : p.sub.spec.enableMessageOrdering = true) (htopic : p.topics[topicName]? = some topic)
    (hhanded : p'.handed = p.handed ++ [(ackId, i)]) :
    ∀ j < i, SameKey topic.messages j i → j ∈ p.sub.acked := by
  intro j hj hkey
  have hlength : p'.handed ≠ p.handed := fun heq => by
    rw [heq] at hhanded
    exact absurd (congrArg List.length hhanded) (by simp)
  cases (turned_of_again h).2 with
  | skip _ _ | block _ _ _ _ _ => exact absurd rfl hlength
  | @serve index sub topic' message p' htake _ _ htopic' hblocked _ hserved =>
    rw [htopic] at htopic'
    obtain rfl := Option.some.inj htopic'
    cases hserved with
    | dead _ | filtered _ => exact absurd rfl hlength
    | delivered _ =>
      have hindex : index = i := by
        have hlast := congrArg List.getLast? hhanded
        simp only [Pulling.handed, deliver, List.map_append, List.map_cons, List.map_nil,
          List.getLast?_append, List.getLast?_singleton] at hlast
        exact (Prod.mk.inj (Option.some.inj hlast)).2
      subst hindex
      obtain ⟨hspec, -, -⟩ := takeNext_frame htake
      have hj' : j ∈ sub.acked := acked_of_orderingBlocked_false hblocked (hspec ▸ hon) hj hkey
      have hdone : sub.acked = p.sub.acked := (takeNext_take htake).done_eq
      rwa [hdone] at hj'

section Segment

variable {name : Text} {pre seg : List Step} {sub₀ : SubscriptionState} {log : List RelayMessage}

/-- **No key has two leases** between two seeks. -/
theorem lease_of_sameKey (hfresh : (pre ++ seg).Pairwise Step.Apart)
    (h₀ : (stateAfter serde pre).subscriptions[name]? = some sub₀) (hempty : sub₀.inflight = ∅)
    (hstays : Machine.Guarded (exec serde) (Stays serde name) (stateAfter serde pre) seg)
    (hordered :
      Machine.Guarded (exec serde) (fun st _ => Ordered name st) (stateAfter serde pre) seg)
    (hlog : Machine.Always (exec serde) (fun st => ∀ topic,
      st.topics[sub₀.spec.topic]? = some topic → topic.messages <+: log) (stateAfter serde pre) seg)
    {sub : SubscriptionState}
    (hsub : (stateAfter serde (pre ++ seg)).subscriptions[name]? = some sub)
    {ackId ackId' : Text} {entry entry' : Inflight} (hentry : sub.inflight[ackId]? = some entry)
    (hentry' : sub.inflight[ackId']? = some entry')
    (hkey : SameKey log entry.topicIndex entry'.topicIndex) : ackId = ackId' := by
  have hsound := sound_stateAfter (List.pairwise_append.mp hfresh).1 h₀
  obtain ⟨sub', es, hsub', htrace, -, -⟩ := @segment_trace _ _ _ _ _ True False log hfresh h₀
    hstays (fun _ => hordered) False.elim (fun _ => hlog)
  rw [hsub] at hsub'
  obtain rfl := Option.some.inj hsub'
  have hx := htrace.exclusive hsound.exclusive
  have horder₀ : sub₀.ledger.OrderedLeases (SameKey log) := by
    rintro i ⟨k, hk⟩
    obtain ⟨e, he, -⟩ := (sub₀.ledger_lease_eq_some i).mp hk
    simp [hempty] at he
  have horder :=
    htrace.orderedLeases (fun _ _ h => h.inOrder trivial) (fun _ _ h => h.rewind) horder₀
  have hlease : sub.ledger.lease ackId = some entry.topicIndex :=
    (sub.ledger_lease_eq_some _).mpr ⟨entry, hentry, rfl⟩
  have hlease' : sub.ledger.lease ackId' = some entry'.topicIndex :=
    (sub.ledger_lease_eq_some _).mpr ⟨entry', hentry', rfl⟩
  have hindex := horder.eq_of_same hx (fun _ _ h => h.symm) ⟨ackId, hlease⟩ ⟨ackId', hlease'⟩ hkey
  rw [hindex] at hlease
  exact hx.lease_inj hlease hlease'

/-- **Keys are handed out in the order of the log** between two seeks. -/
theorem grantedAlong_in_order (hfresh : (pre ++ seg).Pairwise Step.Apart)
    (h₀ : (stateAfter serde pre).subscriptions[name]? = some sub₀)
    (hstays : Machine.Guarded (exec serde) (Stays serde name) (stateAfter serde pre) seg)
    (hordered :
      Machine.Guarded (exec serde) (fun st _ => Ordered name st) (stateAfter serde pre) seg)
    (hlog : Machine.Always (exec serde) (fun st => ∀ topic,
      st.topics[sub₀.spec.topic]? = some topic → topic.messages <+: log)
      (stateAfter serde pre) seg) :
    ((grantedAlong serde name (stateAfter serde pre) seg).map Prod.snd).Pairwise
      fun i j => SameKey log j i → i ≤ j := by
  have hsound := sound_stateAfter (List.pairwise_append.mp hfresh).1 h₀
  obtain ⟨_, es, -, htrace, hgrants, -⟩ := @segment_trace _ _ _ _ _ True False log hfresh h₀
    hstays (fun _ => hordered) False.elim (fun _ => hlog)
  rw [← hgrants]
  exact htrace.grants_in_order (fun _ _ h => h.inOrder trivial) (fun _ _ h => h.rewind)
    hsound.exclusive

end Segment

/-- **Whatever is blocked waits for something that is still due**: an earlier
message of its key that is leased, waits for another delivery, or has not been
taken yet. -/
def NotWedged (name : Text) (w : Watched) : Prop :=
  ∀ sub topic, w.state.subscriptions[name]? = some sub →
    w.state.topics[sub.spec.topic]? = some topic →
    ∀ i now, w.base ≤ i → orderingBlocked sub topic i now = some true →
      ∃ j < i, SameKey topic.messages j i ∧ (sub.Leased j ∨ sub.Queued j ∨ sub.nextIndex ≤ j)

/-- With ordering enabled, no key occurs on both sides of the index the cursor
was last set to. -/
def KeysApart (name : Text) (w : Watched) : Prop :=
  ∀ sub topic, w.state.subscriptions[name]? = some sub →
    w.state.topics[sub.spec.topic]? = some topic → sub.spec.enableMessageOrdering = true →
    ∀ j i, j < w.base → w.base ≤ i → ¬SameKey topic.messages j i

/-- **When no key is stuck**, in a state in which nothing has been lost. -/
theorem notWedged_iff {name : Text} {past : List Step} (hfresh : past.Pairwise Step.Apart)
    (hret : Retained name (watch serde name past)) :
    NotWedged name (watch serde name past) ↔ KeysApart name (watch serde name past) := by
  set w := watch serde name past with hw
  constructor
  · intro hnw sub topic hsub htopic hon j i hj hi hkey
    have hsound : Sound name past w sub := sound_watch hfresh hsub
    -- the first index above the base that carries the key of `j`
    have hex : ∃ i, w.base ≤ i ∧ SameKey topic.messages j i := ⟨i, hi, hkey⟩
    classical
    obtain ⟨hfirst, hfkey⟩ := Nat.find_spec hex
    have hacked : j ∉ sub.acked := fun hmem => absurd (hsound.above.done hmem) (by omega)
    obtain ⟨k, hk, hkkey, hdue⟩ := hnw sub topic hsub htopic (Nat.find hex) 0 hfirst
      (orderingBlocked_eq_true_iff.mpr ⟨hon, j, by omega, hfkey, hacked⟩)
    have hbelow : k < w.base := by
      by_contra habove
      exact Nat.find_min hex hk ⟨by omega, hfkey.trans hkkey.symm⟩
    rcases hdue with hleased | hqueued | hnext
    · obtain ⟨ackId, hlease⟩ := (sub.ledger_held_iff k).mpr hleased
      exact absurd (hsound.above.lease hlease) (by omega)
    · exact absurd (hsound.above.waiting ((sub.mem_ledger_waiting k).mpr hqueued)) (by omega)
    · have hcursor : w.base ≤ sub.nextIndex := hsound.above.cursor
      omega
  · intro hapart sub topic hsub htopic i now hi hblocked
    obtain ⟨hon, j, hj, hkey, hacked⟩ := orderingBlocked_eq_true_iff.mp hblocked
    have hbase : w.base ≤ j := by
      by_contra hlt
      exact hapart sub topic hsub htopic hon j i (by omega) hi hkey
    refine ⟨j, hj, hkey, ?_⟩
    by_cases hnext : sub.nextIndex ≤ j
    · exact Or.inr (Or.inr hnext)
    · rcases hret sub hsub j hbase (by omega) with hd | hl | hq
      · exact absurd hd hacked
      · exact Or.inl hl
      · exact Or.inr (Or.inl hq)

/-- **No key is ever stuck, exactly if none occurs on both sides of the index the
cursor was last set to**, in the runs that lose nothing. -/
theorem not_wedged_iff (r : Run) (name : Text)
    (hcalm : Machine.Guarded (Watched.step serde name) (fun w s => ¬AcksExpired name w.state s) {}
      r.steps) :
    Machine.Always (Watched.step serde name) (NotWedged name) {} r.steps ↔
      Machine.Always (Watched.step serde name) (KeysApart name) {} r.steps := by
  have hret := retained_of_calm r name hcalm
  refine forall₂_congr fun past hpast => ?_
  exact notWedged_iff (r.fresh.sublist hpast.sublist) (hret past hpast)

/-- Two messages of one key, both published after the subscription was created. -/
def keyAfter : Run := .ofCalls
  [(0, .createTopic sampleTopic),
   (0, .createSubscription { sampleSubscription with enableMessageOrdering := true }),
   (0, .publish sampleTopic.name [sampleMessage "k", sampleMessage "k"]),
   (0, .pull sampleSubscription.name 10)]

/-- They are never stuck. -/
theorem keyAfter_not_wedged : Machine.Always (Watched.step noJson sampleSubscription.name)
    (NotWedged sampleSubscription.name) {} keyAfter.steps := by
  refine (not_wedged_iff keyAfter sampleSubscription.name
    (calm_of_no_acknowledge _ _ (by decide +kernel))).mpr fun past hpast sub _ _ _ _ j i hj => ?_
  have hbase : ∀ past ∈ keyAfter.steps.inits,
      (watch noJson sampleSubscription.name past).base = 0 := by
    decide +kernel
  have hzero := hbase past ((List.mem_inits _ _).mpr hpast)
  rw [watch] at hzero
  omega

/-- Two messages of one key, one published before the subscription was created
and one after. -/
def keyBefore : Run := .ofCalls
  [(0, .createTopic sampleTopic),
   (0, .publish sampleTopic.name [sampleMessage "k"]),
   (0, .createSubscription { sampleSubscription with enableMessageOrdering := true }),
   (0, .publish sampleTopic.name [sampleMessage "k"]),
   (0, .pull sampleSubscription.name 10)]

/-- The second message is blocked by the first, which the subscription is not due
to process. -/
theorem keyBefore_wedged : ¬Machine.Always (Watched.step noJson sampleSubscription.name)
    (NotWedged sampleSubscription.name) {} keyBefore.steps := by
  intro h
  set w := watch noJson sampleSubscription.name keyBefore.steps with hw
  have hfacts : (w.state.subscriptions[sampleSubscription.name]?.any fun sub =>
      w.state.topics[sub.spec.topic]?.any fun topic =>
        orderingBlocked sub topic 1 0 = some true ∧ sub.nextIndex = 2 ∧ sub.isLeased 0 = false ∧
          ∀ e ∈ sub.retryQueue, e.topicIndex = 1) = true := by
    decide +kernel
  have hbase : w.base = 1 := by decide +kernel
  obtain ⟨sub, hsub, hfacts⟩ := (Option.any_eq_true _ _).mp hfacts
  obtain ⟨topic, htopic, hfacts⟩ := (Option.any_eq_true _ _).mp hfacts
  obtain ⟨hblocked, hnext, hleased, hqueue⟩ := of_decide_eq_true hfacts
  obtain ⟨j, hj, -, hdue⟩ := h.last sub topic hsub htopic 1 0 (Nat.le_of_eq hbase) hblocked
  obtain rfl : j = 0 := by omega
  rcases hdue with hl | ⟨e, he, hindex⟩ | hn
  · rw [← SubscriptionState.ledger_held_iff, ← SubscriptionState.isLeased_iff, hleased] at hl
    cases hl
  · have hone := hqueue e he
    omega
  · omega

end RelayPubsub.Memory
