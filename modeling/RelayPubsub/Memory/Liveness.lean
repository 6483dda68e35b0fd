import RelayPubsub.Memory.Backoff
import RelayPubsub.Memory.Drain
import RelayPubsub.Memory.Elsewhere
import RelayPubsub.Memory.Expiry
import RelayPubsub.Memory.Keys

/-!
# A subscriber that keeps at it receives everything

A subscriber pulls, and acknowledges in time what it has pulled, again and again
(`RelayPubsub.Memory.Rounds`); others may do in between whatever does not act on its
subscription: publish to the topic, pull from other subscriptions, and so on. Every
round acks something as long as anything of the log at its beginning is left to ack
(`RelayPubsub.Memory.Round.Kept.step`), maybe a message that came in meanwhile. So it takes
at most as many rounds as the log has indices at the end which were not acked at the
beginning: then everything is acked that was in the log at the beginning, from the index the
cursor was last set to on (`RelayPubsub.Memory.rounds_drain`).

Two things can prevent it, which are the two defects that lose and wedge messages: an
index is not accounted for, or an ordering key occurs on both sides of the index the
cursor was last set to.
-/

namespace RelayPubsub.Memory

open Lib Lib.Ledger

variable {serde : SerdeJson}

/-! ### Calls of others -/

/-- **A call of somebody else**, which does not act on the subscription. -/
def Foreign (name : Text) (s : Step) : Prop := s.call.target ≠ some name

section Foreign

variable {name : Text} {past : List Step} {s : Step}

/-- A call of somebody else leaves the subscription as it is. -/
theorem Foreign.subscription (h : Foreign name s) (st : State) :
    (exec serde st s).subscriptions[name]? = st.subscriptions[name]? := by
  by_cases hpull : ∃ n m, s.call = .pull n m
  · obtain ⟨n, m, hcall⟩ := hpull
    have hne : n ≠ name := by
      rintro rfl
      exact h (by rw [hcall]; rfl)
    simp only [exec, hcall, pull]
    split
    · rfl
    · split
      · exact getElem?_insert_of_ne hne
      · split
        · rw [answer_snd]
          exact getElem?_insert_of_ne hne
        · exact getElem?_erase_of_ne hne
  · exact (exec_sameAt h fun n m hcall => hpull ⟨n, m, hcall⟩).subscriptions

theorem Foreign.seekTarget (h : Foreign name s) (st : State) : seekTarget name st s = none := by
  unfold Memory.seekTarget
  split
  · rename_i hcall
    exact if_neg fun heq => h (by rw [hcall, ← heq]; rfl)
  · rename_i hcall
    exact if_neg fun heq => h (by rw [hcall, ← heq]; rfl)
  · rfl

end Foreign

/-- **A subscription that has lost nothing**, in the state after `past`, with its cursor set
to `base` last. -/
structure Intact (serde : SerdeJson) (name : Text) (base : ℕ) (past : List Step)
    (sub : SubscriptionState) : Prop where
  sub_eq : (stateAfter serde past).subscriptions[name]? = some sub
  retained : Retained name (watch serde name past)
  base_eq : (watch serde name past).base = base

section Intact

variable {name : Text} {base : ℕ} {past : List Step} {s : Step} {sub sub' : SubscriptionState}

/-- A step that neither seeks nor acknowledges an expired lease loses nothing. -/
theorem Intact.step (h : Intact serde name base past sub)
    (hfresh : (past ++ [s]).Pairwise Step.Apart)
    (hsub' : (stateAfter serde (past ++ [s])).subscriptions[name]? = some sub')
    (hseek : seekTarget name (stateAfter serde past) s = none)
    (hcalm : ¬AcksExpired name (stateAfter serde past) s) :
    Intact serde name base (past ++ [s]) sub' where
  sub_eq := hsub'
  retained := by
    rw [watch_concat]
    exact retained_step hfresh h.retained (by rwa [watch_state])
  base_eq := by
    rw [watch_concat, Watched.step_of_some (by rw [watch_state]; exact h.sub_eq), watch_state,
      hseek]
    exact h.base_eq

/-- Nor do calls of others. -/
theorem Intact.foreign {others : List Step} (h : Intact serde name base past sub)
    (hfresh : (past ++ others).Pairwise Step.Apart) (hothers : ∀ s ∈ others, Foreign name s) :
    Intact serde name base (past ++ others) sub := by
  induction others using List.reverseRecOn with
  | nil => rwa [List.append_nil]
  | append_singleton others s ih =>
    rw [← List.append_assoc] at hfresh ⊢
    have hs : Foreign name s := hothers s (by simp)
    have hbefore := ih (List.pairwise_append.mp hfresh).1
      fun t ht => hothers t (List.mem_append_left _ ht)
    refine hbefore.step hfresh ?_ (hs.seekTarget _) ?_
    · rw [stateAfter_concat, hs.subscription]
      exact hbefore.sub_eq
    · rintro ⟨ackIds, _, hcall, -⟩
      exact hs (by rw [hcall]; rfl)

end Intact

/-! ### A pull without leases -/

/-- Without leases there is nothing to sweep. -/
theorem sweep_of_idle {env : Env} {sub : SubscriptionState} (h : sub.inflight = ∅) :
    sweep env sub = sub := by
  have hnil : env.iter sub.inflight.toList = [] := by
    have hperm := env.iter_perm sub.inflight.toList
    rw [h] at hperm ⊢
    exact List.perm_nil.mp hperm
  unfold sweep expiredLeases
  rw [hnil]
  rfl

section Turns

variable {env : Env} {name topicName : Text} {topicLen : ℕ} {p p' : Pulling}

/-- Turns ack more and more. -/
theorem acked_subset_of_turns
    (h : Relation.ReflTransGen (Turned env name topicName topicLen) p p') :
    p.sub.acked ⊆ p'.sub.acked := by
  induction h with
  | refl => exact Finset.Subset.refl _
  | tail _ hturn ih =>
    refine ih.trans ?_
    cases hturn with
    | skip htake _ | block htake _ _ _ _ => exact (takeNext_take htake).done_eq.symm.subset
    | @serve index sub _ _ _ htake _ _ _ _ _ hserved =>
      have hacked := (takeNext_take htake).done_eq.symm.subset
      cases hserved with
      | dead _ | filtered _ => exact hacked.trans (Finset.subset_insert _ _)
      | delivered _ => exact hacked

/-- What is put back can be had again in the next pull. -/
theorem due_of_turns (h : Relation.ReflTransGen (Turned env name topicName topicLen) p p')
    (hdue : ∀ e ∈ p.sub.retryQueue, e.availableAt ≤ env.now 0) :
    ∀ e ∈ p'.sub.retryQueue, e.availableAt ≤ env.now 0 := by
  induction h with
  | refl => exact hdue
  | tail _ hturn ih =>
    intro e he
    cases hturn with
    | skip htake _ => exact ih e ((takable_of_takeNext htake).2 he)
    | block htake _ _ _ _ =>
      rcases List.mem_append.mp he with he | he
      · exact ih e ((takable_of_takeNext htake).2 he)
      · rw [List.mem_singleton.mp he]
    | @serve _ _ _ _ _ htake _ _ _ _ _ hserved =>
      cases hserved <;> exact ih e ((takable_of_takeNext htake).2 he)

/-- **Leases run for the ack deadline of the subscription.** -/
theorem deadline_of_turns (h : Relation.ReflTransGen (Turned env name topicName topicLen) p p')
    (hidle : p.sub.inflight = ∅) {id : Text} {entry : Inflight}
    (hentry : p'.sub.inflight[id]? = some entry) :
    entry.deadline = env.now 0 + seconds (normalizeAckDeadline p.sub.spec.ackDeadlineSeconds) := by
  induction h with
  | refl =>
    rw [hidle] at hentry
    simp at hentry
  | tail hturns hturn ih =>
    cases hturn with
    | skip htake _ | block htake _ _ _ _ =>
      refine ih ?_
      rwa [← (takeNext_frame htake).2.2]
    | @serve index sub _ _ _ htake _ _ _ _ _ hserved =>
      obtain ⟨hspec, -, hframe⟩ := takeNext_frame htake
      cases hserved with
      | dead _ | filtered _ =>
        refine ih ?_
        rwa [← hframe]
      | delivered _ =>
        simp only [deliver, SubscriptionState.lease] at hentry
        rw [Std.ExtTreeMap.getElem?_insert] at hentry
        split at hentry
        · obtain rfl := Option.some.inj hentry
          show _ + seconds (normalizeAckDeadline sub.spec.ackDeadlineSeconds) = _
          rw [hspec, spec_of_turns hturns]
        · refine ih ?_
          rw [← hframe]
          exact hentry

end Turns

section Pull

variable {name : Text} {base limit : ℕ} {past : List Step} {s : Step} {sub : SubscriptionState}
  {topic : TopicState} {p : Pulling}

/-- **A pull that finishes**, of a subscription without leases. -/
structure Pulled (serde : SerdeJson) (name : Text) (base limit : ℕ) (past : List Step) (s : Step)
    (sub : SubscriptionState) (topic : TopicState) (p : Pulling) : Prop where
  topic_eq : (stateAfter serde past).topics[sub.spec.topic]? = some topic
  drains : Drains s.env name sub.spec.topic topic.messages.length limit
    { sub, topics := (stateAfter serde past).topics } p
  turns : Relation.ReflTransGen (Turned s.env name sub.spec.topic topic.messages.length)
    { sub, topics := (stateAfter serde past).topics } p
  granted_eq : granted name (stateAfter serde past) s = p.handed
  intact : Intact serde name base (past ++ [s]) p.sub
  cursor : p.sub.nextIndex ≤ topic.messages.length

theorem Intact.pull (h : Intact serde name base past sub)
    (hfresh : (past ++ [s]).Pairwise Step.Apart) {maxMessages : UInt32}
    (hcall : s.call = .pull name maxMessages) (hidle : sub.inflight = ∅)
    (hkeep : ∀ t ∈ past, t.call ≠ .deleteTopic sub.spec.topic) :
    ∃ topic p, Pulled serde name base (clamp maxMessages 1 1000).toNat past s sub topic p := by
  obtain ⟨topic, p, htopic, hle, hp⟩ := pullFrom_finishes hfresh h.sub_eq hkeep maxMessages
  have hloop := hp
  unfold pullFrom at hloop
  dsimp only at hloop
  rw [sweep_of_idle hidle] at hloop
  have hturns := turns_of_finished hloop
  refine ⟨topic, p, htopic, drains_of_finished (untaken_lt_pullFuel _ _) hle rfl rfl hloop,
    hturns, ?_, h.step hfresh ?_ ?_ ?_, nextIndex_le_of_turns hturns hle⟩
  · simp [granted, hcall, h.sub_eq, htopic, hp, Pulling.handed]
  · rw [stateAfter_concat]
    simp [exec, hcall, Memory.pull, h.sub_eq, htopic, hp]
  · simp [seekTarget, hcall]
  · rintro ⟨_, _, hack, -⟩
    rw [hcall] at hack
    cases hack

/-- What is delivered is on lease, and new. -/
theorem Pulled.delivered (h : Pulled serde name base limit past s sub topic p)
    (hfresh : (past ++ [s]).Pairwise Step.Apart) {d : ℕ × Delivery} (hd : d ∈ p.deliveries) :
    p.sub.ledger.lease d.2.ackId = some d.1 ∧ base ≤ d.1 ∧ d.1 < topic.messages.length ∧
      d.1 ∉ p.sub.acked := by
  have hgranted : (d.2.ackId, d.1) ∈ granted name (stateAfter serde past) s := by
    rw [h.granted_eq]
    exact List.mem_map.mpr ⟨d, hd, rfl⟩
  obtain ⟨sub', entry, hsub', hentry, hindex⟩ := leased_of_granted hfresh hgranted
  obtain rfl : p.sub = sub' := Option.some.inj (h.intact.sub_eq.symm.trans hsub')
  have hlease : p.sub.ledger.lease d.2.ackId = some d.1 :=
    (p.sub.ledger_lease_eq_some _).mpr ⟨entry, hentry, hindex⟩
  have hsound := sound_stateAfter hfresh h.intact.sub_eq
  refine ⟨hlease, ?_, (hsound.exclusive.lease_lt hlease).trans_le h.cursor,
    hsound.exclusive.lease_done hlease⟩
  rw [← h.intact.base_eq]
  exact hsound.above.lease hlease

/-- What is leased has been delivered. -/
theorem Pulled.of_leased (h : Pulled serde name base limit past s sub topic p)
    (hidle : sub.inflight = ∅) {id : Text} {entry : Inflight}
    (hentry : p.sub.inflight[id]? = some entry) :
    ∃ d ∈ p.deliveries, d.1 = entry.topicIndex ∧ d.2.ackId = id := by
  refine (lease_of_turns h.turns hentry).resolve_left fun hold => ?_
  rw [hidle] at hold
  simp at hold

/-- **A pull gets on**: as long as something is left to ack, something is acked by it or
delivered. The first index that is left is blocked by nothing. -/
theorem Pulled.progress (h : Pulled serde name base limit past s sub topic p) (hlimit : 0 < limit)
    (hfresh : (past ++ [s]).Pairwise Step.Apart) (hidle : sub.inflight = ∅)
    (hdue : ∀ e ∈ sub.retryQueue, e.availableAt ≤ s.env.now 0)
    (hapart : sub.spec.enableMessageOrdering = true →
      ∀ j i, j < base → base ≤ i → ¬SameKey topic.messages j i)
    {i : ℕ} (hbase : base ≤ i) (hlt : i < topic.messages.length) (hi : i ∉ sub.acked) :
    ∃ j, base ≤ j ∧ j < topic.messages.length ∧ j ∉ sub.acked ∧
      (j ∈ p.sub.acked ∨ ∃ d ∈ p.deliveries, d.1 = j) := by
  have hacked := acked_subset_of_turns h.turns
  rcases Nat.lt_or_ge p.deliveries.length limit with hfew | hfull
  · classical
    have hex : ∃ i, base ≤ i ∧ i ∉ sub.acked := ⟨i, hbase, hi⟩
    obtain ⟨hfirst, hleft⟩ := Nat.find_spec hex
    have hin : Nat.find hex < topic.messages.length := (Nat.find_min' hex ⟨hbase, hi⟩).trans_lt hlt
    refine ⟨Nat.find hex, hfirst, hin, hleft, ?_⟩
    have hretained := h.intact.retained p.sub (by rw [watch_state]; exact h.intact.sub_eq)
      (Nat.find hex) (h.intact.base_eq.trans_le hfirst) (by rw [h.drains.cursor hfew]; exact hin)
    rcases hretained with hdone | ⟨ackId, entry, hentry, hindex⟩ | ⟨e, he, hindex⟩
    · exact Or.inl hdone
    · obtain ⟨d, hd, hdelivered, -⟩ := h.of_leased hidle hentry
      exact Or.inr ⟨d, hd, hdelivered.trans hindex⟩
    · -- it has been put back, but the earlier messages of its key are acked
      exfalso
      obtain ⟨p', sub', topic', hturns, htake, htopic', hblocked⟩ :=
        h.drains.blocked hfew e he (due_of_turns h.turns hdue e he)
      rw [hindex] at hblocked
      obtain ⟨hon, j, hj, hkey, hjacked⟩ := orderingBlocked_eq_true_iff.mp hblocked
      have hspec : sub'.spec = sub.spec := (takeNext_frame htake).1.trans (spec_of_turns hturns)
      have hprefix : topic.messages <+: topic'.messages := by
        obtain ⟨topic'', htopic'', hprefix⟩ := (topicsGrow_of_turns hturns).get h.topic_eq
        obtain rfl := Option.some.inj (htopic'.symm.trans htopic'')
        exact hprefix
      rw [sameKey_of_isPrefix hprefix (hj.trans hin) hin] at hkey
      have hge : base ≤ j := by
        by_contra hlow
        exact hapart (hspec ▸ hon) j _ (Nat.not_le.mp hlow) hfirst hkey
      have hsame : sub'.acked = p'.sub.acked := (takeNext_take htake).done_eq
      have hjleft : j ∉ sub.acked := fun hmem =>
        hjacked (hsame ▸ acked_subset_of_turns hturns hmem)
      exact Nat.find_min hex hj ⟨hge, hjleft⟩
  · obtain ⟨d, hd⟩ := List.exists_mem_of_length_pos (hlimit.trans_le hfull)
    obtain ⟨-, hge, hin, hnot⟩ := h.delivered hfresh hd
    exact ⟨d.1, hge, hin, fun hmem => hnot (hacked hmem), Or.inr ⟨d, hd, rfl⟩⟩

end Pull

/-! ### A round -/

/-- **A round**: a pull and an acknowledgement, and what others do before each. -/
structure Round where
  before : List Step
  pull : Step
  between : List Step
  ack : Step

/-- The ack ids of the messages a pull has answered with. -/
def PullAnswer.ackIds : PullAnswer → Option (List Text)
  | .returned (.ok deliveries) => some (deliveries.map (·.ackId))
  | _ => none

def Round.steps (r : Round) : List Step := r.before ++ [r.pull] ++ (r.between ++ [r.ack])

/-- **The round is kept** after the steps `past`: what the pull answers is acknowledged, on an
exactly-once subscription before the ack deadline, and nobody else acts on the subscription. -/
structure Round.Kept (serde : SerdeJson) (name : Text) (past : List Step) (r : Round) : Prop where
  before : ∀ s ∈ r.before, Foreign name s
  between : ∀ s ∈ r.between, Foreign name s
  acks : ∃ maxMessages ackIds, r.pull.call = .pull name maxMessages ∧
    (Memory.pull r.pull.env (stateAfter serde (past ++ r.before)) name maxMessages).1.ackIds =
      some ackIds ∧
    r.ack.call = .acknowledge name ackIds
  inTime : ∀ sub, (stateAfter serde past).subscriptions[name]? = some sub →
    sub.spec.enableExactlyOnceDelivery = true →
      r.ack.env.now 0 ≤
        r.pull.env.now 0 + seconds (normalizeAckDeadline sub.spec.ackDeadlineSeconds)

/-- **No lease is outstanding**, and what waits for another delivery is due at `t`. -/
structure Settled (t : Time) (sub : SubscriptionState) : Prop where
  idle : sub.inflight = ∅
  due : ∀ e ∈ sub.retryQueue, e.availableAt ≤ t

theorem Settled.mono {t t' : Time} {sub : SubscriptionState} (h : Settled t sub) (hle : t ≤ t') :
    Settled t' sub where
  idle := h.idle
  due e he := (h.due e he).trans hle

/-- What has one key in a log has it in a longer one. -/
theorem SameKey.mono {log log' : List RelayMessage} {i j : ℕ} (h : SameKey log i j)
    (hp : log <+: log') : SameKey log' i j :=
  (sameKey_of_isPrefix hp h.symm.lt h.lt).mpr h

/-- A log that is not deleted gets longer. -/
theorem longer_of_run {past : List Step} (seg : List Step) {topicName : Text} {topic : TopicState}
    (htopic : (stateAfter serde past).topics[topicName]? = some topic)
    (hkeep : ∀ s ∈ seg, s.call ≠ .deleteTopic topicName) :
    ∃ topic', (stateAfter serde (past ++ seg)).topics[topicName]? = some topic' ∧
      topic.messages <+: topic'.messages := by
  induction seg using List.reverseRecOn with
  | nil => exact ⟨topic, by rwa [List.append_nil], List.prefix_refl _⟩
  | append_singleton seg s ih =>
    obtain ⟨topic', htopic', hprefix⟩ := ih fun t ht => hkeep t (List.mem_append_left _ ht)
    obtain ⟨topic'', htopic'', hgrown⟩ : ∃ topic'',
        (exec serde (stateAfter serde (past ++ seg)) s).topics[topicName]? = some topic'' ∧
          topic'.messages <+: topic''.messages := longer_of_exec (hkeep s (by simp)) htopic'
    refine ⟨topic'', ?_, hprefix.trans hgrown⟩
    rw [← List.append_assoc, stateAfter_concat]
    exact htopic''

section Ack

variable {name : Text} {base limit : ℕ} {past between : List Step} {s t : Step}
  {sub : SubscriptionState} {topic : TopicState} {p : Pulling}

/-- **The acknowledgement of a pull** acks what the pull has delivered, and leaves no lease
outstanding. -/
theorem Pulled.acknowledged (h : Pulled serde name base limit past s sub topic p)
    (hidle : sub.inflight = ∅) (hdue : ∀ e ∈ sub.retryQueue, e.availableAt ≤ s.env.now 0)
    (hfresh : (past ++ [s] ++ (between ++ [t])).Pairwise Step.Apart)
    (hbetween : ∀ u ∈ between, Foreign name u)
    (hack : t.call = .acknowledge name (p.handed.map Prod.fst))
    (hintime : sub.spec.enableExactlyOnceDelivery = true → t.env.now 0 ≤
      s.env.now 0 + seconds (normalizeAckDeadline sub.spec.ackDeadlineSeconds)) :
    ∃ sub', Intact serde name base (past ++ [s] ++ (between ++ [t])) sub' ∧
      Settled (s.env.now 0) sub' ∧ sub'.spec = sub.spec ∧ p.sub.acked ⊆ sub'.acked ∧
      ∀ d ∈ p.deliveries, d.1 ∈ sub'.acked := by
  have hspec : p.sub.spec = sub.spec := spec_of_turns h.turns
  rw [← List.append_assoc] at hfresh ⊢
  have hfresh' := (List.pairwise_append.mp hfresh).1
  have hbefore := h.intact.foreign hfresh' hbetween
  -- no ack id is expired
  have hlive : ∀ ackId ∈ p.handed.map Prod.fst, ¬p.sub.Expired (t.env.now 0) ackId := by
    rintro ackId - ⟨honce, entry, hentry, hexpired⟩
    rw [deadline_of_turns h.turns hidle hentry] at hexpired
    exact absurd (hintime (hspec ▸ honce)) (not_le.mpr hexpired)
  set acks := acknowledgeEach (t.env.now 0)
    (stateAfter serde (past ++ [s] ++ between)).topics[p.sub.spec.topic]? p.sub
    (p.handed.map Prod.fst) with hacks
  have hok : acks.1 = .ok () := acknowledgeEach_ok_iff.mpr hlive
  obtain ⟨hspec', -, -, hframe⟩ := acknowledgeEach_frame (t.env.now 0)
    (stateAfter serde (past ++ [s] ++ between)).topics[p.sub.spec.topic]? p.sub
    (p.handed.map Prod.fst)
  have hacked := fun i => mem_acked_of_ok (i := i) hok
  have hdelivered : ∀ d ∈ p.deliveries, d.1 ∈ acks.2.acked := by
    intro d hd
    refine (hacked d.1).mpr (Or.inr ⟨d.2.ackId, ?_, ?_⟩)
    · exact List.mem_map.mpr ⟨_, List.mem_map.mpr ⟨d, hd, rfl⟩, rfl⟩
    · exact (h.delivered (hfresh'.sublist (List.sublist_append_left _ _)) hd).1
  have hafter : Intact serde name base (past ++ [s] ++ between ++ [t]) acks.2 := by
    refine hbefore.step hfresh ?_ ?_ ?_
    · rw [stateAfter_concat]
      simp only [exec, hack]
      rw [acknowledge_subscriptions hbefore.sub_eq, Std.ExtTreeMap.getElem?_insert_self]
    · simp [seekTarget, hack]
    · rintro ⟨ackIds, sub₁, hcall, hsub₁, ackId, hmem, hexpired⟩
      obtain ⟨-, rfl⟩ := BackendCall.acknowledge.inj (hack.symm.trans hcall)
      obtain rfl := Option.some.inj (hbefore.sub_eq.symm.trans hsub₁)
      exact hlive ackId hmem hexpired
  refine ⟨acks.2, hafter, ⟨?_, ?_⟩, hspec'.trans hspec, fun i hi => (hacked i).mpr (Or.inl hi),
    hdelivered⟩
  · -- what is leased has been delivered, and is acked
    refine Std.ExtTreeMap.ext_getElem? fun id => ?_
    rw [Std.ExtTreeMap.getElem?_empty, Option.eq_none_iff_forall_ne_some]
    intro entry hentry
    obtain ⟨d, hd, hindex, -⟩ := h.of_leased hidle (hframe id entry hentry)
    have hlease : acks.2.ledger.lease id = some d.1 :=
      (acks.2.ledger_lease_eq_some _).mpr ⟨entry, hentry, hindex.symm⟩
    exact (sound_stateAfter hfresh hafter.sub_eq).exclusive.lease_done hlease (hdelivered d hd)
  · rw [hacks, acknowledgeEach_retryQueue]
    exact due_of_turns h.turns hdue

end Ack

section Rounds

variable {name : Text} {base : ℕ} {past : List Step} {r : Round} {t : Time}
  {sub : SubscriptionState}

/-- **One round** loses nothing, leaves no lease outstanding, and gets on as long as something
is left to ack. -/
theorem Round.Kept.step (h : r.Kept serde name past) (hintact : Intact serde name base past sub)
    (hsettled : Settled (r.pull.env.now 0) sub)
    (hfresh : (past ++ r.steps).Pairwise Step.Apart)
    (hkeep : ∀ s ∈ past ++ r.steps, s.call ≠ .deleteTopic sub.spec.topic)
    {log : List RelayMessage} (hlog : ∀ topic,
      (stateAfter serde (past ++ r.steps)).topics[sub.spec.topic]? = some topic →
        topic.messages <+: log)
    (hapart : sub.spec.enableMessageOrdering = true →
      ∀ j i, j < base → base ≤ i → ¬SameKey log j i) :
    ∃ sub', Intact serde name base (past ++ r.steps) sub' ∧ Settled (r.pull.env.now 0) sub' ∧
      sub'.spec = sub.spec ∧ sub.acked ⊆ sub'.acked ∧
      ∀ topic, (stateAfter serde past).topics[sub.spec.topic]? = some topic →
        ∀ i, base ≤ i → i < topic.messages.length → i ∉ sub.acked →
          ∃ j, base ≤ j ∧ j < log.length ∧ j ∉ sub.acked ∧ j ∈ sub'.acked := by
  obtain ⟨maxMessages, ackIds, hpull, hanswer, hack⟩ := h.acks
  have hassoc : past ++ r.steps =
      past ++ r.before ++ [r.pull] ++ (r.between ++ [r.ack]) := by
    simp [Round.steps]
  rw [hassoc] at hfresh hkeep hlog ⊢
  have hfresh₁ := (List.pairwise_append.mp hfresh).1
  have hfresh₀ := (List.pairwise_append.mp hfresh₁).1
  have hkeep₀ : ∀ s ∈ past ++ r.before, s.call ≠ .deleteTopic sub.spec.topic := fun s hs =>
    hkeep s (List.mem_append_left _ (List.mem_append_left _ hs))
  have hbefore := hintact.foreign hfresh₀ h.before
  obtain ⟨topic, p, hp⟩ := hbefore.pull hfresh₁ hpull hsettled.idle hkeep₀
  have hids : ackIds = p.handed.map Prod.fst := by
    unfold PullAnswer.ackIds at hanswer
    split at hanswer
    · rename_i deliveries hdeliveries
      obtain ⟨_, _, -, -, hids, -⟩ := @pull_answer serde _ _ _ _ _ hpull hdeliveries
      rw [← Option.some.inj hanswer, hids, hp.granted_eq]
    · cases hanswer
  obtain ⟨sub', hintact', hsettled', hspec, hmore, hdelivered⟩ := hp.acknowledged hsettled.idle
    hsettled.due hfresh h.between (hids ▸ hack) (h.inTime sub hintact.sub_eq)
  refine ⟨sub', hintact', hsettled', hspec, (acked_subset_of_turns hp.turns).trans hmore, ?_⟩
  intro topic₀ htopic₀ i hbase hlt hleft
  -- the log has only grown, before the pull and after it
  obtain ⟨topic₁, htopic₁, hgrown⟩ := longer_of_run r.before htopic₀ fun s hs =>
    hkeep₀ s (List.mem_append_right _ hs)
  obtain rfl := Option.some.inj (hp.topic_eq.symm.trans htopic₁)
  have hwithin : topic.messages <+: log := by
    obtain ⟨topic₂, htopic₂, hgrown₂⟩ := longer_of_run
      ([r.pull] ++ (r.between ++ [r.ack])) hp.topic_eq fun s hs =>
        hkeep s (by rw [List.append_assoc]; exact List.mem_append_right _ hs)
    rw [← List.append_assoc] at htopic₂
    exact hgrown₂.trans (hlog topic₂ htopic₂)
  have hlimit : 0 < (clamp maxMessages 1 1000).toNat := by
    rw [toNat_clamp (by decide)]
    simp only [UInt32.reduceToNat]
    omega
  obtain ⟨j, hge, hjlt, hjleft, hj⟩ := hp.progress hlimit hfresh₁ hsettled.idle hsettled.due
    (fun hon j i hj hi hkey => hapart hon j i hj hi (hkey.mono hwithin)) hbase
    (hlt.trans_le hgrown.length_le) hleft
  refine ⟨j, hge, hjlt.trans_le hwithin.length_le, hjleft, ?_⟩
  rcases hj with hacked | ⟨d, hd, rfl⟩
  · exact hmore hacked
  · exact hdelivered d hd

/-- **Rounds that are kept**, one after the other, with pulls from the time `t` on. -/
inductive Rounds (serde : SerdeJson) (name : Text) : Time → List Step → List Round → Prop
  | nil {t : Time} {past : List Step} : Rounds serde name t past []
  | cons {t : Time} {past : List Step} {r : Round} {rounds : List Round} :
      t ≤ r.pull.env.now 0 → r.Kept serde name past →
      Rounds serde name (r.pull.env.now 0) (past ++ r.steps) rounds →
      Rounds serde name t past (r :: rounds)

/-- **Round after round more is acked**: what was is, and something else, as long as something
is left of the log as it was at the beginning. -/
theorem Rounds.drain {rounds : List Round} (h : Rounds serde name t past rounds)
    (hintact : Intact serde name base past sub) (hsettled : Settled t sub)
    (hfresh : (past ++ rounds.flatMap Round.steps).Pairwise Step.Apart)
    (hkeep : ∀ s ∈ past ++ rounds.flatMap Round.steps, s.call ≠ .deleteTopic sub.spec.topic)
    {log : List RelayMessage} (hlog : ∀ topic,
      (stateAfter serde (past ++ rounds.flatMap Round.steps)).topics[sub.spec.topic]? =
        some topic → topic.messages = log)
    (hapart : sub.spec.enableMessageOrdering = true →
      ∀ j i, j < base → base ≤ i → ¬SameKey log j i)
    {topic : TopicState} (htopic : (stateAfter serde past).topics[sub.spec.topic]? = some topic) :
    ∃ sub', (stateAfter serde (past ++ rounds.flatMap Round.steps)).subscriptions[name]? =
        some sub' ∧ sub.acked ⊆ sub'.acked ∧
      ((Finset.Ico base log.length \ sub.acked).card ≤ rounds.length →
        ∀ i, base ≤ i → i < topic.messages.length → i ∈ sub'.acked) := by
  induction h generalizing sub topic with
  | nil =>
    rw [List.flatMap_nil, List.append_nil] at hlog ⊢
    refine ⟨sub, hintact.sub_eq, Finset.Subset.refl _, fun hcount i hbase hlt => ?_⟩
    by_contra hleft
    have hmem : i ∈ Finset.Ico base log.length \ sub.acked := by
      rw [← hlog topic htopic]
      exact Finset.mem_sdiff.mpr ⟨Finset.mem_Ico.mpr ⟨hbase, hlt⟩, hleft⟩
    have hpos := Finset.card_pos.mpr ⟨i, hmem⟩
    simp only [List.length_nil] at hcount
    omega
  | @cons t past r rounds htime hkept _ ih =>
    rw [List.flatMap_cons, ← List.append_assoc] at hfresh hkeep hlog ⊢
    have hkeep' : ∀ s ∈ past ++ r.steps, s.call ≠ .deleteTopic sub.spec.topic := fun s hs =>
      hkeep s (List.mem_append_left _ hs)
    have hgrown : ∀ topic', (stateAfter serde (past ++ r.steps)).topics[sub.spec.topic]? =
        some topic' → topic'.messages <+: log := by
      intro topic' htopic'
      obtain ⟨topic'', htopic'', hgrown⟩ := longer_of_run _ htopic' fun s hs =>
        hkeep s (List.mem_append_right _ hs)
      rw [← hlog topic'' htopic'']
      exact hgrown
    obtain ⟨sub₁, hintact₁, hsettled₁, hspec, hmore, hprogress⟩ := hkept.step hintact
      (hsettled.mono htime) (List.pairwise_append.mp hfresh).1 hkeep' hgrown hapart
    obtain ⟨topic₁, htopic₁, hlonger⟩ := longer_of_run r.steps htopic fun s hs =>
      hkeep' s (List.mem_append_right _ hs)
    obtain ⟨sub', hsub', hmore', hdrain⟩ := ih hintact₁ hsettled₁ hfresh (hspec ▸ hkeep)
      (hspec ▸ hlog) (hspec ▸ hapart) (hspec ▸ htopic₁)
    refine ⟨sub', hsub', hmore.trans hmore', fun hcount i hbase hlt => ?_⟩
    by_cases hacked : i ∈ sub.acked
    · exact hmore' (hmore hacked)
    obtain ⟨j, hge, hjlt, hjleft, hj⟩ := hprogress topic htopic i hbase hlt hacked
    refine hdrain ?_ i hbase (hlt.trans_le hlonger.length_le)
    -- the round has acked `j`
    have hless : Finset.Ico base log.length \ sub₁.acked ⊂
        Finset.Ico base log.length \ sub.acked := by
      refine Finset.ssubset_iff_of_subset (Finset.sdiff_subset_sdiff (Finset.Subset.refl _) hmore)
        |>.mpr ⟨j, ?_, ?_⟩
      · exact Finset.mem_sdiff.mpr ⟨Finset.mem_Ico.mpr ⟨hge, hjlt⟩, hjleft⟩
      · exact fun hmem => (Finset.mem_sdiff.mp hmem).2 hj
    have hcard := Finset.card_lt_card hless
    rw [List.length_cons] at hcount
    omega

end Rounds

/-- **A subscriber that keeps at it receives everything.** From a state of a run in which the
subscription has lost nothing, has no lease outstanding and nothing that waits for its time,
and if the topic stays and, with ordering, no key of the log at the end occurs on both sides
of the index the cursor was last set to: let there be as many rounds as indices of the log at
the end, from there on, that were not acked at the beginning – what is published meanwhile
counts. Then everything is acked that was in the log at the beginning, from there on. -/
theorem rounds_drain (r : Run) {name : Text} {past : List Step} {rounds : List Round}
    (hrun : past ++ rounds.flatMap Round.steps <+: r.steps) {sub : SubscriptionState}
    {topic last : TopicState} {t : Time}
    (hsub : (stateAfter serde past).subscriptions[name]? = some sub)
    (htopic : (stateAfter serde past).topics[sub.spec.topic]? = some topic)
    (hlast : (stateAfter serde (past ++ rounds.flatMap Round.steps)).topics[sub.spec.topic]? =
      some last)
    (hretained : Retained name (watch serde name past)) (hsettled : Settled t sub)
    (hrounds : Rounds serde name t past rounds)
    (hkeep : ∀ s ∈ past ++ rounds.flatMap Round.steps, s.call ≠ .deleteTopic sub.spec.topic)
    (hapart : sub.spec.enableMessageOrdering = true →
      ∀ j i, j < (watch serde name past).base → (watch serde name past).base ≤ i →
        ¬SameKey last.messages j i)
    (hcount : (Finset.Ico (watch serde name past).base last.messages.length \ sub.acked).card ≤
      rounds.length) :
    ∃ sub', (stateAfter serde (past ++ rounds.flatMap Round.steps)).subscriptions[name]? =
        some sub' ∧
      ∀ i, (watch serde name past).base ≤ i → i < topic.messages.length → i ∈ sub'.acked := by
  have hintact : Intact serde name (watch serde name past).base past sub :=
    ⟨hsub, hretained, rfl⟩
  have hlog : ∀ topic', (stateAfter serde (past ++ rounds.flatMap Round.steps)).topics[
      sub.spec.topic]? = some topic' → topic'.messages = last.messages := by
    intro topic' htopic'
    rw [Option.some.inj (htopic'.symm.trans hlast)]
  obtain ⟨sub', hsub', -, hdrain⟩ := hrounds.drain hintact hsettled (r.fresh.sublist hrun.sublist)
    hkeep hlog hapart htopic
  exact ⟨sub', hsub', hdrain hcount⟩

/-- Three rounds of an exactly-once subscription with ordering. The second message of the key
is blocked in the first round, in which a third is published. -/
def threeRounds : Run := .ofCalls
  [(0, .createTopic sampleTopic),
   (0, .createSubscription { sampleSubscription with
      enableMessageOrdering := true, enableExactlyOnceDelivery := true }),
   (0, .publish sampleTopic.name [sampleMessage "k", sampleMessage "k"]),
   (seconds 1, .pull sampleSubscription.name 5),
   (seconds 2, .publish sampleTopic.name [sampleMessage "k"]),
   (seconds 9, .acknowledge sampleSubscription.name [exactlyOnceId sampleSubscription.name 0 1]),
   (seconds 20, .pull sampleSubscription.name 5),
   (seconds 21, .acknowledge sampleSubscription.name [exactlyOnceId sampleSubscription.name 1 1]),
   (seconds 22, .pull sampleSubscription.name 5),
   (seconds 23, .acknowledge sampleSubscription.name [exactlyOnceId sampleSubscription.name 2 1])]

/-- The subscription before the first round. -/
def threeRounds.before : SubscriptionState :=
  ((stateAfter noJson (threeRounds.steps.take 3)).subscriptions[sampleSubscription.name]?).get
    (by decide +kernel)

/-- The topic before the first round. -/
def threeRounds.topic : TopicState :=
  ((stateAfter noJson (threeRounds.steps.take 3)).topics[sampleTopic.name]?).get
    (by decide +kernel)

/-- The topic at the end. -/
def threeRounds.last : TopicState :=
  ((stateAfter noJson threeRounds.steps).topics[sampleTopic.name]?).get (by decide +kernel)

def threeRounds.rounds : List Round :=
  [⟨[], threeRounds.steps[3], [threeRounds.steps[4]], threeRounds.steps[5]⟩,
   ⟨[], threeRounds.steps[6], [], threeRounds.steps[7]⟩,
   ⟨[], threeRounds.steps[8], [], threeRounds.steps[9]⟩]

/-- Ten seconds are within every ack deadline. -/
theorem within_ten_seconds {t t' : Time} (n : UInt32) (h : t' ≤ t + seconds 10) :
    t' ≤ t + seconds (normalizeAckDeadline n) := by
  have hten : seconds 10 ≤ seconds (normalizeAckDeadline n) := by
    have hbounds := (normalizeAckDeadline_bounds n).1
    simp only [seconds, UInt32.reduceToNat]
    omega
  exact h.trans (Int.add_le_add_left hten t)

/-- They are kept, each a few seconds long. -/
theorem threeRounds_kept : Rounds noJson sampleSubscription.name 0 (threeRounds.steps.take 3)
    threeRounds.rounds := by
  refine .cons (by decide) ⟨by simp, ?_, ⟨5, _, rfl, by decide +kernel, rfl⟩, fun sub _ _ =>
      within_ten_seconds _ (by decide)⟩
    (.cons (by decide) ⟨by simp, by simp, ⟨5, _, rfl, by decide +kernel, rfl⟩, fun sub _ _ =>
      within_ten_seconds _ (by decide)⟩
    (.cons (by decide) ⟨by simp, by simp, ⟨5, _, rfl, by decide +kernel, rfl⟩, fun sub _ _ =>
      within_ten_seconds _ (by decide)⟩ .nil))
  intro s hs
  obtain rfl := List.mem_singleton.mp hs
  have htarget : threeRounds.steps[4].call.target ≠ some sampleSubscription.name := by decide
  exact htarget

/-- All of them are acked in the end. -/
theorem threeRounds_drained :
    ∃ sub', (stateAfter noJson threeRounds.steps).subscriptions[sampleSubscription.name]? =
        some sub' ∧
      ∀ i, (watch noJson sampleSubscription.name (threeRounds.steps.take 3)).base ≤ i →
        i < threeRounds.topic.messages.length → i ∈ sub'.acked := by
  have hbase : (watch noJson sampleSubscription.name (threeRounds.steps.take 3)).base = 0 := by
    decide +kernel
  have htopic : threeRounds.before.spec.topic = sampleTopic.name := by decide +kernel
  have hnew : threeRounds.before.nextIndex = 0 ∧ threeRounds.before.inflight = ∅ ∧
      threeRounds.before.retryQueue = [] := by decide +kernel
  refine @rounds_drain noJson threeRounds sampleSubscription.name (threeRounds.steps.take 3)
    threeRounds.rounds (List.prefix_refl _) threeRounds.before threeRounds.topic threeRounds.last 0
    (Option.some_get _).symm ?_ ?_ ?_ ⟨hnew.2.1, ?_⟩ threeRounds_kept ?_ ?_ ?_
  · rw [htopic]
    exact (Option.some_get _).symm
  · rw [htopic]
    exact (Option.some_get _).symm
  · -- nothing has been taken yet
    intro sub hsub i _ hlt
    rw [watch_state] at hsub
    obtain rfl : threeRounds.before = sub := Option.some.inj ((Option.some_get _).trans hsub)
    omega
  · simp [hnew.2.2]
  · rw [htopic]
    simp [threeRounds, threeRounds.rounds, Round.steps, Run.ofCalls, List.mapIdx_cons,
      Step.numbered]
  · intro _ j i hj
    omega
  · decide +kernel

end RelayPubsub.Memory
