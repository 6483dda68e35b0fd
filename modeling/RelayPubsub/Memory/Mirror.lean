import RelayPubsub.Lib.Rank
import RelayPubsub.Memory.PullHistory

/-!
# A filtered subscription and its mirror image

A subscription with a filter, and one without that is otherwise the same
(`RelayPubsub.Memory.Twins`), on a topic whose log is the filtered one. The index
`i` of the first log stands for the index `Lib.rank i` of the second, and
`RelayPubsub.Memory.Mirrors` says what corresponds:

| filtered | mirror image |
|---|---|
| cursor `i`, at any message | cursor `rank i` |
| retry queue, all of whose entries the filter accepts | the same entries, moved |
| attempts of an accepted index | attempts of its rank |
| lease under an ack id | the lease moved, under the ack id issued with it |

An index that the filter rejects has a count of attempts and an ack of its own, and
no counterpart. The two ack ids that one delivery has on the two sides are a pair; a
set of such pairs is given, which is one-to-one.

This module is about the subscriptions alone: the relation is kept by everything
that changes one, the sweep included (`RelayPubsub.Memory.Mirrors.sweep`).
-/

namespace RelayPubsub

/-- The filter as a predicate on messages. -/
def AttributeFilter.accepts (f : AttributeFilter) (message : RelayMessage) : Bool :=
  f.matches message.attributes

end RelayPubsub

namespace RelayPubsub.Memory

open Lib Lib.Ledger

/-- **Two specifications that differ in the filter**, the name and the topic only:
the first has a valid filter, the second has none, and neither enables ordering or
has a dead-letter policy. -/
structure Twins (f : AttributeFilter) (spec spec' : SubscriptionSpec) : Prop where
  filter : AttributeFilter.parse spec.filter = .ok f
  unordered : spec.enableMessageOrdering = false
  undead : spec.deadLetter = none
  same : spec' = { spec with name := spec'.name, topic := spec'.topic, filter := [] }

/-- **One partner each**: a relation between ack ids that is one-to-one. -/
def OneToOne (pairs : Set (Text × Text)) : Prop :=
  ∀ x ∈ pairs, ∀ y ∈ pairs, x.1 = y.1 ↔ x.2 = y.2

section Moving

variable (p : RelayMessage → Bool) (log : List RelayMessage)

/-- A retry at the corresponding index. -/
def RetryEntry.moved (e : RetryEntry) : RetryEntry :=
  { e with topicIndex := rank p log e.topicIndex }

/-- A lease on the corresponding index. -/
def Inflight.moved (e : Inflight) : Inflight := { e with topicIndex := rank p log e.topicIndex }

@[simp] theorem Inflight.moved_deadline (e : Inflight) : (e.moved p log).deadline = e.deadline :=
  rfl

/-- **A subscription and its mirror image**, where `p` accepts messages of `log` and
`pairs` are the ack ids that stand for the same deliveries. -/
structure Mirrors (pairs : Set (Text × Text)) (sub sub' : SubscriptionState) : Prop where
  cursor : sub'.nextIndex = rank p log sub.nextIndex
  cursor_le : sub.nextIndex ≤ log.length
  queue : sub'.retryQueue = sub.retryQueue.map (RetryEntry.moved p log)
  queued : ∀ e ∈ sub.retryQueue, AcceptedAt p log e.topicIndex
  attempts : ∀ i, AcceptedAt p log i → sub'.attempts[rank p log i]? = sub.attempts[i]?
  /-- No attempt at a message to come has been counted. -/
  fresh : ∀ i, log.length ≤ i → sub.attempts[i]? = none
  fresh' : ∀ i, rank p log log.length ≤ i → sub'.attempts[i]? = none
  leased : ∀ (ackId : Text) entry, sub.inflight[ackId]? = some entry →
    AcceptedAt p log entry.topicIndex
  leases : ∀ x ∈ pairs, sub'.inflight[x.2]? = sub.inflight[x.1]?.map (Inflight.moved p log)
  /-- Every lease is under an ack id that has a partner. -/
  issued : ∀ ackId ∈ sub.inflight, ∃ x ∈ pairs, x.1 = ackId
  issued' : ∀ ackId ∈ sub'.inflight, ∃ x ∈ pairs, x.2 = ackId

end Moving

variable {p : RelayMessage → Bool} {log log' : List RelayMessage} {pairs : Set (Text × Text)}
  {sub sub' : SubscriptionState} {f : AttributeFilter} {i : ℕ}

/-! ### Specifications -/

section Twins

variable {spec spec' : SubscriptionSpec}

/-- The filter rejects what it does not accept. -/
theorem Twins.filterRejects (h : Twins f spec spec') (message : RelayMessage) :
    filterRejects spec message = !f.accepts message := by
  unfold Memory.filterRejects
  split_ifs with hempty
  · -- the empty filter accepts every message
    have hparse := h.filter
    rw [hempty] at hparse
    obtain rfl := Except.ok.inj hparse
    rfl
  · rw [h.filter]
    rfl

/-- The mirror image rejects nothing. -/
theorem Twins.filterRejects' (h : Twins f spec spec') (message : RelayMessage) :
    Memory.filterRejects spec' message = false := by
  have hfilter : spec'.filter = [] := by rw [h.same]
  rw [Memory.filterRejects, if_pos hfilter]

theorem Twins.unordered' (h : Twins f spec spec') : spec'.enableMessageOrdering = false := by
  rw [h.same]
  exact h.unordered

theorem Twins.undead' (h : Twins f spec spec') : spec'.deadLetter = none := by
  rw [h.same]
  exact h.undead

theorem Twins.once (h : Twins f spec spec') :
    spec'.enableExactlyOnceDelivery = spec.enableExactlyOnceDelivery := by
  rw [h.same]

theorem Twins.ackDeadlineSeconds (h : Twins f spec spec') :
    spec'.ackDeadlineSeconds = spec.ackDeadlineSeconds := by
  rw [h.same]

theorem Twins.backoffSeconds (h : Twins f spec spec') (attempt : UInt32) :
    backoffSeconds spec' attempt = backoffSeconds spec attempt := by
  have hretry : spec'.retry = spec.retry := by rw [h.same]
  unfold Memory.backoffSeconds
  rw [hretry]

end Twins

/-! ### Attempts -/

theorem Mirrors.nextAttempt (h : Mirrors p log pairs sub sub') (hi : AcceptedAt p log i) :
    sub'.nextAttempt (rank p log i) = sub.nextAttempt i := by
  rw [SubscriptionState.nextAttempt, SubscriptionState.nextAttempt, h.attempts i hi]

/-- A lease that ends is put off alike. -/
theorem Mirrors.retryAt (h : Mirrors p log pairs sub sub') (ht : Twins f sub.spec sub'.spec)
    (hi : AcceptedAt p log i) (now : Time) :
    sub'.retryAt (rank p log i) now = sub.retryAt i now := by
  rw [SubscriptionState.retryAt, SubscriptionState.retryAt, h.attempts i hi, ht.backoffSeconds]

/-- Counting an attempt at an accepted index, on both sides. -/
theorem Mirrors.countAttempt (h : Mirrors p log pairs sub sub') (hi : AcceptedAt p log i) :
    Mirrors p log pairs (sub.countAttempt i) (sub'.countAttempt (rank p log i)) :=
  { h with
    attempts := by
      intro j hj
      simp only [SubscriptionState.countAttempt, h.nextAttempt hi]
      rcases eq_or_ne i j with rfl | hne
      · rw [Std.ExtTreeMap.getElem?_insert_self, Std.ExtTreeMap.getElem?_insert_self]
      · have hrank : rank p log i ≠ rank p log j := fun heq => hne ((rank_inj hi hj).mp heq)
        rw [getElem?_insert_of_ne hrank, getElem?_insert_of_ne hne]
        exact h.attempts j hj
    fresh := by
      intro j hj
      have hlt := hi.lt
      rw [SubscriptionState.countAttempt, getElem?_insert_of_ne (by omega)]
      exact h.fresh j hj
    fresh' := by
      intro j hj
      have hlt := rank_lt hi hi.lt
      rw [SubscriptionState.countAttempt, getElem?_insert_of_ne (by omega)]
      exact h.fresh' j hj }

/-- Counting an attempt at a rejected index, which has no counterpart, and
acknowledging it. -/
theorem Mirrors.pass {message : RelayMessage} (h : Mirrors p log pairs sub sub')
    (hi : log[i]? = some message) (hp : p message = false) :
    Mirrors p log pairs ((sub.countAttempt i).settle i) sub' :=
  { h with
    attempts := by
      intro j hj
      have hne : i ≠ j := by
        rintro rfl
        obtain ⟨m, hm, hpm⟩ := hj
        obtain rfl := Option.some.inj (hi.symm.trans hm)
        rw [hp] at hpm
        cases hpm
      simp only [SubscriptionState.settle, SubscriptionState.countAttempt]
      rw [getElem?_insert_of_ne hne]
      exact h.attempts j hj
    fresh := by
      intro j hj
      have hlt := (List.getElem?_eq_some_iff.mp hi).1
      simp only [SubscriptionState.settle, SubscriptionState.countAttempt]
      rw [getElem?_insert_of_ne (by omega)]
      exact h.fresh j hj }

/-! ### The retry queue and the acks -/

theorem Mirrors.requeue (h : Mirrors p log pairs sub sub') (hi : AcceptedAt p log i) (at' : Time) :
    Mirrors p log pairs (sub.requeue i at') (sub'.requeue (rank p log i) at') :=
  { h with
    queue := by
      simp only [SubscriptionState.requeue, List.map_append, h.queue]
      rfl
    queued := by
      intro e he
      rcases List.mem_append.mp he with he | he
      · exact h.queued e he
      · rw [List.mem_singleton.mp he]
        exact hi }

theorem Mirrors.requeueFront (h : Mirrors p log pairs sub sub') (hi : AcceptedAt p log i)
    (at' : Time) :
    Mirrors p log pairs (sub.requeueFront i at') (sub'.requeueFront (rank p log i) at') :=
  { h with
    queue := by
      simp only [SubscriptionState.requeueFront, List.map_cons, h.queue]
      rfl
    queued := by
      intro e he
      rcases List.mem_cons.mp he with rfl | he
      · exact hi
      · exact h.queued e he }

/-- Acks are on either side the business of that side. -/
theorem Mirrors.ack (h : Mirrors p log pairs sub sub') (topic topic' : Option TopicState)
    (entry entry' : Inflight) :
    Mirrors p log pairs (sub.ack topic entry) (sub'.ack topic' entry') :=
  { h with }

/-! ### Leases -/

/-- A lease is taken off on both sides. -/
theorem Mirrors.release {x : Text × Text} (h : Mirrors p log pairs sub sub')
    (hone : OneToOne pairs) (hx : x ∈ pairs) :
    Mirrors p log pairs (sub.release x.1) (sub'.release x.2) :=
  { h with
    leased := by
      intro ackId entry hentry
      simp only [SubscriptionState.release, Std.ExtTreeMap.getElem?_erase] at hentry
      split_ifs at hentry
      exact h.leased ackId entry hentry
    leases := by
      intro y hy
      simp only [SubscriptionState.release]
      rcases eq_or_ne x.1 y.1 with heq | hne
      · rw [← heq, ← (hone x hx y hy).mp heq, Std.ExtTreeMap.getElem?_erase_self,
          Std.ExtTreeMap.getElem?_erase_self]
        rfl
      · have hne' : x.2 ≠ y.2 := fun heq => hne ((hone x hx y hy).mpr heq)
        rw [getElem?_erase_of_ne hne, getElem?_erase_of_ne hne']
        exact h.leases y hy
    issued := fun ackId hmem => h.issued ackId (Std.ExtTreeMap.mem_of_mem_erase hmem)
    issued' := fun ackId hmem => h.issued' ackId (Std.ExtTreeMap.mem_of_mem_erase hmem) }

/-- A message is leased on both sides, under ack ids that are now a pair. -/
theorem Mirrors.lease {x : Text × Text} {entry : Inflight} (h : Mirrors p log pairs sub sub')
    (hone : OneToOne (insert x pairs)) (hentry : AcceptedAt p log entry.topicIndex) :
    Mirrors p log (insert x pairs) (sub.lease x.1 entry) (sub'.lease x.2 (entry.moved p log)) :=
  { h with
    leased := by
      intro ackId entry' hentry'
      rcases eq_or_ne x.1 ackId with rfl | hne
      · rw [SubscriptionState.lease, Std.ExtTreeMap.getElem?_insert_self] at hentry'
        rw [← Option.some.inj hentry']
        exact hentry
      · rw [SubscriptionState.lease, getElem?_insert_of_ne hne] at hentry'
        exact h.leased ackId entry' hentry'
    leases := by
      intro y hy
      have hpair := hone x (Set.mem_insert x pairs) y hy
      simp only [SubscriptionState.lease]
      rcases eq_or_ne x.1 y.1 with heq | hne
      · rw [← heq, ← hpair.mp heq, Std.ExtTreeMap.getElem?_insert_self,
          Std.ExtTreeMap.getElem?_insert_self]
        rfl
      · have hne' : x.2 ≠ y.2 := fun heq => hne (hpair.mpr heq)
        have hmem : y ∈ pairs :=
          (Set.mem_insert_iff.mp hy).resolve_left fun heq => hne (heq ▸ rfl)
        rw [getElem?_insert_of_ne hne, getElem?_insert_of_ne hne']
        exact h.leases y hmem
    issued := by
      intro ackId hmem
      rcases eq_or_ne x.1 ackId with rfl | hne
      · exact ⟨x, Set.mem_insert x pairs, rfl⟩
      · obtain ⟨y, hy, hid⟩ := h.issued ackId ((Std.ExtTreeMap.mem_insert.mp hmem).resolve_left
          fun heq => hne (by simpa using heq))
        exact ⟨y, Set.mem_insert_of_mem x hy, hid⟩
    issued' := by
      intro ackId hmem
      rcases eq_or_ne x.2 ackId with rfl | hne
      · exact ⟨x, Set.mem_insert x pairs, rfl⟩
      · obtain ⟨y, hy, hid⟩ := h.issued' ackId ((Std.ExtTreeMap.mem_insert.mp hmem).resolve_left
          fun heq => hne (by simpa using heq))
        exact ⟨y, Set.mem_insert_of_mem x hy, hid⟩ }

/-- Two ack ids that stand for the same delivery, or neither for one. -/
def Renamed (pairs : Set (Text × Text)) (ackId ackId' : Text) : Prop :=
  (ackId, ackId') ∈ pairs ∨ (∀ x ∈ pairs, x.1 ≠ ackId) ∧ ∀ x ∈ pairs, x.2 ≠ ackId'

/-- **Corresponding ack ids lease corresponding messages**, or neither leases one. -/
theorem Mirrors.renamed {ackId ackId' : Text} (h : Mirrors p log pairs sub sub')
    (hr : Renamed pairs ackId ackId') :
    (ackId, ackId') ∈ pairs ∨ sub.inflight[ackId]? = none ∧ sub'.inflight[ackId']? = none := by
  refine hr.imp_right fun hr => ⟨?_, ?_⟩
  · refine Std.ExtTreeMap.getElem?_eq_none fun hmem => ?_
    obtain ⟨x, hx, hid⟩ := h.issued ackId hmem
    exact hr.1 x hx hid
  · refine Std.ExtTreeMap.getElem?_eq_none fun hmem => ?_
    obtain ⟨x, hx, hid⟩ := h.issued' ackId' hmem
    exact hr.2 x hx hid

/-! ### Seeks, and logs that grow -/

/-- The cursor is set to corresponding indices. -/
theorem Mirrors.rewind {n : ℕ} (hn : n ≤ log.length) :
    Mirrors p log pairs (sub.rewind n) (sub'.rewind (rank p log n)) where
  cursor := rfl
  cursor_le := hn
  queue := rfl
  queued := fun e he => absurd he List.not_mem_nil
  attempts := fun _ _ => by simp [SubscriptionState.rewind]
  fresh := fun _ _ => by simp [SubscriptionState.rewind]
  fresh' := fun _ _ => by simp [SubscriptionState.rewind]
  leased := fun _ _ hentry => by simp [SubscriptionState.rewind] at hentry
  leases := fun _ _ => by simp [SubscriptionState.rewind]
  issued := fun _ hmem => by simp [SubscriptionState.rewind] at hmem
  issued' := fun _ hmem => by simp [SubscriptionState.rewind] at hmem

/-- Messages are published to both topics: the old indices keep their ranks. -/
theorem Mirrors.grow (h : Mirrors p log pairs sub sub') (hlog : log <+: log') :
    Mirrors p log' pairs sub sub' where
  cursor := by rw [rank_of_isPrefix hlog h.cursor_le, h.cursor]
  cursor_le := h.cursor_le.trans hlog.length_le
  queue := by
    rw [h.queue]
    refine List.map_congr_left fun e he => ?_
    rw [RetryEntry.moved, RetryEntry.moved, rank_of_isPrefix hlog (h.queued e he).lt.le]
  queued := fun e he => (h.queued e he).of_isPrefix hlog
  attempts := by
    intro i hi
    rcases lt_or_ge i log.length with hlt | hge
    · obtain ⟨m, hm, hp⟩ := hi
      rw [rank_of_isPrefix hlog hlt.le]
      refine h.attempts i ⟨m, ?_, hp⟩
      obtain ⟨rest, rfl⟩ := hlog
      rwa [List.getElem?_append_left hlt] at hm
    · -- no attempt at a new message has been counted on either side
      have hend : rank p log' log.length = rank p log log.length := rank_of_isPrefix hlog le_rfl
      rw [h.fresh i hge, h.fresh' _ (hend ▸ rank_mono hge)]
  fresh := fun i hi => h.fresh i (hlog.length_le.trans hi)
  fresh' := by
    intro i hi
    have hend : rank p log' log.length = rank p log log.length := rank_of_isPrefix hlog le_rfl
    exact h.fresh' i (hend ▸ (rank_mono hlog.length_le).trans hi)
  leased := fun ackId entry hentry => (h.leased ackId entry hentry).of_isPrefix hlog
  leases := by
    intro x hx
    rw [h.leases x hx]
    rcases hentry : sub.inflight[x.1]? with - | entry
    · rfl
    · have hle := (h.leased x.1 entry hentry).lt.le
      simp only [Option.map_some, Inflight.moved, rank_of_isPrefix hlog hle]
  issued := h.issued
  issued' := h.issued'

/-! ### Acknowledging and extending -/

/-- **Acknowledging corresponding ack ids**, as far as the calls get. -/
theorem Mirrors.acknowledgeEach {now : Time} {topic topic' : Option TopicState}
    {ackIds ackIds' : List Text} (hids : List.Forall₂ (Renamed pairs) ackIds ackIds')
    (h : Mirrors p log pairs sub sub') (ht : Twins f sub.spec sub'.spec) (hone : OneToOne pairs) :
    Mirrors p log pairs (acknowledgeEach now topic sub ackIds).2
      (Memory.acknowledgeEach now topic' sub' ackIds').2 := by
  induction hids generalizing sub sub' with
  | nil => exact h
  | @cons ackId ackId' ackIds ackIds' hid _ ih =>
    rcases h.renamed hid with hpair | ⟨hnone, hnone'⟩
    · have hlease := h.leases _ hpair
      rcases hentry : sub.inflight[ackId]? with - | entry
      · simp only [hentry, Option.map_none] at hlease
        simp only [Memory.acknowledgeEach, hentry, hlease]
        exact ih h ht
      · simp only [hentry, Option.map_some] at hlease
        simp only [Memory.acknowledgeEach, hentry, hlease]
        have hreleased := h.release hone hpair
        have honce : (sub'.release ackId').spec.enableExactlyOnceDelivery =
            (sub.release ackId).spec.enableExactlyOnceDelivery := ht.once
        rw [honce, Inflight.moved_deadline]
        by_cases hlate : (sub.release ackId).spec.enableExactlyOnceDelivery = true ∧
            entry.deadline < now
        · rw [if_pos hlate, if_pos hlate]
          exact hreleased
        · rw [if_neg hlate, if_neg hlate]
          exact ih (hreleased.ack topic topic' entry _) ht
    · simp only [Memory.acknowledgeEach, hnone, hnone']
      exact ih h ht

/-- **Extending corresponding leases**, or giving them back. -/
theorem Mirrors.modify {now : Time} {extension : UInt32} {ackIds ackIds' : List Text}
    (hids : List.Forall₂ (Renamed pairs) ackIds ackIds') (h : Mirrors p log pairs sub sub')
    (ht : Twins f sub.spec sub'.spec) (hone : OneToOne pairs) :
    Mirrors p log pairs (ackIds.foldl (modifyOne now extension) sub)
      (ackIds'.foldl (modifyOne now extension) sub') := by
  induction hids generalizing sub sub' with
  | nil => exact h
  | @cons ackId ackId' ackIds ackIds' hid _ ih =>
    rw [List.foldl_cons, List.foldl_cons]
    have hspec : Twins f (modifyOne now extension sub ackId).spec
        (modifyOne now extension sub' ackId').spec := by
      have hframe := (modify_frame now extension sub [ackId]).1
      have hframe' := (modify_frame now extension sub' [ackId']).1
      rw [List.foldl_cons, List.foldl_nil] at hframe hframe'
      rwa [hframe, hframe']
    refine ih ?_ hspec
    rcases h.renamed hid with hpair | ⟨hnone, hnone'⟩
    · have hlease := h.leases _ hpair
      rcases hentry : sub.inflight[ackId]? with - | entry
      · simp only [hentry, Option.map_none] at hlease
        simp only [modifyOne, hentry, hlease]
        exact h
      · simp only [hentry, Option.map_some] at hlease
        simp only [modifyOne, hentry, hlease]
        have hindex := h.leased ackId entry hentry
        by_cases hzero : extension = 0
        · rw [if_pos hzero, if_pos hzero]
          have hretry : sub'.retryAt (entry.moved p log).topicIndex now =
              sub.retryAt entry.topicIndex now := h.retryAt ht hindex now
          rw [hretry]
          exact (h.release hone hpair).requeueFront hindex _
        · rw [if_neg hzero, if_neg hzero]
          have hins : insert (ackId, ackId') pairs = pairs := Set.insert_eq_of_mem hpair
          let extended : Inflight := { entry with deadline := now + seconds extension }
          have hleased :=
            @Mirrors.lease _ _ _ _ _ (ackId, ackId') extended h (hins.symm ▸ hone) hindex
          rwa [hins] at hleased
    · simp only [modifyOne, hnone, hnone']
      exact h

/-! ### The sweep -/

section Sweep

variable {env env' : Env}

/-- **The same choice of sweep order**: one order of the pairs of ack ids is the order
in which both lease tables are iterated, as far as the ids are leased. -/
def SameSweep (pairs : Set (Text × Text)) (env env' : Env) (sub sub' : SubscriptionState) : Prop :=
  ∃ order : List (Text × Text), (∀ x ∈ order, x ∈ pairs) ∧
    (env.iter sub.inflight.toList).map Prod.fst =
      (order.map Prod.fst).filter (fun ackId => decide (ackId ∈ sub.inflight)) ∧
    (env'.iter sub'.inflight.toList).map Prod.fst =
      (order.map Prod.snd).filter (fun ackId => decide (ackId ∈ sub'.inflight))

/-- The lease that has run out under an ack id. -/
def expiredUnder (now : Time) (sub : SubscriptionState) (ackId : Text) : Option (Text × ℕ) :=
  (sub.inflight[ackId]?.filter fun entry => decide (entry.deadline ≤ now)).map fun entry =>
    (ackId, entry.topicIndex)

/-- What is swept is determined by the order of the ack ids. -/
theorem expiredLeases_eq_filterMap : expiredLeases env sub =
    ((env.iter sub.inflight.toList).map Prod.fst).filterMap (expiredUnder (env.now 0) sub) := by
  have hentry : ∀ e ∈ env.iter sub.inflight.toList, sub.inflight[e.1]? = some e.2 :=
    fun e he => Std.ExtTreeMap.mem_toList_iff_getElem?_eq_some.mp ((env.iter_perm _).mem_iff.mp he)
  rw [expiredLeases, List.filterMap_map]
  generalize env.iter sub.inflight.toList = l at hentry
  induction l with
  | nil => rfl
  | cons e l ih =>
    obtain ⟨he, hl⟩ := List.forall_mem_cons.mp hentry
    rw [List.filterMap_cons, ← ih hl]
    by_cases hdead : e.2.deadline ≤ env.now 0
    · simp [expiredUnder, he, hdead, Option.filter_some]
    · simp [expiredUnder, he, hdead, Option.filter_some]

/-- Only a leased ack id is swept. -/
theorem filterMap_expiredUnder {now : Time} (l : List Text) :
    (l.filter fun ackId => decide (ackId ∈ sub.inflight)).filterMap (expiredUnder now sub) =
      l.filterMap (expiredUnder now sub) := by
  rw [List.filterMap_filter]
  refine List.filterMap_congr fun ackId _ => ?_
  by_cases hmem : ackId ∈ sub.inflight
  · rw [if_pos (by simpa using hmem)]
  · rw [if_neg (by simpa using hmem), expiredUnder, Std.ExtTreeMap.getElem?_eq_none hmem]
    rfl

/-- **Corresponding leases run out**, and are swept in the same order. -/
theorem Mirrors.expiredLeases (h : Mirrors p log pairs sub sub') (hnow : env.now 0 = env'.now 0)
    (hsweep : SameSweep pairs env env' sub sub') :
    (Memory.expiredLeases env' sub').map Prod.snd =
      (expiredLeases env sub).map fun x => rank p log x.2 := by
  obtain ⟨order, hpairs, horder, horder'⟩ := hsweep
  rw [expiredLeases_eq_filterMap, expiredLeases_eq_filterMap, horder, horder',
    filterMap_expiredUnder, filterMap_expiredUnder, List.filterMap_map, List.filterMap_map,
    List.map_filterMap, List.map_filterMap]
  refine List.filterMap_congr fun x hx => ?_
  simp only [Function.comp_apply, expiredUnder, h.leases x (hpairs x hx), ← hnow]
  rcases sub.inflight[x.1]? with - | entry
  · rfl
  · by_cases hdead : entry.deadline ≤ env.now 0
    · simp [hdead, Option.filter_some, Inflight.moved]
    · simp [hdead, Option.filter_some]

/-- What a sweep appends to the retry queue, if no lease is on an acked index. -/
theorem sweep_retryQueue (hx : Exclusive sub.ledger) :
    (sweep env sub).retryQueue = sub.retryQueue ++
      (expiredLeases env sub).map fun x => ⟨x.2, sub.retryAt x.2 (env.now 0)⟩ := by
  have hfold : ∀ (l : List (Text × ℕ)) (s : SubscriptionState), (∀ x ∈ l, x.2 ∉ s.acked) →
      (l.foldl (sweepOne (env.now 0)) s).retryQueue =
        s.retryQueue ++ l.map fun x => ⟨x.2, s.retryAt x.2 (env.now 0)⟩ := by
    intro l
    induction l with
    | nil => simp
    | cons x l ih =>
      intro s hacked
      obtain ⟨hfirst, hl⟩ := List.forall_mem_cons.mp hacked
      have hone : sweepOne (env.now 0) s x =
          (s.release x.1).requeue x.2 (s.retryAt x.2 (env.now 0)) := if_neg hfirst
      rw [List.foldl_cons, hone, ih ((s.release x.1).requeue x.2 _) hl,
        SubscriptionState.requeue, List.append_assoc]
      rfl
  refine hfold _ sub fun x hmem => ?_
  obtain ⟨entry, hentry, -, hindex⟩ := mem_expiredLeases.mp hmem
  exact hx.lease_done ((sub.ledger_lease_eq_some x.2).mpr ⟨entry, hentry, hindex⟩)

/-- The leases a sweep leaves. -/
theorem getElem?_sweep (ackId : Text) : (sweep env sub).inflight[ackId]? =
    sub.inflight[ackId]?.filter fun entry => decide (env.now 0 < entry.deadline) := by
  ext entry
  rw [getElem?_of_sweep, Option.filter_eq_some_iff, decide_eq_true_eq]

theorem mem_of_mem_sweep {ackId : Text} (h : ackId ∈ (sweep env sub).inflight) :
    ackId ∈ sub.inflight := by
  rw [Std.ExtTreeMap.mem_iff_isSome_getElem?] at h ⊢
  obtain ⟨entry, hentry⟩ := Option.isSome_iff_exists.mp h
  rw [(getElem?_of_sweep.mp hentry).1]
  rfl

/-- **A sweep on both sides**, in the same order and at the same time. -/
theorem Mirrors.sweep (h : Mirrors p log pairs sub sub') (ht : Twins f sub.spec sub'.spec)
    (hx : Exclusive sub.ledger) (hx' : Exclusive sub'.ledger) (hnow : env.now 0 = env'.now 0)
    (hsweep : SameSweep pairs env env' sub sub') :
    Mirrors p log pairs (sweep env sub) (Memory.sweep env' sub') := by
  obtain ⟨-, hnext, -, hattempts⟩ := sweep_frame env sub
  obtain ⟨-, hnext', -, hattempts'⟩ := sweep_frame env' sub'
  -- a swept index was leased, so its message is accepted
  have hswept : ∀ x ∈ Memory.expiredLeases env sub, AcceptedAt p log x.2 := by
    intro x hmem
    obtain ⟨entry, hentry, -, hindex⟩ := mem_expiredLeases.mp hmem
    rw [← hindex]
    exact h.leased x.1 entry hentry
  refine
    { cursor := by rw [hnext, hnext', h.cursor]
      cursor_le := by rw [hnext]; exact h.cursor_le
      queue := ?_
      queued := fun e he => ?_
      attempts := by rw [hattempts, hattempts']; exact h.attempts
      fresh := by rw [hattempts]; exact h.fresh
      fresh' := by rw [hattempts']; exact h.fresh'
      leased := fun ackId entry hentry => h.leased ackId entry (getElem?_of_sweep.mp hentry).1
      leases := fun x hmem => ?_
      issued := fun ackId hmem => h.issued ackId ?_
      issued' := fun ackId hmem => h.issued' ackId ?_ }
  · have hmap : (Memory.expiredLeases env' sub').map
        (fun x => (⟨x.2, sub'.retryAt x.2 (env'.now 0)⟩ : RetryEntry)) =
        ((Memory.expiredLeases env' sub').map Prod.snd).map
          fun i => ⟨i, sub'.retryAt i (env'.now 0)⟩ := by
      rw [List.map_map]
      rfl
    rw [sweep_retryQueue hx, sweep_retryQueue hx', h.queue, List.map_append, hmap,
      h.expiredLeases hnow hsweep, List.map_map, List.map_map]
    refine congrArg _ (List.map_congr_left fun x hmem => ?_)
    simp only [Function.comp_apply, RetryEntry.moved, ← hnow, h.retryAt ht (hswept x hmem)]
  · rw [sweep_retryQueue hx, List.mem_append] at he
    rcases he with he | he
    · exact h.queued e he
    · obtain ⟨x, hmem, rfl⟩ := List.mem_map.mp he
      exact hswept x hmem
  · rw [getElem?_sweep, getElem?_sweep, h.leases x hmem, ← hnow]
    rcases sub.inflight[x.1]? with - | entry
    · rfl
    · by_cases hlive : env.now 0 < entry.deadline
      · simp [hlive, Option.filter_some]
      · simp [hlive, Option.filter_some]
  · exact mem_of_mem_sweep hmem
  · exact mem_of_mem_sweep hmem

end Sweep

end RelayPubsub.Memory
