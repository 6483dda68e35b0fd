import RelayPubsub.Lib.Trace
import RelayPubsub.Memory.Acknowledge
import RelayPubsub.Memory.Order
import RelayPubsub.Memory.Resources

/-!
# A subscription as a ledger

`RelayPubsub.Memory.SubscriptionState.ledger` forgets everything about a
subscription but its cursor and its three sets of indices, and every operation
of the store is a history of that ledger:

| operation | its events |
|---|---|
| the sweep of `pull` | `requeue`, one an expired lease |
| a turn of the loop of `pull` | `park`, `retire` or `grant` |
| `acknowledge` | `settle`, one a lease; at an expired one, `forfeit` |
| `modify_ack_deadline` | `requeue`, one a lease given back |
| a seek | `rewind` |

The table is `RelayPubsub.Memory.sweep_trace`, `RelayPubsub.Memory.turned_move`,
`RelayPubsub.Memory.acknowledgeEach_trace`, `RelayPubsub.Memory.modify_trace`
and `RelayPubsub.Memory.ledger_rewind`.

A turn that passes over an index does not occur: an index that is waiting or
beyond the cursor is neither acked nor leased. A grant needs an ack id that is
not in use; `RelayPubsub.Memory.Named` says where the ack ids in use come from.
-/

namespace RelayPubsub.Memory

open Lib Lib.Ledger

namespace SubscriptionState

/-- **The ledger of a subscription.** -/
def ledger (sub : SubscriptionState) : Ledger Text where
  cursor := sub.nextIndex
  done := sub.acked
  lease := fun ackId => sub.inflight[ackId]?.map (·.topicIndex)
  waiting := sub.retryQueue.map (·.topicIndex)

variable (sub : SubscriptionState) (index : ℕ)

@[simp] theorem ledger_cursor : sub.ledger.cursor = sub.nextIndex := rfl

@[simp] theorem ledger_done : sub.ledger.done = sub.acked := rfl

theorem ledger_lease_eq_some {ackId : Text} :
    sub.ledger.lease ackId = some index ↔
      ∃ entry, sub.inflight[ackId]? = some entry ∧ entry.topicIndex = index :=
  Option.map_eq_some_iff

theorem ledger_lease_eq_none {ackId : Text} :
    sub.ledger.lease ackId = none ↔ sub.inflight[ackId]? = none :=
  Option.map_eq_none_iff

@[simp] theorem ledger_release (ackId : Text) :
    (sub.release ackId).ledger = sub.ledger.unlease ackId := by
  ext1
  · rfl
  · rfl
  · funext id
    rcases eq_or_ne ackId id with rfl | hne
    · simp [ledger, release]
    · simp [ledger, release, getElem?_erase_of_ne hne, hne.symm]
  · rfl

@[simp] theorem ledger_addLease (ackId : Text) (entry : Inflight) :
    (sub.lease ackId entry).ledger = sub.ledger.addLease ackId entry.topicIndex := by
  ext1
  · rfl
  · rfl
  · funext id
    rcases eq_or_ne ackId id with rfl | hne
    · simp [ledger, SubscriptionState.lease]
    · simp [ledger, SubscriptionState.lease, getElem?_insert_of_ne hne, hne.symm]
  · rfl

@[simp] theorem ledger_settle : (sub.settle index).ledger = sub.ledger.markDone index := rfl

@[simp] theorem ledger_requeue (availableAt : Time) :
    (sub.requeue index availableAt).ledger = sub.ledger.enqueue index := by
  ext1
  · rfl
  · rfl
  · rfl
  · simp [ledger, requeue, ← Multiset.coe_add, ← Multiset.singleton_add, add_comm]

@[simp] theorem ledger_requeueFront (availableAt : Time) :
    (sub.requeueFront index availableAt).ledger = sub.ledger.enqueue index := rfl

@[simp] theorem ledger_countAttempt : (sub.countAttempt index).ledger = sub.ledger := rfl

@[simp] theorem ledger_ack (topic : Option TopicState) (entry : Inflight) :
    (sub.ack topic entry).ledger = sub.ledger.markDone entry.topicIndex := rfl

@[simp] theorem ledger_rewind : (sub.rewind index).ledger = rewound index := by
  ext1
  · rfl
  · rfl
  · funext ackId
    simp [ledger, rewind]
  · rfl

@[simp] theorem ledger_created (spec : SubscriptionSpec) (topicLen : ℕ) :
    (created spec topicLen).ledger = rewound topicLen := by
  ext1
  · rfl
  · rfl
  · funext ackId
    simp [ledger, created]
  · rfl

/-- Some entry of `inflight` carries the index. -/
def Leased : Prop :=
  ∃ (ackId : Text) (entry : Inflight), sub.inflight[ackId]? = some entry ∧ entry.topicIndex = index

/-- Some entry of `retry_queue` carries the index. -/
def Queued : Prop := ∃ entry ∈ sub.retryQueue, entry.topicIndex = index

theorem mem_ledger_waiting : index ∈ sub.ledger.waiting ↔ sub.Queued index := by
  simp [ledger, Queued]

theorem ledger_held_iff : sub.ledger.Held index ↔ sub.Leased index :=
  exists_congr fun _ => sub.ledger_lease_eq_some index

/-- The scan of the lease table looks for a holder. -/
theorem isLeased_iff : sub.isLeased index = true ↔ sub.ledger.Held index := by
  simp only [isLeased, List.any_eq_true, decide_eq_true_eq, Held, ledger_lease_eq_some]
  constructor
  · rintro ⟨⟨ackId, entry⟩, hmem, hindex⟩
    exact ⟨ackId, entry, Std.ExtTreeMap.mem_toList_iff_getElem?_eq_some.mp hmem, hindex⟩
  · rintro ⟨ackId, entry, hentry, hindex⟩
    exact ⟨(ackId, entry), Std.ExtTreeMap.mem_toList_iff_getElem?_eq_some.mpr hentry, hindex⟩

end SubscriptionState

/-! ### Ack ids -/

/-- An ack id of an exactly-once subscription can be read back. -/
theorem exactlyOnceId_injective {subscription : Text} {i j : ℕ} {a b : UInt32}
    (h : exactlyOnceId subscription i a = exactlyOnceId subscription j b) : i = j ∧ a = b := by
  have htail := List.append_cancel_left h
  obtain ⟨hi, ha⟩ := decimal_joined_injective (by decide) (List.cons.inj htail).2
  exact ⟨hi, UInt32.toNat_inj.mp ha⟩

theorem colon_mem_exactlyOnceId (subscription : Text) (i : ℕ) (a : UInt32) :
    ':' ∈ exactlyOnceId subscription i a := by
  simp [exactlyOnceId]

/-- **Where the ack ids in use come from**: each is the exactly-once id of the
index leased under it, or one of the random identifiers drawn so far. -/
def Named (subscription : Text) (drawn : Set Text) (sub : SubscriptionState) : Prop :=
  ∀ ackId entry, sub.inflight[ackId]? = some entry →
    (∃ attempt, ackId = exactlyOnceId subscription entry.topicIndex attempt) ∨ ackId ∈ drawn

/-- The random identifiers drawn so far are no exactly-once ids, and none of
them is drawn again. -/
structure Undrawn (env : Env) (drawn : Set Text) : Prop where
  colon : ∀ t ∈ drawn, ':' ∉ t
  apart : ∀ t ∈ drawn, ∀ n, t ≠ (env.uuid n).text

/-- The first `n` random identifiers of a call. -/
def drawnUpTo (env : Env) (n : ℕ) : Set Text := {t | ∃ k < n, t = (env.uuid k).text}

/-- What has been drawn in the course of a call is no exactly-once id either. -/
theorem Undrawn.colon_union {env : Env} {drawn : Set Text} (h : Undrawn env drawn) (n : ℕ) :
    ∀ t ∈ drawn ∪ drawnUpTo env n, ':' ∉ t := by
  rintro t (ht | ⟨k, -, rfl⟩)
  · exact h.colon t ht
  · exact (env.uuid k).colon_notMem

section Names

variable {subscription : Text} {drawn drawn' : Set Text} {sub : SubscriptionState}

theorem Named.mono (h : Named subscription drawn sub) (hsub : drawn ⊆ drawn') :
    Named subscription drawn' sub :=
  fun ackId entry he => (h ackId entry he).imp_right fun hd => hsub hd

/-- Nothing is asked of the ack ids of leases that have ended. -/
theorem Named.of_subset {sub' : SubscriptionState} (h : Named subscription drawn sub)
    (hsub : ∀ (ackId : Text) (entry : Inflight), sub'.inflight[ackId]? = some entry →
      ∃ entry', sub.inflight[ackId]? = some entry' ∧ entry'.topicIndex = entry.topicIndex) :
    Named subscription drawn sub' := by
  intro ackId entry he
  obtain ⟨entry', he', hindex⟩ := hsub ackId entry he
  rw [← hindex]
  exact h ackId entry' he'

/-- **The ack id of the next delivery is not in use.** -/
theorem ackIdFor_free {env : Env} {p : Pulling} {index : ℕ} (attempt : UInt32)
    (hn : Named subscription (drawn ∪ drawnUpTo env p.draws) p.sub) (hd : Undrawn env drawn)
    (hfree : ¬p.sub.ledger.Held index) :
    p.sub.ledger.lease (ackIdFor env subscription p index attempt) = none := by
  rw [SubscriptionState.ledger_lease_eq_none, Option.eq_none_iff_forall_ne_some]
  intro entry hentry
  unfold ackIdFor at hentry
  split at hentry
  · rcases hn _ entry hentry with ⟨a, ha⟩ | hmem
    · -- the id names the index, which has no lease
      obtain ⟨hindex, -⟩ := exactlyOnceId_injective ha
      exact hfree ⟨_, (p.sub.ledger_lease_eq_some index).mpr ⟨entry, hentry, hindex.symm⟩⟩
    · exact hd.colon_union p.draws _ hmem (colon_mem_exactlyOnceId _ _ _)
  · rcases hn _ entry hentry with ⟨a, ha⟩ | hmem | ⟨k, hk, heq⟩
    · have hmem := colon_mem_exactlyOnceId subscription entry.topicIndex a
      rw [← ha] at hmem
      exact (env.uuid p.draws).colon_notMem hmem
    · exact hd.apart _ hmem p.draws rfl
    · exact absurd (env.uuid_inj heq) (by omega)

end Names

/-! ### Histories of requeues -/

/-- The event gives a lease back. -/
def Requeues (_ : Ledger Text) (e : Event Text) : Prop := ∃ k i, e = .requeue k i

/-- The event settles a lease. -/
def Settles (_ : Ledger Text) (e : Event Text) : Prop := ∃ k i, e = .settle k i

/-- The event gives a lease back that was held under one of the ids. -/
def RequeuesOf (ackIds : List Text) (_ : Ledger Text) (e : Event Text) : Prop :=
  ∃ k ∈ ackIds, ∃ i, e = .requeue k i

/-- The event settles a lease that was held under one of the ids. -/
def SettlesOf (ackIds : List Text) (_ : Ledger Text) (e : Event Text) : Prop :=
  ∃ k ∈ ackIds, ∃ i, e = .settle k i

theorem RequeuesOf.requeues {ackIds : List Text} {L : Ledger Text} {e : Event Text}
    (h : RequeuesOf ackIds L e) : Requeues L e :=
  h.imp fun _ h => h.2

theorem SettlesOf.settles {ackIds : List Text} {L : Ledger Text} {e : Event Text}
    (h : SettlesOf ackIds L e) : Settles L e :=
  h.imp fun _ h => h.2

/-- More ids. -/
theorem RequeuesOf.cons {ackIds : List Text} {L : Ledger Text} {e : Event Text}
    (h : RequeuesOf ackIds L e) (ackId : Text) : RequeuesOf (ackId :: ackIds) L e :=
  h.imp fun _ h => ⟨List.mem_cons_of_mem _ h.1, h.2⟩

theorem SettlesOf.cons {ackIds : List Text} {L : Ledger Text} {e : Event Text}
    (h : SettlesOf ackIds L e) (ackId : Text) : SettlesOf (ackId :: ackIds) L e :=
  h.imp fun _ h => ⟨List.mem_cons_of_mem _ h.1, h.2⟩

/-- No lease is granted by requeues. -/
theorem grants_of_requeues {L M : Ledger Text} {es : List (Event Text)}
    (h : Trace Requeues L es M) : grants es = [] := by
  induction h with
  | nil _ => rfl
  | cons _ hG _ ih =>
    obtain ⟨k, i, rfl⟩ := hG
    exact ih

/-- No lease is granted by settling others. -/
theorem grants_of_settles {L M : Ledger Text} {es : List (Event Text)}
    (h : Trace Settles L es M) : grants es = [] := by
  induction h with
  | nil _ => rfl
  | cons _ hG _ ih =>
    obtain ⟨k, i, rfl⟩ := hG
    exact ih

/-! ### Acknowledging -/

section Acknowledge

variable {now : Time} {topic : Option TopicState} {sub : SubscriptionState} {ackIds : List Text}

/-- A lease of an exactly-once subscription that can no longer be acked. -/
def SubscriptionState.Expired (sub : SubscriptionState) (now : Time) (ackId : Text) : Prop :=
  sub.spec.enableExactlyOnceDelivery = true ∧
    ∃ entry, sub.inflight[ackId]? = some entry ∧ entry.deadline < now

/-- One lease settled. -/
theorem settle_move {ackId : Text} {entry : Inflight} (h : sub.inflight[ackId]? = some entry) :
    Move sub.ledger (.settle ackId entry.topicIndex)
      ((sub.release ackId).ack topic entry).ledger := by
  rw [SubscriptionState.ledger_ack, SubscriptionState.ledger_release]
  exact .settle ((sub.ledger_lease_eq_some _).mpr ⟨entry, h, rfl⟩)

/-- **`acknowledge` settles the leases it is given**, up to the first expired one
of an exactly-once subscription; that one it takes off the table, and no more. -/
theorem acknowledgeEach_trace (now : Time) (topic : Option TopicState) (sub : SubscriptionState)
    (ackIds : List Text) :
    ∃ es M, Trace (SettlesOf ackIds) sub.ledger es M ∧
      (((acknowledgeEach now topic sub ackIds).1 = .ok () ∧
          (acknowledgeEach now topic sub ackIds).2.ledger = M) ∨
        ((acknowledgeEach now topic sub ackIds).1 ≠ .ok () ∧
          ∃ k ∈ ackIds, ∃ i, M.lease k = some i ∧
            (acknowledgeEach now topic sub ackIds).2.ledger = M.unlease k)) := by
  induction ackIds generalizing sub with
  | nil => exact ⟨[], sub.ledger, .nil _, Or.inl ⟨rfl, rfl⟩⟩
  | cons ackId ackIds ih =>
    unfold acknowledgeEach
    split
    · obtain ⟨es, M, htrace, hend⟩ := ih sub
      refine ⟨es, M, htrace.mono fun _ _ h => h.cons ackId, hend.imp_right fun hrefused => ?_⟩
      obtain ⟨hne, k, hk, hforfeit⟩ := hrefused
      exact ⟨hne, k, List.mem_cons_of_mem _ hk, hforfeit⟩
    · rename_i entry hentry
      dsimp only
      split
      · refine ⟨[], sub.ledger, .nil _,
          Or.inr ⟨by simp, ackId, List.mem_cons_self, entry.topicIndex, ?_, ?_⟩⟩
        · exact (sub.ledger_lease_eq_some _).mpr ⟨entry, hentry, rfl⟩
        · exact sub.ledger_release ackId
      · obtain ⟨es, M, htrace, hend⟩ := ih ((sub.release ackId).ack topic entry)
        refine ⟨_ :: es, M, .cons (settle_move hentry) ⟨ackId, List.mem_cons_self, _, rfl⟩
          (htrace.mono fun _ _ h => h.cons ackId), hend.imp_right fun hrefused => ?_⟩
        obtain ⟨hne, k, hk, hforfeit⟩ := hrefused
        exact ⟨hne, k, List.mem_cons_of_mem _ hk, hforfeit⟩

/-- **When `acknowledge` refuses.** -/
theorem acknowledgeEach_ok_iff :
    (acknowledgeEach now topic sub ackIds).1 = .ok () ↔
      ∀ ackId ∈ ackIds, ¬sub.Expired now ackId := by
  induction ackIds generalizing sub with
  | nil => simp [acknowledgeEach]
  | cons ackId ackIds ih =>
    rw [List.forall_mem_cons]
    unfold acknowledgeEach
    split
    · rename_i hnone
      rw [ih]
      refine (and_iff_right ?_).symm
      rintro ⟨-, entry, hentry, -⟩
      rw [hnone] at hentry
      cases hentry
    · rename_i entry hentry
      dsimp only
      split
      · rename_i hexp
        refine iff_of_false (by simp) fun h => h.1 ⟨hexp.1, entry, hentry, hexp.2⟩
      · rename_i hlive
        have hhead : ¬sub.Expired now ackId := by
          rintro ⟨honce, entry', hentry', hdead⟩
          rw [hentry] at hentry'
          obtain rfl := Option.some.inj hentry'
          exact hlive ⟨honce, hdead⟩
        rw [ih, and_iff_right hhead]
        refine forall₂_congr fun id _ => not_congr ?_
        -- the lease just settled had not expired, the others are untouched
        rcases eq_or_ne ackId id with rfl | hne
        · refine iff_of_false ?_ hhead
          rintro ⟨-, entry', hentry', -⟩
          simp [SubscriptionState.ack, SubscriptionState.settle, SubscriptionState.release]
            at hentry'
        · simp only [SubscriptionState.Expired, SubscriptionState.ack, SubscriptionState.settle,
            SubscriptionState.release, getElem?_erase_of_ne hne]

/-- **What is acked afterwards**, when nothing is refused: what was, and what was
leased under the given ack ids. -/
theorem mem_acked_of_ok {i : ℕ} (h : (acknowledgeEach now topic sub ackIds).1 = .ok ()) :
    i ∈ (acknowledgeEach now topic sub ackIds).2.acked ↔
      i ∈ sub.acked ∨ ∃ ackId ∈ ackIds, sub.ledger.lease ackId = some i := by
  induction ackIds generalizing sub with
  | nil => simp [acknowledgeEach]
  | cons ackId ackIds ih =>
    unfold acknowledgeEach at h ⊢
    split at h
    · rename_i hnone
      rw [ih h, List.exists_mem_cons_iff]
      simp [(sub.ledger_lease_eq_none).mpr hnone]
    · rename_i entry hentry
      dsimp only at h ⊢
      split at h
      · cases h
      · rename_i hlive
        rw [if_neg hlive, ih h]
        have hlease : sub.ledger.lease ackId = some entry.topicIndex :=
          (sub.ledger_lease_eq_some _).mpr ⟨entry, hentry, rfl⟩
        have hacked : i ∈ ((sub.release ackId).ack topic entry).acked ↔
            i = entry.topicIndex ∨ i ∈ sub.acked := Finset.mem_insert
        rw [hacked, SubscriptionState.ledger_ack, SubscriptionState.ledger_release,
          markDone_lease, unlease_lease, List.exists_mem_cons_iff, hlease]
        constructor
        · rintro ((rfl | hi) | ⟨id, hid, hi⟩)
          · exact Or.inr (Or.inl rfl)
          · exact Or.inl hi
          · obtain ⟨-, hi⟩ := lease_of_unlease (L := sub.ledger) (k := ackId) hi
            exact Or.inr (Or.inr ⟨id, hid, hi⟩)
        · rintro (hi | hi | ⟨id, hid, hi⟩)
          · exact Or.inl (Or.inr hi)
          · exact Or.inl (Or.inl (Option.some.inj hi).symm)
          · rcases eq_or_ne id ackId with rfl | hne
            · rw [hlease] at hi
              exact Or.inl (Or.inl (Option.some.inj hi).symm)
            · refine Or.inr ⟨id, hid, ?_⟩
              rw [Function.update_of_ne hne]
              exact hi

/-- Acknowledging leaves the specification, the cursor and the attempts, and adds
no lease. -/
theorem acknowledgeEach_frame (now : Time) (topic : Option TopicState) (sub : SubscriptionState)
    (ackIds : List Text) :
    (acknowledgeEach now topic sub ackIds).2.spec = sub.spec ∧
      (acknowledgeEach now topic sub ackIds).2.nextIndex = sub.nextIndex ∧
      (acknowledgeEach now topic sub ackIds).2.attempts = sub.attempts ∧
      ∀ (ackId : Text) (entry : Inflight),
        (acknowledgeEach now topic sub ackIds).2.inflight[ackId]? = some entry →
          sub.inflight[ackId]? = some entry := by
  have hrelease : ∀ (sub : SubscriptionState) (ackId id : Text) (entry : Inflight),
      (sub.release ackId).inflight[id]? = some entry → sub.inflight[id]? = some entry := by
    intro sub ackId id entry h
    rcases eq_or_ne ackId id with rfl | hne
    · simp [SubscriptionState.release] at h
    · rwa [SubscriptionState.release, getElem?_erase_of_ne hne] at h
  induction ackIds generalizing sub with
  | nil => exact ⟨rfl, rfl, rfl, fun _ _ h => h⟩
  | cons ackId ackIds ih =>
    unfold acknowledgeEach
    split
    · exact ih sub
    · rename_i entry hentry
      dsimp only
      split
      · exact ⟨rfl, rfl, rfl, hrelease sub ackId⟩
      · obtain ⟨hspec, hnext, hattempts, hsub⟩ := ih ((sub.release ackId).ack topic entry)
        exact ⟨hspec, hnext, hattempts, fun id e h => hrelease sub ackId id e (hsub id e h)⟩

end Acknowledge

/-! ### Extending leases, and giving them back -/

section Modify

variable (now : Time) (extension : UInt32) (sub : SubscriptionState) (ackIds : List Text)

/-- Extending a lease changes nothing of the ledger. -/
theorem ledger_extend {sub : SubscriptionState} {ackId : Text} {entry : Inflight} (deadline : Time)
    (h : sub.inflight[ackId]? = some entry) :
    (sub.lease ackId { entry with deadline }).ledger = sub.ledger := by
  have hlease : sub.ledger.lease ackId = some entry.topicIndex :=
    (sub.ledger_lease_eq_some _).mpr ⟨entry, h, rfl⟩
  rw [SubscriptionState.ledger_addLease]
  ext1
  · rfl
  · rfl
  · exact Function.update_eq_self_iff.mpr hlease.symm
  · rfl

/-- **`modify_ack_deadline` gives leases back**, or moves their deadlines. -/
theorem modify_trace :
    ∃ es, Trace (RequeuesOf ackIds) sub.ledger es
      (ackIds.foldl (modifyOne now extension) sub).ledger := by
  induction ackIds generalizing sub with
  | nil => exact ⟨[], .nil _⟩
  | cons ackId ackIds ih =>
    obtain ⟨es, hes⟩ := ih (modifyOne now extension sub ackId)
    replace hes := hes.mono fun _ _ h => h.cons ackId
    rw [List.foldl_cons]
    rcases hentry : sub.inflight[ackId]? with - | entry
    · have hsame : modifyOne now extension sub ackId = sub := by simp [modifyOne, hentry]
      rw [hsame] at hes ⊢
      exact ⟨es, hes⟩
    · by_cases hzero : extension = 0
      · have hledger : (modifyOne now extension sub ackId).ledger =
            (sub.ledger.unlease ackId).enqueue entry.topicIndex := by
          simp [modifyOne, hentry, hzero]
        rw [hledger] at hes
        refine ⟨_ :: es, .cons (.requeue ?_) ⟨ackId, List.mem_cons_self, _, rfl⟩ hes⟩
        exact (sub.ledger_lease_eq_some _).mpr ⟨entry, hentry, rfl⟩
      · have hledger : (modifyOne now extension sub ackId).ledger = sub.ledger := by
          simp only [modifyOne, hentry, hzero, if_false]
          exact ledger_extend _ hentry
        rw [hledger] at hes
        exact ⟨es, hes⟩

/-- Changing deadlines leaves the specification, the cursor and the attempts, and
puts no other index on lease. -/
theorem modify_frame :
    (ackIds.foldl (modifyOne now extension) sub).spec = sub.spec ∧
      (ackIds.foldl (modifyOne now extension) sub).nextIndex = sub.nextIndex ∧
      (ackIds.foldl (modifyOne now extension) sub).attempts = sub.attempts ∧
      ∀ (ackId : Text) (entry : Inflight),
        (ackIds.foldl (modifyOne now extension) sub).inflight[ackId]? = some entry →
          ∃ entry', sub.inflight[ackId]? = some entry' ∧ entry'.topicIndex = entry.topicIndex := by
  have hone : ∀ (sub : SubscriptionState) (ackId : Text),
      (modifyOne now extension sub ackId).spec = sub.spec ∧
        (modifyOne now extension sub ackId).nextIndex = sub.nextIndex ∧
        (modifyOne now extension sub ackId).attempts = sub.attempts ∧
        ∀ (id : Text) (entry : Inflight),
          (modifyOne now extension sub ackId).inflight[id]? = some entry →
            ∃ entry', sub.inflight[id]? = some entry' ∧ entry'.topicIndex = entry.topicIndex := by
    intro sub ackId
    unfold modifyOne
    split
    · exact ⟨rfl, rfl, rfl, fun _ entry h => ⟨entry, h, rfl⟩⟩
    · rename_i entry hentry
      split
      · refine ⟨rfl, rfl, rfl, fun id entry' h => ?_⟩
        rcases eq_or_ne ackId id with rfl | hne
        · simp [SubscriptionState.requeueFront, SubscriptionState.release] at h
        · rw [SubscriptionState.requeueFront, SubscriptionState.release,
            getElem?_erase_of_ne hne] at h
          exact ⟨entry', h, rfl⟩
      · refine ⟨rfl, rfl, rfl, fun id entry' h => ?_⟩
        rcases eq_or_ne ackId id with rfl | hne
        · rw [SubscriptionState.lease, Std.ExtTreeMap.getElem?_insert_self] at h
          obtain rfl := Option.some.inj h
          exact ⟨entry, hentry, rfl⟩
        · rw [SubscriptionState.lease, getElem?_insert_of_ne hne] at h
          exact ⟨entry', h, rfl⟩
  induction ackIds generalizing sub with
  | nil => exact ⟨rfl, rfl, rfl, fun _ entry h => ⟨entry, h, rfl⟩⟩
  | cons ackId ackIds ih =>
    obtain ⟨hspec, hnext, hattempts, hsub⟩ := ih (modifyOne now extension sub ackId)
    obtain ⟨hspec₁, hnext₁, hattempts₁, hsub₁⟩ := hone sub ackId
    refine ⟨hspec.trans hspec₁, hnext.trans hnext₁, hattempts.trans hattempts₁,
      fun id entry h => ?_⟩
    obtain ⟨entry₁, hentry₁, hindex₁⟩ := hsub id entry h
    obtain ⟨entry₂, hentry₂, hindex₂⟩ := hsub₁ id entry₁ hentry₁
    exact ⟨entry₂, hentry₂, hindex₂.trans hindex₁⟩

end Modify

end RelayPubsub.Memory
