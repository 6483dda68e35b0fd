import RelayPubsub.Memory.Frame
import RelayPubsub.Memory.Refine

/-!
# A pull as a history of the ledger

The sweep of `pull` gives expired leases back
(`RelayPubsub.Memory.sweep_trace`), and every turn of its loop is one service
event (`RelayPubsub.Memory.turned_serves`): the index taken is put back, is
done, or is leased under an ack id that was not in use. A turn that passes over
an index does not occur, as an index that waits, or that the cursor is at, is
neither acked nor leased.

When ordering is enabled, an index is leased only if the earlier indices of its
key are acked; so the history respects the grouping of the log by keys.
-/

namespace RelayPubsub.Memory

open Lib Lib.Ledger

/-! ### The sweep -/

section Sweep

variable {env : Env} {sub : SubscriptionState}

theorem mem_expiredLeases {x : Text × ℕ} :
    x ∈ expiredLeases env sub ↔
      ∃ entry, sub.inflight[x.1]? = some entry ∧ entry.deadline ≤ env.now 0 ∧
        entry.topicIndex = x.2 := by
  obtain ⟨ackId, index⟩ := x
  simp only [expiredLeases, List.mem_map, List.mem_filter, (env.iter_perm _).mem_iff,
    decide_eq_true_eq, Prod.mk.injEq]
  constructor
  · rintro ⟨⟨id, entry⟩, ⟨hmem, hdead⟩, rfl, hindex⟩
    exact ⟨entry, Std.ExtTreeMap.mem_toList_iff_getElem?_eq_some.mp hmem, hdead, hindex⟩
  · rintro ⟨entry, hentry, hdead, hindex⟩
    exact ⟨(ackId, entry), ⟨Std.ExtTreeMap.mem_toList_iff_getElem?_eq_some.mpr hentry, hdead⟩,
      rfl, hindex⟩

/-- No ack id is swept twice. -/
theorem expiredLeases_nodup : ((expiredLeases env sub).map Prod.fst).Nodup := by
  have hkeys : (sub.inflight.toList.map Prod.fst).Nodup := by
    have hdistinct := Std.ExtTreeMap.distinct_keys_toList (t := sub.inflight)
    rw [List.nodup_iff_pairwise_ne, List.pairwise_map]
    exact hdistinct.imp fun h heq => h (by simp [heq])
  have hiter : ((env.iter sub.inflight.toList).map Prod.fst).Nodup :=
    ((env.iter_perm _).map Prod.fst).nodup_iff.mpr hkeys
  refine List.Nodup.sublist ?_ hiter
  rw [expiredLeases, List.map_map]
  exact List.filter_sublist.map Prod.fst

/-- Sweeping a list of leases gives each of them back. -/
theorem sweepOnes_trace (now : Time) {l : List (Text × ℕ)} (hx : Exclusive sub.ledger)
    (hl : ∀ x ∈ l, sub.ledger.lease x.1 = some x.2) (hnd : (l.map Prod.fst).Nodup) :
    ∃ es, Trace Requeues sub.ledger es (l.foldl (sweepOne now) sub).ledger := by
  induction l generalizing sub with
  | nil => exact ⟨[], .nil _⟩
  | cons x l ih =>
    have hlease := hl x List.mem_cons_self
    have hacked : x.2 ∉ (sub.release x.1).acked := hx.lease_done hlease
    have hledger : (sweepOne now sub x).ledger = (sub.ledger.unlease x.1).enqueue x.2 := by
      simp [sweepOne, hacked]
    have hm : Move sub.ledger (.requeue x.1 x.2) (sweepOne now sub x).ledger := by
      rw [hledger]
      exact .requeue hlease
    rw [List.map_cons, List.nodup_cons] at hnd
    have hrest : ∀ y ∈ l, (sweepOne now sub x).ledger.lease y.1 = some y.2 := by
      intro y hy
      have hne : y.1 ≠ x.1 := fun heq => hnd.1 (heq ▸ List.mem_map_of_mem hy)
      rw [hledger, enqueue_lease, unlease_lease, Function.update_of_ne hne]
      exact hl y (List.mem_cons_of_mem x hy)
    obtain ⟨es, hes⟩ := ih (hx.move hm) hrest hnd.2
    exact ⟨_ :: es, .cons hm ⟨_, _, rfl⟩ hes⟩

variable (env sub)

/-- **The sweep gives expired leases back.** -/
theorem sweep_trace (hx : Exclusive sub.ledger) :
    ∃ es, Trace Requeues sub.ledger es (sweep env sub).ledger := by
  refine sweepOnes_trace _ hx (fun x hmem => ?_) expiredLeases_nodup
  obtain ⟨entry, hentry, -, hindex⟩ := mem_expiredLeases.mp hmem
  exact (sub.ledger_lease_eq_some x.2).mpr ⟨entry, hentry, hindex⟩

/-- The sweep touches leases and retries only. -/
theorem sweep_frame : (sweep env sub).spec = sub.spec ∧ (sweep env sub).nextIndex = sub.nextIndex ∧
    (sweep env sub).acked = sub.acked ∧ (sweep env sub).attempts = sub.attempts := by
  have hone : ∀ x s, (sweepOne (env.now 0) s x).spec = s.spec ∧
      (sweepOne (env.now 0) s x).nextIndex = s.nextIndex ∧
      (sweepOne (env.now 0) s x).acked = s.acked ∧
      (sweepOne (env.now 0) s x).attempts = s.attempts := by
    intro x s
    unfold sweepOne
    dsimp only
    split_ifs <;> exact ⟨rfl, rfl, rfl, rfl⟩
  have hall : ∀ (l : List (Text × ℕ)) (s : SubscriptionState),
      (l.foldl (sweepOne (env.now 0)) s).spec = s.spec ∧
      (l.foldl (sweepOne (env.now 0)) s).nextIndex = s.nextIndex ∧
      (l.foldl (sweepOne (env.now 0)) s).acked = s.acked ∧
      (l.foldl (sweepOne (env.now 0)) s).attempts = s.attempts := by
    intro l
    induction l with
    | nil => exact fun s => ⟨rfl, rfl, rfl, rfl⟩
    | cons x l ih =>
      intro s
      obtain ⟨h₁, h₂, h₃, h₄⟩ := ih (sweepOne (env.now 0) s x)
      obtain ⟨g₁, g₂, g₃, g₄⟩ := hone x s
      exact ⟨h₁.trans g₁, h₂.trans g₂, h₃.trans g₃, h₄.trans g₄⟩
  exact hall _ _

variable {env sub}

/-- What the sweep leaves on the lease table: the leases that have not run
out. -/
theorem sweep_inflight {ackId : Text} :
    (sweep env sub).inflight[ackId]? =
      if ackId ∈ (expiredLeases env sub).map Prod.fst then none else sub.inflight[ackId]? := by
  have hall : ∀ (l : List (Text × ℕ)) (s : SubscriptionState),
      (l.foldl (sweepOne (env.now 0)) s).inflight[ackId]? =
        if ackId ∈ l.map Prod.fst then none else s.inflight[ackId]? := by
    intro l
    induction l with
    | nil => simp
    | cons x l ih =>
      intro s
      have hone : (sweepOne (env.now 0) s x).inflight = s.inflight.erase x.1 := by
        unfold sweepOne
        dsimp only
        split_ifs <;> rfl
      rw [List.foldl_cons, ih, hone]
      rcases eq_or_ne x.1 ackId with rfl | hne
      · simp
      · rw [getElem?_erase_of_ne hne]
        by_cases hmem : ackId ∈ l.map Prod.fst
        · have hmem' : ackId ∈ (x :: l).map Prod.fst := List.mem_cons_of_mem x.1 hmem
          rw [if_pos hmem, if_pos hmem']
        · have hmem' : ackId ∉ (x :: l).map Prod.fst :=
            fun h =>
            (List.mem_cons.mp h).elim hne.symm hmem
          rw [if_neg hmem, if_neg hmem']
  exact hall _ _

/-- The sweep ends no live lease, and gives none a new name. -/
theorem getElem?_of_sweep {ackId : Text} {entry : Inflight} :
    (sweep env sub).inflight[ackId]? = some entry ↔
      sub.inflight[ackId]? = some entry ∧ env.now 0 < entry.deadline := by
  rw [sweep_inflight]
  split_ifs with hmem
  · obtain ⟨x, hx, rfl⟩ := List.mem_map.mp hmem
    obtain ⟨entry', hentry', hdead, -⟩ := mem_expiredLeases.mp hx
    rw [hentry']
    refine iff_of_false (by simp) ?_
    rintro ⟨heq, hlive⟩
    obtain rfl := Option.some.inj heq
    exact absurd hlive (not_lt.mpr hdead)
  · refine ⟨fun h => ⟨h, ?_⟩, fun h => h.1⟩
    by_contra hdead
    exact hmem (List.mem_map.mpr ⟨(ackId, entry.topicIndex),
      mem_expiredLeases.mpr ⟨entry, h, not_lt.mp hdead, rfl⟩, rfl⟩)

end Sweep

/-! ### A turn of the loop -/

section Turn

variable {env : Env} {subscription topicName : Text} {topicLen : ℕ} {drawn : Set Text}
  {ordered : Prop} {log : List RelayMessage} {p p' : Pulling}

/-- Taking an index off the retry queue or at the cursor. -/
theorem takeNext_take {now : Time} {skipped : Finset ℕ} {sub sub' : SubscriptionState} {index : ℕ}
    (h : takeNext now topicLen skipped sub = some (index, sub')) :
    Take sub.ledger index sub'.ledger := by
  unfold takeNext at h
  split at h
  · rename_i e he
    obtain ⟨rfl, rfl⟩ := Prod.mk.inj (Option.some.inj h)
    have hready : ready now skipped e = true := List.find?_some he
    have hmem : e ∈ sub.retryQueue := List.mem_of_find?_eq_some he
    have hwaiting : e.topicIndex ∈ sub.ledger.waiting :=
      (sub.mem_ledger_waiting _).mpr ⟨e, hmem, rfl⟩
    have hqueue : sub.ledger.waiting.erase e.topicIndex =
        ((sub.retryQueue.eraseP (ready now skipped)).map (·.topicIndex) : Multiset ℕ) := by
      -- the entry found is the one removed
      obtain ⟨a, l₁, l₂, hl₁, ha, hq, herase⟩ := List.exists_of_eraseP hmem hready
      have hae : a = e := by
        rw [hq, List.find?_append, List.find?_eq_none.mpr (by simpa using hl₁)] at he
        simpa [ha] using he
      subst hae
      rw [herase]
      simp only [SubscriptionState.ledger]
      rw [hq, List.map_append, List.map_append, List.map_cons, ← Multiset.coe_add,
        ← Multiset.coe_add, ← Multiset.cons_coe, Multiset.add_cons, Multiset.erase_cons_head]
    have htake := Take.queued hwaiting
    rw [hqueue] at htake
    exact htake
  · split at h
    · obtain ⟨rfl, rfl⟩ := Prod.mk.inj (Option.some.inj h)
      exact .next rfl
    · cases h

/-- Taking an index changes nothing but the retry queue and the cursor. -/
theorem takeNext_frame {now : Time} {skipped : Finset ℕ} {sub sub' : SubscriptionState} {index : ℕ}
    (h : takeNext now topicLen skipped sub = some (index, sub')) :
    sub'.spec = sub.spec ∧ sub'.attempts = sub.attempts ∧ sub'.inflight = sub.inflight := by
  unfold takeNext at h
  split at h
  · obtain ⟨-, rfl⟩ := Prod.mk.inj (Option.some.inj h)
    exact ⟨rfl, rfl, rfl⟩
  · split at h
    · obtain ⟨-, rfl⟩ := Prod.mk.inj (Option.some.inj h)
      exact ⟨rfl, rfl, rfl⟩
    · cases h

/-- The leases a pull has handed out so far. -/
def Pulling.handed (p : Pulling) : List (Text × ℕ) := p.deliveries.map fun d => (d.2.ackId, d.1)

/-- **A turn as one event on the ledger.** -/
structure Serves (env : Env) (subscription : Text) (drawn : Set Text) (ordered : Prop)
    (log : List RelayMessage) (p p' : Pulling) (e : Event Text) : Prop where
  move : Move p.sub.ledger e p'.sub.ledger
  service : e.IsService
  /-- With ordering enabled, an index is leased after the earlier ones of its key. -/
  inOrder : ordered → p.sub.ledger.InOrder (SameKey log) e
  handed : p'.handed = p.handed ++ grants [e]
  named : Named subscription (drawn ∪ drawnUpTo env p'.draws) p'.sub

theorem Named.countAttempt {index : ℕ} {sub : SubscriptionState}
    (h : Named subscription drawn sub) : Named subscription drawn (sub.countAttempt index) := h

theorem drawnUpTo_mono (env : Env) {m n : ℕ} (h : m ≤ n) : drawnUpTo env m ⊆ drawnUpTo env n := by
  rintro t ⟨k, hk, rfl⟩
  exact ⟨k, hk.trans_le h, rfl⟩

/-- A delivery draws a random identifier, or none. -/
theorem draws_le_deliver (p : Pulling) (index : ℕ) (attempt : UInt32) (message : RelayMessage) :
    p.draws ≤ (deliver env subscription p index attempt message).draws := by
  simp only [deliver]
  split_ifs <;> omega

/-- The ack id of a delivery. -/
theorem ackIdFor_cases (p : Pulling) (index : ℕ) (attempt : UInt32) (message : RelayMessage) :
    ackIdFor env subscription p index attempt = exactlyOnceId subscription index attempt ∨
      ackIdFor env subscription p index attempt = (env.uuid p.draws).text ∧
        p.draws < (deliver env subscription p index attempt message).draws := by
  by_cases honce : p.sub.spec.enableExactlyOnceDelivery = true
  · exact Or.inl (by simp [ackIdFor, honce])
  · exact Or.inr (by simp [ackIdFor, deliver, honce])

/-- Leasing an index under the ack id of its delivery. -/
theorem named_deliver {index : ℕ} {attempt : UInt32} {message : RelayMessage}
    (h : Named subscription (drawn ∪ drawnUpTo env p.draws) p.sub) :
    Named subscription
      (drawn ∪ drawnUpTo env (deliver env subscription p index attempt message).draws)
      (deliver env subscription p index attempt message).sub := by
  intro ackId entry hentry
  have hdraws : p.draws ≤ (deliver env subscription p index attempt message).draws :=
    draws_le_deliver p index attempt message
  have hmono := Set.union_subset_union_right drawn (drawnUpTo_mono env hdraws)
  rcases eq_or_ne (ackIdFor env subscription p index attempt) ackId with rfl | hne
  · have heq : (⟨index, env.now 0 + seconds (normalizeAckDeadline p.sub.spec.ackDeadlineSeconds)⟩ :
        Inflight) = entry := by
      simpa [deliver, SubscriptionState.lease] using hentry
    subst heq
    by_cases honce : p.sub.spec.enableExactlyOnceDelivery = true
    · exact Or.inl ⟨attempt, by simp [ackIdFor, honce]⟩
    · refine Or.inr (Or.inr ⟨p.draws, ?_, by simp [ackIdFor, honce]⟩)
      simp [deliver, honce]
  · have hold : p.sub.inflight[ackId]? = some entry := by
      simpa [deliver, SubscriptionState.lease, getElem?_insert_of_ne hne] using hentry
    exact (h ackId entry hold).imp_right fun hd => hmono hd

/-- **Every turn is one service event.** -/
theorem turned_serves (hx : Exclusive p.sub.ledger)
    (hn : Named subscription (drawn ∪ drawnUpTo env p.draws) p.sub) (hd : Undrawn env drawn)
    (hon : ordered → p.sub.spec.enableMessageOrdering = true)
    (hlog : ordered → ∀ topic, p.topics[topicName]? = some topic → topic.messages <+: log)
    (h : Turned env subscription topicName topicLen p p') :
    ∃ e, Serves env subscription drawn ordered log p p' e := by
  cases h with
  | @skip index sub htake hskip =>
    -- an index that can be taken is neither acked nor leased, so none is passed over
    obtain ⟨-, hfree⟩ := hx.take (takeNext_take htake)
    rcases hskip with hacked | hleased
    · exact absurd hacked hfree.done
    · exact absurd ((sub.isLeased_iff index).mp hleased) hfree.held
  | @block index sub topic htake hacked hleased htopic hblocked =>
    obtain ⟨hspec, -, hinflight⟩ := takeNext_frame htake
    refine ⟨.park index, ?_, trivial, fun _ => trivial, ?_, ?_⟩
    · rw [SubscriptionState.ledger_requeue]
      exact .park (takeNext_take htake)
    · simp [Pulling.handed, grants]
    · intro ackId entry hentry
      refine hn ackId entry ?_
      rw [← hinflight]
      exact hentry
  | @serve index sub topic message p' htake hacked hleased htopic hblocked hmessage hserved =>
    obtain ⟨hspec, hattempts, hinflight⟩ := takeNext_frame htake
    have ht := takeNext_take htake
    obtain ⟨-, hfree⟩ := hx.take ht
    have hnsub : Named subscription (drawn ∪ drawnUpTo env p.draws) sub := by
      intro ackId entry hentry
      refine hn ackId entry ?_
      rw [← hinflight]
      exact hentry
    cases hserved with
    | @dead name deadTopic hdead =>
      refine ⟨.retire index, .retire ht, trivial, fun _ => trivial, ?_, ?_⟩
      · simp [Pulling.handed, grants, deadLetter, Pulling.countAttempt]
      · exact hnsub.mono (Set.union_subset_union_right drawn (drawnUpTo_mono env (Nat.le_succ _)))
    | filtered _ =>
      refine ⟨.retire index, .retire ht, trivial, fun _ => trivial, ?_, hnsub⟩
      simp [Pulling.handed, grants, Pulling.countAttempt]
    | delivered _ =>
      -- the pull with the index in hand and the attempt counted
      let q : Pulling := { p with sub := sub.countAttempt index }
      have hnq : Named subscription (drawn ∪ drawnUpTo env q.draws) q.sub := hnsub
      have hfreeId : p.sub.ledger.lease (ackIdFor env subscription q index
          (sub.nextAttempt index)) = none := by
        rw [← ht.lease_eq]
        exact ackIdFor_free _ hnq hd hfree.held
      refine ⟨.grant (ackIdFor env subscription q index (sub.nextAttempt index)) index, ?_, trivial,
        fun ho j hj hkey => ?_, ?_, named_deliver hnq⟩
      · have hledger :
            (deliver env subscription q index (sub.nextAttempt index) message).sub.ledger =
            sub.ledger.addLease (ackIdFor env subscription q index (sub.nextAttempt index)) index :=
          SubscriptionState.ledger_addLease _ _ _
        have hg := Move.grant ht hfreeId
        rw [← hledger] at hg
        exact hg
      · -- an earlier message of the key that is not acked would block this one
        have hlen : index < topic.messages.length :=
          (List.getElem?_eq_some_iff.mp hmessage).1
        have hkey' : SameKey topic.messages j index :=
          (sameKey_of_isPrefix (hlog ho topic htopic) (hj.trans hlen) hlen).mp hkey
        have hon' : sub.spec.enableMessageOrdering = true := hspec ▸ hon ho
        have hj' : j ∈ sub.acked := acked_of_orderingBlocked_false hblocked hon' hj hkey'
        have hdone : sub.acked = p.sub.acked := ht.done_eq
        rw [hdone] at hj'
        exact hj'
      · simp [Pulling.handed, grants, deliver, Pulling.countAttempt, q]

theorem Served.spec_eq {index : ℕ} {message : RelayMessage}
    (h : Served env subscription p index message p') : p'.sub.spec = p.sub.spec := by
  cases h <;> rfl

/-- A turn leaves the specification. -/
theorem Turned.spec_eq (h : Turned env subscription topicName topicLen p p') :
    p'.sub.spec = p.sub.spec := by
  cases h with
  | skip htake _ => exact (takeNext_frame htake).1
  | block htake _ _ _ _ => exact (takeNext_frame htake).1
  | serve htake _ _ _ _ _ hserved => exact hserved.spec_eq.trans (takeNext_frame htake).1

theorem spec_of_turns
    (h : Relation.ReflTransGen (Turned env subscription topicName topicLen) p p') :
    p'.sub.spec = p.sub.spec := by
  induction h with
  | refl => rfl
  | tail _ hturn ih => exact hturn.spec_eq.trans ih

/-- A service event that respects the ordering keys, where these are to be
respected. -/
def Serving (ordered : Prop) (log : List RelayMessage) (L : Ledger Text) (e : Event Text) : Prop :=
  e.IsService ∧ (ordered → L.InOrder (SameKey log) e)

/-- **The loop is a visit to the ledger**, and the leases granted during it are
the ones handed out. -/
theorem turns_trace (h : Relation.ReflTransGen (Turned env subscription topicName topicLen) p p')
    (hx : Exclusive p.sub.ledger)
    (hn : Named subscription (drawn ∪ drawnUpTo env p.draws) p.sub) (hd : Undrawn env drawn)
    (hon : ordered → p.sub.spec.enableMessageOrdering = true)
    (hlog : ordered → ∀ topic, p'.topics[topicName]? = some topic → topic.messages <+: log) :
    ∃ es, Trace (Serving ordered log) p.sub.ledger es p'.sub.ledger ∧
      p'.handed = p.handed ++ grants es ∧
      Named subscription (drawn ∪ drawnUpTo env p'.draws) p'.sub := by
  induction h using Relation.ReflTransGen.head_induction_on with
  | refl => exact ⟨[], .nil _, by simp [grants], hn⟩
  | @head p p₁ hturn hrest ih =>
    have hlog₀ : ordered → ∀ topic, p.topics[topicName]? = some topic → topic.messages <+: log := by
      intro ho topic htopic
      obtain ⟨topic', htopic', hgrown⟩ :=
        (hturn.topicsGrow.trans (topicsGrow_of_turns hrest)).get htopic
      exact hgrown.trans (hlog ho topic' htopic')
    obtain ⟨e, he⟩ := turned_serves hx hn hd hon hlog₀ hturn
    obtain ⟨es, htrace, hhanded, hnamed⟩ :=
      ih (hx.move he.move) he.named fun ho => hturn.spec_eq ▸ hon ho
    refine ⟨e :: es, .cons he.move ⟨he.service, he.inOrder⟩ htrace, ?_, hnamed⟩
    rw [hhanded, he.handed, List.append_assoc, ← grants_append, List.singleton_append]

end Turn

/-! ### The whole pull -/

section Pull

variable {env : Env} {subscription : Text} {maxMessages : UInt32} {sub : SubscriptionState}
  {topics : StrMap TopicState} {topicLen : ℕ} {drawn : Set Text} {ordered : Prop}
  {log : List RelayMessage}

/-- Leases keep the names they had before the sweep. -/
theorem named_sweep (hn : Named subscription drawn sub) :
    Named subscription drawn (sweep env sub) :=
  hn.of_subset fun _ entry hentry => ⟨entry, (getElem?_of_sweep.mp hentry).1, rfl⟩

/-- **A pull is a sweep and a visit.** -/
theorem pullFrom_trace {p : Pulling}
    (h : pullFrom env subscription maxMessages sub topics topicLen = .finished p)
    (hx : Exclusive sub.ledger) (hn : Named subscription drawn sub) (hd : Undrawn env drawn)
    (hon : ordered → sub.spec.enableMessageOrdering = true)
    (hlog : ordered → ∀ topic, p.topics[sub.spec.topic]? = some topic → topic.messages <+: log) :
    ∃ es es', Trace Requeues sub.ledger es (sweep env sub).ledger ∧
      Trace (Serving ordered log) (sweep env sub).ledger es' p.sub.ledger ∧
      p.handed = grants es' ∧
      Named subscription (drawn ∪ drawnUpTo env p.draws) p.sub ∧ p.sub.spec = sub.spec := by
  obtain ⟨hspec, -, -, -⟩ := sweep_frame env sub
  obtain ⟨es, hes⟩ := sweep_trace env sub hx
  have hturns := turns_of_finished h
  have hn₀ : Named subscription (drawn ∪ drawnUpTo env 0) (sweep env sub) :=
    (named_sweep hn).mono Set.subset_union_left
  obtain ⟨es', htrace, hhanded, hnamed⟩ :=
    turns_trace hturns (hes.exclusive hx) hn₀ hd (fun ho => hspec ▸ hon ho) (by rwa [hspec])
  refine ⟨es, es', hes, htrace, ?_, hnamed, (spec_of_turns hturns).trans hspec⟩
  simpa [Pulling.handed] using hhanded

end Pull

end RelayPubsub.Memory
