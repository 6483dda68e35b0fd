import RelayPubsub.Memory.Lease

/-!
# Leases that have expired

`acknowledge` refuses an expired lease of an exactly-once subscription, and a pull
takes it off the table; `modify_ack_deadline` looks at neither, and gives an
expired lease that no pull has swept a deadline in the future. Apart from that an
expired lease stays dead (`RelayPubsub.Memory.stays_dead_of_guarded`): while no
call extends it, every lease of its message expires no later than it did, or has
been handed out since. So the message is acked by a new lease, or not at all; the
old ack id is of no use any more, also when a pull has handed the message out again.
-/

namespace RelayPubsub.Memory

open Lib

/-- **The step acks the index by one of the leases only**: where an acknowledgement puts
the index among the acked ones, it names such a lease, and the lease is on the table. -/
def AcksBy (serde : SerdeJson) (name : Text) (i : ℕ) (leases : List (Text × ℕ)) (st : State)
    (s : Step) : Prop :=
  ∀ ackIds, s.call = .acknowledge name ackIds → ∀ sub sub',
    st.subscriptions[name]? = some sub → (exec serde st s).subscriptions[name]? = some sub' →
    i ∈ sub'.acked → i ∈ sub.acked ∨ ∃ ackId ∈ ackIds, (ackId, i) ∈ leases ∧
      ∃ entry, sub.inflight[ackId]? = some entry ∧ entry.topicIndex = i

/-- Exactly-once delivery is enabled. -/
def OnceEnabled (name : Text) (st : State) : Prop :=
  ∀ sub, st.subscriptions[name]? = some sub → sub.spec.enableExactlyOnceDelivery = true

/-- **An expired lease stays dead**: once the clock has passed the deadline of a lease
of an exactly-once subscription, an acknowledgement acks its message only by a lease
handed out since. -/
def StaysDead (serde : SerdeJson) (name : Text) (steps : List Step) : Prop :=
  ∀ past seg, past ++ seg <+: steps → ∀ (sub : SubscriptionState) (ackId : Text) (entry : Inflight),
    (stateAfter serde past).subscriptions[name]? = some sub →
    sub.inflight[ackId]? = some entry →
    (∀ s ∈ seg, entry.deadline < s.env.now 0) →
    Machine.Always (exec serde) (OnceEnabled name) (stateAfter serde past) seg →
    ∀ pre s, pre ++ [s] <+: seg →
      AcksBy serde name entry.topicIndex (grantedAlong serde name (stateAfter serde past) pre)
        (Machine.run (exec serde) (stateAfter serde past) pre) s

/-- **The step extends no expired lease**; an extension of more than 600 seconds is
refused, and does not count. -/
def ExtendsNoExpired (name : Text) (st : State) (s : Step) : Prop :=
  ∀ ackIds extension, s.call = .modifyAckDeadline name ackIds extension → extension ≠ 0 →
    extension ≤ 600 → ∀ sub, st.subscriptions[name]? = some sub →
      ∀ ackId ∈ ackIds, ¬sub.Expired (s.env.now 0) ackId

/-! ### What can be on the lease table -/

section Calls

variable {now : Time} {extension : UInt32} {topic : Option TopicState} {sub : SubscriptionState}
  {ackIds : List Text}

/-- **What `acknowledge` acks** was leased under one of its ids, by a lease that could
be acked. -/
theorem lease_of_acked {i : ℕ} (h : i ∈ (acknowledgeEach now topic sub ackIds).2.acked) :
    i ∈ sub.acked ∨ ∃ ackId ∈ ackIds, ∃ entry : Inflight, sub.inflight[ackId]? = some entry ∧
      entry.topicIndex = i ∧ ¬sub.Expired now ackId := by
  induction ackIds generalizing sub with
  | nil => exact Or.inl h
  | cons ackId ackIds ih =>
    unfold acknowledgeEach at h
    split at h
    · exact (ih h).imp_right fun hlease => hlease.imp fun id hid =>
        ⟨List.mem_cons_of_mem _ hid.1, hid.2⟩
    · rename_i entry hentry
      dsimp only at h
      split at h
      · exact Or.inl h
      · rename_i hlive
        rcases ih h with hacked | ⟨id, hmem, entry', hentry', hindex, hlive'⟩
        · rcases Finset.mem_insert.mp hacked with rfl | hacked
          · refine Or.inr ⟨ackId, List.mem_cons_self, entry, hentry, rfl, ?_⟩
            rintro ⟨honce, entry', hentry', hdead⟩
            obtain rfl := Option.some.inj (hentry.symm.trans hentry')
            exact hlive ⟨honce, hdead⟩
          · exact Or.inl hacked
        · -- the other leases are as they were
          have hne : ackId ≠ id := by
            rintro rfl
            simp [SubscriptionState.ack, SubscriptionState.settle, SubscriptionState.release]
              at hentry'
          have hbefore : sub.inflight[id]? = some entry' := by
            rw [← getElem?_erase_of_ne hne]
            exact hentry'
          refine Or.inr ⟨id, List.mem_cons_of_mem _ hmem, entry', hbefore, hindex, ?_⟩
          rintro ⟨honce, entry'', hentry'', hdead⟩
          obtain rfl := Option.some.inj (hbefore.symm.trans hentry'')
          exact hlive' ⟨honce, entry', hentry', hdead⟩

/-- **What `modify_ack_deadline` changes** are the deadlines of the leases it names. -/
theorem lease_of_modified {id : Text} {entry : Inflight}
    (h : (ackIds.foldl (modifyOne now extension) sub).inflight[id]? = some entry) :
    sub.inflight[id]? = some entry ∨ extension ≠ 0 ∧ id ∈ ackIds := by
  induction ackIds generalizing sub with
  | nil => exact Or.inl h
  | cons ackId ackIds ih =>
    rcases ih h with hone | ⟨hne, hmem⟩
    · rcases eq_or_ne ackId id with rfl | hid
      · by_cases hzero : extension = 0
        · left
          unfold modifyOne at hone
          split at hone
          · exact hone
          · simp [hzero, SubscriptionState.requeueFront, SubscriptionState.release] at hone
        · exact Or.inr ⟨hzero, List.mem_cons_self⟩
      · left
        unfold modifyOne at hone
        split at hone
        · exact hone
        · split at hone
          · rwa [SubscriptionState.requeueFront, SubscriptionState.release,
              getElem?_erase_of_ne hid] at hone
          · rwa [SubscriptionState.lease, getElem?_insert_of_ne hid] at hone
    · exact Or.inr ⟨hne, List.mem_cons_of_mem _ hmem⟩

end Calls

section Pull

variable {env : Env} {subscription topicName : Text} {topicLen : ℕ} {p p' : Pulling}

/-- A turn leases what it delivers, and nothing else. -/
theorem Turned.lease_cases (h : Turned env subscription topicName topicLen p p') {id : Text}
    {entry : Inflight} (hentry : p'.sub.inflight[id]? = some entry) :
    p.sub.inflight[id]? = some entry ∨
      ∃ d ∈ p'.deliveries, d.1 = entry.topicIndex ∧ d.2.ackId = id := by
  cases h with
  | skip htake _ =>
    left
    rwa [← (takeNext_frame htake).2.2]
  | block htake _ _ _ _ =>
    left
    rwa [← (takeNext_frame htake).2.2]
  | @serve index sub topic message p' htake _ _ _ _ _ hserved =>
    have hframe := (takeNext_frame htake).2.2
    cases hserved with
    | dead _ | filtered _ =>
      left
      rwa [← hframe]
    | delivered _ =>
      simp only [deliver, SubscriptionState.lease] at hentry
      rw [Std.ExtTreeMap.getElem?_insert] at hentry
      split at hentry
      · rename_i heq
        right
        obtain rfl := Option.some.inj hentry
        refine ⟨_, List.mem_append_right _ List.mem_cons_self, rfl, ?_⟩
        simpa using heq
      · left
        rw [← hframe]
        exact hentry

/-- Deliveries are kept. -/
theorem Turned.deliveries_prefix (h : Turned env subscription topicName topicLen p p') :
    p.deliveries <+: p'.deliveries := by
  cases h with
  | skip _ _ | block _ _ _ _ _ => exact List.prefix_refl _
  | serve _ _ _ _ _ _ hserved =>
    cases hserved with
    | dead _ | filtered _ => exact List.prefix_refl _
    | delivered _ => exact List.prefix_append _ _

/-- **A pull leases what it delivers**, and nothing else. -/
theorem lease_of_turns
    (h : Relation.ReflTransGen (Turned env subscription topicName topicLen) p p') {id : Text}
    {entry : Inflight} (hentry : p'.sub.inflight[id]? = some entry) :
    p.sub.inflight[id]? = some entry ∨
      ∃ d ∈ p'.deliveries, d.1 = entry.topicIndex ∧ d.2.ackId = id := by
  induction h with
  | refl => exact Or.inl hentry
  | tail _ hturn ih =>
    rcases hturn.lease_cases hentry with hbefore | hnew
    · refine (ih hbefore).imp_right ?_
      rintro ⟨d, hd, hdelivered⟩
      exact ⟨d, hturn.deliveries_prefix.subset hd, hdelivered⟩
    · exact Or.inr hnew

end Pull

/-! ### An expired lease -/

/-- Every lease of the index expires at `deadline` or before, or is one of `leases`. -/
def LeasesUntil (name : Text) (i : ℕ) (deadline : Time) (leases : List (Text × ℕ)) (st : State) :
    Prop :=
  ∀ sub, st.subscriptions[name]? = some sub → ∀ (ackId : Text) (entry : Inflight),
    sub.inflight[ackId]? = some entry → entry.topicIndex = i →
      entry.deadline ≤ deadline ∨ (ackId, i) ∈ leases

section Runs

variable {serde : SerdeJson} {name : Text} {st : State} {s : Step} {i : ℕ} {deadline : Time}
  {leases : List (Text × ℕ)}

/-- A deadline of more than 600 seconds is refused. -/
theorem exec_of_modify_refused {subscription : Text} {ackIds : List Text} {extension : UInt32}
    (hcall : s.call = .modifyAckDeadline subscription ackIds extension)
    (hlarge : ¬extension ≤ 600) : exec serde st s = st := by
  simp only [exec, hcall, modifyAckDeadline, if_pos (UInt32.not_le.mp hlarge)]

/-- **No lease of the index becomes longer** in a step that extends no expired lease,
unless it was handed out since. -/
theorem LeasesUntil.step (h : LeasesUntil name i deadline leases st)
    (hlate : deadline < s.env.now 0) (honce : OnceEnabled name st)
    (hguard : ExtendsNoExpired name st s) :
    LeasesUntil name i deadline (leases ++ granted name st s) (exec serde st s) := by
  have hold : LeasesUntil name i deadline (leases ++ granted name st s) st := fun sub hsub id entry
    hentry hindex => (h sub hsub id entry hentry hindex).imp_right (List.mem_append_left _)
  intro sub' hsub' ackId entry hentry hindex
  have htouch := touch_of_exec serde name st s
  rw [hsub'] at htouch
  generalize hbefore : st.subscriptions[name]? = before at htouch
  cases htouch with
  | same _ _ _ => exact hold sub' hbefore ackId entry hentry hindex
  | create _ _ _ _ => simp [SubscriptionState.created] at hentry
  | respec _ _ _ => exact hold _ hbefore ackId entry hentry hindex
  | @pull sub topic maxMessages p _ _ hp _ hg =>
    rcases lease_of_turns (turns_of_finished hp) hentry with hkept | ⟨d, hd, hindex', hid⟩
    · exact hold sub hbefore ackId entry (getElem?_of_sweep.mp hkept).1 hindex
    · right
      rw [hg, ← hid, ← hindex, ← hindex']
      exact List.mem_append_right _ (List.mem_map_of_mem hd)
  | @acknowledge sub ackIds _ _ _ =>
    have hkept := (acknowledgeEach_frame _ _ _ _).2.2.2 ackId entry hentry
    exact hold sub hbefore ackId entry hkept hindex
  | @modify sub ackIds extension hcall _ _ =>
    by_cases hsmall : extension ≤ 600
    · rcases lease_of_modified hentry with hkept | ⟨hne, hmem⟩
      · exact hold sub hbefore ackId entry hkept hindex
      · -- the lease had not expired, so it was handed out since
        obtain ⟨entry₀, hentry₀, hindex₀⟩ := (modify_frame _ _ _ _).2.2.2 ackId entry hentry
        refine (hold sub hbefore ackId entry₀ hentry₀ (hindex₀.trans hindex)).imp_left
          fun hdead => ?_
        exact absurd ⟨honce sub hbefore, entry₀, hentry₀, hdead.trans_lt hlate⟩
          (hguard ackIds extension hcall hne hsmall sub hbefore ackId hmem)
    · rw [exec_of_modify_refused hcall hsmall] at hsub'
      exact hold _ hsub' ackId entry hentry hindex
  | rewind _ _ => simp [SubscriptionState.rewind] at hentry

/-- **While its other leases have expired, the index is acked by one of `leases`.** -/
theorem LeasesUntil.acksBy (h : LeasesUntil name i deadline leases st)
    (hlate : deadline < s.env.now 0) (honce : OnceEnabled name st) :
    AcksBy serde name i leases st s := by
  intro ackIds hcall sub sub' hsub hsub' hacked
  simp only [exec, hcall] at hsub'
  rw [acknowledge_subscriptions hsub, Std.ExtTreeMap.getElem?_insert_self] at hsub'
  obtain rfl := Option.some.inj hsub'
  refine (lease_of_acked hacked).imp_right ?_
  rintro ⟨ackId, hmem, entry, hentry, hindex, hlive⟩
  refine ⟨ackId, hmem, ?_, entry, hentry, hindex⟩
  refine (h sub hsub ackId entry hentry hindex).resolve_left fun hdead => ?_
  exact hlive ⟨honce sub hsub, entry, hentry, hdead.trans_lt hlate⟩

/-- What a step of the segment hands out is handed out along the segment. -/
theorem granted_subset_grantedAlong {seg pre : List Step} (hpre : pre ++ [s] <+: seg) :
    granted name (Machine.run (exec serde) st pre) s ⊆ grantedAlong serde name st seg := by
  obtain ⟨rest, rfl⟩ := hpre
  intro g hg
  induction pre generalizing st with
  | nil => exact List.mem_append_left _ hg
  | cons t pre ih => exact List.mem_append_right _ (ih hg)

/-- **An expired lease stays dead** in every run in which no step extends an expired
lease. -/
theorem stays_dead_of_guarded (r : Run) (name : Text)
    (hguard : Machine.Guarded (exec serde) (ExtendsNoExpired name) {} r.steps) :
    StaysDead serde name r.steps := by
  intro past seg hrun sub ackId entry hsub hentry hlate honce
  have hstep : ∀ pre s, pre ++ [s] <+: seg → past ++ pre ++ [s] <+: r.steps := by
    intro pre s hpre
    rw [List.append_assoc]
    exact ((List.prefix_append_right_inj past).mpr hpre).trans hrun
  -- the lease is the only one of its message
  have hstart : LeasesUntil name entry.topicIndex entry.deadline [] (stateAfter serde past) := by
    intro sub' hsub' ackId' entry' hentry' hindex
    obtain rfl := Option.some.inj (hsub.symm.trans hsub')
    have hpast : past.Pairwise Step.Apart :=
      r.fresh.sublist ((List.prefix_append past seg).trans hrun).sublist
    have hx := (sound_stateAfter hpast hsub).exclusive
    have hid : ackId' = ackId := hx.lease_inj
      ((sub.ledger_lease_eq_some _).mpr ⟨entry', hentry', hindex⟩)
      ((sub.ledger_lease_eq_some _).mpr ⟨entry, hentry, rfl⟩)
    subst hid
    obtain rfl := Option.some.inj (hentry.symm.trans hentry')
    exact Or.inl le_rfl
  have hall : ∀ pre, pre <+: seg → LeasesUntil name entry.topicIndex entry.deadline
      (grantedAlong serde name (stateAfter serde past) pre)
      (Machine.run (exec serde) (stateAfter serde past) pre) := by
    refine Machine.invariant (P := fun pre st => LeasesUntil name entry.topicIndex entry.deadline
      (grantedAlong serde name (stateAfter serde past) pre) st) hstart fun pre s hpre h => ?_
    have hs : s ∈ seg := hpre.subset (by simp)
    have hg := hguard (past ++ pre) s (hstep pre s hpre)
    rw [Machine.run_append] at hg
    rw [grantedAlong_concat]
    exact h.step (hlate s hs) (honce pre ((List.prefix_append pre [s]).trans hpre)) hg
  intro pre s hpre
  have hbefore : pre <+: seg := (List.prefix_append pre [s]).trans hpre
  exact (hall pre hbefore).acksBy (hlate s (hpre.subset (by simp))) (honce pre hbefore)

/-- A message of an exactly-once subscription is pulled, its lease runs out, a pull takes
it off the table, and the next one hands the message out again. Before that an extension
is tried that is too long, and after it the first ack id, and then the second one. -/
def lateAcked : Run := .ofCalls
  [(0, .createTopic sampleTopic),
   (0, .createSubscription { sampleSubscription with enableExactlyOnceDelivery := true }),
   (0, .publish sampleTopic.name [sampleMessage ""]),
   (0, .pull sampleSubscription.name 1),
   (seconds 11, .modifyAckDeadline sampleSubscription.name
     [exactlyOnceId sampleSubscription.name 0 1] 601),
   (seconds 11, .pull sampleSubscription.name 1),
   (seconds 30, .pull sampleSubscription.name 1),
   (seconds 30, .acknowledge sampleSubscription.name
     [exactlyOnceId sampleSubscription.name 0 1]),
   (seconds 30, .acknowledge sampleSubscription.name
     [exactlyOnceId sampleSubscription.name 0 2])]

/-- The first ack id is of no use any more. -/
theorem lateAcked_stays_dead : StaysDead noJson sampleSubscription.name lateAcked.steps := by
  refine stays_dead_of_guarded lateAcked sampleSubscription.name fun pre s hpre => ?_
  have hs : s ∈ lateAcked.steps := hpre.subset (by simp)
  intro ackIds extension hcall hne hsmall
  revert hs
  simp only [lateAcked, Run.ofCalls, List.mapIdx_cons, List.mapIdx_nil, List.mem_cons,
    List.not_mem_nil, or_false]
  rintro (rfl | rfl | rfl | rfl | rfl | rfl | rfl | rfl | rfl) <;> cases hcall
  exact absurd hsmall (by decide)

/-- The same, with the expired lease extended before. -/
def revived : Run := .ofCalls
  [(0, .createTopic sampleTopic),
   (0, .createSubscription { sampleSubscription with enableExactlyOnceDelivery := true }),
   (0, .publish sampleTopic.name [sampleMessage ""]),
   (0, .pull sampleSubscription.name 1),
   (seconds 11, .modifyAckDeadline sampleSubscription.name
     [exactlyOnceId sampleSubscription.name 0 1] 60),
   (seconds 11, .acknowledge sampleSubscription.name
     [exactlyOnceId sampleSubscription.name 0 1])]

/-- The acknowledgement succeeds. -/
theorem revived_acked : ¬StaysDead noJson sampleSubscription.name revived.steps := by
  intro h
  have hlease : ((stateAfter noJson (revived.steps.take 4)).subscriptions[
      sampleSubscription.name]?.any fun sub =>
        sub.inflight[exactlyOnceId sampleSubscription.name 0 1]?.any fun entry =>
          entry.deadline = seconds 10 ∧ entry.topicIndex = 0) = true := by
    decide +kernel
  obtain ⟨sub, hsub, hlease⟩ := (Option.any_eq_true _ _).mp hlease
  obtain ⟨entry, hentry, hlease⟩ := (Option.any_eq_true _ _).mp hlease
  obtain ⟨hdeadline, hindex⟩ := of_decide_eq_true hlease
  have hsteps : revived.steps.take 4 ++ revived.steps.drop 4 <+: revived.steps := by
    rw [List.take_append_drop]
  have hlate : ∀ s ∈ revived.steps.drop 4, entry.deadline < s.env.now 0 := by
    rw [hdeadline]
    simp only [revived, Run.ofCalls, List.mapIdx_cons, List.mapIdx_nil, List.drop_succ_cons,
      List.drop_zero, List.mem_cons, List.not_mem_nil, or_false]
    rintro s (rfl | rfl)
    · decide
    · decide
  have honce : ∀ pre ∈ (revived.steps.drop 4).inits,
      ((Machine.run (exec noJson) (stateAfter noJson (revived.steps.take 4)) pre).subscriptions[
        sampleSubscription.name]?.all fun sub => sub.spec.enableExactlyOnceDelivery) = true := by
    decide +kernel
  have hnew : grantedAlong noJson sampleSubscription.name
      (stateAfter noJson (revived.steps.take 4)) [revived.steps[4]] = [] := by
    decide +kernel
  have hdead := h (revived.steps.take 4) (revived.steps.drop 4) hsteps sub _ entry hsub hentry
    hlate (fun pre hpre sub' hsub' => ?_) [revived.steps[4]] revived.steps[5]
    (List.prefix_refl _) [exactlyOnceId sampleSubscription.name 0 1] rfl
  · rw [hnew, hindex] at hdead
    have hacked : ∀ st : State, st = Machine.run (exec noJson)
        (stateAfter noJson (revived.steps.take 4)) [revived.steps[4]] →
        (st.subscriptions[sampleSubscription.name]?.any fun sub => 0 ∉ sub.acked) = true ∧
        ((exec noJson st revived.steps[5]).subscriptions[sampleSubscription.name]?.any fun sub =>
          0 ∈ sub.acked) = true := by
      rintro _ rfl
      decide +kernel
    obtain ⟨hbefore, hafter⟩ := hacked _ rfl
    obtain ⟨sub₁, hsub₁, hout⟩ := (Option.any_eq_true _ _).mp hbefore
    obtain ⟨sub₂, hsub₂, hin⟩ := (Option.any_eq_true _ _).mp hafter
    rcases hdead sub₁ sub₂ hsub₁ hsub₂ (of_decide_eq_true hin) with hin₁ | ⟨_, _, hgranted, _⟩
    · exact of_decide_eq_true hout hin₁
    · cases hgranted
  · have hall := honce pre ((List.mem_inits _ _).mpr hpre)
    rwa [hsub', Option.all_some] at hall

end Runs

end RelayPubsub.Memory
