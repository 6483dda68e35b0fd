import RelayPubsub.Memory.AckIds
import RelayPubsub.Memory.Expiry
import RelayPubsub.Memory.Retain

/-!
# Why an index is acked

An index gets among the acked ones of a subscription in three ways, and each leaves
a trace (`RelayPubsub.Memory.AckedBy`): a consumer acknowledges it under an ack id
that a pull handed out for it; a pull finds that the filter rejects its message; or
a pull copies its message to the dead-letter topic. No other call acks anything, so
every acked index has one of these in its past
(`RelayPubsub.Memory.exists_ackedBy`). An index may also be lost, which takes an
acknowledgement as well (`RelayPubsub.Memory.kept_or_ackSent`).

The ack ids are those handed out under the name of the subscription since the store
was empty, `RelayPubsub.Memory.grantedAlong`, whatever has become of the
subscription in between; each stands for one index
(`RelayPubsub.Memory.traced_grantedAlong`).
-/

namespace RelayPubsub.Memory

open Lib Lib.Ledger

variable {serde : SerdeJson}

/-! ### What has been handed out -/

theorem issued_subset_grantedAlong (name : Text) (steps : List Step) :
    (watch serde name steps).issued ⊆ grantedAlong serde name {} steps := by
  induction steps using List.reverseRecOn with
  | nil => exact List.Subset.refl _
  | append_singleton past s ih =>
    rw [watch_concat, grantedAlong_concat]
    rcases issued_step serde name (watch serde name past) s with hnil | hissued
    · rw [hnil]
      exact List.nil_subset _
    · rw [hissued, watch_state]
      exact List.append_subset.mpr ⟨List.Subset.trans ih (List.subset_append_left _ _),
        List.subset_append_right _ _⟩

/-- What was handed out along a beginning of a run was handed out along the run. -/
theorem grantedAlong_subset {name : Text} {steps steps' : List Step} (h : steps <+: steps') :
    grantedAlong serde name {} steps ⊆ grantedAlong serde name {} steps' := by
  induction steps' using List.reverseRecOn with
  | nil =>
    rw [List.prefix_nil.mp h]
    exact List.Subset.refl _
  | append_singleton steps' t ih =>
    rcases List.prefix_concat_iff.mp h with rfl | h
    · exact List.Subset.refl _
    · rw [grantedAlong_concat]
      exact List.Subset.trans (ih h) (List.subset_append_left _ _)

/-- **Every ack id ever handed out stands for one index**, also when the subscription
has been created more than once. -/
theorem traced_grantedAlong {name : Text} {steps : List Step}
    (hfresh : steps.Pairwise Step.Apart) :
    Traced name (drawnIn steps) (grantedAlong serde name {} steps) := by
  induction steps using List.reverseRecOn with
  | nil => constructor <;> simp [grantedAlong]
  | append_singleton past s ih =>
    have hpast := (List.pairwise_append.mp hfresh).1
    rw [grantedAlong_concat]
    rcases granted_cases name (stateAfter serde past) s with
      hnone | ⟨_, sub, topic, p, -, hsub, -, hp, hgranted⟩
    · rw [← stateAfter, hnone, List.append_nil, drawnIn_concat]
      exact (ih hpast).mono Set.subset_union_left
    · rw [← stateAfter, hgranted]
      have hsound := sound_stateAfter hpast hsub
      -- the same subscription, watched with all that was ever handed out
      refine (ids_of_pull (w := { watch serde name past with
        issued := grantedAlong serde name {} past }) hfresh hp ⟨hsound.exclusive, hsound.above,
          hsound.named, fun ackId i hi => ?_⟩ (ih hpast)).1
      exact issued_subset_grantedAlong name past (hsound.issued ackId i hi)

/-- **A pull of a run handed the delivery out** for an index: the message is the one the
log has there. -/
def HandedOut (serde : SerdeJson) (calls : List Step) (name : Text) (d : Delivery) (i : ℕ) :
    Prop :=
  ∃ past s sub topic, past ++ [s] <+: calls ∧
    (stateAfter serde past).subscriptions[name]? = some sub ∧
    (d.ackId, i) ∈ granted name (stateAfter serde past) s ∧
    (stateAfter serde (past ++ [s])).topics[sub.spec.topic]? = some topic ∧
    topic.messages[i]? = some d.message

theorem HandedOut.mono {calls calls' : List Step} {name : Text} {d : Delivery} {i : ℕ}
    (h : HandedOut serde calls name d i) (hle : calls <+: calls') :
    HandedOut serde calls' name d i := by
  obtain ⟨past, s, sub, topic, hpre, hrest⟩ := h
  exact ⟨past, s, sub, topic, hpre.trans hle, hrest⟩

/-- What a pull answers was handed out by it. -/
theorem handedOut_of_pull {calls : List Step} {name : Text} {maxMessages : UInt32} {env : Env}
    {deliveries : List Delivery}
    (h : (pull env (stateAfter serde calls) name maxMessages).1 = .returned (.ok deliveries)) :
    ∀ d ∈ deliveries, ∃ i, HandedOut serde (calls ++ [⟨.pull name maxMessages, env⟩]) name d i := by
  intro d hd
  obtain ⟨sub, topic, hsub, htopic, hids, hmessages⟩ :=
    @pull_answer serde _ _ ⟨.pull name maxMessages, env⟩ _ _ rfl h
  obtain ⟨n, hn⟩ := List.mem_iff_getElem?.mp hd
  have hid := congrArg (·[n]?) hids
  have hmessage := congrArg (·[n]?) hmessages
  simp only [List.getElem?_map, hn, Option.map_some] at hid hmessage
  obtain ⟨lease, hlease, hid⟩ := Option.map_eq_some_iff.mp hid.symm
  rw [hlease, Option.map_some, Option.some.injEq] at hmessage
  refine ⟨lease.2, calls, _, sub, topic, List.prefix_refl _, hsub, ?_, ?_, hmessage.symm⟩
  · rw [← hid]
    exact List.mem_of_getElem? hlease
  · rwa [stateAfter_concat]

/-! ### What a pull sets aside -/

/-- **The subscription has set a message aside**: its filter rejects the message, or a
copy of it is in the dead-letter topic. -/
inductive SetAside (name : Text) (spec : SubscriptionSpec) (topics : StrMap TopicState)
    (message : RelayMessage) : Prop
  | filtered : filterRejects spec message = true → SetAside name spec topics message
  | copied {policy : DeadLetterSpec} {dead : TopicState} {copy : RelayMessage} :
      spec.deadLetter = some policy → topics[policy.topic]? = some dead →
      copy ∈ dead.messages → copy.data = message.data → copy.orderingKey = message.orderingKey →
      copy.attributes = (message.attributes.insert "x-zyvor-dead-letter-source" name).insert
        "x-zyvor-original-message-id" message.id →
      SetAside name spec topics message

/-- **The index is set aside**: the message the log has there is. -/
def SetAsideAt (name : Text) (spec : SubscriptionSpec) (topics : StrMap TopicState) (i : ℕ) :
    Prop :=
  ∃ topic message, topics[spec.topic]? = some topic ∧ topic.messages[i]? = some message ∧
    SetAside name spec topics message

/-- What is set aside stays so while logs grow. -/
theorem SetAsideAt.grow {name : Text} {spec : SubscriptionSpec} {topics topics' : StrMap TopicState}
    {i : ℕ} (h : SetAsideAt name spec topics i) (hg : TopicsGrow topics topics') :
    SetAsideAt name spec topics' i := by
  obtain ⟨topic, message, htopic, hmessage, haside⟩ := h
  obtain ⟨topic', htopic', hlonger⟩ := hg.get htopic
  refine ⟨topic', message, htopic', getElem?_of_isPrefix hlonger hmessage, ?_⟩
  cases haside with
  | filtered hrejects => exact .filtered hrejects
  | copied hpolicy hdead hcopy hdata hkey hattributes =>
    obtain ⟨dead', hdead', hgrown⟩ := hg.get hdead
    exact .copied hpolicy hdead' (hgrown.subset hcopy) hdata hkey hattributes

section Pull

variable {env : Env} {name : Text} {topicLen : ℕ} {p p' : Pulling}

/-- **A turn acks what it sets aside**, and nothing else. -/
theorem Turned.acked_cases {topicName : Text} (hname : p.sub.spec.topic = topicName)
    (h : Turned env name topicName topicLen p p') {i : ℕ} (hi : i ∈ p'.sub.acked) :
    i ∈ p.sub.acked ∨ SetAsideAt name p'.sub.spec p'.topics i := by
  cases h with
  | @skip _ sub htake _ | @block _ sub _ htake _ _ _ _ =>
    left
    have hacked : sub.acked = p.sub.acked := (takeNext_take htake).done_eq
    rwa [← hacked]
  | @serve index sub topic message _ htake _ _ htopic _ hmessage hserved =>
    have hspec := (takeNext_frame htake).1
    have hacked : sub.acked = p.sub.acked := (takeNext_take htake).done_eq
    cases hserved with
    | @dead target deadTopic hdead =>
      rcases Finset.mem_insert.mp hi with rfl | hi
      · right
        obtain ⟨hthere, policy, hpolicy, rfl⟩ := exists_of_deadLetterTopic hdead
        have hgrow : TopicsGrow p.topics (p.topics.insert policy.topic { deadTopic with
            messages := deadTopic.messages ++ [deadMessage env name p message] }) :=
          .insert hthere (List.prefix_append _ _)
        obtain ⟨topic', htopic', hlonger⟩ := hgrow.get htopic
        refine ⟨topic', message, ?_, getElem?_of_isPrefix hlonger hmessage, ?_⟩
        · show (p.topics.insert policy.topic _)[sub.spec.topic]? = _
          rw [hspec, hname]
          exact htopic'
        · refine .copied hpolicy Std.ExtTreeMap.getElem?_insert_self
            (List.mem_append_right _ (List.mem_singleton.mpr rfl)) rfl rfl rfl
      · left
        rwa [← hacked]
    | filtered hcause =>
      rcases Finset.mem_insert.mp hi with rfl | hi
      · right
        refine ⟨topic, message, ?_, hmessage, .filtered hcause.2⟩
        show p.topics[sub.spec.topic]? = _
        rw [hspec, hname]
        exact htopic
      · left
        rwa [← hacked]
    | delivered _ =>
      left
      rwa [← hacked]

theorem acked_of_turns {topicName : Text} (hname : p.sub.spec.topic = topicName)
    (h : Relation.ReflTransGen (Turned env name topicName topicLen) p p') {i : ℕ}
    (hi : i ∈ p'.sub.acked) : i ∈ p.sub.acked ∨ SetAsideAt name p'.sub.spec p'.topics i := by
  induction h with
  | refl => exact Or.inl hi
  | tail hturns hturn ih =>
    rcases hturn.acked_cases ((congrArg _ (spec_of_turns hturns)).trans hname) hi with hi | haside
    · refine (ih hi).imp_right fun haside => ?_
      rw [hturn.spec_eq]
      exact haside.grow hturn.topicsGrow
    · exact Or.inr haside

end Pull

/-! ### Acknowledging and extending -/

/-- **What `acknowledge` acks** was leased under one of its ids. -/
theorem acked_of_acknowledgeEach {now : Time} {topic : Option TopicState} {sub : SubscriptionState}
    {ackIds : List Text} {i : ℕ} (h : i ∈ (acknowledgeEach now topic sub ackIds).2.acked) :
    i ∈ sub.acked ∨ ∃ ackId ∈ ackIds, sub.ledger.lease ackId = some i := by
  induction ackIds generalizing sub with
  | nil => exact Or.inl h
  | cons ackId ackIds ih =>
    unfold acknowledgeEach at h
    split at h
    · refine (ih h).imp_right ?_
      rintro ⟨id, hid, hlease⟩
      exact ⟨id, List.mem_cons_of_mem _ hid, hlease⟩
    · rename_i entry hentry
      dsimp only at h
      split at h
      · exact Or.inl h
      · rcases ih h with hacked | ⟨id, hid, hlease⟩
        · rcases Finset.mem_insert.mp hacked with rfl | hacked
          · exact Or.inr ⟨ackId, List.mem_cons_self,
              (sub.ledger_lease_eq_some _).mpr ⟨entry, hentry, rfl⟩⟩
          · exact Or.inl hacked
        · rw [SubscriptionState.ledger_ack, SubscriptionState.ledger_release] at hlease
          exact Or.inr ⟨id, List.mem_cons_of_mem _ hid, (lease_of_unlease hlease).2⟩

/-- **`acknowledge` loses an index only if one of its ids names it.** -/
theorem kept_of_acknowledgeEach {now : Time} {topic : Option TopicState} {sub : SubscriptionState}
    {ackIds : List Text} {i : ℕ} (hk : sub.ledger.Kept i)
    (hother : ∀ ackId ∈ ackIds, sub.ledger.lease ackId ≠ some i) :
    (acknowledgeEach now topic sub ackIds).2.ledger.Kept i := by
  induction ackIds generalizing sub with
  | nil => exact hk
  | cons ackId ackIds ih =>
    obtain ⟨hid, hrest⟩ := List.forall_mem_cons.mp hother
    unfold acknowledgeEach
    split
    · exact ih hk hrest
    · rename_i entry hentry
      have hlease : sub.ledger.lease ackId = some entry.topicIndex :=
        (sub.ledger_lease_eq_some _).mpr ⟨entry, hentry, rfl⟩
      have hreleased : (sub.release ackId).ledger.Kept i := by
        rw [SubscriptionState.ledger_release]
        intro hlt
        refine Placed.unlease hlease (fun heq => hid ?_) (hk hlt)
        rw [hlease, heq]
      dsimp only
      split
      · exact hreleased
      · refine ih ?_ fun id hmem hsome => hrest id hmem ?_
        · rw [SubscriptionState.ledger_ack]
          exact fun hlt => (hreleased hlt).markDone
        · rw [SubscriptionState.ledger_ack, SubscriptionState.ledger_release] at hsome
          exact (lease_of_unlease hsome).2

/-- Extending or giving back leases acks nothing. -/
theorem acked_of_modify (now : Time) (extension : UInt32) (sub : SubscriptionState)
    (ackIds : List Text) : (ackIds.foldl (modifyOne now extension) sub).acked = sub.acked := by
  induction ackIds generalizing sub with
  | nil => rfl
  | cons ackId ackIds ih =>
    rw [List.foldl_cons, ih]
    unfold modifyOne
    split
    · rfl
    · split_ifs <;> rfl

/-! ### Steps and runs -/

/-- **Why an index is acked** by a step that follows `past`. -/
inductive AckedBy (serde : SerdeJson) (name : Text) (past : List Step) (s : Step) (i : ℕ) : Prop
  /-- A consumer acknowledges it, under an ack id that was handed out for it. -/
  | acknowledged {ackIds : List Text} {ackId : Text} : s.call = .acknowledge name ackIds →
      ackId ∈ ackIds → (ackId, i) ∈ grantedAlong serde name {} past →
      AckedBy serde name past s i
  /-- A pull sets it aside. -/
  | setAside {maxMessages : UInt32} {sub : SubscriptionState} :
      s.call = .pull name maxMessages → (stateAfter serde past).subscriptions[name]? = some sub →
      SetAsideAt name sub.spec (stateAfter serde (past ++ [s])).topics i →
      AckedBy serde name past s i

section Runs

variable {name : Text} {past : List Step} {s : Step} {sub' : SubscriptionState} {i : ℕ}

/-- A step that acks an index does so for a reason. -/
theorem ackedBy_step (hfresh : past.Pairwise Step.Apart)
    (hsub' : (stateAfter serde (past ++ [s])).subscriptions[name]? = some sub')
    (hi : i ∈ sub'.acked) :
    (∃ sub, (stateAfter serde past).subscriptions[name]? = some sub ∧ i ∈ sub.acked) ∨
      AckedBy serde name past s i := by
  have htouch := touch_of_exec serde name (stateAfter serde past) s
  have hstate := @stateAfter_concat serde past s
  rw [← hstate, hsub'] at htouch
  generalize hsub : (stateAfter serde past).subscriptions[name]? = before at htouch
  cases htouch with
  | same _ _ _ => exact Or.inl ⟨sub', rfl, hi⟩
  | create _ _ _ _ => exact absurd hi (Finset.notMem_empty i)
  | @respec sub _ _ _ _ => exact Or.inl ⟨sub, rfl, hi⟩
  | @pull sub topic maxMessages p hcall htopic hp _ _ =>
    obtain ⟨hspec, -, hacked, -⟩ := sweep_frame s.env sub
    have hturns := turns_of_finished hp
    rw [hspec] at hturns
    rcases acked_of_turns (congrArg _ hspec) hturns hi with hi | haside
    · left
      exact ⟨sub, rfl, by rwa [← hacked]⟩
    · right
      refine .setAside hcall hsub ?_
      have htopics : (stateAfter serde (past ++ [s])).topics = p.topics := by
        simp only [hstate, exec, hcall]
        exact pull_topics hsub htopic hp
      rw [htopics, ← hspec, ← spec_of_turns hturns]
      exact haside
  | @acknowledge sub ackIds hcall _ _ =>
    rcases acked_of_acknowledgeEach hi with hi | ⟨ackId, hmem, hlease⟩
    · exact Or.inl ⟨sub, rfl, hi⟩
    · exact Or.inr (.acknowledged hcall hmem (issued_subset_grantedAlong name past
        ((sound_stateAfter hfresh hsub).issued _ _ hlease)))
  | @modify sub _ _ _ _ _ => exact Or.inl ⟨sub, rfl, by rwa [acked_of_modify] at hi⟩
  | rewind _ _ => exact absurd hi (Finset.notMem_empty i)

/-- **Every acked index was acked for a reason**, by a step after which it has stayed
acked. -/
theorem exists_ackedBy {steps : List Step} (hfresh : steps.Pairwise Step.Apart)
    {sub : SubscriptionState} (hsub : (stateAfter serde steps).subscriptions[name]? = some sub)
    (hi : i ∈ sub.acked) :
    ∃ past s, past ++ [s] <+: steps ∧ AckedBy serde name past s i ∧
      ∀ mid, past ++ [s] <+: mid → mid <+: steps →
        ∃ sub, (stateAfter serde mid).subscriptions[name]? = some sub ∧ i ∈ sub.acked := by
  induction steps using List.reverseRecOn generalizing sub with
  | nil => simp [stateAfter] at hsub
  | append_singleton past s ih =>
    have hpast := (List.pairwise_append.mp hfresh).1
    rcases ackedBy_step hpast hsub hi with ⟨sub₀, hsub₀, hi₀⟩ | hby
    · obtain ⟨past', s', hpre, hby, hstays⟩ := ih hpast hsub₀ hi₀
      refine ⟨past', s', hpre.trans (List.prefix_append _ _), hby, fun mid hmid hle => ?_⟩
      rcases List.prefix_concat_iff.mp hle with rfl | hle
      · exact ⟨sub, hsub, hi⟩
      · exact hstays mid hmid hle
    · refine ⟨past, s, List.prefix_refl _, hby, fun mid hmid hle => ?_⟩
      rw [← hmid.eq_of_length_le hle.length_le]
      exact ⟨sub, hsub, hi⟩

end Runs

/-! ### What an acknowledgement may have lost -/

/-- **An acknowledgement was sent** for an index: under an ack id that had been handed out
for it. -/
def AckSent (serde : SerdeJson) (name : Text) (steps : List Step) (i : ℕ) : Prop :=
  ∃ past s ackIds ackId, past ++ [s] <+: steps ∧ s.call = .acknowledge name ackIds ∧
    ackId ∈ ackIds ∧ (ackId, i) ∈ grantedAlong serde name {} past

theorem AckSent.mono {name : Text} {steps steps' : List Step} {i : ℕ}
    (h : AckSent serde name steps i) (hle : steps <+: steps') : AckSent serde name steps' i := by
  obtain ⟨past, s, ackIds, ackId, hpre, hrest⟩ := h
  exact ⟨past, s, ackIds, ackId, hpre.trans hle, hrest⟩

/-- **An index for which no acknowledgement was sent is not lost**: once it is taken, it
is acked, leased, or waits. -/
theorem kept_or_ackSent {name : Text} {steps : List Step} (hfresh : steps.Pairwise Step.Apart)
    {sub : SubscriptionState} (hsub : (stateAfter serde steps).subscriptions[name]? = some sub)
    {i : ℕ} (hbase : (watch serde name steps).base ≤ i) :
    sub.ledger.Kept i ∨ AckSent serde name steps i := by
  induction steps using List.reverseRecOn generalizing sub with
  | nil => simp [stateAfter] at hsub
  | append_singleton past s ih =>
    have hpast := (List.pairwise_append.mp hfresh).1
    rw [stateAfter_concat, ← watch_state name] at hsub
    rw [watch_concat] at hbase
    have hsound : ∀ sub, (watch serde name past).state.subscriptions[name]? = some sub →
        Sound name past (watch serde name past) sub := fun _ hsub => sound_watch hpast hsub
    rcases step_cases hfresh hsound hsub with hledger | ⟨sub₀, es, hsub₀, htrace, hsame, -, -⟩
    · left
      rw [hledger]
      exact retains_rewound _ i hbase
    · rw [hsame] at hbase
      rw [watch_state] at hsub₀
      rcases ih hpast hsub₀ hbase with hkept | hsent
      · by_cases hack : ∃ ackIds, s.call = .acknowledge name ackIds
        · obtain ⟨ackIds, hcall⟩ := hack
          by_cases hnamed : ∃ ackId ∈ ackIds, sub₀.ledger.lease ackId = some i
          · obtain ⟨ackId, hmem, hlease⟩ := hnamed
            exact Or.inr ⟨past, s, ackIds, ackId, List.prefix_refl _, hcall, hmem,
              issued_subset_grantedAlong name past
                ((sound_stateAfter hpast hsub₀).issued _ _ hlease)⟩
          · left
            simp only [watch_state, exec, hcall] at hsub
            rw [acknowledge_subscriptions hsub₀, Std.ExtTreeMap.getElem?_insert_self] at hsub
            obtain rfl := Option.some.inj hsub
            exact kept_of_acknowledgeEach hkept fun ackId hmem hlease =>
              hnamed ⟨ackId, hmem, hlease⟩
        · left
          refine htrace.kept (fun _ _ h => h.forfeit ?_) (fun _ _ h => h.rewind) hkept
          rintro ⟨ackIds, -, hcall, -⟩
          exact hack ⟨ackIds, hcall⟩
      · exact Or.inr (hsent.mono (List.prefix_append _ _))

/-- **A pull has set the index aside**: its filter rejects the message, or a copy of it
went to the dead-letter topic. -/
def PutAside (serde : SerdeJson) (calls : List Step) (name : Text) (i : ℕ) : Prop :=
  ∃ past s maxMessages sub, past ++ [s] <+: calls ∧ s.call = .pull name maxMessages ∧
    (stateAfter serde past).subscriptions[name]? = some sub ∧
    SetAsideAt name sub.spec (stateAfter serde (past ++ [s])).topics i

/-- **What is left where acknowledgements mean something**: where each for an id handed
out under the name shows `P` of its index, an acked index has `P` or was set aside; and one
that is not acked, but was taken since the cursor was last set, is leased or waits, or
has `P`. -/
theorem accounted_of_acks {name : Text} {steps : List Step} (hfresh : steps.Pairwise Step.Apart)
    {P : ℕ → Prop}
    (hacks : ∀ past s, past ++ [s] <+: steps → ∀ ackIds, s.call = .acknowledge name ackIds →
      ∀ ackId ∈ ackIds, ∀ i, (ackId, i) ∈ grantedAlong serde name {} past → P i)
    {sub : SubscriptionState} (hsub : (stateAfter serde steps).subscriptions[name]? = some sub) :
    (∀ i ∈ sub.acked, P i ∨ PutAside serde steps name i) ∧
      ∀ i, (watch serde name steps).base ≤ i → i < sub.nextIndex → i ∉ sub.acked →
        sub.Leased i ∨ sub.Queued i ∨ P i := by
  have hacked : ∀ i ∈ sub.acked, P i ∨ PutAside serde steps name i := by
    intro i hi
    obtain ⟨past, s, hpre, hby, -⟩ := exists_ackedBy hfresh hsub hi
    cases hby with
    | acknowledged hcall hmem hissued => exact Or.inl (hacks past s hpre _ hcall _ hmem i hissued)
    | setAside hcall hsub' haside => exact Or.inr ⟨past, s, _, _, hpre, hcall, hsub', haside⟩
  refine ⟨hacked, fun i hbase hlt hleft => ?_⟩
  rcases kept_or_ackSent hfresh hsub hbase with hkept | ⟨past, s, ackIds, ackId, hpre, hcall, hmem,
    hissued⟩
  · rcases hkept hlt with hdone | hheld | hwaiting
    · exact absurd hdone hleft
    · exact Or.inl ((sub.ledger_held_iff i).mp hheld)
    · exact Or.inr (Or.inl ((sub.mem_ledger_waiting i).mp hwaiting))
  · exact Or.inr (Or.inr (hacks past s hpre ackIds hcall ackId hmem i hissued))

/-- **Whatever a subscription has taken is accounted for**, in every state of every run:
what is acked was acknowledged under an ack id handed out for it, or set aside by a
pull, and has stayed acked since; and if no expired exactly-once lease was ever
acknowledged, everything else taken since the cursor was last set is leased or waits. -/
theorem taken_accounted (r : Run) (name : Text) :
    (∀ steps, steps <+: r.steps → ∀ sub, (stateAfter serde steps).subscriptions[name]? = some sub →
      ∀ i ∈ sub.acked, ∃ past s, past ++ [s] <+: steps ∧ AckedBy serde name past s i ∧
        ∀ mid, past ++ [s] <+: mid → mid <+: steps →
          ∃ sub, (stateAfter serde mid).subscriptions[name]? = some sub ∧ i ∈ sub.acked) ∧
    (Machine.Guarded (Watched.step serde name) (fun w s => ¬AcksExpired name w.state s) {}
        r.steps →
      ∀ steps, steps <+: r.steps → ∀ sub,
        (stateAfter serde steps).subscriptions[name]? = some sub →
        ∀ i, (watch serde name steps).base ≤ i → i < sub.nextIndex →
          sub.Leased i ∨ sub.Queued i ∨
            ∃ past s, past ++ [s] <+: steps ∧ AckedBy serde name past s i) := by
  refine ⟨fun steps hpre sub hsub i hi => ?_, fun hcalm steps hpre sub hsub i hbase hlt => ?_⟩
  · exact exists_ackedBy (r.fresh.sublist hpre.sublist) hsub hi
  · have hret : Retained name (watch serde name steps) := retained_of_calm r name hcalm steps hpre
    rcases hret sub (by rwa [watch_state]) i hbase hlt with hacked | hheld
    · obtain ⟨past, s, hpast, hby, -⟩ :=
        exists_ackedBy (r.fresh.sublist hpre.sublist) hsub hacked
      exact Or.inr (Or.inr ⟨past, s, hpast, hby⟩)
    · exact hheld.imp_right Or.inl

end RelayPubsub.Memory
