import RelayPubsub.Memory.Accounted
import RelayPubsub.Memory.Anchored
import RelayPubsub.Memory.Dedup
import RelayPubsub.Memory.Specs

/-!
# A subscription left to its consumers

A subscription without a filter, created while the log of its topic is empty. As long as
nobody deletes it or its topic, or sets its cursor (`RelayPubsub.Memory.LeavesAlone`), it is
there and has the whole log to go through (`RelayPubsub.Memory.FromTheStart`): no pull
panics, and no mask changes its topic or its filter.

So each message of the log is owed to it until a consumer has sent an acknowledgement for it,
or a pull has copied it to a dead-letter topic
(`RelayPubsub.Memory.FromTheStart.owed_until_acknowledged`).
-/

namespace RelayPubsub.Memory

open Lib Lib.Ledger

/-- **The call leaves the subscription to its consumers**, and its topic where it is. -/
structure LeavesAlone (name topic : Text) (call : BackendCall) : Prop where
  topic_stays : call ≠ .deleteTopic topic
  stays : call ≠ .deleteSubscription name
  time : ∀ time, call ≠ .seekToTime name time
  snapshot : ∀ snapshot, call ≠ .seekToSnapshot name snapshot

theorem leavesAlone_createTopic (name topic : Text) (spec : TopicSpec) :
    LeavesAlone name topic (.createTopic spec) := ⟨nofun, nofun, nofun, nofun⟩

theorem leavesAlone_createSubscription (name topic : Text) (spec : SubscriptionSpec) :
    LeavesAlone name topic (.createSubscription spec) := ⟨nofun, nofun, nofun, nofun⟩

theorem leavesAlone_publish (name topic topic' : Text) (messages : List NewMessage) :
    LeavesAlone name topic (.publish topic' messages) := ⟨nofun, nofun, nofun, nofun⟩

/-- **A message is still to be delivered**: it has not been taken yet, is leased, or waits. -/
def Owed (sub : SubscriptionState) (i : ℕ) : Prop :=
  sub.nextIndex ≤ i ∨ sub.Leased i ∨ sub.Queued i

/-- **A pull has copied the message to the dead-letter topic** of the subscription. -/
def DeadLettered (serde : SerdeJson) (name : Text) (steps : List Step) (message : RelayMessage) :
    Prop :=
  ∃ past s maxMessages sub policy dead, past ++ [s] <+: steps ∧ s.call = .pull name maxMessages ∧
    (stateAfter serde past).subscriptions[name]? = some sub ∧
    sub.spec.deadLetter = some policy ∧
    (stateAfter serde (past ++ [s])).topics[policy.topic]? = some dead ∧ ∃ copy ∈ dead.messages,
      copy.data = message.data ∧ copy.orderingKey = message.orderingKey ∧
      copy.attributes = (message.attributes.insert "x-zyvor-dead-letter-source" name).insert
        "x-zyvor-original-message-id" message.id

/-- **The whole log is for the subscription**: it is there, without a filter, and its cursor
was last set to the beginning. -/
structure FromTheStart (serde : SerdeJson) (name topic : Text) (steps : List Step) : Prop where
  there : ∃ sub, (stateAfter serde steps).subscriptions[name]? = some sub ∧
    sub.spec.topic = topic ∧ sub.spec.filter = []
  base_eq : (watch serde name steps).base = 0

section Step

variable {serde : SerdeJson} {name topic : Text} {past : List Step} {s : Step}

/-- The cursor is not set. -/
theorem LeavesAlone.seekTarget_eq (h : LeavesAlone name topic s.call) (st : State) :
    seekTarget name st s = none := by
  unfold seekTarget
  split
  · rename_i n time hcall
    rw [if_neg]
    rintro rfl
    exact h.time time hcall
  · rename_i n snapshot hcall
    rw [if_neg]
    rintro rfl
    exact h.snapshot snapshot hcall
  · rfl

/-- The subscription is still there: it is not deleted, and no pull drops it. -/
theorem LeavesAlone.there (h : LeavesAlone name topic s.call)
    (hfresh : (past ++ [s]).Pairwise Step.Apart)
    (hkeep : ∀ t ∈ past, t.call ≠ .deleteTopic topic) {sub : SubscriptionState}
    (hsub : (stateAfter serde past).subscriptions[name]? = some sub)
    (htopic : sub.spec.topic = topic) :
    ∃ sub', (stateAfter serde (past ++ [s])).subscriptions[name]? = some sub' := by
  have htouch := touch_of_exec serde name (stateAfter serde past) s
  rw [hsub, ← stateAfter_concat] at htouch
  rcases hafter : (stateAfter serde (past ++ [s])).subscriptions[name]? with - | sub'
  · rw [hafter] at htouch
    cases htouch with
    | drop _ _ hcause =>
      rcases hcause with hcall | ⟨maxMessages, -, hpanic⟩
      · exact absurd hcall h.stays
      · obtain ⟨topicState, p, htopicState, -, hp⟩ :=
          pullFrom_finishes hfresh hsub (htopic ▸ hkeep) maxMessages
        simp [pull, hsub, htopicState, hp] at hpanic
  · exact ⟨sub', rfl⟩

/-- Its topic and its filter are what they were. -/
theorem spec_of_step {sub sub' : SubscriptionState}
    (hsub : (stateAfter serde past).subscriptions[name]? = some sub)
    (hsub' : (stateAfter serde (past ++ [s])).subscriptions[name]? = some sub') :
    sub'.spec.topic = sub.spec.topic ∧ sub'.spec.filter = sub.spec.filter := by
  have hspec := specStep_of_exec serde name (stateAfter serde past) s
  rw [specAt, specAt, ← stateAfter_concat, hsub, hsub', Option.map_some, Option.map_some] at hspec
  generalize sub'.spec = spec' at hspec ⊢
  generalize sub.spec = spec at hspec ⊢
  cases hspec with
  | same _ => exact ⟨rfl, rfl⟩
  | @update _ arg mask _ _ => exact (applySubscriptionMask_frame spec arg mask).2
  | push _ => exact ⟨rfl, rfl⟩

/-- **A call that leaves the subscription alone** leaves it the whole log. -/
theorem FromTheStart.step (h : FromTheStart serde name topic past)
    (hfresh : (past ++ [s]).Pairwise Step.Apart)
    (hkeep : ∀ t ∈ past, t.call ≠ .deleteTopic topic) (hs : LeavesAlone name topic s.call) :
    FromTheStart serde name topic (past ++ [s]) := by
  obtain ⟨sub, hsub, htopic, hfilter⟩ := h.there
  obtain ⟨sub', hsub'⟩ := hs.there hfresh hkeep hsub htopic
  obtain ⟨htopic', hfilter'⟩ := spec_of_step hsub hsub'
  refine ⟨⟨sub', hsub', htopic'.trans htopic, hfilter'.trans hfilter⟩, ?_⟩
  rw [watch_concat, Watched.step_of_some (by rwa [watch_state]), hs.seekTarget_eq]
  exact h.base_eq

end Step

section Run

variable {serde : SerdeJson} {name topic : Text} {start steps : List Step}

/-- The log of a topic that stays has what it had. -/
theorem log_of_isPrefix {past : List Step} (hpast : past <+: steps)
    (hkeep : ∀ s ∈ steps, s.call ≠ .deleteTopic topic) :
    (stateAfter serde past).log topic <+: (stateAfter serde steps).log topic := by
  induction steps using List.reverseRecOn with
  | nil =>
    rw [List.prefix_nil.mp hpast]
  | append_singleton steps s ih =>
    rcases List.prefix_concat_iff.mp hpast with rfl | hpast
    · exact List.prefix_refl _
    · rw [stateAfter_concat]
      exact (ih hpast fun t ht => hkeep t (List.mem_append_left _ ht)).trans
        (log_of_exec (hkeep s (List.mem_append_right _ (List.mem_singleton_self s))))

/-- **A run that leaves it alone.** -/
theorem FromTheStart.run (h : FromTheStart serde name topic start)
    (hfresh : steps.Pairwise Step.Apart) (halone : ∀ s ∈ steps, LeavesAlone name topic s.call) :
    ∀ past, start <+: past → past <+: steps → FromTheStart serde name topic past := by
  intro past hstart
  obtain ⟨rest, rfl⟩ := hstart
  induction rest using List.reverseRecOn with
  | nil => exact fun _ => (List.append_nil start).symm ▸ h
  | append_singleton rest s ih =>
    intro hpast
    rw [← List.append_assoc] at hpast ⊢
    have hle : start ++ rest <+: steps := (List.prefix_append _ [s]).trans hpast
    exact (ih hle).step (hfresh.sublist hpast.sublist)
      (fun t ht => (halone t (hle.subset ht)).topic_stays)
      (halone s (hpast.subset (List.mem_append_right _ (List.mem_singleton_self s))))

/-- **Each message of the log is owed until it is acknowledged.** -/
theorem FromTheStart.owed_until_acknowledged (h : FromTheStart serde name topic start)
    (hbefore : ∀ past, past <+: start → past ≠ start →
      (stateAfter serde past).subscriptions[name]? = none)
    (hpre : start <+: steps) (hfresh : steps.Pairwise Step.Apart)
    (halone : ∀ s ∈ steps, LeavesAlone name topic s.call) :
    ∃ sub, (stateAfter serde steps).subscriptions[name]? = some sub ∧ sub.spec.topic = topic ∧
      ∀ i message, ((stateAfter serde steps).log topic)[i]? = some message →
        Owed sub i ∨ AckSent serde name steps i ∨ DeadLettered serde name steps message := by
  have hrun := h.run hfresh halone
  obtain ⟨⟨sub, hsub, htopic, -⟩, hbase⟩ := hrun steps hpre (List.prefix_refl _)
  refine ⟨sub, hsub, htopic, fun i message hmessage => ?_⟩
  rcases kept_or_ackSent hfresh hsub (hbase ▸ Nat.zero_le i) with hkept | hsent
  · by_cases hlt : i < sub.nextIndex
    · rcases hkept hlt with hdone | hleased | hqueued
      · -- it is acked, for a reason
        obtain ⟨past, s, hpast, hby, -⟩ := exists_ackedBy hfresh hsub hdone
        cases hby with
        | acknowledged hcall hmem hissued =>
          exact Or.inr (Or.inl ⟨past, s, _, _, hpast, hcall, hmem, hissued⟩)
        | @setAside _ sub₀ hcall hsub₀ haside =>
          have hstart : start <+: past := by
            rcases List.prefix_or_prefix_of_prefix hpre
              ((List.prefix_append past [s]).trans hpast) with hle | hle
            · exact hle
            · by_contra hnot
              have hnone := hbefore past hle fun heq => hnot (heq ▸ List.prefix_refl _)
              rw [hnone] at hsub₀
              cases hsub₀
          obtain ⟨sub₁, hsub₁, htopic₁, hfilter₁⟩ :=
            (hrun past hstart ((List.prefix_append past [s]).trans hpast)).there
          obtain rfl := Option.some.inj (hsub₁.symm.trans hsub₀)
          obtain ⟨topicState, message', htopicState, hmessage', haside⟩ := haside
          -- the log only grows, so it is the same message
          obtain rfl : message' = message := by
            have hlog := @log_of_isPrefix serde _ _ _ hpast fun t ht =>
              (halone t ht).topic_stays
            rw [← htopic₁, State.log_of_getElem? htopicState] at hlog
            have hthere := getElem?_of_isPrefix hlog hmessage'
            rw [htopic₁, hmessage] at hthere
            exact Option.some.inj hthere.symm
          cases haside with
          | filtered hrejects =>
            rw [filterRejects, if_pos hfilter₁] at hrejects
            cases hrejects
          | copied hpolicy hdead hcopy hdata hkey hattributes =>
            exact Or.inr (Or.inr ⟨past, s, _, _, _, _, hpast, hcall, hsub₀, hpolicy, hdead, _,
              hcopy, hdata, hkey, hattributes⟩)
      · exact Or.inl (Or.inr (Or.inl ((SubscriptionState.ledger_held_iff ..).mp hleased)))
      · exact Or.inl (Or.inr (Or.inr ((SubscriptionState.mem_ledger_waiting ..).mp hqueued)))
    · exact Or.inl (Or.inl (not_lt.mp hlt))
  · exact Or.inr (Or.inl hsent)

end Run

end RelayPubsub.Memory
