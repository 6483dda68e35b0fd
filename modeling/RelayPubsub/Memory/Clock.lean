import RelayPubsub.Memory.Dedup

/-!
# A clock that does not go back

As long as the clock does not go back, from one reading to the next and from one
call to the next, the messages of every log are in the order of their publication
times (`RelayPubsub.Memory.logsBy_stateAfter`). A publish stamps its whole batch
with one reading, a pull every dead letter with a new one.
-/

namespace RelayPubsub.Memory

open Lib

variable {serde : SerdeJson}

/-- **The clock does not go back** along the steps. -/
structure ClockMonotone (steps : List Step) : Prop where
  within : ∀ s ∈ steps, Monotone s.env.now
  across : steps.Pairwise fun s t => ∀ m n, s.env.now m ≤ t.env.now n

theorem ClockMonotone.of_isPrefix {steps steps' : List Step} (h : ClockMonotone steps)
    (hp : steps' <+: steps) : ClockMonotone steps' :=
  ⟨fun s hs => h.within s (hp.subset hs), h.across.sublist hp.sublist⟩

/-- Calls made one after another, each at a time of its own. -/
theorem clockMonotone_ofCalls {calls : List (Time × BackendCall)}
    (h : (calls.map Prod.fst).Pairwise (· ≤ ·)) : ClockMonotone (Run.ofCalls calls).steps where
  within := by
    intro s hs
    obtain ⟨k, hk, rfl⟩ := List.mem_mapIdx.mp hs
    exact monotone_const
  across := by
    rw [List.pairwise_map] at h
    rw [List.pairwise_iff_getElem] at h ⊢
    intro i j hi hj hij m n
    simp only [Run.ofCalls, List.getElem_mapIdx, Step.numbered]
    simp only [Run.ofCalls, List.length_mapIdx] at hi hj
    exact h i j hi hj hij

/-- **The logs are in the order of time**, and end before `τ`. -/
def LogsBy (τ : Time) (topics : StrMap TopicState) : Prop :=
  ∀ (name : Text) (topic : TopicState), topics[name]? = some topic →
    topic.messages.Pairwise (fun a b => a.publishedAt ≤ b.publishedAt) ∧
      ∀ m ∈ topic.messages, m.publishedAt ≤ τ

theorem LogsBy.mono {τ τ' : Time} {topics : StrMap TopicState} (h : LogsBy τ topics)
    (hle : τ ≤ τ') : LogsBy τ' topics := fun name topic htopic =>
  ⟨(h name topic htopic).1, fun m hm => ((h name topic htopic).2 m hm).trans hle⟩

/-- A log with later messages appended. -/
theorem ordered_append {τ : Time} {log new : List RelayMessage}
    (hlog : log.Pairwise fun a b => a.publishedAt ≤ b.publishedAt)
    (hby : ∀ m ∈ log, m.publishedAt ≤ τ) (hnew : ∀ m ∈ new, m.publishedAt = τ) :
    (log ++ new).Pairwise (fun a b => a.publishedAt ≤ b.publishedAt) ∧
      ∀ m ∈ log ++ new, m.publishedAt ≤ τ := by
  refine ⟨List.pairwise_append.mpr ⟨hlog, ?_, fun a ha b hb => ?_⟩, fun m hm => ?_⟩
  · refine List.pairwise_of_forall_mem_list fun a ha b hb => ?_
    rw [hnew a ha, hnew b hb]
  · rw [hnew b hb]
    exact hby a ha
  · rcases List.mem_append.mp hm with hm | hm
    · exact hby m hm
    · exact (hnew m hm).le

/-! ### Pulls -/

section Pull

variable {env : Env} {subscription topicName : Text} {topicLen : ℕ} {p p' : Pulling}

/-- A turn stamps a dead letter with the next reading. -/
theorem Turned.logsBy (h : Turned env subscription topicName topicLen p p')
    (hmono : Monotone env.now) (hlogs : LogsBy (env.now p.reads) p.topics) :
    LogsBy (env.now p'.reads) p'.topics := by
  cases h with
  | skip _ _ => exact hlogs
  | block _ _ _ _ _ => exact hlogs
  | @serve index sub _ message _ _ _ _ _ _ _ hserved =>
    cases hserved with
    | filtered _ => exact hlogs
    | delivered _ => exact hlogs
    | @dead name deadTopic hdead =>
      -- the pull with the index in hand and the attempt counted
      let q : Pulling := { p with sub := sub.countAttempt index }
      have hletter : ∀ m ∈ [deadMessage env subscription q message],
          m.publishedAt = env.now p.reads := by
        intro m hm
        rw [List.mem_singleton.mp hm]
        rfl
      obtain ⟨hdeadTopic, -⟩ := exists_of_deadLetterTopic hdead
      have hnext : env.now p.reads ≤ env.now (p.reads + 1) := hmono (Nat.le_succ _)
      intro other topic htopic
      simp only [deadLetter, Pulling.countAttempt] at htopic ⊢
      rcases eq_or_ne name other with rfl | hne
      · rw [Std.ExtTreeMap.getElem?_insert_self] at htopic
        obtain rfl := Option.some.inj htopic
        obtain ⟨hlog, hby⟩ := hlogs name deadTopic hdeadTopic
        obtain ⟨hlog', hby'⟩ := ordered_append hlog hby hletter
        exact ⟨hlog', fun m hm => (hby' m hm).trans hnext⟩
      · rw [getElem?_insert_of_ne hne] at htopic
        exact hlogs.mono hnext other topic htopic

theorem logsBy_of_turns
    (h : Relation.ReflTransGen (Turned env subscription topicName topicLen) p p')
    (hmono : Monotone env.now) (hlogs : LogsBy (env.now p.reads) p.topics) :
    LogsBy (env.now p'.reads) p'.topics := by
  induction h with
  | refl => exact hlogs
  | tail _ hturn ih => exact hturn.logsBy hmono ih

/-- **A pull keeps the logs in order**, also when it panics. -/
theorem logsBy_of_pull {st : State} {maxMessages : UInt32} (hmono : Monotone env.now)
    (hlogs : LogsBy (env.now 1) st.topics) :
    ∃ n, LogsBy (env.now n) (pull env st subscription maxMessages).2.topics := by
  unfold pull
  split
  · exact ⟨1, hlogs⟩
  split
  · exact ⟨1, hlogs⟩
  split
  · rename_i p hp
    simp only [answer_snd]
    exact ⟨p.reads, logsBy_of_turns (turns_of_finished hp) hmono hlogs⟩
  · rename_i p hp
    exact ⟨p.reads, logsBy_of_turns (turns_of_panicked hp).1 hmono hlogs⟩

end Pull

/-! ### Runs -/

/-- **A step keeps the logs in order**, which end before one of its readings. -/
theorem logsBy_of_exec {st : State} {s : Step} (hmono : Monotone s.env.now)
    (hlogs : LogsBy (s.env.now 0) st.topics) :
    ∃ n, LogsBy (s.env.now n) (exec serde st s).topics := by
  by_cases hpull : ∃ name maxMessages, s.call = .pull name maxMessages
  · obtain ⟨name, maxMessages, hcall⟩ := hpull
    simp only [exec, hcall]
    exact logsBy_of_pull hmono (hlogs.mono (hmono (Nat.zero_le 1)))
  refine ⟨0, fun name topic' htopic' => ?_⟩
  have hstep := topicStep_of_exec serde name st s
  rw [htopic'] at hstep
  generalize htopic : st.topics[name]? = before at hstep
  cases hstep with
  | same _ _ => exact hlogs name topic' htopic
  | create _ _ => exact ⟨List.Pairwise.nil, by simp⟩
  | @respec topic _ _ _ _ => exact hlogs name topic htopic
  | @publish topic messages _ _ =>
    obtain ⟨new, hnew, hdata⟩ :=
      appended_of_publish serde name s.env messages { topicState := topic }
    obtain ⟨hlog, hby⟩ := hlogs name topic htopic
    rw [TopicState.publish, hnew]
    exact ordered_append hlog hby fun m hm => (hdata m hm).1
  | pull hcall _ => exact absurd ⟨_, _, hcall⟩ hpull

/-- In every state of a run whose clock does not go back the logs end before one of the
readings of the last step. -/
theorem exists_logsBy_concat {past : List Step} {s : Step} (h : ClockMonotone (past ++ [s])) :
    ∃ n, LogsBy (s.env.now n) (stateAfter serde (past ++ [s])).topics := by
  rw [stateAfter_concat]
  refine logsBy_of_exec (h.within s (by simp)) ?_
  induction past using List.reverseRecOn generalizing s with
  | nil => exact fun name topic htopic => absurd htopic (by simp [stateAfter])
  | append_singleton past t ih =>
    -- what is in the logs is older than the first reading of this step
    have hpast : ClockMonotone (past ++ [t]) := h.of_isPrefix (List.prefix_append _ _)
    rw [stateAfter_concat]
    obtain ⟨n, hlogs⟩ := logsBy_of_exec (hpast.within t (by simp)) (ih hpast)
    exact hlogs.mono ((List.pairwise_append.mp h.across).2.2 t (by simp) s (by simp) n 0)

/-- **Every log is in the order of time**, in every state of a run whose clock does not
go back. -/
theorem ordered_stateAfter {steps : List Step} (h : ClockMonotone steps) {name : Text}
    {topic : TopicState} (htopic : (stateAfter serde steps).topics[name]? = some topic) :
    topic.messages.Pairwise fun a b => a.publishedAt ≤ b.publishedAt := by
  rcases steps.eq_nil_or_concat' with rfl | ⟨past, s, rfl⟩
  · simp [stateAfter] at htopic
  · obtain ⟨n, hlogs⟩ := exists_logsBy_concat h
    exact (hlogs name topic htopic).1

/-- It ends before whatever is later than all readings so far. -/
theorem logsBy_stateAfter {steps : List Step} (h : ClockMonotone steps) {τ : Time}
    (hτ : ∀ s ∈ steps, ∀ n, s.env.now n ≤ τ) : LogsBy τ (stateAfter serde steps).topics := by
  rcases steps.eq_nil_or_concat' with rfl | ⟨past, s, rfl⟩
  · exact fun name topic htopic => absurd htopic (by simp [stateAfter])
  · obtain ⟨n, hlogs⟩ := exists_logsBy_concat h
    exact hlogs.mono (hτ s (by simp) n)

end RelayPubsub.Memory
