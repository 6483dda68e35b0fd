import RelayPubsub.ActionGateway.Accepted
import RelayPubsub.Memory.LeftAlone
import RelayPubsub.RelayEvents.Startup

/-!
# A command that is accepted waits for the worker

The process from its first start on: `main` registers the actions topic and the worker's
subscription, and then commands are delivered, clients call the store, and the process is
restarted, in any order; the calls of a later start are among those of the clients. A command
that has been answered with success is in the state file, since the handler answers after
the store has written it (`RelayPubsub.ActionGateway.saved_of_publish`), and what is in the file
is not lost by a restart.

The calls that a store is made of are those the events have made since the first start
(`RelayPubsub.ActionGateway.callsAlong`), but for the ones that a restart has forgotten
(`RelayPubsub.ActionGateway.MadeOf`). So they are a run of the store, one that leaves the
subscription to its consumers, and the command is owed to the worker until it is acknowledged
(`RelayPubsub.ActionGateway.accepted_waits`).
-/

namespace RelayPubsub.ActionGateway

open Lib Memory RelayEvents

/-! ### What the file holds -/

/-- The state file has a message for a key. -/
def OnFile (crates : Crates) (topic : Text) (w : Observed) (key : Text) : Prop :=
  ∃ r ∈ w.gateway.saved.log topic, IsCommand crates w.received key r.attributes r.data

/-- **What has been accepted is in the file**, and what is in the file is in the store. -/
structure Filed (crates : Crates) (topic : Text) (w : Observed) : Prop where
  behind : w.gateway.saved.log topic <+: w.gateway.store.log topic
  byKey : ∀ (key : Text) (result : ActionResult), w.gateway.byKey[key]? = some result →
    OnFile crates topic w key
  published : ∀ key input, w.gateway.holder = some ⟨key, input, .published⟩ →
    OnFile crates topic w key

section File

variable {crates : Crates} {topic : Text} {w : Observed} {e : Event} {key : Text}

/-- A publish that succeeds has written the file. -/
theorem persistFault_of_publish {serde : SerdeJson} {env : Env} {st : State}
    {messages : List NewMessage} {ids : List Text}
    (h : (Memory.publish serde env st topic messages).1 = .ok ids) : env.persistFault = none := by
  unfold Memory.publish at h
  split at h
  · cases h
  split at h
  · cases h
  unfold answer persistLocked at h
  rcases hfault : env.persistFault with - | fault
  · rfl
  · rw [hfault] at h
    cases fault <;> cases h

theorem saved_of_publish {input : ActionIn} {messages : List NewMessage} {env : Env}
    {ids : List Text} (hholder : w.gateway.holder = some ⟨key, input, .prepared messages⟩)
    (hids : (Memory.publish crates.serde env w.gateway.store topic messages).1 = .ok ids) :
    (w.step crates topic (.publish env)).gateway.saved =
      (w.step crates topic (.publish env)).gateway.store := by
  have hcall := @storeCall_of_prepared topic w.gateway key input messages env hholder
  rcases (@stepped_of_step crates topic w.gateway (.publish env)).store with
    ⟨k, s, hcall', hstore, hsaved⟩ | ⟨hnone, -, -, -⟩ | ⟨heq, -, -⟩
  · obtain ⟨rfl, rfl⟩ := Prod.mk.inj (Option.some.inj (hcall.symm.trans hcall'))
    have hfault := persistFault_of_publish hids
    have hdone : outcome crates.serde w.gateway.store ⟨.publish topic messages, env⟩ =
        some .done := by
      simp only [outcome, hids, Outcome.of]
    change (w.gateway.step crates topic (.publish env)).1.saved =
      (w.gateway.step crates topic (.publish env)).1.store
    rw [hstore, hsaved]
    exact if_pos ⟨persists_of_done hfault hdone, hfault⟩
  · rw [hcall] at hnone
    cases hnone
  · cases heq

/-- What is in the file stays there. -/
theorem saved_log_step (hbehind : w.gateway.saved.log topic <+: w.gateway.store.log topic)
    (he : ∀ s, e = .backend s → s.call ≠ .deleteTopic topic) :
    w.gateway.saved.log topic <+: (w.step crates topic e).gateway.saved.log topic ∧
      (w.step crates topic e).gateway.saved.log topic <+:
        (w.step crates topic e).gateway.store.log topic := by
  change _ <+: (w.gateway.step crates topic e).1.saved.log topic ∧
    (w.gateway.step crates topic e).1.saved.log topic <+:
      (w.gateway.step crates topic e).1.store.log topic
  rcases (@stepped_of_step crates topic w.gateway e).store with
    ⟨key, s, hcall, hstore, hsaved⟩ | ⟨-, -, hstore, hsaved⟩ | ⟨-, hstore, hsaved⟩
  · have hs : s.call ≠ .deleteTopic topic := by
      rcases storeCall_cases hcall with ⟨-, heq⟩ | ⟨k, input, messages, env, -, -, -, rfl⟩
      · exact he s heq
      · exact nofun
    have hgrown : w.gateway.store.log topic <+: (exec crates.serde w.gateway.store s).log topic :=
      log_of_exec hs
    rw [hstore, hsaved]
    unfold Gateway.call
    dsimp only
    split_ifs
    · exact ⟨hbehind.trans hgrown, List.prefix_refl _⟩
    · exact ⟨List.prefix_refl _, hbehind.trans hgrown⟩
  · rw [hstore, hsaved]
    exact ⟨List.prefix_refl _, hbehind⟩
  · rw [hstore, hsaved]
    exact ⟨List.prefix_refl _, List.prefix_refl _⟩

theorem OnFile.step (h : OnFile crates topic w key) (hf : Filed crates topic w)
    (he : ∀ s, e = .backend s → s.call ≠ .deleteTopic topic) :
    OnFile crates topic (w.step crates topic e) key := by
  obtain ⟨r, hr, hcommand⟩ := h
  exact ⟨r, (saved_log_step hf.behind he).1.subset hr,
    hcommand.mono fun p hp => List.mem_append_left _ hp⟩

/-- **What has been accepted stays in the file**, also over a restart. -/
theorem Filed.step (hf : Filed crates topic w) (hk : Kept crates topic w)
    (hr : Requests crates topic w) (he : ∀ s, e = .backend s → s.call ≠ .deleteTopic topic)
    (hfirst : Unclaimed crates w e) : Filed crates topic (w.step crates topic e) := by
  have hstepped := @stepped_of_step crates topic w.gateway e
  refine ⟨(saved_log_step hf.behind he).2, fun k result hresult => ?_, fun k input hholder => ?_⟩
  · rcases hstepped.results.1 k result hresult with hsame | ⟨input, now, -, hholder⟩
    · exact (hf.byKey k result hsame).step hf he
    · exact (hf.published k input hholder).step hf he
  · rcases hstepped.holds hholder with hsame | ⟨messages, env, ids, rfl, hprepared, hids⟩
    · exact (hf.published k input hsame).step hf he
    · -- it is in the store, and the file has just been written
      obtain ⟨r, hmem, hcommand⟩ :=
        enqueued_of_publish hk hr hprepared hids (hfirst env _ _ _ rfl hprepared)
      refine ⟨r, ?_, hcommand⟩
      rw [saved_of_publish hprepared hids]
      exact hmem

theorem filed_initial : Filed crates topic {} := ⟨List.prefix_refl _, by simp, nofun⟩

end File

/-! ### The calls a store is made of -/

/-- What an event reads from outside when it calls the store. -/
def Event.env : Event → Option Env
  | .publish env => some env
  | .backend s => some s.env
  | _ => none

/-- The two events draw no random identifier in common. -/
def Event.Apart (e e' : Event) : Prop :=
  ∀ env ∈ e.env, ∀ env' ∈ e'.env, ∀ m n, (env.uuid m).text ≠ (env'.uuid n).text

/-- **The calls of the store that events make**, one after the other: those of other clients,
and the publishes of the handler. -/
def callsAlong (crates : Crates) (topic : Text) (w : Observed) : List Event → List Step
  | [] => []
  | e :: events =>
    ((w.gateway.storeCall topic e).map Prod.snd).toList ++
      callsAlong crates topic (w.step crates topic e) events

/-- **The store is made of `steps`, and its file of `saved`**: calls that the events have made,
from those of the first start on. -/
structure MadeOf (crates : Crates) (name topic : Text) (start : List Step) (events : List Event)
    (steps saved : List Step) : Prop where
  store : (observe crates topic events).gateway.store = stateAfter crates.serde steps
  file : (observe crates topic events).gateway.saved = stateAfter crates.serde saved
  from_start : start <+: saved
  behind : saved <+: steps
  made : steps.Sublist (callsAlong crates topic {} events)
  alone : ∀ s ∈ steps, LeavesAlone name topic s.call

section Made

variable {crates : Crates} {topic name : Text} {w : Observed} {e : Event} {start : List Step}
  {events : List Event} {steps saved : List Step}

/-- The event of a call of the store reads what the call reads. -/
theorem env_of_storeCall {g : Gateway} {key : Option Text} {s : Step}
    (h : g.storeCall topic e = some (key, s)) : e.env = some s.env := by
  rcases storeCall_cases h with ⟨-, rfl⟩ | ⟨k, input, messages, env, -, -, rfl, rfl⟩
  · rfl
  · rfl

/-- One more event. -/
theorem callsAlong_concat (w : Observed) (events : List Event) (e : Event) :
    callsAlong crates topic w (events ++ [e]) = callsAlong crates topic w events ++
      (((Machine.run (Observed.step crates topic) w events).gateway.storeCall topic e).map
        Prod.snd).toList := by
  induction events generalizing w with
  | nil => simp [callsAlong]
  | cons e' events ih =>
    rw [List.cons_append, callsAlong, callsAlong, ih, List.append_assoc, Machine.run_cons]

/-- The calls read what their events read. -/
theorem env_callsAlong (w : Observed) (events : List Event) :
    ((callsAlong crates topic w events).map (·.env)).Sublist (events.filterMap Event.env) := by
  induction events generalizing w with
  | nil => exact List.Sublist.slnil
  | cons e events ih =>
    rw [callsAlong, List.map_append]
    rcases hcall : w.gateway.storeCall topic e with - | ⟨key, s⟩
    · exact (ih _).trans ((List.sublist_cons_self e events).filterMap _)
    · rw [List.filterMap_cons_some (env_of_storeCall hcall)]
      exact (ih _).cons_cons s.env

/-- **One more event**: the call it makes, if any, is made after the others, and a restart
goes back to those the file has seen. -/
theorem MadeOf.step (h : MadeOf crates name topic start events steps saved)
    (he : ∀ s, e = .backend s → LeavesAlone name topic s.call) :
    ∃ steps' saved', MadeOf crates name topic start (events ++ [e]) steps' saved' := by
  set w := observe crates topic events with hw
  have hnext : observe crates topic (events ++ [e]) = w.step crates topic e :=
    Machine.run_concat ..
  have hcalls := @callsAlong_concat crates topic {} events e
  have hmore : (callsAlong crates topic {} events).Sublist
      (callsAlong crates topic {} (events ++ [e])) := by
    rw [hcalls]
    exact List.sublist_append_left _ _
  rcases (@stepped_of_step crates topic w.gateway e).store with
    ⟨key, s, hcall, hstore, hsaved⟩ | ⟨-, -, hstore, hsaved⟩ | ⟨-, hstore, hsaved⟩
  · have hs : LeavesAlone name topic s.call := by
      rcases storeCall_cases hcall with ⟨-, heq⟩ | ⟨k, input, messages, env, -, -, -, rfl⟩
      · exact he s heq
      · exact leavesAlone_publish _ _ _ _
    have hstore' : (observe crates topic (events ++ [e])).gateway.store =
        stateAfter crates.serde (steps ++ [s]) := by
      rw [hnext, stateAfter_concat, ← h.store]
      exact hstore
    have hmade : (steps ++ [s]).Sublist (callsAlong crates topic {} (events ++ [e])) := by
      rw [hcalls]
      refine h.made.append ?_
      change [s].Sublist ((w.gateway.storeCall topic e).map Prod.snd).toList
      rw [hcall]
      exact List.Sublist.refl _
    have halone : ∀ t ∈ steps ++ [s], LeavesAlone name topic t.call := by
      intro t ht
      rcases List.mem_append.mp ht with ht | ht
      · exact h.alone t ht
      · exact List.mem_singleton.mp ht ▸ hs
    have hbehind : saved <+: steps ++ [s] := h.behind.trans (List.prefix_append _ _)
    by_cases hpersists : persists crates.serde w.gateway.store s ∧ s.env.persistFault = none
    · refine ⟨steps ++ [s], steps ++ [s], hstore', ?_, h.from_start.trans hbehind,
        List.prefix_refl _, hmade, halone⟩
      rw [← hstore', hnext]
      exact (hsaved.trans (if_pos hpersists)).trans hstore.symm
    · refine ⟨steps ++ [s], saved, hstore', ?_, h.from_start, hbehind, hmade, halone⟩
      rw [hnext, ← h.file]
      exact hsaved.trans (if_neg hpersists)
  · refine ⟨steps, saved, ?_, ?_, h.from_start, h.behind, h.made.trans hmore, h.alone⟩
    · rw [hnext, ← h.store]
      exact hstore
    · rw [hnext, ← h.file]
      exact hsaved
  · refine ⟨saved, saved, ?_, ?_, h.from_start, List.prefix_refl _,
      (h.behind.sublist.trans h.made).trans hmore, fun s hs => h.alone s (h.behind.subset hs)⟩
    · rw [hnext, ← h.file]
      exact hstore
    · rw [hnext, ← h.file]
      exact hsaved

/-- The calls draw their random identifiers apart. -/
theorem MadeOf.fresh (h : MadeOf crates name topic start events steps saved)
    (hfresh : events.Pairwise Event.Apart) : steps.Pairwise Step.Apart := by
  have henvs : (events.filterMap Event.env).Pairwise fun env env' =>
      ∀ m n, (env.uuid m).text ≠ (env'.uuid n).text := by
    rw [List.pairwise_filterMap]
    exact hfresh.imp fun hap env henv env' henv' => hap env henv env' henv'
  have hsteps := List.pairwise_map.mp
    (henvs.sublist ((h.made.map _).trans (env_callsAlong {} events)))
  exact hsteps

end Made

/-! ### The first start -/

/-- The calls of the first start, as events. -/
def startEvents (config : Config) (env : ℕ → Env) : List Event :=
  (config.startSteps env).map .backend

section Start

variable {crates : Crates} {config : Config} {env : ℕ → Env}

theorem store_backend (topic : Text) (steps : List Step) :
    (observe crates topic (steps.map .backend)).gateway.store = stateAfter crates.serde steps := by
  induction steps using List.reverseRecOn with
  | nil => rfl
  | append_singleton steps s ih =>
    unfold observe at ih ⊢
    rw [List.map_append, List.map_singleton, Machine.run_concat, stateAfter_concat, ← ih]
    rfl

/-- The calls of other clients. -/
theorem callsAlong_backend (topic : Text) (w : Observed) (steps : List Step) :
    callsAlong crates topic w (steps.map .backend) = steps := by
  induction steps generalizing w with
  | nil => rfl
  | cons s steps ih =>
    rw [List.map_cons, callsAlong, ih]
    rfl

/-- A call that succeeds has been written to the file. -/
theorem saved_backend (topic : Text) {steps : List Step} {s : Step}
    (hdone : outcome crates.serde (stateAfter crates.serde steps) s = some .done)
    (hfault : s.env.persistFault = none) :
    (observe crates topic ((steps ++ [s]).map .backend)).gateway.saved =
      stateAfter crates.serde (steps ++ [s]) := by
  have hbefore := @store_backend crates topic steps
  have hpersists := persists_of_done hfault hdone
  unfold observe at hbefore ⊢
  rw [List.map_append, List.map_singleton, Machine.run_concat, stateAfter_concat, ← hbefore]
  rw [← hbefore] at hpersists
  exact if_pos ⟨hpersists, hfault⟩

/-- The calls of a start, the last one apart. -/
theorem exists_startSteps (env : ℕ → Env) : ∃ creates last,
    config.startSteps env = creates ++ [last] ∧
      creates.map (·.call) = config.registered.map (fun name => .createTopic { name }) ∧
      last.call = .createSubscription config.actionsSpec := by
  obtain ⟨creates, lasts, hsteps, hcreates, hlast⟩ :=
    List.map_eq_append_iff.mp (@call_startSteps config env)
  obtain ⟨last, rfl, hcall⟩ := List.map_eq_singleton_iff.mp hlast
  exact ⟨creates, last, hsteps, hcreates, hcall⟩

/-- Before the last call of the first start there is no subscription. -/
theorem subscriptions_before_start {past : List Step} (hpast : past <+: config.startSteps env)
    (hne : past ≠ config.startSteps env) (serde : SerdeJson) :
    (stateAfter serde past).subscriptions = ∅ := by
  obtain ⟨creates, last, hsteps, hcreates, -⟩ := @exists_startSteps config env
  rw [hsteps] at hpast hne
  have hle : past <+: creates := (List.prefix_concat_iff.mp hpast).resolve_left hne
  have hcalls : past.map (·.call) =
      (config.registered.take past.length).map fun name => .createTopic { name } := by
    rw [List.prefix_iff_eq_take.mp hle, List.map_take, hcreates, ← List.map_take, List.length_take,
      min_eq_left hle.length_le]
  exact (topicsThere_run (fun _ hname => config.registered_valid (List.mem_of_mem_take hname))
    hcalls).subscriptions

/-- The last call succeeds, and writes the file. -/
theorem outcome_start {creates : List Step} {last : Step} (serde : SerdeJson)
    (hcreates : creates.map (·.call) = config.registered.map fun name => .createTopic { name })
    (hlast : last.call = .createSubscription config.actionsSpec)
    (hfault : last.env.persistFault = none) :
    outcome serde (stateAfter serde creates) last = some .done := by
  have hthere : TopicsThere config.registered {} (stateAfter serde creates) :=
    topicsThere_run (fun _ => config.registered_valid) hcreates
  have hnew : config.actionsSpec.name ∉ (stateAfter serde creates).subscriptions := by
    rw [hthere.subscriptions]
    simp
  obtain ⟨topic, htopic, -⟩ := hthere.exists_topic actionsTopic_mem
  rw [outcome]
  simp only [hlast, createSubscription_actions hnew htopic, answer, persistLocked, hfault]
  rfl

/-- **After the first start** the store and its file are made of its calls. -/
theorem madeOf_start (crates : Crates) (henv : ∀ k, (env k).persistFault = none) :
    MadeOf crates config.actionsSubscription config.actionsTopic (config.startSteps env)
      (startEvents config env) (config.startSteps env) (config.startSteps env) where
  store := store_backend config.actionsTopic (config.startSteps env)
  file := by
    obtain ⟨creates, last, hsteps, hcreates, hlast⟩ := @exists_startSteps config env
    have hfault : last.env.persistFault = none := by
      have hmem : last ∈ config.startSteps env := by
        rw [hsteps]
        exact List.mem_append_right _ (List.mem_singleton_self last)
      rw [Config.startSteps] at hmem
      obtain ⟨k, hk, rfl⟩ := List.mem_mapIdx.mp hmem
      exact henv k
    unfold startEvents
    rw [hsteps]
    exact saved_backend _ (outcome_start crates.serde hcreates hlast hfault) hfault
  from_start := List.prefix_refl _
  behind := List.prefix_refl _
  made := by
    unfold startEvents
    rw [callsAlong_backend]
  alone s hs := by
    have hcall : s.call ∈ config.startup :=
      @call_startSteps config env ▸ List.mem_map_of_mem hs
    rcases List.mem_append.mp hcall with hcall | hcall
    · obtain ⟨name, -, hname⟩ := List.mem_map.mp hcall
      exact hname ▸ leavesAlone_createTopic _ _ _
    · rw [List.mem_singleton.mp hcall]
      exact leavesAlone_createSubscription _ _ _

/-- **The subscription of the worker** has all actions to go through. -/
theorem fromTheStart_start (serde : SerdeJson) :
    FromTheStart serde config.actionsSubscription config.actionsTopic (config.startSteps env) := by
  have hregisters : Registers config {} (stateAfter serde (config.startSteps env)) :=
    registers_run (call_startSteps env)
  have hsub : (stateAfter serde (config.startSteps env)).subscriptions[
      config.actionsSubscription]? = some (.created config.actionsSpec 0) := by
    rw [hregisters.subscriptions, if_pos rfl, Std.ExtTreeMap.getElem?_empty, Option.none_or,
      Std.ExtTreeMap.getElem?_empty]
    rfl
  refine ⟨⟨_, hsub, rfl, rfl⟩, ?_⟩
  obtain ⟨creates, last, hsteps, -, -⟩ := @exists_startSteps config env
  have hnone : (stateAfter serde creates).subscriptions = ∅ := by
    refine @subscriptions_before_start config env creates ?_ ?_ serde
    · exact hsteps ▸ List.prefix_append _ _
    · rw [hsteps]
      simp
  rw [hsteps, stateAfter_concat] at hsub
  rw [hsteps, watch_concat, Watched.step_of_none (by rw [watch_state, hnone]; simp)
    (by rwa [watch_state])]
  rfl

end Start

/-! ### The statement -/

/-- **The command of a key waits for the worker**: it is on the actions topic, and owed to the
worker's subscription, unless somebody has sent an acknowledgement for it, or a pull has copied
it to a dead-letter topic, in one of the calls that the store is made of. -/
def Waits (crates : Crates) (config : Config) (events : List Event) (key : Text) : Prop :=
  let w := observe crates config.actionsTopic events
  ∃ steps, w.gateway.store = stateAfter crates.serde steps ∧
    steps.Sublist (callsAlong crates config.actionsTopic {} events) ∧
    ∃ sub i r, w.gateway.store.subscriptions[config.actionsSubscription]? = some sub ∧
      sub.spec.topic = config.actionsTopic ∧
      (w.gateway.store.log config.actionsTopic)[i]? = some r ∧
      IsCommand crates w.received key r.attributes r.data ∧
      (Owed sub i ∨ AckSent crates.serde config.actionsSubscription steps i ∨
        DeadLettered crates.serde config.actionsSubscription steps r)

section Run

variable {crates : Crates} {config : Config} {env : ℕ → Env} {rest events : List Event}

/-- The calls of the first start leave the subscription alone as well. -/
theorem alone_of_start (henv : ∀ k, (env k).persistFault = none)
    (halone : ∀ s, .backend s ∈ rest →
      LeavesAlone config.actionsSubscription config.actionsTopic s.call) (s : Step)
    (hs : .backend s ∈ startEvents config env ++ rest) :
    LeavesAlone config.actionsSubscription config.actionsTopic s.call := by
  rcases List.mem_append.mp hs with hs | hs
  · obtain ⟨s', hs', heq⟩ := List.mem_map.mp hs
    rw [← Event.backend.inj heq]
    exact (madeOf_start noCrates henv).alone s' hs'
  · exact halone s hs

/-- **A run keeps what has been accepted in the file.** -/
theorem filed_observe {topic : Text}
    (hkeep : ∀ s, .backend s ∈ events → s.call ≠ .deleteTopic topic)
    (hfirst : Machine.Guarded (Observed.step crates topic) (Unclaimed crates) {} events) :
    Filed crates topic (observe crates topic events) := by
  refine Machine.invariant (P := fun _ w => Filed crates topic w) filed_initial
    (fun pre e hpre hf => ?_) events (List.prefix_refl _)
  have hle : pre <+: events := (List.prefix_append pre [e]).trans hpre
  obtain ⟨hk, hr, -⟩ := backed_observe (fun s hs => hkeep s (hle.subset hs))
    (hfirst.of_isPrefix hle)
  exact hf.step hk hr (fun s hs => hkeep s (hpre.subset (by simp [hs]))) (hfirst pre e hpre)

/-- The store and its file after the first start, and from then on. -/
theorem exists_madeOf (henv : ∀ k, (env k).persistFault = none)
    (halone : ∀ s, .backend s ∈ rest →
      LeavesAlone config.actionsSubscription config.actionsTopic s.call) :
    ∃ steps saved, MadeOf crates config.actionsSubscription config.actionsTopic
      (config.startSteps env) (startEvents config env ++ rest) steps saved := by
  induction rest using List.reverseRecOn with
  | nil =>
    rw [List.append_nil]
    exact ⟨_, _, madeOf_start crates henv⟩
  | append_singleton rest e ih =>
    obtain ⟨steps, saved, hmade⟩ := ih fun s hs => halone s (List.mem_append_left _ hs)
    rw [← List.append_assoc]
    exact hmade.step fun s hs => halone s (by simp [hs])

/-- **What is in the file waits for the worker.** -/
theorem waits_of_onFile {key : Text} (henv : ∀ k, (env k).persistFault = none)
    (hfresh : (startEvents config env ++ rest).Pairwise Event.Apart)
    (halone : ∀ s, .backend s ∈ rest →
      LeavesAlone config.actionsSubscription config.actionsTopic s.call)
    (hf : Filed crates config.actionsTopic
      (observe crates config.actionsTopic (startEvents config env ++ rest)))
    (hkey : OnFile crates config.actionsTopic
      (observe crates config.actionsTopic (startEvents config env ++ rest)) key) :
    Waits crates config (startEvents config env ++ rest) key := by
  obtain ⟨steps, saved, hmade⟩ := @exists_madeOf crates config env rest henv halone
  obtain ⟨r, hr, hcommand⟩ := hkey
  obtain ⟨i, hi⟩ := List.mem_iff_getElem?.mp (hf.behind.subset hr)
  obtain ⟨sub, hsub, htopic, howed⟩ := (fromTheStart_start crates.serde).owed_until_acknowledged
    (fun past hpast hne => by
      rw [subscriptions_before_start hpast hne]
      simp)
    (hmade.from_start.trans hmade.behind) (hmade.fresh hfresh) hmade.alone
  refine ⟨steps, hmade.store, hmade.made, sub, i, r, ?_, htopic, hi, hcommand, howed i r ?_⟩
  · rw [hmade.store]
    exact hsub
  · rw [← hmade.store]
    exact hi

/-- The answer to a command is given after the first start. -/
theorem start_of_result {pre : List Event} {e : Event} {p : Text × ActionResult}
    (hpre : pre ++ [e] <+: startEvents config env ++ rest)
    (hresult : p ∈ resultOf ((observe crates config.actionsTopic pre).gateway.step crates
      config.actionsTopic e).2) : startEvents config env <+: pre := by
  rcases List.prefix_or_prefix_of_prefix hpre (List.prefix_append (startEvents config env) rest)
    with hle | hle
  · -- the calls of the start are answered to nobody
    obtain ⟨s, -, rfl⟩ := List.mem_map.mp (hle.subset (List.mem_append_right _
      (List.mem_singleton_self e)))
    cases hresult
  · rcases List.prefix_concat_iff.mp hle with heq | hle
    · have hlast : e ∈ startEvents config env := heq ▸ by simp
      obtain ⟨s, -, rfl⟩ := List.mem_map.mp hlast
      cases hresult
    · exact hle

end Run

/-- **An accepted command waits for the worker.** The process starts, with a state file that
can be written; then commands are delivered, clients call the store, and the process is
restarted, in any order, but nobody deletes the actions topic or the worker's subscription, or
sets its cursor, and no client uses the key of a command as an id before. Whenever a command is
answered with success, it is from then on in the log of the actions topic, in every state, and
owed to the worker until it is acknowledged. -/
theorem accepted_waits (crates : Crates) (config : Config) (env : ℕ → Env) (rest : List Event)
    (henv : ∀ k, (env k).persistFault = none)
    (hfresh : (startEvents config env ++ rest).Pairwise Event.Apart)
    (halone : ∀ s, .backend s ∈ rest →
      LeavesAlone config.actionsSubscription config.actionsTopic s.call)
    (hfirst : Machine.Guarded (Observed.step crates config.actionsTopic) (Unclaimed crates) {}
      (startEvents config env ++ rest)) :
    ∀ pre e key result, pre ++ [e] <+: startEvents config env ++ rest →
      (key, result) ∈
        resultOf ((observe crates config.actionsTopic pre).gateway.step crates
          config.actionsTopic e).2 →
      ∀ events, pre ++ [e] <+: events → events <+: startEvents config env ++ rest →
        Waits crates config events key := by
  intro pre e key result hpre hresult events hevents hle
  have hkeep : ∀ s, .backend s ∈ startEvents config env ++ rest →
      s.call ≠ .deleteTopic config.actionsTopic :=
    fun s hs => (alone_of_start henv halone s hs).topic_stays
  have hfiled : ∀ mid, mid <+: startEvents config env ++ rest →
      Filed crates config.actionsTopic (observe crates config.actionsTopic mid) :=
    fun mid hmid => filed_observe (fun s hs => hkeep s (hmid.subset hs)) (hfirst.of_isPrefix hmid)
  have hstep : ∀ mid e key, mid ++ [e] <+: startEvents config env ++ rest →
      OnFile crates config.actionsTopic (observe crates config.actionsTopic mid) key →
      OnFile crates config.actionsTopic (observe crates config.actionsTopic (mid ++ [e])) key := by
    intro mid e key hmid hkey
    have hbefore := hfiled mid ((List.prefix_append mid [e]).trans hmid)
    unfold observe at hkey hbefore ⊢
    rw [Machine.run_concat]
    exact hkey.step hbefore fun s hs => hkeep s (hmid.subset (by simp [hs]))
  -- the command is in the file when it is answered
  have hanswered : OnFile crates config.actionsTopic (observe crates config.actionsTopic pre)
      key := by
    have hbefore := hfiled pre ((List.prefix_append pre [e]).trans hpre)
    rcases (@stepped_of_step crates config.actionsTopic
      (observe crates config.actionsTopic pre).gateway e).results.2 _ hresult with
      hsame | ⟨input, now, -, hholder⟩
    · exact hbefore.byKey key result hsame
    · exact hbefore.published key input hholder
  -- and stays there
  have hkey : OnFile crates config.actionsTopic (observe crates config.actionsTopic events)
      key := by
    obtain ⟨more, rfl⟩ := (List.prefix_append pre [e]).trans hevents
    clear hevents
    induction more using List.reverseRecOn with
    | nil => exact (List.append_nil pre).symm ▸ hanswered
    | append_singleton more e' ih =>
      rw [← List.append_assoc] at hle ⊢
      exact hstep _ e' key hle (ih ((List.prefix_append _ [e']).trans hle))
  obtain ⟨later, rfl⟩ : startEvents config env <+: events :=
    (start_of_result hpre hresult).trans ((List.prefix_append pre [e]).trans hevents)
  have hlater : later <+: rest := (List.prefix_append_right_inj _).mp hle
  exact waits_of_onFile henv (hfresh.sublist hle.sublist)
    (fun s hs => halone s (hlater.subset hs)) (hfiled _ hle) hkey

/-! ### One command, and a restart -/

/-- The calls of the first start of a gateway as it is configured by default. -/
def sampleStart : List Event := startEvents {} fun k => sampleEnv (k + 1)

/-- A command is delivered, and the process restarted. -/
def sampleRest : List Event :=
  [.request sampleRequest, .acquire 0, .describe, .prepare, .publish (sampleEnv 0), .finish 1,
    .restart]

theorem apart_sampleEnv {k k' : ℕ} (h : k ≠ k') (m n : ℕ) :
    ((sampleEnv k).uuid m).text ≠ ((sampleEnv k').uuid n).text :=
  fun heq => h (Uuid.numbered_injective heq).1

theorem sampleStart_apart : (sampleStart ++ sampleRest).Pairwise Event.Apart := by
  refine List.pairwise_append.mpr ⟨?_, ?_, fun e he e' he' => ?_⟩
  · unfold sampleStart startEvents
    rw [List.pairwise_map, Config.startSteps, List.pairwise_iff_getElem]
    intro i j hi hj hij env henv env' henv'
    rw [List.getElem_mapIdx] at henv henv'
    obtain rfl := Option.some.inj henv
    obtain rfl := Option.some.inj henv'
    exact apart_sampleEnv (by omega)
  · simp [sampleRest, Event.Apart, Event.env]
  · obtain ⟨s, hs, rfl⟩ := List.mem_map.mp he
    rw [Config.startSteps] at hs
    obtain ⟨k, hk, rfl⟩ := List.mem_mapIdx.mp hs
    intro env henv env' henv'
    obtain rfl := Option.some.inj henv
    have hone : env' = sampleEnv 0 := by
      simp only [sampleRest, List.mem_cons, List.not_mem_nil, or_false] at he'
      rcases he' with rfl | rfl | rfl | rfl | rfl | rfl | rfl <;> cases henv'
      rfl
    rw [hone]
    exact apart_sampleEnv (Nat.succ_ne_zero k)

/-- The command is published where nothing has been published before. -/
theorem sampleRest_unclaimed :
    Machine.Guarded (Observed.step noCrates (Config.actionsTopic {})) (Unclaimed noCrates) {}
      (sampleStart ++ sampleRest) := by
  intro pre e hpre env _ _ _ he _ m hm
  subst he
  have hempty : (observe noCrates (Config.actionsTopic {})
      (sampleStart ++ sampleRest.take 4)).history.published.accepted.isEmpty := by decide +kernel
  have hpre' : pre = sampleStart ++ sampleRest.take 4 := by
    rcases List.prefix_or_prefix_of_prefix hpre (List.prefix_append sampleStart sampleRest) with
      hle | hle
    · obtain ⟨s, -, heq⟩ := List.mem_map.mp (hle.subset (List.mem_append_right _
        (List.mem_singleton_self _)))
      cases heq
    · rcases List.prefix_concat_iff.mp hle with heq | ⟨rest, rfl⟩
      · have hlast : Event.publish env ∈ sampleStart := heq ▸ by simp
        obtain ⟨s, -, heq⟩ := List.mem_map.mp hlast
        cases heq
      · rw [List.append_assoc, List.prefix_append_right_inj] at hpre
        -- the command is published once, at the fifth place
        have hat : sampleRest[rest.length]? = some (.publish env) :=
          getElem?_of_isPrefix hpre (by simp)
        have hfour : rest.length = 4 := by
          have hlt : rest.length < 7 := (List.getElem?_eq_some_iff.mp hat).1
          unfold sampleRest at hat
          interval_cases rest.length <;> simp_all
        rw [List.prefix_iff_eq_take.mp ((List.prefix_append rest [_]).trans hpre), hfour]
  rw [hpre'] at hm
  change ((observe noCrates (Config.actionsTopic {})
    (sampleStart ++ sampleRest.take 4)).history.published.accepted.filter _).head? = _ at hm
  rw [List.isEmpty_iff.mp hempty] at hm
  cases hm

/-- After the restart the command still waits for the worker. -/
theorem sampleCommand_waits : Waits noCrates {} (sampleStart ++ sampleRest) "k" := by
  have hanswer : (resultOf ((observe noCrates (Config.actionsTopic {})
      (sampleStart ++ sampleRest.take 5)).gateway.step noCrates (Config.actionsTopic {})
        (.finish 1)).2).map Prod.fst = ["k".toList] := by decide +kernel
  have hmem : "k".toList ∈ (resultOf ((observe noCrates (Config.actionsTopic {})
      (sampleStart ++ sampleRest.take 5)).gateway.step noCrates (Config.actionsTopic {})
        (.finish 1)).2).map Prod.fst := by
    rw [hanswer]
    exact List.mem_singleton_self _
  obtain ⟨⟨key, result⟩, hresult, hkey⟩ := List.mem_map.mp hmem
  have hpre : sampleStart ++ sampleRest.take 5 ++ [.finish 1] <+: sampleStart ++ sampleRest :=
    ⟨[.restart], by simp [sampleRest]⟩
  rw [← hkey]
  exact accepted_waits noCrates {} (fun k => sampleEnv (k + 1)) sampleRest (fun _ => rfl)
    sampleStart_apart (by simp [sampleRest]) sampleRest_unclaimed _ _ key result hpre hresult _ hpre
    (List.prefix_refl _)

end RelayPubsub.ActionGateway
