import RelayPubsub.Memory.Origin
import RelayPubsub.RelayEvents.Actions

/-!
# The Relay events backend over a run

`RelayEventsBackend` hands every call but `publish` to its in-memory backend. A publish
to the actions topic reaches that backend once it has been prepared; any other publish
is forwarded to Relay and does not. So the local store goes through the states of a run
of the in-memory backend, the one that is left when the publishes that are forwarded or
refused are taken out (`RelayPubsub.RelayEvents.inner_eq_stateAfter`), and whatever
holds of all runs of the in-memory backend holds of the local store.

What subscribers of this backend receive is then settled by where messages come from
(`RelayPubsub.RelayEvents.delivers_actions_only`): everything was published to the
actions topic. A subscription to another topic receives dead letters at most.
-/

namespace RelayPubsub.RelayEvents

open Lib Memory

/-- **A call of the backend.** A publish reads its topic and the schema before it comes to
its end, when the local store may have changed. -/
structure Event where
  step : Step
  topicState : State
  schemaState : State

/-- The local store, and Relay. -/
structure World (σ : Type*) where
  inner : State
  relay : σ

section Run

variable {σ : Type*} (crates : Crates) (backend : RelayEventsBackend) (send : Post → σ → Reply × σ)

/-- **A call of the backend**: a publish, or one that is handed on. -/
def World.step (w : World σ) (e : Event) : World σ :=
  match e.step.call with
  | .publish topic messages =>
    let (_, inner, relay) := publish crates backend send e.step.env e.topicState e.schemaState
      w.inner topic messages w.relay
    { inner, relay }
  | _ => { w with inner := exec crates.serde w.inner e.step }

/-- **The call reaches the in-memory backend**: it is no publish, or one to the actions
topic that has been prepared. -/
def Event.isLocal (e : Event) : Bool :=
  match e.step.call with
  | .publish topic messages =>
    decide (topic = backend.actionsTopic) &&
      (preparePublish crates.serde e.topicState e.schemaState topic messages).isOk
  | _ => true

/-- The calls of a run that reach the in-memory backend, as their clients made them. -/
def localSteps (events : List Event) : List Step :=
  (events.filter (Event.isLocal crates backend)).map (·.step)

variable {crates backend send}

theorem localSteps_concat (events : List Event) (e : Event) :
    localSteps crates backend (events ++ [e]) =
      localSteps crates backend events ++ if e.isLocal crates backend then [e.step] else [] := by
  unfold localSteps
  rw [List.filter_append, List.map_append, List.filter_singleton]
  cases e.isLocal crates backend <;> rfl

/-- A publish to the actions topic does to the local store what it would do to an
in-memory backend; any other does nothing to it. -/
theorem inner_of_publish {w : World σ} {e : Event} {topic : Text} {messages : List NewMessage}
    (hcall : e.step.call = .publish topic messages) :
    (w.step crates backend send e).inner =
      if e.isLocal crates backend then exec crates.serde w.inner e.step else w.inner := by
  unfold World.step Event.isLocal publish exec
  simp only [hcall]
  rcases hprepared : preparePublish crates.serde e.topicState e.schemaState topic messages with
    error | prepared
  · simp [Except.isOk, Except.toBool]
  · by_cases htopic : topic = backend.actionsTopic
    · subst htopic
      simp only [eq_of_preparePublish hprepared, publish_enrich, Except.isOk, Except.toBool,
        decide_true, Bool.and_self, if_true]
    · simp [htopic]

/-- **The local store goes through a run of the in-memory backend.** -/
theorem inner_eq_stateAfter (events : List Event) (relay : σ) :
    (Machine.run (World.step crates backend send) ⟨{}, relay⟩ events).inner =
      stateAfter crates.serde (localSteps crates backend events) := by
  induction events using List.reverseRecOn with
  | nil => rfl
  | append_singleton events e ih =>
    rw [Machine.run_concat, localSteps_concat]
    by_cases hpublish : ∃ topic messages, e.step.call = .publish topic messages
    · obtain ⟨topic, messages, hcall⟩ := hpublish
      rw [inner_of_publish hcall, ih]
      split_ifs
      · rw [stateAfter_concat]
      · rw [List.append_nil]
    · have hlocal : e.isLocal crates backend = true := by
        unfold Event.isLocal
        split
        · rename_i topic messages hcall
          exact absurd ⟨topic, messages, hcall⟩ hpublish
        · rfl
      rw [if_pos hlocal, stateAfter_concat, ← ih]
      unfold World.step
      split
      · rename_i topic messages hcall
        exact absurd ⟨topic, messages, hcall⟩ hpublish
      · rfl

/-- What reaches the in-memory backend was called. -/
theorem exists_of_mem_localSteps {events : List Event} {s : Step}
    (h : s ∈ localSteps crates backend events) : ∃ e ∈ events, e.step = s ∧
      e.isLocal crates backend = true := by
  obtain ⟨e, he, rfl⟩ := List.mem_map.mp h
  obtain ⟨hmem, hlocal⟩ := List.mem_filter.mp he
  exact ⟨e, hmem, rfl, hlocal⟩

end Run

/-! ### What subscribers receive -/

section Delivered

variable {crates : Crates} {backend : RelayEventsBackend}

/-- **The content of a message was published to the actions topic**, by a publish that was
prepared and so has reached the local store. -/
def SentToActions (crates : Crates) (backend : RelayEventsBackend) (events : List Event)
    (r : RelayMessage) : Prop :=
  ∃ e ∈ events, ∃ messages, e.step.call = .publish backend.actionsTopic messages ∧
    e.isLocal crates backend = true ∧ ∃ m ∈ messages, r.data = m.data ∧
      r.orderingKey = m.orderingKey ∧ ∀ k ∉ gatewayKeys, r.attributes[k]? = m.attributes[k]?

/-- The publishes that reach the in-memory backend are to the actions topic. -/
theorem eq_of_local_publish {events : List Event} {s : Step} {topic : Text}
    {messages : List NewMessage} (h : s ∈ localSteps crates backend events)
    (hcall : s.call = .publish topic messages) : topic = backend.actionsTopic := by
  obtain ⟨e, -, rfl, hlocal⟩ := exists_of_mem_localSteps h
  unfold Event.isLocal at hlocal
  rw [hcall] at hlocal
  simp only [Bool.and_eq_true, decide_eq_true_eq] at hlocal
  exact hlocal.1

/-- The publishes among the steps have reached the in-memory backend. -/
def PublishesOf (crates : Crates) (backend : RelayEventsBackend) (events : List Event)
    (steps : List Step) : Prop :=
  ∀ s ∈ steps, ∀ topic messages, s.call = .publish topic messages →
    s ∈ localSteps crates backend events

/-- What was published to the in-memory backend was sent to the actions topic. -/
theorem sentToActions_of_wasPublished {events : List Event} {steps : List Step} {r : RelayMessage}
    (hsteps : PublishesOf crates backend events steps) (h : WasPublished steps r) :
    SentToActions crates backend events r := by
  obtain ⟨past, s, topic, messages, m, hpre, hcall, hm, hcontent⟩ := h
  have hs : s ∈ localSteps crates backend events := hsteps s (hpre.subset (by simp)) _ _ hcall
  obtain rfl := eq_of_local_publish hs hcall
  obtain ⟨e, he, rfl, hlocal⟩ := exists_of_mem_localSteps hs
  exact ⟨e, he, messages, hcall, hlocal, m, hm, hcontent⟩

/-- **In the log of another topic there are dead letters only.** -/
theorem deadLetter_of_origin {events : List Event} {steps : List Step} {topic : Text}
    {r : RelayMessage} (hsteps : PublishesOf crates backend events steps)
    (h : Origin crates.serde steps topic r) (hne : topic ≠ backend.actionsTopic) :
    IsDeadLetter crates.serde steps topic r :=
  h.deadLetter_of_unpublished fun s hs messages hcall =>
    hne (eq_of_local_publish (hsteps s hs topic messages hcall) hcall)

end Delivered

/-- **Subscribers of this backend receive what was published to the actions topic**, in
every run, whatever Relay answers: the local store is that of the in-memory backend after
the calls that reach it; each message of each log, and each message a pull delivers, was
sent to the actions topic; and in the log of another topic, and so on a subscription to
it, there are dead letters only, each copied there by a pull. -/
theorem delivers_actions_only {σ : Type*} (crates : Crates) (backend : RelayEventsBackend)
    (send : Post → σ → Reply × σ) (relay : σ) (events : List Event) :
    let w := Machine.run (World.step crates backend send) ⟨{}, relay⟩ events
    w.inner = stateAfter crates.serde (localSteps crates backend events) ∧
    (∀ (name : Text) (topic : TopicState), w.inner.topics[name]? = some topic →
      ∀ r ∈ topic.messages, SentToActions crates backend events r ∧
        (name ≠ backend.actionsTopic →
          IsDeadLetter crates.serde (localSteps crates backend events) name r)) ∧
    ∀ (env : Env) (name : Text) (maxMessages : UInt32) (deliveries : List Delivery),
      (pull env w.inner name maxMessages).1 = .returned (.ok deliveries) →
      ∃ sub, w.inner.subscriptions[name]? = some sub ∧
        ∀ d ∈ deliveries, SentToActions crates backend events d.message ∧
          (sub.spec.topic ≠ backend.actionsTopic →
            IsDeadLetter crates.serde
              (localSteps crates backend events ++ [⟨.pull name maxMessages, env⟩])
              sub.spec.topic d.message) := by
  intro w
  have hinner : w.inner = stateAfter crates.serde (localSteps crates backend events) :=
    inner_eq_stateAfter events relay
  have hsteps : PublishesOf crates backend events (localSteps crates backend events) :=
    fun s hs _ _ _ => hs
  refine ⟨hinner, fun name topic htopic r hr => ?_, fun env name maxMessages deliveries hpull => ?_⟩
  · rw [hinner] at htopic
    have horigin := originate_stateAfter _ name topic htopic r hr
    exact ⟨sentToActions_of_wasPublished hsteps horigin.wasPublished,
      deadLetter_of_origin hsteps horigin⟩
  · rw [hinner] at hpull ⊢
    obtain ⟨sub, hsub, horigins⟩ :=
      @origins_of_pull _ _ ⟨.pull name maxMessages, env⟩ _ _ _ rfl hpull
    have hmore : PublishesOf crates backend events
        (localSteps crates backend events ++ [⟨.pull name maxMessages, env⟩]) := by
      intro s hs topic messages hcall
      rcases List.mem_append.mp hs with hs | hs
      · exact hs
      · rw [List.mem_singleton.mp hs] at hcall
        cases hcall
    refine ⟨sub, hsub, fun d hd => ?_⟩
    have horigin := horigins d hd
    exact ⟨sentToActions_of_wasPublished hmore horigin.wasPublished,
      deadLetter_of_origin hmore horigin⟩

end RelayPubsub.RelayEvents
