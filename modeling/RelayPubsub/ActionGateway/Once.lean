import RelayPubsub.ActionGateway.Run

/-!
# A command is enqueued at most once

The handler remembers the keys it has answered, but not over a restart, and not
those of a publish that has failed after the append. What covers for it is the
store, which drops a message whose id it has seen, and whose file holds the ids
together with the messages. So of all the messages in the log of the actions topic
no two have been put there by the handler under one key
(`RelayPubsub.ActionGateway.enqueues_once`), whatever the clients of the store, the
failures of its file and the restarts, as long as nobody deletes the topic.
-/

namespace RelayPubsub.ActionGateway

open Lib Memory RelayEvents

variable {crates : Crates} {topic : Text}

/-! ### The message of a command -/

section Message

variable (key : Text) (input : ActionIn)

theorem idempotencyKey_actionMessage :
    (actionMessage crates key input).attributes["idempotency_key".toList]? = some key := by
  unfold actionMessage
  dsimp only
  rw [getElem?_insert_of_ne (by decide), getElem?_insert_of_ne (by decide),
    getElem?_insert_of_ne (by decide), Std.ExtTreeMap.getElem?_insert_self]

/-- A command is published under its key. -/
theorem dedupKey_actionMessage {key : Text} (hkey : key ≠ []) :
    dedupKey (enrichMessage crates.serde topic (actionMessage crates key input)) = some key := by
  have hclient : clientId (actionMessage crates key input) = key := by
    unfold clientId
    rw [idempotencyKey_actionMessage]
    exact if_neg (not_not.mpr rfl)
  rw [dedupKey_eq_some, clientId_enrich, hclient]
  exact ⟨hkey, rfl⟩

end Message

/-! ### The store -/

section Store

variable {g g' : Gateway} {e : Event} {a : Option Answer}

/-- The calls of the store: those of other clients, and the publish of a command. -/
theorem storeCall_cases {key : Option Text} {s : Step} (h : g.storeCall topic e = some (key, s)) :
    (key = none ∧ e = .backend s) ∨
      ∃ k input messages env, key = some k ∧ g.holder = some ⟨k, input, .prepared messages⟩ ∧
        e = .publish env ∧ s = ⟨.publish topic messages, env⟩ := by
  unfold Gateway.storeCall at h
  split at h
  · obtain ⟨rfl, rfl⟩ := Prod.mk.inj (Option.some.inj h)
    exact .inl ⟨rfl, rfl⟩
  · rename_i env
    split at h
    · rename_i k input messages hholder
      obtain ⟨rfl, rfl⟩ := Prod.mk.inj (Option.some.inj h)
      exact .inr ⟨k, input, messages, env, rfl, hholder, rfl, rfl⟩
    · cases h
  · cases h

theorem storeCall_of_prepared {key : Text} {input : ActionIn} {messages : List NewMessage}
    {env : Env} (h : g.holder = some ⟨key, input, .prepared messages⟩) :
    g.storeCall topic (.publish env) = some (some key, ⟨.publish topic messages, env⟩) := by
  unfold Gateway.storeCall
  rw [h]

/-- **The store after an event.** -/
theorem Stepped.store (h : Stepped crates topic g e g' a) :
    (∃ key s, g.storeCall topic e = some (key, s) ∧ g'.store = (g.call crates s).store ∧
        g'.saved = (g.call crates s).saved) ∨
      (g.storeCall topic e = none ∧ e ≠ .restart ∧ g'.store = g.store ∧ g'.saved = g.saved) ∨
      (e = .restart ∧ g'.store = g.saved ∧ g'.saved = g.saved) := by
  cases h with
  | quiet he hcall => exact .inr (.inl ⟨hcall, he, rfl, rfl⟩)
  | published hholder _ | failed _ hholder =>
    exact .inl ⟨_, _, storeCall_of_prepared hholder, rfl, rfl⟩
  | backend s => exact .inl ⟨none, s, rfl, rfl, rfl⟩
  | restarted => exact .inr (.inr ⟨rfl, rfl, rfl⟩)
  | _ => exact .inr (.inl ⟨rfl, nofun, rfl, rfl⟩)

/-- **The requests in the process after an event.** -/
theorem Stepped.requests (h : Stepped crates topic g e g' a) :
    (∀ p ∈ g'.waiting, p ∈ g.waiting ∨ p ∈ receivedBy crates e) ∧
    (∀ h', g'.holder = some h' → (h'.key, h'.input) ∈ g.waiting ∨
      ∃ h, g.holder = some h ∧ h'.key = h.key ∧ h'.input = h.input) ∧
    (∀ key input messages, g'.holder = some ⟨key, input, .prepared messages⟩ →
      g.holder = some ⟨key, input, .prepared messages⟩ ∨
      messages = [enrichMessage crates.serde topic (actionMessage crates key input)]) := by
  have waits : ∀ i, ∀ p ∈ g.waiting.eraseIdx i, p ∈ g.waiting ∨ p ∈ receivedBy crates e :=
    fun i p hp => .inl (List.mem_of_mem_eraseIdx hp)
  have moves : ∀ {key input phase phase'}, g.holder = some ⟨key, input, phase⟩ →
      ∀ h', some (⟨key, input, phase'⟩ : Holder) = some h' → (h'.key, h'.input) ∈ g.waiting ∨
        ∃ h, g.holder = some h ∧ h'.key = h.key ∧ h'.input = h.input := by
    rintro key input phase phase' hholder h' ⟨⟩
    exact .inr ⟨_, hholder, rfl, rfl⟩
  cases h with
  | quiet _ _ | rejected _ _ =>
    exact ⟨fun _ => .inl, fun h' hh => .inr ⟨h', hh, rfl, rfl⟩, fun _ _ _ => .inl⟩
  | received hread _ =>
    refine ⟨fun p hp => ?_, fun h' hh => .inr ⟨h', hh, rfl, rfl⟩, fun _ _ _ => .inl⟩
    rcases List.mem_append.mp hp with hp | hp
    · exact .inl hp
    · refine .inr ?_
      unfold receivedBy
      dsimp only
      rw [hread]
      exact hp
  | replayed _ => exact ⟨waits _, fun h' hh => .inr ⟨h', hh, rfl, rfl⟩, fun _ _ _ => .inl⟩
  | acquired hmem _ =>
    refine ⟨waits _, ?_, nofun⟩
    rintro h' ⟨⟩
    exact .inl hmem
  | described spec hholder => exact ⟨fun _ => .inl, moves hholder, nofun⟩
  | prepared hholder =>
    refine ⟨fun _ => .inl, moves hholder, ?_⟩
    rintro key input messages ⟨⟩
    exact .inr rfl
  | published hholder _ => exact ⟨fun _ => .inl, moves hholder, nofun⟩
  | refused _ _ | failed _ _ | finished _ _ | aborted => exact ⟨fun _ => .inl, nofun, nofun⟩
  | backend s => exact ⟨fun _ => .inl, fun h' hh => .inr ⟨h', hh, rfl, rfl⟩, fun _ _ _ => .inl⟩
  | restarted => exact ⟨nofun, nofun, nofun⟩

/-- **The results after an event**: those of the map, and one for the command that has
been published. -/
theorem Stepped.results (h : Stepped crates topic g e g' a) :
    (∀ (key : Text) (result : ActionResult), g'.byKey[key]? = some result →
      g.byKey[key]? = some result ∨ ∃ input now, result = actionResult key input now ∧
        g.holder = some ⟨key, input, .published⟩) ∧
    (∀ p ∈ resultOf a, g.byKey[p.1]? = some p.2 ∨
      ∃ input now, p.2 = actionResult p.1 input now ∧
        g.holder = some ⟨p.1, input, .published⟩) := by
  cases h with
  | rejected hread hok =>
    refine ⟨fun _ _ => .inl, ?_⟩
    unfold resultOf
    split
    · rename_i key result replay heq
      exact absurd (congrArg Answer.response (Option.some.inj heq)) (hok result replay)
    · simp
  | replayed hexisting =>
    refine ⟨fun _ _ => .inl, fun p hp => ?_⟩
    obtain rfl := List.mem_singleton.mp hp
    exact .inl hexisting
  | finished now hholder =>
    refine ⟨fun key' result hresult => ?_, fun p hp => ?_⟩
    · rename_i key input
      rcases eq_or_ne key key' with rfl | hne
      · rw [Std.ExtTreeMap.getElem?_insert_self] at hresult
        exact .inr ⟨input, now, (Option.some.inj hresult).symm, hholder⟩
      · rw [getElem?_insert_of_ne hne] at hresult
        exact .inl hresult
    · obtain rfl := List.mem_singleton.mp hp
      exact .inr ⟨_, now, rfl, hholder⟩
  | restarted => exact ⟨by simp, by simp [resultOf]⟩
  | _ => exact ⟨fun _ _ => .inl, by simp [resultOf]⟩

/-- **A command that has been published** was so before the event, or is by it. -/
theorem Stepped.holds (h : Stepped crates topic g e g' a) {key : Text} {input : ActionIn}
    (hholder : g'.holder = some ⟨key, input, .published⟩) :
    g.holder = some ⟨key, input, .published⟩ ∨ ∃ messages env ids, e = .publish env ∧
      g.holder = some ⟨key, input, .prepared messages⟩ ∧
      (Memory.publish crates.serde env g.store topic messages).1 = .ok ids := by
  cases h with
  | published hprepared hids =>
    cases hholder
    exact .inr ⟨_, _, _, rfl, hprepared, hids⟩
  | acquired _ _ | described _ _ | prepared _ | refused _ _ | failed _ _ | finished _ _ | aborted
    | restarted => cases hholder
  | _ => exact .inl hholder

/-- A request has a key. -/
theorem key_of_receivedBy {p : Text × ActionIn} (h : p ∈ receivedBy crates e) : p.1 ≠ [] := by
  unfold receivedBy at h
  split at h
  · rename_i r
    cases hread : readRequest crates r with
    | error response =>
      rw [hread] at h
      cases h
    | ok received =>
      rw [hread] at h
      obtain rfl := List.mem_singleton.mp h
      exact key_of_readRequest hread
  · cases h

end Store

/-! ### Watched runs -/

section Histories

variable {w : Observed} {e : Event}

theorem history_of_call {key : Option Text} {s : Step}
    (h : w.gateway.storeCall topic e = some (key, s)) :
    (w.step crates topic e).history = w.history.call crates topic key s ∧
      (w.step crates topic e).savedHistory =
        if persists crates.serde w.gateway.store s ∧ s.env.persistFault = none then
          w.history.call crates topic key s
        else w.savedHistory := by
  unfold Observed.step
  dsimp only
  rw [h]
  refine ⟨?_, rfl⟩
  cases e with
  | restart => cases h
  | _ => rfl

theorem history_of_quiet (h : w.gateway.storeCall topic e = none) (he : e ≠ .restart) :
    (w.step crates topic e).history = w.history ∧
      (w.step crates topic e).savedHistory = w.savedHistory := by
  unfold Observed.step
  dsimp only
  rw [h]
  refine ⟨?_, rfl⟩
  cases e with
  | restart => exact absurd rfl he
  | _ => rfl

end Histories

/-- **What is known of the two stores** is about them, and holds no command twice. -/
structure Kept (crates : Crates) (topic : Text) (w : Observed) : Prop where
  state : w.history.published.state = w.gateway.store
  savedState : w.savedHistory.published.state = w.gateway.saved
  once : Once crates topic w.history
  savedOnce : Once crates topic w.savedHistory

/-- **What the requests in the process are**: received, with a key, and the message of
the one that holds the lock is its command. -/
structure Requests (crates : Crates) (topic : Text) (w : Observed) : Prop where
  received : ∀ p ∈ w.received, p.1 ≠ []
  waiting : ∀ p ∈ w.gateway.waiting, p ∈ w.received
  holder : ∀ h, w.gateway.holder = some h → (h.key, h.input) ∈ w.received
  prepared : ∀ key input messages, w.gateway.holder = some ⟨key, input, .prepared messages⟩ →
    messages = [enrichMessage crates.serde topic (actionMessage crates key input)]

/-- **What the results are**: the key determines the provider's id. -/
structure Results (w : Observed) : Prop where
  byKey : ∀ (key : Text) (result : ActionResult),
    w.gateway.byKey[key]? = some result → result.providerId = "rpg_".toList ++ key
  answers : ∀ p ∈ w.answers, p.2.providerId = "rpg_".toList ++ p.1

section Step

variable {w : Observed} {e : Event}

/-- **What is known of the stores is kept.** -/
theorem Kept.step (hk : Kept crates topic w) (hr : Requests crates topic w)
    (he : ∀ s, e = .backend s → s.call ≠ .deleteTopic topic) :
    Kept crates topic (w.step crates topic e) := by
  rcases (@stepped_of_step crates topic w.gateway e).store with
    ⟨key, s, hcall, hstore, hsaved⟩ | ⟨hcall, hne, hstore, hsaved⟩ | ⟨rfl, hstore, hsaved⟩
  · -- a call of the store, by the handler or by another client
    obtain ⟨hhistory, hsavedHistory⟩ := @history_of_call crates topic _ _ _ _ hcall
    have hstate : (w.history.call crates topic key s).published.state =
        exec crates.serde w.gateway.store s := by
      rw [← hk.state]
      rfl
    have honce : Once crates topic (w.history.call crates topic key s) := by
      rcases storeCall_cases hcall with ⟨rfl, rfl⟩ | ⟨k, input, messages, env, rfl, hholder, -, rfl⟩
      · exact hk.once.other (he s rfl)
      · rw [hr.prepared k input messages hholder]
        exact hk.once.action env (dedupKey_actionMessage _ (hr.received _ (hr.holder _ hholder)))
    refine ⟨?_, ?_, ?_, ?_⟩
    · rw [hhistory, hstate]
      exact hstore.symm
    · rw [hsavedHistory]
      refine Eq.trans ?_ hsaved.symm
      unfold Gateway.call
      dsimp only
      split
      · exact hstate
      · exact hk.savedState
    · rw [hhistory]
      exact honce
    · rw [hsavedHistory]
      split
      · exact honce
      · exact hk.savedOnce
  · -- an event that leaves both stores as they are
    obtain ⟨hhistory, hsavedHistory⟩ := @history_of_quiet crates topic _ _ hcall hne
    refine ⟨?_, ?_, ?_, ?_⟩
    · rw [hhistory, hk.state]
      exact hstore.symm
    · rw [hsavedHistory, hk.savedState]
      exact hsaved.symm
    · rw [hhistory]
      exact hk.once
    · rw [hsavedHistory]
      exact hk.savedOnce
  · -- a restart, from the store that was saved last
    exact ⟨hk.savedState, hk.savedState, hk.savedOnce, hk.savedOnce⟩

/-- **What the requests are is kept.** -/
theorem Requests.step (hr : Requests crates topic w) :
    Requests crates topic (w.step crates topic e) := by
  obtain ⟨hwaiting, hholder, hprepared⟩ := (@stepped_of_step crates topic w.gateway e).requests
  refine ⟨fun p hp => ?_, fun p hp => ?_, fun h hh => ?_, fun key input messages hh => ?_⟩
  · rcases List.mem_append.mp hp with hp | hp
    · exact hr.received p hp
    · exact key_of_receivedBy hp
  · rcases hwaiting p hp with hp | hp
    · exact List.mem_append_left _ (hr.waiting p hp)
    · exact List.mem_append_right _ hp
  · rcases hholder h hh with hp | ⟨h', hh', hkey, hinput⟩
    · exact List.mem_append_left _ (hr.waiting _ hp)
    · rw [hkey, hinput]
      exact List.mem_append_left _ (hr.holder h' hh')
  · rcases hprepared key input messages hh with hsame | heq
    · exact hr.prepared key input messages hsame
    · exact heq

/-- **What the results are is kept.** -/
theorem Results.step (hr : Results w) : Results (w.step crates topic e) := by
  obtain ⟨hbyKey, hanswers⟩ := (@stepped_of_step crates topic w.gateway e).results
  refine ⟨fun key result hresult => ?_, fun p hp => ?_⟩
  · rcases hbyKey key result hresult with hsame | ⟨input, now, rfl, -⟩
    · exact hr.byKey key result hsame
    · rfl
  · rcases List.mem_append.mp hp with hp | hp
    · exact hr.answers p hp
    · rcases hanswers p hp with hsame | ⟨input, now, heq, -⟩
      · exact hr.byKey p.1 p.2 hsame
      · rw [heq]
        rfl

end Step

theorem kept_initial : Kept crates topic {} := ⟨rfl, rfl, once_initial, once_initial⟩

theorem requests_initial : Requests crates topic {} := ⟨nofun, nofun, nofun, nofun⟩

theorem results_initial : Results {} := ⟨by simp, nofun⟩

/-! ### The statement -/

/-- **A run keeps what is known.** -/
theorem kept_observe {events : List Event}
    (hkeep : ∀ s, .backend s ∈ events → s.call ≠ .deleteTopic topic) :
    Kept crates topic (observe crates topic events) ∧
      Requests crates topic (observe crates topic events) ∧
      Results (observe crates topic events) := by
  refine (Machine.always_of_step (P := fun w => Kept crates topic w ∧ Requests crates topic w ∧
    Results w) ⟨kept_initial, requests_initial, results_initial⟩ fun w e he h => ?_).last
  obtain ⟨hk, hr, hres⟩ := h
  exact ⟨hk.step hr fun s hs => hkeep s (hs ▸ he), hr.step, hres.step⟩

/-- **The Action Gateway enqueues a command at most once**: of the messages in the log
of the actions topic, those that the handler has put there have different keys; and
all results that are answered for a key carry one provider's id. Requests and
other clients of the store may interleave in any way, the file may fail, and the
process may be started again. -/
theorem enqueues_once (crates : Crates) (topic : Text) (events : List Event)
    (hkeep : ∀ s, .backend s ∈ events → s.call ≠ .deleteTopic topic) :
    let w := observe crates topic events
    (w.history.enqueued.map Prod.snd).Sublist (w.gateway.store.log topic) ∧
    (w.history.enqueued.map Prod.fst).Nodup ∧
    ∀ p ∈ w.answers, ∀ p' ∈ w.answers, p.1 = p'.1 → p.2.providerId = p'.2.providerId := by
  intro w
  obtain ⟨hk, -, hres⟩ := @kept_observe crates topic events hkeep
  refine ⟨?_, hk.once.nodup, fun p hp p' hp' heq => ?_⟩
  · rw [← hk.state]
    exact hk.once.sublist.trans hk.once.tracked.sublist
  · rw [hres.answers p hp, hres.answers p' hp', heq]

/-! ### A command that is tried again -/

/-- Crates to run small examples with: an empty body is the only one that is read. -/
def noCrates : Crates where
  serde := noJson
  actionIn _ := .error "EOF while parsing a value at line 1 column 0"
  toBytes _ := [0x7b, 0x7d]

/-- A request with the key `k` and no body. -/
def sampleRequest : ActionRequest where
  idempotencyKey := some [0x6b]
  body := []

/-- The readings of a call at a given time. -/
def sampleEnv (k : ℕ) : Env := (Step.numbered (0, .getTopic []) k).env

/-- Two requests wait with one key; the file cannot be written when the first is
published. -/
def sampleEvents : List Event :=
  [.backend (Step.numbered (0, .createTopic sampleTopic) 0), .request sampleRequest,
    .request sampleRequest, .acquire 0, .describe, .prepare,
    .publish ((sampleEnv 1).withFault (some (.write "No space left on device"))),
    .acquire 0, .describe, .prepare, .publish (sampleEnv 2), .finish 1]

/-- The command is on the topic once, and the second request is answered. -/
theorem sampleEvents_enqueued :
    ((observe noCrates sampleTopic.name sampleEvents).history.enqueued.map Prod.fst).Nodup ∧
      (observe noCrates sampleTopic.name sampleEvents).history.enqueued.map Prod.fst =
        ["k".toList] ∧
      (observe noCrates sampleTopic.name sampleEvents).answers.map Prod.fst = ["k".toList] := by
  have hkeep : ∀ s, .backend s ∈ sampleEvents → s.call ≠ .deleteTopic sampleTopic.name := by
    intro s hs
    unfold sampleEvents at hs
    simp only [List.mem_cons, Event.backend.injEq, List.not_mem_nil, reduceCtorEq, or_false] at hs
    rw [hs]
    exact nofun
  exact ⟨(enqueues_once noCrates sampleTopic.name sampleEvents hkeep).2.1, by decide +kernel,
    by decide +kernel⟩

end RelayPubsub.ActionGateway
