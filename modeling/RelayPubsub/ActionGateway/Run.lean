import RelayPubsub.ActionGateway.Gateway
import RelayPubsub.Memory.Dedup
import RelayPubsub.RelayEvents.Forward

/-!
# Runs of the Action Gateway

The inversion of one event (`RelayPubsub.ActionGateway.Stepped`), from which every
invariant below is derived, and runs that are watched
(`RelayPubsub.ActionGateway.Observed`): beside the process they keep what has been
published to the actions topic, which messages of its log the handler itself has
put there, which requests have been received and what has been answered.

What is known of a log is lost with it: a restart goes back to what was known of
the store when its file was last written.
-/

namespace RelayPubsub.ActionGateway

open Lib Memory RelayEvents

variable (crates : Crates) (topic : Text)

/-! ### One event -/

/-- The call of the store an event makes, and the key of the command it is made for. -/
def Gateway.storeCall (g : Gateway) : Event → Option (Option Text × Step)
  | .backend s => some (none, s)
  | .publish env =>
    match g.holder with
    | some ⟨key, _, .prepared messages⟩ => some (some key, ⟨.publish topic messages, env⟩)
    | _ => none
  | _ => none

/-- **What an event does**: the inversion of
`RelayPubsub.ActionGateway.Gateway.step`. -/
inductive Stepped (g : Gateway) : Event → Gateway → Option Answer → Prop
  /-- Nothing: the handler is not at that point. -/
  | quiet {e : Event} : e ≠ .restart → g.storeCall topic e = none → Stepped g e g none
  | rejected {r : ActionRequest} {response : ActionResponse} :
      readRequest crates r = .error response → (∀ result replay, response ≠ .ok result replay) →
      Stepped g (.request r) g (some ⟨requestKey r, response⟩)
  | received {r : ActionRequest} {key : Text} {input : ActionIn} :
      readRequest crates r = .ok (key, input) → key ≠ [] →
      Stepped g (.request r) { g with waiting := g.waiting ++ [(key, input)] } none
  | replayed {i : ℕ} {key : Text} {existing : ActionResult} :
      g.byKey[key]? = some existing →
      Stepped g (.acquire i) { g with waiting := g.waiting.eraseIdx i }
        (some ⟨some key, .ok existing true⟩)
  | acquired {i : ℕ} {key : Text} {input : ActionIn} :
      (key, input) ∈ g.waiting → g.byKey[key]? = none →
      Stepped g (.acquire i)
        { g with
          waiting := g.waiting.eraseIdx i
          holder := some ⟨key, input, .missed⟩ } none
  | described {key : Text} {input : ActionIn} (spec : Option TopicSpec) :
      g.holder = some ⟨key, input, .missed⟩ →
      Stepped g .describe { g with holder := some ⟨key, input, .described spec⟩ } none
  | prepared {key : Text} {input : ActionIn} {spec : Option TopicSpec} :
      g.holder = some ⟨key, input, .described spec⟩ →
      Stepped g .prepare
        { g with
          holder := some ⟨key, input,
            .prepared [enrichMessage crates.serde topic (actionMessage crates key input)]⟩ } none
  | refused {key : Text} {input : ActionIn} {spec : Option TopicSpec} (error : Text) :
      g.holder = some ⟨key, input, .described spec⟩ →
      Stepped g .prepare { g with holder := none } (some ⟨some key, .badGateway error⟩)
  | published {key : Text} {input : ActionIn} {messages : List NewMessage} {env : Env}
      {ids : List Text} :
      g.holder = some ⟨key, input, .prepared messages⟩ →
      (Memory.publish crates.serde env g.store topic messages).1 = .ok ids →
      Stepped g (.publish env)
        { g.call crates ⟨.publish topic messages, env⟩ with
          holder := some ⟨key, input, .published⟩ } none
  | failed {key : Text} {input : ActionIn} {messages : List NewMessage} {env : Env} (error : Text) :
      g.holder = some ⟨key, input, .prepared messages⟩ →
      Stepped g (.publish env)
        { g.call crates ⟨.publish topic messages, env⟩ with holder := none }
        (some ⟨some key, .badGateway error⟩)
  | finished {key : Text} {input : ActionIn} (now : Time) :
      g.holder = some ⟨key, input, .published⟩ →
      Stepped g (.finish now)
        { g with
          byKey := g.byKey.insert key (actionResult key input now)
          holder := none }
        (some ⟨some key, .ok (actionResult key input now) false⟩)
  | aborted : Stepped g .abort { g with holder := none } none
  | backend (s : Step) : Stepped g (.backend s) (g.call crates s) none
  | restarted : Stepped g .restart { store := g.saved, saved := g.saved } none

section Inversion

variable {crates topic} (g : Gateway)

/-- A request that is read has a key. -/
theorem key_of_readRequest {r : ActionRequest} {p : Text × ActionIn}
    (h : readRequest crates r = .ok p) : p.1 ≠ [] := by
  unfold readRequest at h
  cases hkey : requestKey r with
  | none =>
    rw [hkey] at h
    cases h
  | some key =>
    have hne : key ≠ [] := of_decide_eq_true (Option.filter_eq_some_iff.mp hkey).2
    rw [hkey] at h
    dsimp only at h
    split at h
    · obtain rfl := Except.ok.inj h
      exact hne
    · split at h
      · obtain rfl := Except.ok.inj h
        exact hne
      · cases h

/-- A request that is not read is answered by an error. -/
theorem not_ok_of_readRequest {r : ActionRequest} {response : ActionResponse}
    (h : readRequest crates r = .error response) (result : ActionResult) (replay : Bool) :
    response ≠ .ok result replay := by
  unfold readRequest at h
  split at h
  · obtain rfl := Except.error.inj h
    exact nofun
  split at h
  · cases h
  split at h
  · cases h
  · obtain rfl := Except.error.inj h
    exact nofun

theorem stepped_request (r : ActionRequest) :
    Stepped crates topic g (.request r) (g.request crates r).1 (g.request crates r).2 := by
  unfold Gateway.request
  split
  · rename_i response hread
    exact .rejected hread (not_ok_of_readRequest hread)
  · rename_i received hread
    exact .received hread (key_of_readRequest hread)

theorem stepped_acquire (i : ℕ) :
    Stepped crates topic g (.acquire i) (g.acquire i).1 (g.acquire i).2 := by
  unfold Gateway.acquire
  split
  · rename_i key input _ hwaiting
    dsimp only
    split
    · rename_i existing hexisting
      exact .replayed hexisting
    · rename_i hmissed
      exact .acquired (List.mem_of_getElem? hwaiting) hmissed
  · exact .quiet nofun rfl

theorem stepped_describe :
    Stepped crates topic g .describe (g.describe topic).1 (g.describe topic).2 := by
  unfold Gateway.describe
  split
  · rename_i key input hholder
    exact .described _ hholder
  · exact .quiet nofun rfl

/-- A message that is prepared is enriched. -/
theorem eq_of_prepare {key : Text} {input : ActionIn} {spec : Option TopicSpec} {st : State}
    {messages : List NewMessage}
    (h : (boundSchema st spec >>= fun schema =>
      [actionMessage crates key input].mapM (prepareMessage crates.serde topic schema)) =
        .ok messages) :
    messages = [enrichMessage crates.serde topic (actionMessage crates key input)] := by
  cases hs : boundSchema st spec with
  | error e =>
    rw [hs] at h
    cases h
  | ok schema =>
    rw [hs] at h
    exact eq_of_mapM_prepareMessage h

theorem stepped_prepare :
    Stepped crates topic g .prepare (g.prepare crates topic).1 (g.prepare crates topic).2 := by
  unfold Gateway.prepare
  split
  · rename_i key input spec hholder
    split
    · exact .refused _ hholder
    · rename_i messages hprepare
      rw [eq_of_prepare hprepare]
      exact .prepared hholder
  · exact .quiet nofun rfl

theorem stepped_publish (env : Env) :
    Stepped crates topic g (.publish env) (g.publish crates topic env).1
      (g.publish crates topic env).2 := by
  unfold Gateway.publish
  split
  · rename_i key input messages hholder
    dsimp only
    split
    · exact .failed _ hholder
    · rename_i ids hids
      exact .published hholder hids
  · rename_i hholder
    refine .quiet nofun ?_
    unfold Gateway.storeCall
    dsimp only
    split
    · rename_i key input messages heq
      exact absurd heq (hholder key input messages)
    · rfl

theorem stepped_finish (now : Time) :
    Stepped crates topic g (.finish now) (g.finish now).1 (g.finish now).2 := by
  unfold Gateway.finish
  split
  · rename_i key input hholder
    exact .finished now hholder
  · exact .quiet nofun rfl

theorem stepped_abort : Stepped crates topic g .abort g.abort none := by
  unfold Gateway.abort
  split
  · exact .quiet nofun rfl
  · exact .aborted

/-- **The inversion of an event.** -/
theorem stepped_of_step (e : Event) :
    Stepped crates topic g e (g.step crates topic e).1 (g.step crates topic e).2 := by
  cases e with
  | request r => exact stepped_request g r
  | acquire i => exact stepped_acquire g i
  | describe => exact stepped_describe g
  | prepare => exact stepped_prepare g
  | publish env => exact stepped_publish g env
  | finish now => exact stepped_finish g now
  | abort => exact stepped_abort g
  | backend s => exact .backend s
  | restart => exact .restarted

end Inversion

/-! ### What is known of a store -/

/-- **What is known of a store**: what has been published to the actions topic, and
what the handler has put there, with the keys. -/
structure History where
  published : Published := { state := {} }
  enqueued : List (Text × RelayMessage) := []

/-- A call of the store, by the handler for a command if there is a key. -/
def History.call (h : History) (key : Option Text) (s : Step) : History where
  published := h.published.step crates.serde topic s
  enqueued :=
    match key with
    | some key =>
      h.enqueued ++ (appendedBy crates.serde topic h.published.state s).map fun r => (key, r)
    | none => h.enqueued

/-- **No command twice**: of the messages the handler has put on the topic, no two
have one key. -/
structure Once (h : History) : Prop where
  tracked : Tracked crates.serde topic h.published h.published.state.topics[topic]?
  sublist : (h.enqueued.map Prod.snd).Sublist h.published.appended
  accepted : ∀ key ∈ h.enqueued.map Prod.fst,
    ∃ m ∈ h.published.accepted, dedupKey m = some key
  nodup : (h.enqueued.map Prod.fst).Nodup

section Once

variable {crates topic} {h : History}

theorem once_initial : Once crates topic {} :=
  ⟨⟨rfl, rfl⟩, List.Sublist.slnil, by simp, List.nodup_nil⟩

/-- Another client calls the store. -/
theorem Once.other (ho : Once crates topic h) {s : Step} (hs : s.call ≠ .deleteTopic topic) :
    Once crates topic (h.call crates topic none s) where
  tracked := ho.tracked.step hs
  sublist := ho.sublist.trans (List.sublist_append_left _ _)
  accepted key hkey := by
    obtain ⟨m, hm, hk⟩ := ho.accepted key hkey
    exact ⟨m, List.mem_append_left _ hm, hk⟩
  nodup := ho.nodup

/-- What one message appends: nothing, if it repeats what has been published. -/
theorem appendedBy_singleton {w : Published} {t : Option TopicState} {env : Env} {m : NewMessage}
    (hw : Tracked crates.serde topic w w.state.topics[topic]?)
    (hw' : Tracked crates.serde topic (w.step crates.serde topic ⟨.publish topic [m], env⟩) t) :
    appendedBy crates.serde topic w.state ⟨.publish topic [m], env⟩ = [] ∨
      ¬Repeats dedupKey w.accepted m ∧
      acceptedBy crates.serde topic w.state ⟨.publish topic [m], env⟩ = [m] ∧
      ∃ r, appendedBy crates.serde topic w.state ⟨.publish topic [m], env⟩ = [r] := by
  have hlength := hw.stores.length_eq
  have hlength' := hw'.stores.length_eq
  have haccepted : acceptedBy crates.serde topic w.state ⟨.publish topic [m], env⟩ = [m] ∨
      acceptedBy crates.serde topic w.state ⟨.publish topic [m], env⟩ = [] :=
    acceptedBy_eq_or_nil rfl
  unfold Published.step at hlength'
  rw [List.length_append] at hlength'
  rcases haccepted with hone | hnone
  · rw [hone, firsts_concat] at hlength'
    split at hlength'
    · exact .inl (List.length_eq_zero_iff.mp (by omega))
    · rename_i hnew
      rw [List.length_append, List.length_singleton] at hlength'
      exact .inr ⟨hnew, hone, List.length_eq_one_iff.mp (by omega)⟩
  · rw [hnone, List.append_nil] at hlength'
    dsimp only at hlength'
    exact .inl (List.length_eq_zero_iff.mp (by omega))

/-- What the handler has put on the topic after it has published a command. -/
theorem enqueued_call (h : History) (key : Text) (s : Step) :
    (h.call crates topic (some key) s).enqueued =
      h.enqueued ++
        (appendedBy crates.serde topic h.published.state s).map fun r => (key, r) :=
  rfl

/-- **The handler publishes a command**: it is appended only if none with its key has
been. -/
theorem Once.action (ho : Once crates topic h) {key : Text} {m : NewMessage} (env : Env)
    (hm : dedupKey m = some key) :
    Once crates topic (h.call crates topic (some key) ⟨.publish topic [m], env⟩) := by
  have htracked : Tracked crates.serde topic
      (h.published.step crates.serde topic ⟨.publish topic [m], env⟩)
      (h.published.step crates.serde topic ⟨.publish topic [m], env⟩).state.topics[topic]? :=
    ho.tracked.step nofun
  rcases appendedBy_singleton ho.tracked htracked with hnone | ⟨hnew, hone, r, hr⟩
  · -- the message repeats one that has been published
    have henqueued : (h.call crates topic (some key) ⟨.publish topic [m], env⟩).enqueued =
        h.enqueued := by
      rw [enqueued_call, hnone, List.map_nil, List.append_nil]
    refine ⟨htracked, ?_, fun k hk => ?_, ?_⟩
    · rw [henqueued]
      exact ho.sublist.trans (List.sublist_append_left _ _)
    · rw [henqueued] at hk
      obtain ⟨m', hm', hkey⟩ := ho.accepted k hk
      exact ⟨m', List.mem_append_left _ hm', hkey⟩
    · rw [henqueued]
      exact ho.nodup
  · -- it is the first with its key
    have henqueued : (h.call crates topic (some key) ⟨.publish topic [m], env⟩).enqueued =
        h.enqueued ++ [(key, r)] := by
      rw [enqueued_call, hr, List.map_singleton]
    refine ⟨htracked, ?_, fun k hk => ?_, ?_⟩
    · have happended : (h.published.step crates.serde topic
          ⟨.publish topic [m], env⟩).appended = h.published.appended ++ [r] := by
        rw [← hr]
        rfl
      rw [henqueued, List.map_append]
      exact happended ▸ ho.sublist.append (List.Sublist.refl _)
    · rw [henqueued, List.map_append, List.mem_append] at hk
      rcases hk with hk | hk
      · obtain ⟨m', hm', hkey⟩ := ho.accepted k hk
        exact ⟨m', List.mem_append_left _ hm', hkey⟩
      · obtain rfl : k = key := by simpa using hk
        refine ⟨m, List.mem_append_right _ ?_, hm⟩
        rw [hone]
        exact List.mem_singleton_self m
    · rw [henqueued, List.map_append]
      refine List.nodup_append.mpr ⟨ho.nodup, by simp, fun k hk k' hk' heq => hnew ?_⟩
      obtain rfl : k' = key := by simpa using hk'
      obtain ⟨m', hm', hkey⟩ := ho.accepted k hk
      exact ⟨k', hm, m', hm', heq ▸ hkey⟩

end Once

/-! ### Watched runs -/

/-- **A process that is watched.** -/
structure Observed where
  gateway : Gateway := {}
  /-- What is known of the store. -/
  history : History := {}
  /-- What is known of the state its file holds. -/
  savedHistory : History := {}
  /-- The requests received, over all restarts. -/
  received : List (Text × ActionIn) := []
  /-- The results answered, over all restarts. -/
  answers : List (Text × ActionResult) := []

/-- The request an event brings. -/
def receivedBy : Event → List (Text × ActionIn)
  | .request r => (readRequest crates r).toOption.toList
  | _ => []

/-- The result an answer carries, with its key. -/
def resultOf : Option Answer → List (Text × ActionResult)
  | some ⟨some key, .ok result _⟩ => [(key, result)]
  | _ => []

def Observed.step (w : Observed) (e : Event) : Observed :=
  let (g, answer) := w.gateway.step crates topic e
  { gateway := g
    history :=
      match e, w.gateway.storeCall topic e with
      | .restart, _ => w.savedHistory
      | _, some (key, s) => w.history.call crates topic key s
      | _, none => w.history
    savedHistory :=
      match w.gateway.storeCall topic e with
      | some (key, s) =>
        if persists crates.serde w.gateway.store s ∧ s.env.persistFault = none then
          w.history.call crates topic key s
        else w.savedHistory
      | none => w.savedHistory
    received := w.received ++ receivedBy crates e
    answers := w.answers ++ resultOf answer }

/-- **The watched run** of a process that starts with an empty store. -/
def observe (events : List Event) : Observed :=
  Machine.run (Observed.step crates topic) {} events

end RelayPubsub.ActionGateway
