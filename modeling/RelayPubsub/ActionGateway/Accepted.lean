import RelayPubsub.ActionGateway.Once

/-!
# An accepted action is on the topic

The handler takes a publish that succeeds for a command that is enqueued. But the
store also succeeds when it drops a message whose id it has seen, and other clients
choose ids of their own. So a command that is accepted under a key is in the log of
the actions topic if the first message published there under that id was one for
this key (`RelayPubsub.ActionGateway.accepted_enqueued`), as it is unless another
client has used the key as an id before; if one has, the command is accepted and
dropped (`RelayPubsub.ActionGateway.claimed_dropped`).
-/

namespace RelayPubsub.ActionGateway

open Lib Memory RelayEvents

/-- **A message is one for a key**: it carries the key, and the command of a request
received under it. -/
def IsCommand (crates : Crates) (received : List (Text × ActionIn)) (key : Text)
    (attributes : StrMap Text) (data : Bytes) : Prop :=
  attributes["idempotency_key".toList]? = some key ∧
    ∃ input, (key, input) ∈ received ∧ data = actionData crates input

/-- The log of the actions topic has a message for a key. -/
def Enqueued (crates : Crates) (topic : Text) (w : Observed) (key : Text) : Prop :=
  ∃ r ∈ w.gateway.store.log topic, IsCommand crates w.received key r.attributes r.data

/-- The first message published to the actions topic under an id is one for that key. -/
def FirstIsCommand (crates : Crates) (w : Observed) (key : Text) : Prop :=
  ∀ m, (w.history.published.accepted.filter fun m => decide (dedupKey m = some key)).head? =
    some m → IsCommand crates w.received key m.attributes m.data

/-- **No other client has used the key of the command that is published** as an id,
unless for a command of that key. -/
def Unclaimed (crates : Crates) (w : Observed) (e : Event) : Prop :=
  ∀ env key input messages, e = .publish env →
    w.gateway.holder = some ⟨key, input, .prepared messages⟩ → FirstIsCommand crates w key

/-- **What has been accepted is on the topic**: the commands of the map, and the one
that has been published. -/
structure Backed (crates : Crates) (topic : Text) (w : Observed) : Prop where
  byKey : ∀ (key : Text) (result : ActionResult), w.gateway.byKey[key]? = some result →
    Enqueued crates topic w key
  published : ∀ key input, w.gateway.holder = some ⟨key, input, .published⟩ →
    Enqueued crates topic w key

section Step

variable {crates : Crates} {topic : Text} {w : Observed} {e : Event} {key : Text}

theorem IsCommand.mono {received received' : List (Text × ActionIn)} {attributes : StrMap Text}
    {data : Bytes} (h : IsCommand crates received key attributes data)
    (hsub : ∀ p ∈ received, p ∈ received') : IsCommand crates received' key attributes data := by
  obtain ⟨hkey, input, hmem, hdata⟩ := h
  exact ⟨hkey, input, hsub _ hmem, hdata⟩

/-- The log of the topic grows, but for a restart. -/
theorem log_step (he : ∀ s, e = .backend s → s.call ≠ .deleteTopic topic) (hne : e ≠ .restart) :
    w.gateway.store.log topic <+: (w.step crates topic e).gateway.store.log topic := by
  rcases (@stepped_of_step crates topic w.gateway e).store with
    ⟨key, s, hcall, hstore, -⟩ | ⟨-, -, hstore, -⟩ | ⟨heq, -, -⟩
  · have hs : s.call ≠ .deleteTopic topic := by
      rcases storeCall_cases hcall with ⟨-, heq⟩ | ⟨k, input, messages, env, -, -, -, rfl⟩
      · exact he s heq
      · exact nofun
    change _ <+: State.log (w.gateway.step crates topic e).1.store topic
    rw [hstore]
    exact log_of_exec hs
  · change _ <+: State.log (w.gateway.step crates topic e).1.store topic
    rw [hstore]
  · exact absurd heq hne

theorem Enqueued.step (h : Enqueued crates topic w key)
    (he : ∀ s, e = .backend s → s.call ≠ .deleteTopic topic) (hne : e ≠ .restart) :
    Enqueued crates topic (w.step crates topic e) key := by
  obtain ⟨r, hr, hcommand⟩ := h
  exact ⟨r, (log_step he hne).subset hr, hcommand.mono fun p hp => List.mem_append_left _ hp⟩

/-- The message of a command is one for its key. -/
theorem isCommand_actionMessage {received : List (Text × ActionIn)} {input : ActionIn}
    (h : (key, input) ∈ received) :
    IsCommand crates received key
      (enrichMessage crates.serde topic (actionMessage crates key input)).attributes
      (enrichMessage crates.serde topic (actionMessage crates key input)).data := by
  refine ⟨?_, input, h, (enrichMessage_frame _ _ _).1⟩
  rw [getElem?_enrich crates.serde topic _ (by decide +kernel)]
  exact idempotencyKey_actionMessage key input

/-- **A command that is published is on the topic**, if the first message under its key
is one for that key. -/
theorem enqueued_of_publish (hk : Kept crates topic w) (hr : Requests crates topic w)
    {input : ActionIn} {messages : List NewMessage} {env : Env} {ids : List Text}
    (hholder : w.gateway.holder = some ⟨key, input, .prepared messages⟩)
    (hids : (Memory.publish crates.serde env w.gateway.store topic messages).1 = .ok ids)
    (hfirst : FirstIsCommand crates w key) :
    Enqueued crates topic (w.step crates topic (.publish env)) key := by
  -- what is published is the message prepared for the command
  obtain rfl := hr.prepared key input messages hholder
  have hreceived : (key, input) ∈ w.received := hr.holder _ hholder
  have hkey := @dedupKey_actionMessage crates topic input key (hr.received _ hreceived)
  have hcommand : IsCommand crates w.received key _ _ :=
    @isCommand_actionMessage crates topic key w.received input hreceived
  set m := enrichMessage crates.serde topic (actionMessage crates key input) with hm
  have hk' : Kept crates topic (w.step crates topic (.publish env)) := hk.step hr nofun
  have hcall : w.gateway.storeCall topic (.publish env) =
      some (some key, ⟨.publish topic [m], env⟩) := storeCall_of_prepared hholder
  have hhistory := (@history_of_call crates topic _ _ _ _ hcall).1
  have haccepted : (w.step crates topic (.publish env)).history.published.accepted =
      w.history.published.accepted ++ [m] := by
    rw [hhistory]
    obtain ⟨t, ht, hcheck, -⟩ := publish_ok hids
    rw [← hk.state] at ht hcheck
    exact congrArg _ (acceptedBy_of_checkSchema rfl ht hcheck)
  -- the first message under the key is one for it
  obtain ⟨m₀, hhead, hcommand₀⟩ : ∃ m₀,
      ((w.history.published.accepted ++ [m]).filter fun m => decide (dedupKey m = some key)).head? =
        some m₀ ∧ IsCommand crates w.received key m₀.attributes m₀.data := by
    rw [List.filter_append]
    cases hacc : w.history.published.accepted.filter fun m => decide (dedupKey m = some key) with
    | nil =>
      have hone : [m].filter (fun m => decide (dedupKey m = some key)) = [m] :=
        List.filter_cons_of_pos (decide_eq_true hkey)
      rw [List.nil_append, hone]
      exact ⟨m, rfl, hcommand⟩
    | cons a l => exact ⟨a, rfl, hfirst a (by rw [hacc]; rfl)⟩
  -- so it is the one that is stored
  have hmem : m₀ ∈ firsts dedupKey (w.history.published.accepted ++ [m]) := by
    have hfilter := @firsts_filter _ _ _ dedupKey (w.history.published.accepted ++ [m]) key
    rw [hhead] at hfilter
    have hm₀ : m₀ ∈ (some m₀).toList := List.mem_singleton_self m₀
    rw [← hfilter] at hm₀
    exact (List.mem_filter.mp hm₀).1
  have hstores := hk'.once.tracked.stores
  rw [haccepted] at hstores
  obtain ⟨r, hr', hstored⟩ := exists_of_forall₂ hstores hmem
  refine ⟨r, ?_, ?_, ?_⟩
  · rw [← hk'.state]
    exact hk'.once.tracked.sublist.subset hr'
  · rw [hstored.attributes, getElem?_enrich crates.serde topic _ (by decide +kernel)]
    exact hcommand₀.1
  · rw [hstored.data]
    obtain ⟨-, input', hmem', hdata⟩ := hcommand₀
    exact ⟨input', List.mem_append_left _ hmem', hdata⟩

/-- **What has been accepted stays on the topic.** -/
theorem Backed.step (hb : Backed crates topic w) (hk : Kept crates topic w)
    (hr : Requests crates topic w) (he : ∀ s, e = .backend s → s.call ≠ .deleteTopic topic)
    (hfirst : Unclaimed crates w e) : Backed crates topic (w.step crates topic e) := by
  have hstepped := @stepped_of_step crates topic w.gateway e
  rcases eq_or_ne e .restart with rfl | hne
  · exact ⟨by simp [Observed.step, Gateway.step], nofun⟩
  refine ⟨fun k result hresult => ?_, fun k input hholder => ?_⟩
  · rcases hstepped.results.1 k result hresult with hsame | ⟨input, now, -, hholder⟩
    · exact (hb.byKey k result hsame).step he hne
    · exact (hb.published k input hholder).step he hne
  · rcases hstepped.holds hholder with hsame | ⟨messages, env, ids, rfl, hprepared, hids⟩
    · exact (hb.published k input hsame).step he hne
    · exact enqueued_of_publish hk hr hprepared hids (hfirst env _ _ _ rfl hprepared)

end Step

/-! ### The statement -/

section Run

variable {crates : Crates} {topic : Text} {events : List Event}

theorem backed_initial : Backed crates topic {} := ⟨by simp, nofun⟩

/-- **A run keeps what has been accepted on the topic.** -/
theorem backed_observe (hkeep : ∀ s, .backend s ∈ events → s.call ≠ .deleteTopic topic)
    (hfirst : Machine.Guarded (Observed.step crates topic) (Unclaimed crates) {} events) :
    Kept crates topic (observe crates topic events) ∧
      Requests crates topic (observe crates topic events) ∧
      Backed crates topic (observe crates topic events) := by
  refine Machine.invariant (P := fun _ w => Kept crates topic w ∧ Requests crates topic w ∧
    Backed crates topic w) ⟨kept_initial, requests_initial, backed_initial⟩
    (fun pre e hpre h => ?_) events (List.prefix_refl _)
  obtain ⟨hk, hr, hb⟩ := h
  have he : ∀ s, e = .backend s → s.call ≠ .deleteTopic topic :=
    fun s hs => hkeep s (hpre.subset (by simp [hs]))
  exact ⟨hk.step hr he, hr.step, hb.step hk hr he (hfirst pre e hpre)⟩

end Run

/-- **An accepted action is on the topic**, in every run in which the first message
published under the key of a command is one for that key, as it is unless another client
uses the key as an id before. -/
theorem accepted_enqueued (crates : Crates) (topic : Text) (events : List Event)
    (hkeep : ∀ s, .backend s ∈ events → s.call ≠ .deleteTopic topic)
    (hfirst : Machine.Guarded (Observed.step crates topic) (Unclaimed crates) {} events) :
    ∀ pre e key result, pre ++ [e] <+: events →
      (key, result) ∈ resultOf ((observe crates topic pre).gateway.step crates topic e).2 →
      Enqueued crates topic (observe crates topic (pre ++ [e])) key := by
  intro pre e key result hpre hresult
  have hpre_le : pre <+: events := (List.prefix_append pre [e]).trans hpre
  obtain ⟨-, -, hb⟩ := @backed_observe crates topic pre
    (fun s hs => hkeep s (hpre_le.subset hs)) (hfirst.of_isPrefix hpre_le)
  have he : ∀ s, e = .backend s → s.call ≠ .deleteTopic topic :=
    fun s hs => hkeep s (hpre.subset (by simp [hs]))
  have hne : e ≠ .restart := by
    rintro rfl
    cases hresult
  have hbefore : Enqueued crates topic (observe crates topic pre) key := by
    rcases (@stepped_of_step crates topic (observe crates topic pre).gateway e).results.2 _
      hresult with hsame | ⟨input, now, -, hholder⟩
    · exact hb.byKey key result hsame
    · exact hb.published key input hholder
  unfold observe
  rw [Machine.run_concat]
  exact hbefore.step he hne

/-! ### A key that another client has used -/

/-- After some events of other clients, a command is delivered under the key `k`; its
answer is still to be given. -/
def deliveryEvents (others : List Event) : List Event :=
  [.backend (Step.numbered (0, .createTopic sampleTopic) 0)] ++ others ++
    [.request sampleRequest, .acquire 0, .describe, .prepare, .publish (sampleEnv 2)]

/-- Another client publishes a message under the id `k`. -/
def claim : Event :=
  .backend (Step.numbered (0, .publish sampleTopic.name
    [{ sampleMessage [] with data := [1], messageId := "k" }]) 1)

/-- Without other clients the command is on the topic. -/
theorem delivery_enqueued : Enqueued noCrates sampleTopic.name
    (observe noCrates sampleTopic.name (deliveryEvents [] ++ [.finish 1])) "k" := by
  have hanswer : (resultOf ((observe noCrates sampleTopic.name (deliveryEvents [])).gateway.step
      noCrates sampleTopic.name (.finish 1)).2).map Prod.fst = ["k".toList] := by decide +kernel
  have hempty : (observe noCrates sampleTopic.name
      ((deliveryEvents []).dropLast)).history.published.accepted.isEmpty := by decide +kernel
  have hmem : "k".toList ∈ (resultOf ((observe noCrates sampleTopic.name
      (deliveryEvents [])).gateway.step noCrates sampleTopic.name (.finish 1)).2).map Prod.fst := by
    rw [hanswer]
    exact List.mem_singleton_self _
  obtain ⟨⟨key, result⟩, hresult, hkey⟩ := List.mem_map.mp hmem
  rw [← hkey]
  refine accepted_enqueued noCrates sampleTopic.name (deliveryEvents [] ++ [.finish 1]) ?_ ?_ _ _
    key result (List.prefix_refl _) hresult
  · intro s hs
    unfold deliveryEvents at hs
    simp only [List.append_nil, List.cons_append, List.nil_append, List.mem_cons,
      Event.backend.injEq, List.not_mem_nil, reduceCtorEq, or_false] at hs
    rw [hs]
    exact nofun
  · intro pre e hpre env _ _ _ he _ m hm
    have hpre' : pre = (deliveryEvents []).dropLast := by
      obtain ⟨rest, hrest⟩ := hpre
      subst he
      unfold deliveryEvents at hrest ⊢
      rcases pre with - | ⟨_, - | ⟨_, - | ⟨_, - | ⟨_, - | ⟨_, - | ⟨_, - | ⟨_, _⟩⟩⟩⟩⟩⟩⟩ <;>
        simp_all
    change ((observe noCrates sampleTopic.name pre).history.published.accepted.filter _).head? = _
      at hm
    rw [hpre', List.isEmpty_iff.mp hempty] at hm
    cases hm

/-- **The command is accepted and dropped**: the answer is a success, and the log has no
message that carries the key. -/
theorem claimed_dropped :
    (resultOf ((observe noCrates sampleTopic.name (deliveryEvents [claim])).gateway.step noCrates
      sampleTopic.name (.finish 1)).2).map Prod.fst = ["k".toList] ∧
    ¬Enqueued noCrates sampleTopic.name
      (observe noCrates sampleTopic.name (deliveryEvents [claim] ++ [.finish 1])) "k" := by
  refine ⟨by decide +kernel, ?_⟩
  rintro ⟨r, hr, hkey, -⟩
  have hnone : ∀ r ∈ (observe noCrates sampleTopic.name
      (deliveryEvents [claim] ++ [.finish 1])).gateway.store.log sampleTopic.name,
      r.attributes["idempotency_key".toList]? = none := by decide +kernel
  rw [hnone r hr] at hkey
  cases hkey

end RelayPubsub.ActionGateway
