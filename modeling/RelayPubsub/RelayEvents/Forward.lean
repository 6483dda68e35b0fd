import RelayPubsub.Lib.Firsts
import RelayPubsub.RelayEvents.Publish

/-!
# Forwarding under retries

A batch is forwarded message by message and abandoned at the first that Relay does
not take, so a client that tries again sends some beginning of the batch again.
Relay keeps the first event of a key. Together they store of a batch, however
often it is tried, what one publish without a failure stores
(`RelayPubsub.RelayEvents.forward_once`): the events of a batch depend on the batch
alone, each attempt sends a beginning of them, and a beginning that arrives before
the whole makes no difference to Relay (`Lib.depositAll_beginning`).

Relay and the network are assumptions here (`RelayPubsub.RelayEvents.Relay`): an
event that Relay takes is stored unless one with its key is, and only what Relay
takes is answered by a success.
-/

namespace RelayPubsub.RelayEvents

open Lib Memory

/-- **What becomes of a request**: whether Relay takes the event, and what comes
back. A reply may be lost. -/
structure Fate where
  taken : Bool
  reply : Reply
  taken_of_success : reply.isSuccess → taken = true

/-- **Relay**, what it has stored, and what will become of the requests, the `sent`-th
one next. -/
structure Relay where
  stored : List RelayEvent
  fates : ℕ → Fate
  sent : ℕ := 0

/-- A request arrives, or does not. -/
def Relay.send (post : Post) (relay : Relay) : Reply × Relay :=
  let fate := relay.fates relay.sent
  (fate.reply,
    { relay with
      stored := if fate.taken then deposit RelayEvent.idempotencyKey relay.stored post.event
        else relay.stored
      sent := relay.sent + 1 })

/-- **An attempt to publish**: what it reads from outside, and the local store when
the topic is read, when its schema is, and at the end. -/
structure Attempt where
  env : Env
  topicState : State
  schemaState : State
  state : State

section Forward

variable (crates : Crates) (backend : RelayEventsBackend) (topic : Text)
  (messages : List NewMessage)

/-- The answer to an attempt, and Relay after it. -/
def Attempt.publish (a : Attempt) (relay : Relay) : Except BackendError (List Text) × Relay :=
  let (ids, _, relay) := RelayEvents.publish crates backend Relay.send a.env a.topicState
    a.schemaState a.state topic messages relay
  (ids, relay)

/-- Relay after some attempts. -/
def retried (relay : Relay) (attempts : List Attempt) : Relay :=
  attempts.foldl (fun relay a => (a.publish crates backend topic messages relay).2) relay

/-- The events of a batch. -/
def events : List RelayEvent :=
  messages.map fun m =>
    relayEvent crates (shortName topic) (enrichMessage crates.serde topic m)

variable {crates backend topic messages}

/-! ### One attempt -/

/-- Preparing a message enriches it, or fails. -/
theorem eq_of_prepareMessage {serde : SerdeJson} {schema : Option (Text × SchemaSpec)}
    {m prepared : NewMessage} (h : prepareMessage serde topic schema m = .ok prepared) :
    prepared = enrichMessage serde topic m := by
  unfold prepareMessage at h
  dsimp only at h
  split at h
  · exact (Except.ok.inj h).symm
  · rename_i encoding schema
    cases hv : validatePayload serde schema encoding (enrichMessage serde topic m).data with
    | error e =>
      rw [hv] at h
      cases h
    | ok _ =>
      rw [hv] at h
      exact (Except.ok.inj h).symm

/-- Preparing a batch enriches it, or fails. -/
theorem eq_of_mapM_prepareMessage {serde : SerdeJson} {schema : Option (Text × SchemaSpec)}
    {prepared : List NewMessage}
    (h : messages.mapM (prepareMessage serde topic schema) = .ok prepared) :
    prepared = messages.map (enrichMessage serde topic) := by
  induction messages generalizing prepared with
  | nil => exact (Except.ok.inj h).symm
  | cons m messages ih =>
    rw [List.mapM_cons] at h
    cases hm : prepareMessage serde topic schema m with
    | error e =>
      rw [hm] at h
      cases h
    | ok first =>
      cases hrest : messages.mapM (prepareMessage serde topic schema) with
      | error e =>
        rw [hm, hrest] at h
        cases h
      | ok rest =>
        rw [hm, hrest] at h
        obtain rfl := (Except.ok.inj h).symm
        rw [List.map_cons, ih hrest, eq_of_prepareMessage hm]

theorem eq_of_preparePublish {serde : SerdeJson} {st st' : State} {prepared : List NewMessage}
    (h : preparePublish serde st st' topic messages = .ok prepared) :
    prepared = messages.map (enrichMessage serde topic) := by
  unfold preparePublish at h
  cases hs : boundSchema st' (getTopic st topic).toOption with
  | error e =>
    rw [hs] at h
    cases h
  | ok schema =>
    rw [hs] at h
    exact eq_of_mapM_prepareMessage h

/-- **A message is forwarded**: Relay takes its event or not, and takes it if the
answer is a success. -/
theorem acceptEvent_stored (short : Text) (m : NewMessage) (relay : Relay) :
    let after := acceptEvent crates backend Relay.send short m relay
    (after.2.stored = relay.stored ∨
      after.2.stored = deposit RelayEvent.idempotencyKey relay.stored (relayEvent crates short m)) ∧
    (after.1 = .ok () →
      after.2.stored =
        deposit RelayEvent.idempotencyKey relay.stored (relayEvent crates short m)) := by
  have hsend : ∀ reply relay', Relay.send (backend.post (relayEvent crates short m)) relay =
      (reply, relay') →
      (relay'.stored = relay.stored ∨
        relay'.stored =
          deposit RelayEvent.idempotencyKey relay.stored (relayEvent crates short m)) ∧
      (reply.isSuccess → relay'.stored =
          deposit RelayEvent.idempotencyKey relay.stored (relayEvent crates short m)) := by
    rintro reply relay' h
    obtain ⟨rfl, rfl⟩ := Prod.mk.inj h
    dsimp only
    refine ⟨?_, fun hsuccess => if_pos ((relay.fates relay.sent).taken_of_success hsuccess)⟩
    split
    · exact .inr rfl
    · exact .inl rfl
  intro after
  rcases hs : Relay.send (backend.post (relayEvent crates short m)) relay with ⟨reply, relay'⟩
  obtain ⟨htaken, hsuccess⟩ := hsend reply relay' hs
  have hafter : after.2 = relay' ∧ (after.1 = .ok () → reply.isSuccess) := by
    change (acceptEvent crates backend Relay.send short m relay).2 = relay' ∧
      ((acceptEvent crates backend Relay.send short m relay).1 = .ok () → reply.isSuccess)
    unfold acceptEvent
    rw [hs]
    dsimp only
    cases reply with
    | failure e => exact ⟨rfl, nofun⟩
    | response status text =>
      dsimp only
      split
      · rename_i hok
        exact ⟨rfl, fun _ => hok⟩
      · exact ⟨rfl, nofun⟩
  rw [hafter.1]
  exact ⟨htaken, fun hok => hsuccess (hafter.2 hok)⟩

/-- The rest of a batch that is forwarded in full. -/
theorem exists_of_map_cons_ok {rest : Except BackendError (List Text)} {id : Text} {ids : List Text}
    (h : rest.map (id :: ·) = .ok ids) : ∃ tail, rest = .ok tail := by
  cases rest with
  | error e => cases h
  | ok tail => exact ⟨tail, rfl⟩

/-- **A batch is forwarded**: a beginning of its events is stored, and all of them
if the answer is a success. -/
theorem forward_stored (uuid : ℕ → Uuid) (short : Text) (messages : List NewMessage) (draws : ℕ)
    (relay : Relay) :
    let after := forward crates backend Relay.send uuid short messages draws relay
    (∃ pre, pre <+: messages.map (relayEvent crates short) ∧
      after.2.stored = depositAll RelayEvent.idempotencyKey relay.stored pre) ∧
    (∀ ids, after.1 = .ok ids →
      after.2.stored = depositAll RelayEvent.idempotencyKey relay.stored
        (messages.map (relayEvent crates short))) := by
  induction messages generalizing draws relay with
  | nil => exact ⟨⟨[], List.prefix_refl _, rfl⟩, fun _ _ => rfl⟩
  | cons m messages ih =>
    dsimp only
    unfold forward
    have haccept := @acceptEvent_stored crates backend short m relay
    dsimp only at haccept
    rcases ha : acceptEvent crates backend Relay.send short m relay with ⟨answer, relay'⟩
    rw [ha] at haccept
    obtain ⟨htaken, hsuccess⟩ := haccept
    have hhead : [relayEvent crates short m] <+: (m :: messages).map (relayEvent crates short) :=
      ⟨_, rfl⟩
    cases answer with
    | error e =>
      -- the batch is abandoned here
      refine ⟨?_, nofun⟩
      rcases htaken with htaken | htaken
      · exact ⟨[], List.nil_prefix, htaken⟩
      · exact ⟨_, hhead, htaken⟩
    | ok _ =>
      have hone : relay'.stored =
          depositAll RelayEvent.idempotencyKey relay.stored [relayEvent crates short m] :=
        hsuccess rfl
      obtain ⟨⟨pre, hpre, hstored⟩, hall⟩ :=
        ih (if m.messageId = [] then draws + 1 else draws) relay'
      dsimp only
      rw [List.map_cons, ← List.singleton_append, depositAll_append, ← hone]
      refine ⟨⟨[relayEvent crates short m] ++ pre, ?_, ?_⟩, fun ids hids => ?_⟩
      · exact List.prefix_append_right_inj _ |>.mpr hpre
      · rw [depositAll_append, ← hone]
        exact hstored
      · obtain ⟨tail, htail⟩ := exists_of_map_cons_ok hids
        exact hall tail htail

/-! ### Several attempts -/

/-- **An attempt** stores a beginning of the events of the batch, and all of them if
it succeeds. -/
theorem Attempt.publish_stored (hforward : topic ≠ backend.actionsTopic) (a : Attempt)
    (relay : Relay) :
    (∃ pre, pre <+: events crates topic messages ∧
      (a.publish crates backend topic messages relay).2.stored =
        depositAll RelayEvent.idempotencyKey relay.stored pre) ∧
    (∀ ids, (a.publish crates backend topic messages relay).1 = .ok ids →
      (a.publish crates backend topic messages relay).2.stored =
        depositAll RelayEvent.idempotencyKey relay.stored (events crates topic messages)) := by
  unfold Attempt.publish RelayEvents.publish
  dsimp only
  cases hprepare : preparePublish crates.serde a.topicState a.schemaState topic messages with
  | error e => exact ⟨⟨[], List.nil_prefix, rfl⟩, nofun⟩
  | ok prepared =>
    dsimp only
    rw [if_neg hforward]
    have hevents : events crates topic messages =
        prepared.map (relayEvent crates (shortName topic)) := by
      rw [eq_of_preparePublish hprepare, List.map_map]
      rfl
    rw [hevents]
    exact forward_stored a.env.uuid (shortName topic) prepared 0 relay

/-- **Attempts** store a beginning of the events of the batch. -/
theorem retried_stored (hforward : topic ≠ backend.actionsTopic) (attempts : List Attempt)
    (relay : Relay) : ∃ pre, pre <+: events crates topic messages ∧
      (retried crates backend topic messages relay attempts).stored =
        depositAll RelayEvent.idempotencyKey relay.stored pre := by
  induction attempts using List.reverseRecOn with
  | nil => exact ⟨[], List.nil_prefix, rfl⟩
  | append_singleton attempts a ih =>
    obtain ⟨pre, hpre, hstored⟩ := ih
    obtain ⟨⟨pre', hpre', hstored'⟩, -⟩ := a.publish_stored hforward
      (retried crates backend topic messages relay attempts)
    obtain ⟨longer, hlonger, heq⟩ :=
      @exists_depositAll_beginnings _ _ _ RelayEvent.idempotencyKey relay.stored _ _ _ hpre hpre'
    refine ⟨longer, hlonger, ?_⟩
    unfold retried at hstored hstored' ⊢
    rw [List.foldl_concat, hstored', hstored, heq]

/-- **Forwarding is exactly-once under retries**: attempts to publish a batch of which
the last succeeds leave in Relay what one publish without a failure leaves there,
whatever becomes of the requests in between. Of each message an event is stored,
and none twice. -/
theorem forward_once (crates : Crates) (backend : RelayEventsBackend) {topic : Text}
    (hforward : topic ≠ backend.actionsTopic) (messages : List NewMessage) (relay : Relay)
    (attempts : List Attempt) (last : Attempt) {ids : List Text}
    (hok : (last.publish crates backend topic messages
      (retried crates backend topic messages relay attempts)).1 = .ok ids) :
    let stored := (last.publish crates backend topic messages
      (retried crates backend topic messages relay attempts)).2.stored
    (∀ (once : Attempt) (relay₀ : Relay) (ids₀ : List Text), relay₀.stored = relay.stored →
      (once.publish crates backend topic messages relay₀).1 = .ok ids₀ →
      (once.publish crates backend topic messages relay₀).2.stored = stored) ∧
    stored = depositAll RelayEvent.idempotencyKey relay.stored (events crates topic messages) ∧
    (∀ e ∈ events crates topic messages, e.idempotencyKey ∈ stored.map RelayEvent.idempotencyKey) ∧
    ((relay.stored.map RelayEvent.idempotencyKey).Nodup →
      (stored.map RelayEvent.idempotencyKey).Nodup) := by
  intro stored
  obtain ⟨pre, hpre, hretried⟩ := @retried_stored crates backend topic messages hforward attempts
    relay
  -- the last attempt stores all events, after attempts that have stored a beginning
  have hstored : stored =
      depositAll RelayEvent.idempotencyKey relay.stored (events crates topic messages) := by
    have hpre' := @depositAll_beginning _ _ _ RelayEvent.idempotencyKey relay.stored _ _ hpre
    rw [← hpre', ← hretried]
    exact (last.publish_stored hforward _).2 ids hok
  refine ⟨fun once relay₀ ids₀ hstart hids₀ => ?_, hstored, fun e he => ?_, fun hnodup => ?_⟩
  · rw [(once.publish_stored hforward relay₀).2 ids₀ hids₀, hstart, hstored]
  · rw [hstored]
    exact key_mem_depositAll he
  · rw [hstored]
    exact nodup_depositAll hnodup

end Forward

/-! ### A reply that is lost -/

/-- Relay takes all requests, but the second reply is lost. -/
def sampleRelay : Relay where
  stored := []
  fates n :=
    if n = 1 then ⟨true, .failure "operation timed out", nofun⟩
    else ⟨true, .response 200 [], fun _ => rfl⟩

def sampleBackend : RelayEventsBackend where
  relayBaseUrl := "http://relay:9090"
  relayToken := none
  actionsTopic := "projects/p/topics/actions"

def sampleAttempt : Attempt where
  env := (Step.numbered (0, .getTopic []) 0).env
  topicState := {}
  schemaState := {}
  state := {}

def sampleBatch : List NewMessage :=
  [{ sampleMessage [] with messageId := "1" }, { sampleMessage [] with messageId := "2" }]

/-- Both messages are stored once, though the second is sent twice. -/
theorem sampleBatch_stored :
    (sampleAttempt.publish sampleCrates sampleBackend sampleTopic.name sampleBatch
      (retried sampleCrates sampleBackend sampleTopic.name sampleBatch sampleRelay
        [sampleAttempt])).2.stored.map RelayEvent.idempotencyKey = ["1".toList, "2".toList] := by
  have hforward : sampleTopic.name ≠ sampleBackend.actionsTopic := by decide
  have hok : (sampleAttempt.publish sampleCrates sampleBackend sampleTopic.name sampleBatch
      (retried sampleCrates sampleBackend sampleTopic.name sampleBatch sampleRelay
        [sampleAttempt])).1 = .ok ["1", "2"] := rfl
  obtain ⟨-, hstored, -⟩ := forward_once sampleCrates sampleBackend hforward sampleBatch sampleRelay
    [sampleAttempt] sampleAttempt hok
  rw [hstored]
  rfl

end RelayPubsub.RelayEvents
