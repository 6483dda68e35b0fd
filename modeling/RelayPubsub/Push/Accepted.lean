import RelayPubsub.Memory.Accounted
import RelayPubsub.Push.Dispatcher

/-!
# Nothing is dropped before its endpoint has accepted it

The dispatcher acknowledges a delivery only after the endpoint has accepted a request
with its message. So where no other client acknowledges on a subscription, an index is
acked only if a request with the message the log has there was accepted, or a pull has
set the index aside: the filter rejects the message, or a copy of it is in the
dead-letter topic. Everything else is posted again
(`RelayPubsub.Push.delivered_at_least_once`).

The invariant of the system says where every delivery comes from that the task holds or
has posted, and that every acknowledgement of the task follows an accepted request
(`RelayPubsub.Push.World.Honest`).
-/

namespace RelayPubsub.Push

open Lib Memory

variable {serde : SerdeJson}

/-! ### The invariant -/

/-- The deliveries the task has yet to post, with their subscription. -/
def Task.pending : Task → List (Text × Delivery)
  | .posting sub _ deliveries _ | .acking sub _ _ deliveries _ =>
    deliveries.map fun d => (sub.name, d)
  | _ => []

/-- **An endpoint has accepted** a delivery of the subscription under the ack id. -/
def Accepted (trace : List Exchange) (name ackId : Text) : Prop :=
  ∃ post, .posted post ∈ trace ∧ post.accepted = true ∧ post.subscription = name ∧
    post.delivery.ackId = ackId

/-- **The task is honest**: what it holds and has posted was handed out to it, and what it
has acknowledged was accepted before. `others` are the calls of other clients. -/
structure World.Honest (serde : SerdeJson) (others : Step → Prop) (w : World) : Prop where
  store : w.store = stateAfter serde w.calls
  pending : ∀ x ∈ w.task.pending, ∃ i, HandedOut serde w.calls x.1 x.2 i
  posted : ∀ post, .posted post ∈ w.trace →
    ∃ i, HandedOut serde w.calls post.subscription post.delivery i
  acking : ∀ sub endpoint ackId deliveries subs,
    w.task = .acking sub endpoint ackId deliveries subs → Accepted w.trace sub.name ackId
  acks : ∀ s ∈ w.calls, ∀ name ackIds, s.call = .acknowledge name ackIds →
    others s ∨ ∀ ackId ∈ ackIds, Accepted w.trace name ackId

section Step

variable {others : Step → Prop} {w : World}

theorem Accepted.mono {trace trace' : List Exchange} {name ackId : Text}
    (h : Accepted trace name ackId) (hle : trace ⊆ trace') : Accepted trace' name ackId := by
  obtain ⟨post, hmem, hpost⟩ := h
  exact ⟨post, hle hmem, hpost⟩

/-- A call of the backend, of another client or of the task. -/
theorem World.Honest.call (h : w.Honest serde others) {s : Step}
    (hs : ∀ name ackIds, s.call = .acknowledge name ackIds →
      others s ∨ ∀ ackId ∈ ackIds, Accepted w.trace name ackId) :
    (w.call serde s).Honest serde others where
  store := by
    show exec serde w.store s = stateAfter serde (w.calls ++ [s])
    rw [stateAfter_concat, h.store]
  pending := by
    intro x hx
    obtain ⟨i, hi⟩ := h.pending x hx
    exact ⟨i, hi.mono (List.prefix_append _ _)⟩
  posted := by
    intro post hpost
    obtain ⟨i, hi⟩ := h.posted post hpost
    exact ⟨i, hi.mono (List.prefix_append _ _)⟩
  acking := h.acking
  acks := by
    intro t ht name ackIds hcall
    rcases List.mem_append.mp ht with ht | ht
    · exact h.acks t ht name ackIds hcall
    · obtain rfl := List.mem_singleton.mp ht
      exact hs name ackIds hcall

/-- The task goes on: what it holds then it held before, or was handed out. -/
theorem World.Honest.goOn (h : w.Honest serde others) {task : Task} {xs : List Exchange}
    (hpending : ∀ x ∈ task.pending, ∃ i, HandedOut serde w.calls x.1 x.2 i)
    (hposted : ∀ post, .posted post ∈ xs →
      ∃ i, HandedOut serde w.calls post.subscription post.delivery i)
    (hacking : ∀ sub endpoint ackId deliveries subs,
      task = .acking sub endpoint ackId deliveries subs → Accepted (w.trace ++ xs) sub.name ackId) :
    ({ w with task, trace := w.trace ++ xs } : World).Honest serde others where
  store := h.store
  pending := hpending
  posted := by
    intro post hpost
    rcases List.mem_append.mp hpost with hpost | hpost
    · exact h.posted post hpost
    · exact hposted post hpost
  acking := hacking
  acks := by
    intro s hs name ackIds hcall
    refine (h.acks s hs name ackIds hcall).imp_right fun hall ackId hmem => ?_
    exact (hall ackId hmem).mono (List.subset_append_left _ _)

/-- **A turn keeps the task honest.** -/
theorem World.Honest.turn (h : w.Honest serde others) (m : Meets) :
    (w.turn serde m).Honest serde others := by
  have hquiet : ∀ task : Task, task.pending = [] → (∀ sub endpoint ackId deliveries subs,
      task ≠ .acking sub endpoint ackId deliveries subs) →
      ({ w with task } : World).Honest serde others := by
    intro task hnone hno
    have hgo : ({ w with task, trace := w.trace ++ [] } : World).Honest serde others :=
      h.goOn (by simp [hnone]) (by simp)
        fun sub endpoint ackId deliveries subs heq => absurd heq (hno _ _ _ _ _)
    simpa using hgo
  unfold World.turn
  rcases htask : w.task with - | subs | ⟨sub, endpoint, deliveries, subs⟩ |
    ⟨sub, endpoint, ackId, deliveries, subs⟩ | -
  · refine (h.call (by simp)).goOn (by simp [Task.pending]) (by simp) (by simp)
  · rcases subs with - | ⟨sub, subs⟩
    · exact hquiet .asleep rfl (by simp)
    · rcases hend : sub.pushEndpoint with - | endpoint
      · simp only [hend]
        exact hquiet (.visiting subs) rfl (by simp)
      · have hcalled := h.call (s := ⟨.pull sub.name 20, m.env⟩) (by simp)
        rcases hpull : (Memory.pull m.env w.store sub.name 20).1 with (e | deliveries) | -
        · simp only [hend, hpull]
          exact hcalled.goOn (by simp [Task.pending]) (by simp) (by simp)
        · simp only [hend, hpull]
          rw [h.store] at hpull
          refine hcalled.goOn ?_ (by simp) (by simp)
          intro x hx
          obtain ⟨d, hd, rfl⟩ := List.mem_map.mp hx
          exact handedOut_of_pull hpull d hd
        · simp only [hend, hpull]
          have hgo : ({ w.call serde ⟨.pull sub.name 20, m.env⟩ with
              task := .crashed
              trace := (w.call serde ⟨.pull sub.name 20, m.env⟩).trace ++ [] } :
              World).Honest serde others :=
            hcalled.goOn (by simp [Task.pending]) (by simp) (by simp)
          simpa using hgo
  · rcases deliveries with - | ⟨delivery, deliveries⟩
    · exact hquiet (.visiting subs) rfl (by simp)
    · have hheld : ∀ d ∈ delivery :: deliveries, ∃ i, HandedOut serde w.calls sub.name d i := by
        intro d hd
        have hpending := h.pending (sub.name, d)
        rw [htask] at hpending
        exact hpending (List.mem_map.mpr ⟨d, hd, rfl⟩)
      have hrest : ∀ x ∈ deliveries.map (fun d => (sub.name, d)),
          ∃ i, HandedOut serde w.calls x.1 x.2 i := by
        intro x hx
        obtain ⟨d, hd, rfl⟩ := List.mem_map.mp hx
        exact hheld d (List.mem_cons_of_mem _ hd)
      have hfirst : ∀ (accepted : Bool) (post : Post),
          Exchange.posted post ∈ [.posted ⟨endpoint, sub.name, delivery, accepted⟩] →
          ∃ i, HandedOut serde w.calls post.subscription post.delivery i := by
        intro accepted post hpost
        obtain rfl : post = ⟨endpoint, sub.name, delivery, accepted⟩ := by simpa using hpost
        exact hheld delivery List.mem_cons_self
      dsimp only
      split
      · refine h.goOn hrest (hfirst true) ?_
        intro sub' endpoint' ackId' deliveries' subs' heq
        obtain ⟨rfl, -, rfl, -, -⟩ := Task.acking.inj heq
        exact ⟨⟨endpoint, sub.name, delivery, true⟩, by simp, rfl, rfl, rfl⟩
      · exact h.goOn hrest (hfirst false) (by simp)
  · have haccepted := h.acking sub endpoint ackId deliveries subs htask
    have hcalled := h.call (s := ⟨.acknowledge sub.name [ackId], m.env⟩) (by
      intro name ackIds hcall
      obtain ⟨rfl, rfl⟩ := BackendCall.acknowledge.inj hcall
      refine Or.inr fun id hid => ?_
      rwa [List.mem_singleton.mp hid])
    refine hcalled.goOn ?_ (by simp) (by simp)
    have hpending := hcalled.pending
    simp only [World.call, htask] at hpending
    exact hpending
  · exact h

end Step

/-! ### Runs of the system -/

/-- What an event reads from outside. -/
def Event.env : Event → Env
  | .call s => s.env
  | .turn m => m.env

/-- The two events draw no random identifier in common. -/
def Event.Apart (e f : Event) : Prop := ∀ m n, (e.env.uuid m).text ≠ (f.env.uuid n).text

/-- **A run of the system**: any interleaving of calls and turns, no random identifier
drawn twice. -/
structure Run where
  events : List Event
  fresh : events.Pairwise Event.Apart

/-- The system after some events, from the empty store. -/
def worldAfter (serde : SerdeJson) (events : List Event) : World :=
  Machine.run (World.step serde) {} events

theorem worldAfter_concat (events : List Event) (e : Event) :
    worldAfter serde (events ++ [e]) = (worldAfter serde events).step serde e :=
  Machine.run_concat _ _ _ _

/-- An event makes one call at most. -/
theorem calls_step (w : World) (e : Event) :
    (w.step serde e).calls = w.calls ∨
      ∃ s : Step, s.env = e.env ∧ (w.step serde e).calls = w.calls ++ [s] := by
  cases e with
  | call s => exact Or.inr ⟨s, rfl, rfl⟩
  | turn m =>
    simp only [World.step, World.turn]
    split
    · exact Or.inl rfl
    · exact Or.inr ⟨_, rfl, rfl⟩
    · exact Or.inl rfl
    · split
      · exact Or.inl rfl
      · right
        split <;> exact ⟨_, rfl, rfl⟩
    · exact Or.inl rfl
    · split <;> exact Or.inl rfl
    · exact Or.inr ⟨_, rfl, rfl⟩

/-- The calls of a run draw what its events draw. -/
theorem env_calls_sublist (events : List Event) :
    ((worldAfter serde events).calls.map (·.env)).Sublist (events.map Event.env) := by
  induction events using List.reverseRecOn with
  | nil => exact List.Sublist.refl _
  | append_singleton events e ih =>
    rw [worldAfter_concat, List.map_append]
    rcases @calls_step serde (worldAfter serde events) e with hsame | ⟨s, henv, hmore⟩
    · rw [hsame]
      exact ih.trans (List.sublist_append_left _ _)
    · rw [hmore, List.map_append, List.map_singleton, henv]
      exact ih.append (List.Sublist.refl _)

theorem fresh_calls {events : List Event} (h : events.Pairwise Event.Apart) :
    (worldAfter serde events).calls.Pairwise Step.Apart := by
  have hmap : (events.map Event.env).Pairwise fun a b => ∀ m n, (a.uuid m).text ≠ (b.uuid n).text :=
    List.pairwise_map.mpr h
  have hcalls := hmap.sublist (@env_calls_sublist serde events)
  rwa [List.pairwise_map] at hcalls

theorem honest_worldAfter (events : List Event) :
    (worldAfter serde events).Honest serde fun s => .call s ∈ events := by
  refine (Machine.always_of_step (P := fun w : World => w.Honest serde fun s => .call s ∈ events)
    ?_ fun w e he h => ?_).last
  · exact ⟨rfl, by simp [Task.pending], by simp, by simp, by simp⟩
  · cases e with
    | call s => exact h.call fun _ _ _ => Or.inl he
    | turn m => exact h.turn m

/-- **An endpoint has accepted the message at an index**: a request with it was accepted,
for a delivery that a pull handed out for that index. -/
def AcceptedAt (serde : SerdeJson) (w : World) (name : Text) (i : ℕ) : Prop :=
  ∃ post, .posted post ∈ w.trace ∧ post.accepted = true ∧ post.subscription = name ∧
    HandedOut serde w.calls name post.delivery i

section Run

variable {events : List Event} {name : Text}

/-- **An acknowledgement of the task is for an index whose message was accepted.** -/
theorem acceptedAt_of_ack (hfresh : events.Pairwise Event.Apart)
    (hothers : ∀ s, .call s ∈ events → ∀ ackIds, s.call ≠ .acknowledge name ackIds)
    {past : List Step} {s : Step} (hpre : past ++ [s] <+: (worldAfter serde events).calls)
    {ackIds : List Text} (hcall : s.call = .acknowledge name ackIds) {ackId : Text}
    (hmem : ackId ∈ ackIds) {i : ℕ} (hi : (ackId, i) ∈ grantedAlong serde name {} past) :
    AcceptedAt serde (worldAfter serde events) name i := by
  have hhonest := @honest_worldAfter serde events
  rcases hhonest.acks s (hpre.subset (by simp)) name ackIds hcall with hother | hall
  · exact absurd hcall (hothers s hother ackIds)
  · obtain ⟨post, hpost, haccepted, rfl, rfl⟩ := hall ackId hmem
    obtain ⟨j, hj⟩ := hhonest.posted post hpost
    -- the ack id stands for one index
    obtain ⟨past', s', sub, topic, hpre', hsub, hgranted, htopic, hmessage⟩ := hj
    have hold := grantedAlong_subset ((List.prefix_append past [s]).trans hpre) hi
    have hnew := granted_subset_grantedAlong hpre' hgranted
    obtain rfl : i = j := (traced_grantedAlong (fresh_calls hfresh)).single _ hold _ hnew rfl
    exact ⟨post, hpost, haccepted, rfl, past', s', sub, topic, hpre', hsub, hgranted, htopic,
      hmessage⟩

end Run

/-- **The dispatcher delivers at least once**: where no other client acknowledges on a
subscription, in every state of every run an index that is acked has had its message
accepted by an endpoint or was set aside by a pull; and one that is not acked, but was
taken since the cursor was last set, is leased or waits, to be posted again, or has had its
message accepted. -/
theorem delivered_at_least_once (r : Run) (name : Text)
    (hothers : ∀ s, .call s ∈ r.events → ∀ ackIds, s.call ≠ .acknowledge name ackIds) :
    ∀ events, events <+: r.events → ∀ sub,
      (worldAfter serde events).store.subscriptions[name]? = some sub →
      (∀ i ∈ sub.acked, AcceptedAt serde (worldAfter serde events) name i ∨
        PutAside serde (worldAfter serde events).calls name i) ∧
      ∀ i, (watch serde name (worldAfter serde events).calls).base ≤ i → i < sub.nextIndex →
        i ∉ sub.acked →
          sub.Leased i ∨ sub.Queued i ∨ AcceptedAt serde (worldAfter serde events) name i := by
  intro events hevents sub hsub
  have hfresh := r.fresh.sublist hevents.sublist
  have hquiet : ∀ s, .call s ∈ events → ∀ ackIds, s.call ≠ .acknowledge name ackIds :=
    fun s hs => hothers s (hevents.subset hs)
  rw [(honest_worldAfter events).store] at hsub
  exact accounted_of_acks (fresh_calls hfresh)
    (fun _ _ hpre _ hcall _ hmem _ => acceptedAt_of_ack hfresh hquiet hpre hcall hmem) hsub

/-! ### A message that an endpoint accepts -/

/-- The `k`-th event: a call, or, where none is given, a turn on which endpoints answer
with success. -/
def Event.numbered (call : Option BackendCall) (k : ℕ) : Event :=
  match call with
  | some call => .call (Step.numbered (0, call) k)
  | none =>
    .turn
      { env := (Step.numbered (0, .listPushSubscriptions) k).env
        order := id
        order_perm := fun _ => .refl _
        reply := .response 200 [] }

theorem Event.env_numbered (call : Option BackendCall) (k : ℕ) :
    (Event.numbered call k).env.uuid = Uuid.numbered k := by
  cases call <;> rfl

/-- Any list of calls and turns is a run. -/
def Run.ofCalls (calls : List (Option BackendCall)) : Run where
  events := calls.mapIdx fun k call => Event.numbered call k
  fresh := by
    rw [List.pairwise_iff_getElem]
    intro i j hi hj hij m n h
    rw [List.getElem_mapIdx, List.getElem_mapIdx, Event.env_numbered, Event.env_numbered] at h
    exact absurd (Uuid.numbered_injective h).1 (Nat.ne_of_lt hij)

/-- A message is published to a push subscription, and the task takes four turns: it lists,
pulls, posts and acknowledges. -/
def pushedOnce : Run := .ofCalls
  [some (.createTopic sampleTopic),
   some (.createSubscription { sampleSubscription with pushEndpoint := some "http://e" }),
   some (.publish sampleTopic.name [sampleMessage ""]), none, none, none, none]

def pushedOnce.subscription : SubscriptionState :=
  ((worldAfter noJson pushedOnce.events).store.subscriptions[sampleSubscription.name]?).get
    (by decide +kernel)

/-- The message is acked, so it was accepted or set aside. -/
theorem pushedOnce_delivered :
    AcceptedAt noJson (worldAfter noJson pushedOnce.events) sampleSubscription.name 0 ∨
      PutAside noJson (worldAfter noJson pushedOnce.events).calls sampleSubscription.name 0 := by
  refine (delivered_at_least_once pushedOnce sampleSubscription.name ?_ pushedOnce.events
    (List.prefix_refl _) pushedOnce.subscription (Option.some_get _).symm).1 0 (by decide +kernel)
  intro s hs ackIds hcall
  simp only [pushedOnce, Run.ofCalls, List.mapIdx_cons, List.mapIdx_nil, Event.numbered,
    List.mem_cons, List.not_mem_nil, or_false, Event.call.injEq, reduceCtorEq] at hs
  rcases hs with rfl | rfl | rfl <;> simp [Step.numbered] at hcall

end RelayPubsub.Push
