import RelayPubsub.Memory.Drain
import RelayPubsub.RelayEvents.Publish
import RelayPubsub.Rest.Encode

/-!
# The push dispatcher

The task of `src/push.rs`: again and again it lists the push subscriptions, pulls
from each, posts what it has pulled to the endpoint of the subscription, and
acknowledges what the endpoint has accepted. Each of these waits for somebody else –
the lock of the store, or the endpoint – and the calls of other clients may come in
between, so the task is a state machine that goes from one wait to the next
(`RelayPubsub.Push.Task`), and a run is any interleaving of its turns with calls of
others (`RelayPubsub.Push.World`).

What a round of the task does is said by a grammar of its exchanges,
`RelayPubsub.Push.Visits`: every subscription listed is pulled from once, and each
message pulled is posted once and acknowledged exactly if it is accepted – whatever
fails in between. Every round of the task is a word of it, and ends
(`RelayPubsub.Push.visits_of_round`, `RelayPubsub.Push.rests_within`).
-/

namespace RelayPubsub.Push

open Lib Memory

/-! ### The task -/

/-- What the dispatcher takes from other crates. -/
structure Crates where
  /-- `STANDARD.encode` of the `base64` crate -/
  base64Encode : Bytes → Text
  /-- `to_rfc3339` of a time -/
  toRfc3339 : Time → Text

/-- A request to an endpoint, for one delivery, and whether it was accepted. -/
structure Post where
  endpoint : Text
  subscription : Text
  delivery : Delivery
  accepted : Bool

/-- The body of the request. -/
def Post.body (crates : Crates) (post : Post) : Value :=
  .object
    [("message",
        .object
          [("data", .string (crates.base64Encode post.delivery.message.data)),
           ("attributes", Rest.stringMapJson post.delivery.message.attributes),
           ("messageId", .string post.delivery.message.id),
           ("publishTime", .string (crates.toRfc3339 post.delivery.message.publishedAt)),
           ("orderingKey", .string post.delivery.message.orderingKey)]),
     ("subscription", .string post.subscription)]

/-- **Where the task is.** -/
inductive Task where
  /-- It sleeps between two rounds. -/
  | asleep
  /-- These subscriptions are left. -/
  | visiting (subs : List SubscriptionSpec)
  /-- These deliveries of a subscription are left to be posted. -/
  | posting (sub : SubscriptionSpec) (endpoint : Text) (deliveries : List Delivery)
      (subs : List SubscriptionSpec)
  /-- The endpoint has accepted a delivery, which is to be acknowledged. -/
  | acking (sub : SubscriptionSpec) (endpoint : Text) (ackId : Text) (deliveries : List Delivery)
      (subs : List SubscriptionSpec)
  /-- A call of the backend has panicked. -/
  | crashed

/-- What the task exchanges with the others. -/
inductive Exchange where
  | listed (subs : List SubscriptionSpec)
  | pulled (subscription : Text) (deliveries : Except BackendError (List Delivery))
  | posted (post : Post)
  | acknowledged (subscription ackId : Text)

/-- **The store, the task, and what has happened**: what the task has exchanged, and the
calls of the backend, by whomever. -/
structure World where
  store : State := {}
  task : Task := .asleep
  trace : List Exchange := []
  calls : List Step := []

/-- What the task meets on a turn: what its call of the backend reads from outside, the
order in which the subscriptions are listed, and the reply of an endpoint. -/
structure Meets where
  env : Env
  order : List SubscriptionSpec → List SubscriptionSpec
  order_perm : ∀ l, (order l).Perm l
  reply : RelayEvents.Reply

variable (serde : SerdeJson)

namespace World

/-- A call of the backend. -/
def call (w : World) (s : Step) : World :=
  { w with store := exec serde w.store s, calls := w.calls ++ [s] }

/-- The task goes on, after an exchange. -/
def goOn (w : World) (task : Task) (x : Exchange) : World :=
  { w with task, trace := w.trace ++ [x] }

/-- **A turn of the task**, up to its next wait. -/
def turn (w : World) (m : Meets) : World :=
  match w.task with
  | .crashed => w
  | .asleep =>
    let subs := listPushSubscriptions w.store m.order
    (w.call serde ⟨.listPushSubscriptions, m.env⟩).goOn (.visiting subs) (.listed subs)
  | .visiting [] => { w with task := .asleep }
  | .visiting (sub :: subs) =>
    match sub.pushEndpoint with
    | none => { w with task := .visiting subs }
    | some endpoint =>
      let w' := w.call serde ⟨.pull sub.name 20, m.env⟩
      match (pull m.env w.store sub.name 20).1 with
      | .panicked => { w' with task := .crashed }
      | .returned (.error e) => w'.goOn (.visiting subs) (.pulled sub.name (.error e))
      | .returned (.ok deliveries) =>
        w'.goOn (.posting sub endpoint deliveries subs) (.pulled sub.name (.ok deliveries))
  | .posting _ _ [] subs => { w with task := .visiting subs }
  | .posting sub endpoint (delivery :: deliveries) subs =>
    if m.reply.isSuccess then
      w.goOn (.acking sub endpoint delivery.ackId deliveries subs)
        (.posted ⟨endpoint, sub.name, delivery, true⟩)
    else w.goOn (.posting sub endpoint deliveries subs)
        (.posted ⟨endpoint, sub.name, delivery, false⟩)
  | .acking sub endpoint ackId deliveries subs =>
    -- what the backend answers is not looked at
    (w.call serde ⟨.acknowledge sub.name [ackId], m.env⟩).goOn
      (.posting sub endpoint deliveries subs) (.acknowledged sub.name ackId)

end World

/-- What happens next: another client calls the backend, or the task takes a turn. -/
inductive Event where
  | call (s : Step)
  | turn (m : Meets)

def World.step (w : World) (e : Event) : World :=
  match e with
  | .call s => w.call serde s
  | .turn m => w.turn serde m

/-! ### What a round does -/

/-- **The deliveries of a pull are posted**: each once, in their order, and each that is
accepted is acknowledged. -/
inductive Posts (endpoint subscription : Text) : List Delivery → List Exchange → Prop
  | nil : Posts endpoint subscription [] []
  | refused {delivery : Delivery} {deliveries : List Delivery} {xs : List Exchange} :
      Posts endpoint subscription deliveries xs →
      Posts endpoint subscription (delivery :: deliveries)
        (.posted ⟨endpoint, subscription, delivery, false⟩ :: xs)
  | accepted {delivery : Delivery} {deliveries : List Delivery} {xs : List Exchange} :
      Posts endpoint subscription deliveries xs →
      Posts endpoint subscription (delivery :: deliveries)
        (.posted ⟨endpoint, subscription, delivery, true⟩ ::
          .acknowledged subscription delivery.ackId :: xs)

/-- **Subscriptions are visited**: each that has an endpoint is pulled from once, in
their order, and what the pull delivers is posted. -/
inductive Visits : List SubscriptionSpec → List Exchange → Prop
  | nil : Visits [] []
  | noEndpoint {sub : SubscriptionSpec} {subs : List SubscriptionSpec} {xs : List Exchange} :
      sub.pushEndpoint = none → Visits subs xs → Visits (sub :: subs) xs
  | failed {sub : SubscriptionSpec} {subs : List SubscriptionSpec} {endpoint : Text}
      {e : BackendError} {xs : List Exchange} :
      sub.pushEndpoint = some endpoint → Visits subs xs →
      Visits (sub :: subs) (.pulled sub.name (.error e) :: xs)
  | pulled {sub : SubscriptionSpec} {subs : List SubscriptionSpec} {endpoint : Text}
      {deliveries : List Delivery} {xs ys : List Exchange} :
      sub.pushEndpoint = some endpoint → Posts endpoint sub.name deliveries xs →
      Visits subs ys → Visits (sub :: subs) (.pulled sub.name (.ok deliveries) :: (xs ++ ys))

/-- **What is left of a round**, from where the task is. -/
inductive Finishes : Task → List Exchange → Prop
  | asleep : Finishes .asleep []
  | visiting {subs : List SubscriptionSpec} {xs : List Exchange} : Visits subs xs →
      Finishes (.visiting subs) xs
  | posting {sub : SubscriptionSpec} {endpoint : Text} {deliveries : List Delivery}
      {subs : List SubscriptionSpec} {xs ys : List Exchange} :
      Posts endpoint sub.name deliveries xs → Visits subs ys →
      Finishes (.posting sub endpoint deliveries subs) (xs ++ ys)
  | acking {sub : SubscriptionSpec} {endpoint ackId : Text} {deliveries : List Delivery}
      {subs : List SubscriptionSpec} {xs ys : List Exchange} :
      Posts endpoint sub.name deliveries xs → Visits subs ys →
      Finishes (.acking sub endpoint ackId deliveries subs)
        (.acknowledged sub.name ackId :: (xs ++ ys))

variable {serde}

/-- **The inversion of a turn within a round**: what the task exchanges comes before what
is left of the round after it. -/
theorem finishes_turn {w : World} {m : Meets} (hround : w.task ≠ .asleep) {xs : List Exchange}
    (h : Finishes (w.turn serde m).task xs) :
    ∃ ys, (w.turn serde m).trace = w.trace ++ ys ∧ Finishes w.task (ys ++ xs) := by
  unfold World.turn at h ⊢
  rcases htask : w.task with - | subs | ⟨sub, endpoint, deliveries, subs⟩ |
    ⟨sub, endpoint, ackId, deliveries, subs⟩ | -
  · exact absurd htask hround
  · rcases subs with - | ⟨sub, subs⟩
    · simp only [htask] at h ⊢
      cases h
      exact ⟨[], (List.append_nil _).symm, .visiting .nil⟩
    · rcases hend : sub.pushEndpoint with - | endpoint
      · simp only [htask, hend] at h ⊢
        cases h with
        | visiting hvisits =>
          exact ⟨[], (List.append_nil _).symm, .visiting (.noEndpoint hend hvisits)⟩
      · simp only [htask, hend] at h ⊢
        rcases hpull : (pull m.env w.store sub.name 20).1 with (e | deliveries) | -
        · simp only [hpull] at h ⊢
          cases h with
          | visiting hvisits => exact ⟨_, rfl, .visiting (.failed hend hvisits)⟩
        · simp only [hpull] at h ⊢
          cases h with
          | posting hposts hvisits =>
            exact ⟨[_], rfl, .visiting (by simpa using Visits.pulled hend hposts hvisits)⟩
        · simp only [hpull] at h
          cases h
  · rcases deliveries with - | ⟨delivery, deliveries⟩
    · simp only [htask] at h ⊢
      cases h with
      | visiting hvisits => exact ⟨[], (List.append_nil _).symm, .posting .nil hvisits⟩
    · simp only [htask] at h ⊢
      split at h
      · rename_i hsuccess
        rw [if_pos hsuccess]
        cases h with
        | acking hposts hvisits =>
          exact ⟨[_], rfl, by simpa using Finishes.posting (.accepted hposts) hvisits⟩
      · rename_i hrefused
        rw [if_neg hrefused]
        cases h with
        | posting hposts hvisits =>
          exact ⟨[_], rfl, by simpa using Finishes.posting (.refused hposts) hvisits⟩
  · simp only [htask] at h ⊢
    cases h with
    | posting hposts hvisits => exact ⟨[_], rfl, by simpa using Finishes.acking hposts hvisits⟩
  · simp only [htask] at h
    cases h

/-- A call of another client leaves the task alone. -/
theorem finishes_step {w : World} {e : Event} (hround : w.task ≠ .asleep) {xs : List Exchange}
    (h : Finishes (w.step serde e).task xs) :
    ∃ ys, (w.step serde e).trace = w.trace ++ ys ∧ Finishes w.task (ys ++ xs) := by
  cases e with
  | call s => exact ⟨[], (List.append_nil _).symm, h⟩
  | turn m => exact finishes_turn hround h

/-- **A run of the system in which the task comes to rest** has finished the round. -/
theorem finishes_of_rests {w : World} {events : List Event}
    (hround : ∀ pre e, pre ++ [e] <+: events →
      (Machine.run (World.step serde) w pre).task ≠ .asleep)
    (hend : (Machine.run (World.step serde) w events).task = .asleep) :
    ∃ xs, (Machine.run (World.step serde) w events).trace = w.trace ++ xs ∧
      Finishes w.task xs := by
  induction events generalizing w with
  | nil =>
    rw [Machine.run_nil] at hend ⊢
    exact ⟨[], (List.append_nil _).symm, hend ▸ .asleep⟩
  | cons e events ih =>
    obtain ⟨xs, htrace, hfinishes⟩ := ih (w := w.step serde e)
      (fun pre e' hpre => hround (e :: pre) e' (List.cons_prefix_cons.mpr ⟨rfl, hpre⟩)) hend
    have hnow : w.task ≠ .asleep :=
      hround [] e (List.cons_prefix_cons.mpr ⟨rfl, List.nil_prefix⟩)
    obtain ⟨ys, htrace', hfinishes'⟩ := finishes_step hnow hfinishes
    refine ⟨ys ++ xs, ?_, hfinishes'⟩
    rw [Machine.run_cons, htrace, htrace', List.append_assoc]

/-! ### A round ends -/

/-- How many more turns a round takes at most: a pull delivers twenty messages, and each
takes two turns. -/
def Task.turnsLeft : Task → ℕ
  | .asleep | .crashed => 0
  | .visiting subs => 42 * subs.length + 1
  | .posting _ _ deliveries subs => 2 * deliveries.length + 42 * subs.length + 2
  | .acking _ _ _ deliveries subs => 2 * deliveries.length + 42 * subs.length + 3

/-- The task is at rest: asleep, or ended by a panic. -/
def Task.Rests (t : Task) : Prop := t = .asleep ∨ t = .crashed

/-- A pull delivers no more messages than it is asked for. -/
theorem length_pulled_le {env : Env} {st : State} {name : Text} {maxMessages : UInt32}
    {deliveries : List Delivery}
    (h : (pull env st name maxMessages).1 = .returned (.ok deliveries)) :
    deliveries.length ≤ (clamp maxMessages 1 1000).toNat := by
  rcases hsub : st.subscriptions[name]? with - | sub
  · simp [pull, hsub] at h
  rcases htopic : st.topics[sub.spec.topic]? with - | topic
  · simp [pull, hsub, htopic] at h
  rcases hp : pullFrom env name maxMessages sub st.topics topic.messages.length with p | p
  · simp only [pull, hsub, htopic, hp, answer] at h
    split at h
    · obtain rfl : p.deliveries.map Prod.snd = deliveries := by simpa using h
      rw [List.length_map]
      unfold pullFrom at hp
      exact length_deliveries_le (Nat.zero_le _) hp
    · simp at h
  · simp [pull, hsub, htopic, hp] at h

/-- **A turn within a round takes one of those left.** -/
theorem turnsLeft_turn {w : World} (m : Meets) (h : ¬w.task.Rests) :
    (w.turn serde m).task.turnsLeft < w.task.turnsLeft := by
  unfold World.turn
  rcases htask : w.task with - | subs | ⟨sub, endpoint, deliveries, subs⟩ |
    ⟨sub, endpoint, ackId, deliveries, subs⟩ | -
  · exact absurd (Or.inl htask) h
  · rcases subs with - | ⟨sub, subs⟩
    · simp [Task.turnsLeft]
    · rcases hend : sub.pushEndpoint with - | endpoint
      · simp [hend, Task.turnsLeft]
      · rcases hpull : (pull m.env w.store sub.name 20).1 with (e | deliveries) | -
        · simp [hend, hpull, Task.turnsLeft, World.goOn]
        · have hle : deliveries.length ≤ 20 := length_pulled_le hpull
          simp only [hend, hpull, Task.turnsLeft, World.goOn, List.length_cons]
          omega
        · simp [hend, hpull, Task.turnsLeft]
  · rcases deliveries with - | ⟨delivery, deliveries⟩
    · simp [Task.turnsLeft]
    · dsimp only
      split
      · simp only [World.goOn, Task.turnsLeft, List.length_cons]
        omega
      · simp only [World.goOn, Task.turnsLeft, List.length_cons]
        omega
  · simp [World.goOn, Task.turnsLeft]
  · exact absurd (Or.inr htask) h

theorem Task.rests_of_turnsLeft {t : Task} (h : t.turnsLeft = 0) : t.Rests := by
  cases t with
  | asleep => exact Or.inl rfl
  | crashed => exact Or.inr rfl
  | visiting | posting | acking => simp [Task.turnsLeft] at h

/-- The event is a turn of the task. -/
def Event.isTurn : Event → Bool
  | .call _ => false
  | .turn _ => true

/-- **With enough turns of its own the task comes to rest**, however many calls of others
come in between. -/
theorem rests_within {w : World} {events : List Event}
    (h : w.task.turnsLeft ≤ events.countP Event.isTurn) :
    ∃ pre, pre <+: events ∧ (Machine.run (World.step serde) w pre).task.Rests := by
  induction events generalizing w with
  | nil => exact ⟨[], List.nil_prefix, Task.rests_of_turnsLeft (Nat.le_zero.mp h)⟩
  | cons e events ih =>
    by_cases hrests : w.task.Rests
    · exact ⟨[], List.nil_prefix, hrests⟩
    obtain ⟨pre, hpre, hend⟩ := ih (w := w.step serde e) (by
      cases e with
      | call s =>
        have hsame : (w.step serde (.call s)).task = w.task := rfl
        rw [hsame]
        simpa [Event.isTurn] using h
      | turn m =>
        have hless : (w.step serde (.turn m)).task.turnsLeft < w.task.turnsLeft :=
          turnsLeft_turn m hrests
        have hcount : (Event.turn m :: events).countP Event.isTurn =
            events.countP Event.isTurn + 1 := List.countP_cons_of_pos rfl
        omega)
    exact ⟨e :: pre, List.cons_prefix_cons.mpr ⟨rfl, hpre⟩, hend⟩

/-- The push subscriptions are those with an endpoint. -/
theorem mem_listPushSubscriptions {st : State} (m : Meets) {spec : SubscriptionSpec} :
    spec ∈ listPushSubscriptions st m.order ↔
      spec.pushEndpoint.isSome = true ∧
        ∃ (k : Text) (sub : SubscriptionState),
          st.subscriptions[k]? = some sub ∧ sub.spec = spec := by
  unfold listPushSubscriptions
  rw [(m.order_perm _).mem_iff, List.mem_filter, List.mem_map, and_comm]
  refine and_congr_right fun _ => ⟨?_, ?_⟩
  · rintro ⟨sub, hsub, rfl⟩
    obtain ⟨k, hk⟩ := mem_values.mp hsub
    exact ⟨k, sub, hk, rfl⟩
  · rintro ⟨k, sub, hk, rfl⟩
    exact ⟨sub, mem_values.mpr ⟨k, hk⟩, rfl⟩

end RelayPubsub.Push
