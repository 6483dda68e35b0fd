import RelayPubsub.Memory.State
import RelayPubsub.Filter

/-!
# Pulling messages

`MemoryBackend::pull`: the sweep of expired leases, and the loop that hands out
messages until the limit is reached or nothing is available. One turn of the
loop is `RelayPubsub.Memory.pullTurn`; the stages of a turn keep the names of
what they do in the source:

| stage | here |
|---|---|
| pick an index, off the retry queue or at the cursor | `RelayPubsub.Memory.takeNext` |
| put an ordering-blocked index back | `RelayPubsub.Memory.SubscriptionState.requeue` |
| move a message to the dead-letter topic | `RelayPubsub.Memory.deadLetter` |
| acknowledge what the filter rejects | `RelayPubsub.Memory.filterRejects` |
| lease and deliver | `RelayPubsub.Memory.deliver` |

The access `messages[index]` panics beyond the end of the log. The subscription
has been taken out of the map before, and is put back only after the loop, so a
panic drops it.
-/

namespace RelayPubsub.Memory

open Lib

/-! ### Changes of a subscription -/

namespace SubscriptionState

variable (sub : SubscriptionState) (index : ℕ)

/-- `inflight.remove(ack_id)` -/
def release (ackId : Text) : SubscriptionState :=
  { sub with inflight := sub.inflight.erase ackId }

/-- `inflight.insert(ack_id, …)` -/
def lease (ackId : Text) (entry : Inflight) : SubscriptionState :=
  { sub with inflight := sub.inflight.insert ackId entry }

/-- `acked.insert(index)` -/
def settle : SubscriptionState := { sub with acked := insert index sub.acked }

/-- `retry_queue.push_back(…)` -/
def requeue (availableAt : Time) : SubscriptionState :=
  { sub with retryQueue := sub.retryQueue ++ [⟨index, availableAt⟩] }

/-- `retry_queue.push_front(…)` -/
def requeueFront (availableAt : Time) : SubscriptionState :=
  { sub with retryQueue := ⟨index, availableAt⟩ :: sub.retryQueue }

/-- When a message whose lease ends may be delivered again. -/
def retryAt (now : Time) : Time :=
  now + seconds (backoffSeconds sub.spec (sub.attempts[index]?.getD 1))

/-- The attempt number of the next delivery of a message. -/
def nextAttempt : UInt32 := sub.attempts[index]?.getD 0 + 1

/-- Count one more attempt. -/
def countAttempt : SubscriptionState :=
  { sub with attempts := sub.attempts.insert index (sub.nextAttempt index) }

/-- The index has a lease. -/
def isLeased : Bool := sub.inflight.toList.any fun e => e.2.topicIndex = index

end SubscriptionState

/-! ### The sweep -/

/-- One expired lease: off the table, and into the retry queue unless acked. -/
def sweepOne (now : Time) (sub : SubscriptionState) (expired : Text × ℕ) : SubscriptionState :=
  let sub := sub.release expired.1
  if expired.2 ∈ sub.acked then sub else sub.requeue expired.2 (sub.retryAt expired.2 now)

/-- The leases that have run out, in the order of iteration. -/
def expiredLeases (env : Env) (sub : SubscriptionState) : List (Text × ℕ) :=
  ((env.iter sub.inflight.toList).filter fun e => decide (e.2.deadline ≤ env.now 0)).map
    fun e => (e.1, e.2.topicIndex)

def sweep (env : Env) (sub : SubscriptionState) : SubscriptionState :=
  (expiredLeases env sub).foldl (sweepOne (env.now 0)) sub

/-! ### The loop -/

/-- **The state of the pull loop**: the subscription taken out of the map, the
topics, the deliveries so far – each with the topic index it leases –, the
indices skipped because of their ordering key, and how many readings of the
clock and random identifiers have been used. -/
structure Pulling where
  sub : SubscriptionState
  topics : StrMap TopicState
  deliveries : List (ℕ × Delivery) := []
  skippedOrdering : Finset ℕ := ∅
  reads : ℕ := 1
  draws : ℕ := 0

/-- What a turn of the loop comes to. -/
inductive Turn where
  /-- The loop goes on. -/
  | again (p : Pulling)
  /-- The loop ends: the limit is reached, or nothing is available. -/
  | stop
  /-- An access beyond the end of the log. -/
  | panic

/-- The entry is due, and has not been skipped in this pull. -/
def ready (now : Time) (skipped : Finset ℕ) (e : RetryEntry) : Bool :=
  decide (e.availableAt ≤ now ∧ e.topicIndex ∉ skipped)

/-- The next index to try: the first ready entry of the retry queue, else the
one at the cursor. -/
def takeNext (now : Time) (topicLen : ℕ) (skipped : Finset ℕ) (sub : SubscriptionState) :
    Option (ℕ × SubscriptionState) :=
  match sub.retryQueue.find? (ready now skipped) with
  | some e => some (e.topicIndex, { sub with
      retryQueue := sub.retryQueue.eraseP (ready now skipped) })
  | none =>
    if sub.nextIndex < topicLen then
      some (sub.nextIndex, { sub with nextIndex := sub.nextIndex + 1 })
    else none

/-- The topic a message goes to when it has been delivered too often: the
dead-letter topic of the subscription, if it exists. -/
def deadLetterTopic (spec : SubscriptionSpec) (topics : StrMap TopicState) (attempt : UInt32) :
    Option (Text × TopicState) :=
  match spec.deadLetter with
  | none => none
  | some dlq =>
    if clamp dlq.maxDeliveryAttempts 5 100 < attempt then
      topics[dlq.topic]?.map fun deadTopic => (dlq.topic, deadTopic)
    else none

/-- The copy of a message that goes to the dead-letter topic. -/
def deadMessage (env : Env) (subscription : Text) (p : Pulling) (original : RelayMessage) :
    RelayMessage :=
  { id := (env.uuid p.draws).text
    data := original.data
    attributes := (original.attributes.insert "x-zyvor-dead-letter-source" subscription).insert
      "x-zyvor-original-message-id" original.id
    orderingKey := original.orderingKey
    publishedAt := env.now p.reads }

/-- Move a message to the dead-letter topic: append its copy there, and
acknowledge its index. -/
def deadLetter (env : Env) (subscription : Text) (p : Pulling) (index : ℕ)
    (original : RelayMessage) (name : Text) (deadTopic : TopicState) : Pulling :=
  { p with
    sub := p.sub.settle index
    topics := p.topics.insert name { deadTopic with
      messages := deadTopic.messages ++ [deadMessage env subscription p original] }
    reads := p.reads + 1
    draws := p.draws + 1 }

/-- The filter of the subscription rejects the message; a stored filter that
does not parse rejects every message, so that it does not stall the
subscription. -/
def filterRejects (spec : SubscriptionSpec) (message : RelayMessage) : Bool :=
  if spec.filter = [] then false
  else
    match AttributeFilter.parse spec.filter with
    | .ok filter => !filter.matches message.attributes
    | .error _ => true

/-- `format!("{subscription}:{index}:{attempt}")` -/
def exactlyOnceId (subscription : Text) (index : ℕ) (attempt : UInt32) : Text :=
  subscription ++ ':' :: (decimal index ++ ':' :: decimal attempt.toNat)

/-- The ack id of a delivery. -/
def ackIdFor (env : Env) (subscription : Text) (p : Pulling) (index : ℕ) (attempt : UInt32) :
    Text :=
  if p.sub.spec.enableExactlyOnceDelivery then exactlyOnceId subscription index attempt
  else (env.uuid p.draws).text

/-- Lease a message and deliver it. -/
def deliver (env : Env) (subscription : Text) (p : Pulling) (index : ℕ) (attempt : UInt32)
    (message : RelayMessage) : Pulling :=
  let ackId := ackIdFor env subscription p index attempt
  let deadline := env.now 0 + seconds (normalizeAckDeadline p.sub.spec.ackDeadlineSeconds)
  { p with
    sub := p.sub.lease ackId ⟨index, deadline⟩
    deliveries := p.deliveries ++ [(index, ⟨ackId, message, attempt⟩)]
    draws := if p.sub.spec.enableExactlyOnceDelivery then p.draws else p.draws + 1 }

/-- What happens to an index that is neither acked, leased nor blocked: one more
attempt is counted, and the message goes to the dead-letter topic, is
acknowledged because of the filter, or is delivered. -/
def serve (env : Env) (subscription : Text) (p : Pulling) (index : ℕ) (message : RelayMessage) :
    Pulling :=
  let attempt := p.sub.nextAttempt index
  let p := { p with sub := p.sub.countAttempt index }
  match deadLetterTopic p.sub.spec p.topics attempt with
  | some (name, deadTopic) => deadLetter env subscription p index message name deadTopic
  | none =>
    if filterRejects p.sub.spec message then { p with sub := p.sub.settle index }
    else deliver env subscription p index attempt message

/-- **One turn of the loop of `pull`.** -/
def pullTurn (env : Env) (subscription topicName : Text) (topicLen limit : ℕ) (p : Pulling) :
    Turn :=
  if limit ≤ p.deliveries.length then .stop
  else
    match takeNext (env.now 0) topicLen p.skippedOrdering p.sub with
    | none => .stop
    | some (index, sub) =>
      let p := { p with sub }
      if index ∈ sub.acked ∨ sub.isLeased index then .again p
      else
        match p.topics[topicName]? with
        | none => .panic
        | some topic =>
          match orderingBlocked sub topic index (env.now 0) with
          | none => .panic
          | some true =>
            -- Ready on the next pull once the predecessor is acked.
            .again { p with
              sub := sub.requeue index (env.now 0)
              skippedOrdering := insert index p.skippedOrdering }
          | some false =>
            match topic.messages[index]? with
            | none => .panic
            | some message => .again (serve env subscription p index message)

/-- How the loop ends. -/
inductive PullEnd where
  | finished (p : Pulling)
  | panicked (p : Pulling)

/-- The loop of `pull`, for a number of turns. -/
def pullLoop (env : Env) (subscription topicName : Text) (topicLen limit : ℕ) :
    ℕ → Pulling → PullEnd
  | 0, p => .finished p
  | fuel + 1, p =>
    match pullTurn env subscription topicName topicLen limit p with
    | .again p => pullLoop env subscription topicName topicLen limit fuel p
    | .stop => .finished p
    | .panic => .panicked p

/-- The number of turns after which the loop has ended: every turn takes one
index, an index is taken off the retry queue at most once, and the cursor stops
at the length of the log. -/
def pullFuel (topicLen : ℕ) (sub : SubscriptionState) : ℕ :=
  sub.retryQueue.length + (topicLen - sub.nextIndex) + 1

/-- The sweep and the loop, on a subscription whose topic exists. -/
def pullFrom (env : Env) (subscription : Text) (maxMessages : UInt32) (sub : SubscriptionState)
    (topics : StrMap TopicState) (topicLen : ℕ) : PullEnd :=
  let sub := sweep env sub
  pullLoop env subscription sub.spec.topic topicLen (clamp maxMessages 1 1000).toNat
    (pullFuel topicLen sub) { sub, topics }

/-- How a call of `pull` ends. -/
inductive PullAnswer where
  | returned (result : Except BackendError (List Delivery))
  | panicked

def pull (env : Env) (st : State) (subscription : Text) (maxMessages : UInt32) :
    PullAnswer × State :=
  match st.subscriptions[subscription]? with
  | none => (.returned (.error (.notFound subscription)), st)
  | some sub =>
    match st.topics[sub.spec.topic]? with
    | none =>
      (.returned (.error (.failedPrecondition
        ("topic " ++ sub.spec.topic ++ " no longer exists"))),
        { st with subscriptions := st.subscriptions.insert subscription sub })
    | some topic =>
      match pullFrom env subscription maxMessages sub st.topics topic.messages.length with
      | .finished p =>
        let (result, st) := answer env (p.deliveries.map Prod.snd) { st with
          subscriptions := st.subscriptions.insert subscription p.sub
          topics := p.topics }
        (.returned result, st)
      | .panicked p =>
        (.panicked, { st with
          subscriptions := st.subscriptions.erase subscription
          topics := p.topics })

end RelayPubsub.Memory
