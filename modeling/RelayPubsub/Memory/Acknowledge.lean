import RelayPubsub.Memory.Pull

/-!
# Acknowledging, extending and seeking

The operations of `MemoryBackend` on the leases of one subscription:
`acknowledge`, `modify_ack_deadline`, and the two seeks.

`acknowledge` goes through the ack ids one by one, and stops at an expired lease
of an exactly-once subscription with an error; what it has done so far stays
done.
-/

namespace RelayPubsub.Memory

open Lib

variable (env : Env) (st : State)

/-- Acknowledge the message of a lease that has been taken off the table, and
record it as the last acked one of its ordering key. -/
def SubscriptionState.ack (sub : SubscriptionState) (topic : Option TopicState) (entry : Inflight) :
    SubscriptionState :=
  let key := ((topic.bind fun t => t.messages[entry.topicIndex]?).map (·.orderingKey)).getD []
  { sub.settle entry.topicIndex with
    orderingAcked := if key = [] then sub.orderingAcked
      else sub.orderingAcked.insert key entry.topicIndex }

/-- The loop of `acknowledge`: its answer, and the subscription it leaves. -/
def acknowledgeEach (now : Time) (topic : Option TopicState) :
    SubscriptionState → List Text → Except BackendError Unit × SubscriptionState
  | sub, [] => (.ok (), sub)
  | sub, ackId :: ackIds =>
    match sub.inflight[ackId]? with
    | none => acknowledgeEach now topic sub ackIds
    | some entry =>
      let sub := sub.release ackId
      if sub.spec.enableExactlyOnceDelivery ∧ entry.deadline < now then
        (.error (.failedPrecondition ("ack deadline expired for " ++ ackId)), sub)
      else acknowledgeEach now topic (sub.ack topic entry) ackIds

def acknowledge (subscription : Text) (ackIds : List Text) : Except BackendError Unit × State :=
  match st.subscriptions[subscription]? with
  | none => (.error (.notFound subscription), st)
  | some sub =>
    let (result, sub) := acknowledgeEach (env.now 0) st.topics[sub.spec.topic]? sub ackIds
    let st := { st with subscriptions := st.subscriptions.insert subscription sub }
    match result with
    | .error e => (.error e, st)
    | .ok () => answer env () st

/-- One ack id of `modify_ack_deadline`: zero seconds gives the lease back, to the
front of the retry queue; otherwise the lease is extended. -/
def modifyOne (now : Time) (extension : UInt32) (sub : SubscriptionState) (ackId : Text) :
    SubscriptionState :=
  match sub.inflight[ackId]? with
  | none => sub
  | some entry =>
    if extension = 0 then
      (sub.release ackId).requeueFront entry.topicIndex (sub.retryAt entry.topicIndex now)
    else sub.lease ackId { entry with deadline := now + seconds extension }

def modifyAckDeadline (subscription : Text) (ackIds : List Text) (extension : UInt32) :
    Except BackendError Unit × State :=
  if 600 < extension then
    (.error (.invalidArgument "ack_deadline_seconds must be <= 600"), st)
  else
    match st.subscriptions[subscription]? with
    | none => (.error (.notFound subscription), st)
    | some sub =>
      answer env () { st with
        subscriptions := st.subscriptions.insert subscription
          (ackIds.foldl (modifyOne (env.now 0) extension) sub) }

/-- Set the cursor, and forget every lease, retry, ack and attempt. -/
def SubscriptionState.rewind (sub : SubscriptionState) (index : ℕ) : SubscriptionState :=
  { sub with
    nextIndex := index
    acked := ∅
    inflight := ∅
    retryQueue := []
    attempts := ∅
    orderingAcked := ∅ }

/-- The first message published at or after a time, else the end of the log. -/
def seekIndex (messages : List RelayMessage) (time : Time) : ℕ :=
  messages.findIdx fun message => decide (time ≤ message.publishedAt)

def seekToTime (subscription : Text) (time : Time) : Except BackendError Unit × State :=
  match st.subscriptions[subscription]? with
  | none => (.error (.notFound subscription), st)
  | some sub =>
    match st.topics[sub.spec.topic]? with
    | none => (.error (.notFound sub.spec.topic), st)
    | some topic =>
      answer env () { st with
        subscriptions := st.subscriptions.insert subscription
          (sub.rewind (seekIndex topic.messages time)) }

def seekToSnapshot (subscription snapshot : Text) : Except BackendError Unit × State :=
  match st.snapshots[snapshot]? with
  | none => (.error (.notFound snapshot), st)
  | some snap =>
    match st.subscriptions[subscription]? with
    | none => (.error (.notFound subscription), st)
    | some sub =>
      if sub.spec.topic ≠ snap.topic then
        (.error (.failedPrecondition "snapshot topic does not match subscription topic"), st)
      else
        answer env () { st with
          subscriptions := st.subscriptions.insert subscription (sub.rewind snap.topicIndex) }

end RelayPubsub.Memory
