import RelayPubsub.Model

/-!
# The in-memory store

The state of `MemoryBackend` (`src/memory.rs`) and its helper functions. Every
operation of the backend takes the write lock for its whole duration, so an
operation is a function from a state to an answer and a state, and any
interleaving of callers is a sequence of operations.

What an operation reads from outside the store – clock, random identifiers, the
iteration order of a hash map, the outcome of writing the state file – is
collected in `RelayPubsub.Memory.Env`, one for each call.

A vector or a deque is a list. An access `messages[index]` beyond the end of the
log panics in the source; here it is `none`, and what a panic does to the store
is spelt out where it can happen (`RelayPubsub.Memory.pull`).
-/

namespace RelayPubsub.Memory

open Lib

/-! ### The state -/

structure TopicState where
  spec : TopicSpec
  messages : List RelayMessage
  seenIds : StrMap Text

/-- A lease: the topic index it is on, and when it runs out. -/
structure Inflight where
  topicIndex : ℕ
  deadline : Time
  deriving DecidableEq

structure RetryEntry where
  topicIndex : ℕ
  availableAt : Time
  deriving DecidableEq

structure SubscriptionState where
  spec : SubscriptionSpec
  nextIndex : ℕ
  acked : Finset ℕ
  inflight : StrMap Inflight
  retryQueue : List RetryEntry
  attempts : Std.ExtTreeMap ℕ UInt32 compare
  /-- Last acked topic index per ordering key (for ordered delivery). -/
  orderingAcked : StrMap ℕ

structure State where
  topics : StrMap TopicState := ∅
  subscriptions : StrMap SubscriptionState := ∅
  snapshots : StrMap SnapshotSpec := ∅
  schemas : StrMap SchemaSpec := ∅
  iam : StrMap IamPolicy := ∅

/-! ### What a call reads from outside -/

/-- **A random identifier as text**, as `Uuid::new_v4().to_string()` renders it:
lowercase hexadecimal digits and hyphens. -/
structure Uuid where
  text : Text
  hyphenated : ∀ c ∈ text, c.isDigit = true ∨ c ∈ "abcdef-".toList

/-- A colon does not occur in a random identifier. -/
theorem Uuid.colon_notMem (u : Uuid) : ':' ∉ u.text := fun h =>
  absurd (u.hyphenated ':' h) (by decide)

/-- The `n`-th random identifier of the `k`-th call, for a source that numbers
them. -/
def Uuid.numbered (k n : ℕ) : Uuid where
  text := decimal k ++ '-' :: decimal n
  hyphenated := by
    intro c hc
    rcases List.mem_append.mp hc with hc | hc
    · exact Or.inl (isDigit_of_mem_decimal hc)
    · rcases List.mem_cons.mp hc with rfl | hc
      · exact Or.inr (by decide)
      · exact Or.inl (isDigit_of_mem_decimal hc)

/-- Numbered identifiers are all different. -/
theorem Uuid.numbered_injective {k n k' n' : ℕ}
    (h : (Uuid.numbered k n).text = (Uuid.numbered k' n').text) : k = k' ∧ n = n' :=
  decimal_joined_injective (by decide) h

/-- What makes `persist_locked` fail, with the text of the underlying error. -/
inductive PersistFault where
  | serialize (e : Text)
  | write (e : Text)
  | rename (e : Text)

/-- **What one backend call reads from outside the store**: the successive
readings of the clock, the successive random identifiers – no two of them
equal –, the order in which the hash map of leases is iterated, and whether
writing the state file fails. -/
structure Env where
  /-- The `n`-th `Utc::now()` of the call. -/
  now : ℕ → Time
  /-- The `n`-th `Uuid::new_v4()` of the call. -/
  uuid : ℕ → Uuid
  uuid_inj : ∀ {m n}, (uuid m).text = (uuid n).text → m = n
  /-- The order in which `inflight` is iterated. -/
  iter : List (Text × Inflight) → List (Text × Inflight)
  iter_perm : ∀ l, (iter l).Perm l
  /-- `none` when no persistence is configured or every file operation succeeds. -/
  persistFault : Option PersistFault

/-! ### Helper functions -/

def normalizeAckDeadline (seconds : UInt32) : UInt32 := clamp seconds 10 600

def persistLocked (env : Env) : Except BackendError Unit :=
  match env.persistFault with
  | none => .ok ()
  | some (.serialize e) => .error (.internal ("serialize state: " ++ e))
  | some (.write e) => .error (.internal ("write state tmp: " ++ e))
  | some (.rename e) => .error (.internal ("rename state: " ++ e))

/-- The end of a mutating operation, `self.persist_locked(&state)?; Ok(value)`:
the state has already been changed when the write of the file fails. -/
def answer {α : Type} (env : Env) (value : α) (st : State) : Except BackendError α × State :=
  match persistLocked env with
  | .ok () => (.ok value, st)
  | .error e => (.error e, st)

def backoffSeconds (spec : SubscriptionSpec) (attempt : UInt32) : UInt32 :=
  let (minB, maxB) : UInt32 × UInt32 :=
    match spec.retry with
    | some r => (r.minimumBackoffSeconds, max r.maximumBackoffSeconds r.minimumBackoffSeconds)
    | none => (10, 600)
  if maxB = 0 then 0
  else
    let exp := min (if attempt = 0 then 0 else attempt - 1) 10
    -- `saturating_mul`
    let delay := UInt32.ofNat (min (minB.toNat * 2 ^ (min exp 16).toNat) (2 ^ 32 - 1))
    clamp delay minB (max maxB 1)

/-- The effect of one path of an update mask on a topic. -/
def applyTopicField (incoming existing : TopicSpec) (field : Text) : TopicSpec :=
  if field = "labels".toList then { existing with labels := incoming.labels }
  else if field = "kms_key_name".toList ∨ field = "kmsKeyName".toList then
    { existing with kmsKeyName := incoming.kmsKeyName }
  else if field = "schema_settings".toList ∨ field = "schemaSettings".toList ∨
      field = "schema_name".toList ∨ field = "schemaName".toList then
    { existing with schemaName := incoming.schemaName, schemaEncoding := incoming.schemaEncoding }
  else existing

def applyTopicMask (existing incoming : TopicSpec) (mask : List Text) : TopicSpec :=
  if mask = [] ∨ "*".toList ∈ mask then
    { existing with
      labels := incoming.labels
      kmsKeyName := incoming.kmsKeyName
      schemaName := incoming.schemaName
      schemaEncoding := incoming.schemaEncoding }
  else mask.foldl (applyTopicField incoming) existing

/-- The effect of one path of an update mask on a subscription. -/
def applySubscriptionField (incoming existing : SubscriptionSpec) (field : Text) :
    SubscriptionSpec :=
  if field = "ack_deadline_seconds".toList ∨ field = "ackDeadlineSeconds".toList then
    { existing with ackDeadlineSeconds := incoming.ackDeadlineSeconds }
  else if field = "labels".toList then { existing with labels := incoming.labels }
  else if field = "enable_message_ordering".toList ∨ field = "enableMessageOrdering".toList then
    { existing with enableMessageOrdering := incoming.enableMessageOrdering }
  else if field = "enable_exactly_once_delivery".toList ∨
      field = "enableExactlyOnceDelivery".toList then
    { existing with enableExactlyOnceDelivery := incoming.enableExactlyOnceDelivery }
  else if field = "dead_letter_policy".toList ∨ field = "deadLetterPolicy".toList then
    { existing with deadLetter := incoming.deadLetter }
  else if field = "retry_policy".toList ∨ field = "retryPolicy".toList then
    { existing with retry := incoming.retry }
  else if field = "push_config".toList ∨ field = "pushConfig".toList then
    { existing with
      pushEndpoint := incoming.pushEndpoint
      pushAttributes := incoming.pushAttributes }
  else existing

def applySubscriptionMask (existing incoming : SubscriptionSpec) (mask : List Text) :
    SubscriptionSpec :=
  if mask = [] ∨ "*".toList ∈ mask then
    -- filter is immutable after create
    { existing with
      ackDeadlineSeconds := incoming.ackDeadlineSeconds
      labels := incoming.labels
      enableMessageOrdering := incoming.enableMessageOrdering
      enableExactlyOnceDelivery := incoming.enableExactlyOnceDelivery
      deadLetter := incoming.deadLetter
      retry := incoming.retry
      pushEndpoint := incoming.pushEndpoint
      pushAttributes := incoming.pushAttributes }
  else mask.foldl (applySubscriptionField incoming) existing

/-! ### Ordering -/

/-- The loop of `ordering_blocked` over the messages before the one in question,
from index `i` on. -/
def orderingScan (sub : SubscriptionState) (key : Text) (now : Time) :
    ℕ → List RelayMessage → Bool
  | _, [] => false
  | i, msg :: rest =>
    if msg.orderingKey ≠ key then orderingScan sub key now (i + 1) rest
    else if i ∈ sub.acked then orderingScan sub key now (i + 1) rest
    else if sub.inflight.toList.any fun v => v.2.topicIndex = i ∧ now < v.2.deadline then true
    else if i ∉ sub.acked then true
    else orderingScan sub key now (i + 1) rest

/-- Whether an earlier unacked message with the same key blocks the message at
`index`; `none` when the access `messages[index]` panics. -/
def orderingBlocked (sub : SubscriptionState) (topic : TopicState) (index : ℕ) (now : Time) :
    Option Bool :=
  if !sub.spec.enableMessageOrdering then some false
  else
    match topic.messages[index]? with
    | none => none
    | some message =>
      if message.orderingKey = [] then some false
      else some (orderingScan sub message.orderingKey now 0 (topic.messages.take index))

end RelayPubsub.Memory
