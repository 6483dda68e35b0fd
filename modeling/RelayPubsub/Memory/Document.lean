import RelayPubsub.Memory.Exec
import RelayPubsub.Serde

/-!
# The state file as a document

The document `persist_locked` writes and `with_persistence` reads, by the derived
instances of the types of `src/memory.rs`: the formats of `RelayPubsub.Serde`, put together
to one of the whole state, `RelayPubsub.Serde.state`.

Every state can be written whose indices and points in time are in the range of their
types, and it is read back from each of its documents
(`RelayPubsub.Serde.state_read_back`): the entries of its maps may stand in any order, as a
hash map is written in the order it is iterated, and so may fields; a field that is
`#[serde(default)]` may be missing, as in a file that an older version has written, and
fields of a newer one do no harm. The encoding is made of integers, so that it can be
written as text and read (`RelayPubsub.Value.ofText_toText`).
-/

namespace RelayPubsub

open Lib

/-! ### What can be written -/

namespace Memory

variable (dates : Dates)

/-- **An index is a `usize`.** -/
def IsUsize (n : ℕ) : Prop := n < 2 ^ 64

/-- The indices and points in time of a subscription are in the range of their types. -/
structure SubscriptionState.InRange (sub : SubscriptionState) : Prop where
  nextIndex : IsUsize sub.nextIndex
  acked : ∀ i ∈ sub.acked, IsUsize i
  inflight : ∀ e ∈ sub.inflight.toList, IsUsize e.2.topicIndex ∧ dates.Valid e.2.deadline
  retryQueue : ∀ e ∈ sub.retryQueue, IsUsize e.topicIndex ∧ dates.Valid e.availableAt
  attempts : ∀ e ∈ sub.attempts.toList, IsUsize e.1
  orderingAcked : ∀ e ∈ sub.orderingAcked.toList, IsUsize e.2

/-- **The indices and points in time of a state** are in the range of their types. -/
structure State.InRange (st : State) : Prop where
  topics : ∀ e ∈ st.topics.toList, ∀ m ∈ e.2.messages, dates.Valid m.publishedAt
  subscriptions : ∀ e ∈ st.subscriptions.toList, e.2.InRange dates
  snapshots : ∀ e ∈ st.snapshots.toList,
    dates.Valid e.2.expireTime ∧ IsUsize e.2.topicIndex

end Memory

namespace Serde

open Memory

/-! ### The types -/

variable (dates : Dates)

def topicState : Format Value TopicState :=
  (object <|
    (Record.field "spec".toList topicSpec).prod <|
    (Record.field "messages".toList (array (relayMessage dates))).prod <|
    Record.fieldOr "seen_ids".toList ∅ (strMap text)).map
    (fun (spec, messages, seenIds) => { spec, messages, seenIds })
    (fun t => (t.spec, t.messages, t.seenIds))
    fun _ => rfl

def inflight : Format Value Inflight :=
  (object <|
    (Record.field "topic_index".toList usize).prod <|
    Record.field "deadline".toList (date dates)).map
    (fun (topicIndex, deadline) => { topicIndex, deadline })
    (fun v => (v.topicIndex, v.deadline))
    fun _ => rfl

def retryEntry : Format Value RetryEntry :=
  (object <|
    (Record.field "topic_index".toList usize).prod <|
    Record.field "available_at".toList (date dates)).map
    (fun (topicIndex, availableAt) => { topicIndex, availableAt })
    (fun e => (e.topicIndex, e.availableAt))
    fun _ => rfl

def subscriptionState : Format Value SubscriptionState :=
  (object <|
    (Record.field "spec".toList subscriptionSpec).prod <|
    (Record.field "next_index".toList usize).prod <|
    (Record.field "acked".toList indices).prod <|
    (Record.field "inflight".toList (strMap (inflight dates))).prod <|
    (Record.field "retry_queue".toList (array (retryEntry dates))).prod <|
    (Record.field "attempts".toList (indexMap u32)).prod <|
    Record.field "ordering_acked".toList (strMap usize)).map
    (fun (spec, nextIndex, acked, inflight, retryQueue, attempts, orderingAcked) =>
      { spec, nextIndex, acked, inflight, retryQueue, attempts, orderingAcked })
    (fun s => (s.spec, s.nextIndex, s.acked, s.inflight, s.retryQueue, s.attempts,
      s.orderingAcked))
    fun _ => rfl

/-- **The documents of a state.** -/
def state : Format Value State :=
  (object <|
    (Record.field "topics".toList (strMap (topicState dates))).prod <|
    (Record.field "subscriptions".toList (strMap (subscriptionState dates))).prod <|
    (Record.field "snapshots".toList (strMap (snapshotSpec dates))).prod <|
    (Record.field "schemas".toList (strMap schemaSpec)).prod <|
    Record.field "iam".toList (strMap iamPolicy)).map
    (fun (topics, subscriptions, snapshots, schemas, iam) =>
      { topics, subscriptions, snapshots, schemas, iam })
    (fun st => (st.topics, st.subscriptions, st.snapshots, st.schemas, st.iam))
    fun _ => rfl

variable {dates}

theorem fits_topicState {t : TopicState} (h : ∀ m ∈ t.messages, dates.Valid m.publishedAt) :
    (topicState dates).Fits t :=
  ⟨fits_topicSpec _, fun m hm => fits_relayMessage (h m hm), fits_strMap fits_text⟩

theorem fits_subscriptionState {sub : SubscriptionState} (h : sub.InRange dates) :
    (subscriptionState dates).Fits sub :=
  ⟨fits_subscriptionSpec _, h.nextIndex, h.acked, fits_strMap_iff.mpr h.inflight, h.retryQueue,
    fun e he => ⟨h.attempts e he, fits_u32 _⟩, fits_strMap_iff.mpr h.orderingAcked⟩

theorem fits_state {st : State} (h : st.InRange dates) : (state dates).Fits st :=
  ⟨fits_strMap_iff.mpr fun e he => fits_topicState (h.topics e he),
    fits_strMap_iff.mpr fun e he => fits_subscriptionState (h.subscriptions e he),
    fits_strMap_iff.mpr fun e he => fits_snapshotSpec (h.snapshots e he).1 (h.snapshots e he).2,
    fits_strMap fits_schemaSpec, fits_strMap fits_iamPolicy⟩

/-- **A state is read back from each of its documents**, of which its encoding is one. -/
theorem state_read_back {st : State} (h : st.InRange dates) :
    (state dates).Represents st ((state dates).encode st) ∧
      ∀ v, (state dates).Represents st v → (state dates).decode v = some st :=
  ⟨(state dates).represents_encode (fits_state h), fun _ hv => (state dates).decode_eq hv⟩

/-! ### What is written has no doubles -/

theorem writesIntegral_topicState : WritesIntegral (topicState dates) :=
  .map <| .object <|
    writesIntegral_topicSpec.field.prod <|
    (writesIntegral_relayMessage dates).array.field.prod writesIntegral_labels.fieldOr

theorem writesIntegral_inflight : WritesIntegral (inflight dates) :=
  .map <| .object <| writesIntegral_unsigned.field.prod (writesIntegral_date dates).field

theorem writesIntegral_retryEntry : WritesIntegral (retryEntry dates) :=
  .map <| .object <| writesIntegral_unsigned.field.prod (writesIntegral_date dates).field

theorem writesIntegral_subscriptionState : WritesIntegral (subscriptionState dates) :=
  .map <| .object <|
    writesIntegral_subscriptionSpec.field.prod <|
    writesIntegral_unsigned.field.prod <|
    writesIntegral_indices.field.prod <|
    writesIntegral_inflight.strMap.field.prod <|
    writesIntegral_retryEntry.array.field.prod <|
    writesIntegral_unsigned.map.indexMap.field.prod writesIntegral_unsigned.strMap.field

theorem writesIntegral_state : WritesIntegral (state dates) :=
  .map <| .object <|
    writesIntegral_topicState.strMap.field.prod <|
    writesIntegral_subscriptionState.strMap.field.prod <|
    (writesIntegral_snapshotSpec dates).strMap.field.prod <|
    writesIntegral_schemaSpec.strMap.field.prod writesIntegral_iamPolicy.strMap.field

end Serde

/-! ### A state that is written -/

/-- A number below 100, in two digits. -/
def twoDigits (n : ℕ) : Text := [Nat.digitChar (n / 10), Nat.digitChar (n % 10)]

theorem parseDigits_twoDigits {n : ℕ} (h : n < 100) : parseDigits (twoDigits n) = some n := by
  have hall : ∀ n < 100, parseDigits (twoDigits n) = some n := by decide +kernel
  exact hall n h

/-- A second of January 1970, as RFC 3339 has it. -/
def januaryText (s : ℕ) : Text :=
  "1970-01-" ++ (twoDigits (s / 86400 + 1) ++ 'T' :: (twoDigits (s / 3600 % 24) ++
    ':' :: (twoDigits (s / 60 % 60) ++ ':' :: (twoDigits (s % 60) ++ ['Z']))))

def parseJanuary (text : Text) : Option ℕ :=
  match text.dropPrefix? "1970-01-".toList with
  | some [d, d', 'T', h, h', ':', m, m', ':', s, s', 'Z'] => do
    let d ← parseDigits [d, d']
    let h ← parseDigits [h, h']
    let m ← parseDigits [m, m']
    let s ← parseDigits [s, s']
    if 1 ≤ d ∧ d ≤ 31 ∧ h < 24 ∧ m < 60 ∧ s < 60 then
      some ((d - 1) * 86400 + h * 3600 + m * 60 + s)
    else none
  | _ => none

theorem parseJanuary_text {s : ℕ} (h : s < 31 * 86400) :
    parseJanuary (januaryText s) = some s := by
  have hdrop : (januaryText s).dropPrefix? "1970-01-".toList =
      some (twoDigits (s / 86400 + 1) ++ 'T' :: (twoDigits (s / 3600 % 24) ++
        ':' :: (twoDigits (s / 60 % 60) ++ ':' :: (twoDigits (s % 60) ++ ['Z'])))) :=
    List.dropPrefix?_append_of_beq _ (beq_self_eq_true _)
  unfold parseJanuary
  rw [hdrop]
  show (do
    let d ← parseDigits (twoDigits (s / 86400 + 1))
    let h ← parseDigits (twoDigits (s / 3600 % 24))
    let m ← parseDigits (twoDigits (s / 60 % 60))
    let s ← parseDigits (twoDigits (s % 60))
    if 1 ≤ d ∧ d ≤ 31 ∧ h < 24 ∧ m < 60 ∧ s < 60 then
      some ((d - 1) * 86400 + h * 3600 + m * 60 + s)
    else none) = some s
  rw [parseDigits_twoDigits (by omega), parseDigits_twoDigits (by omega),
    parseDigits_twoDigits (by omega), parseDigits_twoDigits (by omega)]
  refine (if_pos (by omega)).trans (congrArg some ?_)
  omega

/-- A whole second of January 1970, in nanoseconds. -/
def InJanuary (t : ℤ) : Prop := 0 ≤ t ∧ t < 31 * 86400 * 1000000000 ∧ t % 1000000000 = 0

instance : DecidablePred InJanuary := fun t =>
  inferInstanceAs (Decidable (0 ≤ t ∧ t < 31 * 86400 * 1000000000 ∧ t % 1000000000 = 0))

/-- Points in time in January 1970. -/
def january : Dates where
  render t := januaryText (t / 1000000000).toNat
  parse text := (parseJanuary text).map fun s : ℕ => (s * 1000000000 : ℤ)
  Valid := InJanuary
  parse_render := by
    intro t h
    obtain ⟨hlow, hhigh, hwhole⟩ := h
    rw [parseJanuary_text (by omega), Option.map_some, Int.toNat_of_nonneg (by omega)]
    exact congrArg some (Int.ediv_mul_cancel (Int.dvd_of_emod_eq_zero hwhole))

instance : DecidablePred january.Valid := inferInstanceAs (DecidablePred InJanuary)

namespace Memory

variable {dates : Dates} [DecidablePred dates.Valid]

instance (n : ℕ) : Decidable (IsUsize n) := inferInstanceAs (Decidable (n < 2 ^ 64))

instance (sub : SubscriptionState) : Decidable (sub.InRange dates) :=
  decidable_of_iff (IsUsize sub.nextIndex ∧ (∀ i ∈ sub.acked, IsUsize i) ∧
      (∀ e ∈ sub.inflight.toList, IsUsize e.2.topicIndex ∧ dates.Valid e.2.deadline) ∧
      (∀ e ∈ sub.retryQueue, IsUsize e.topicIndex ∧ dates.Valid e.availableAt) ∧
      (∀ e ∈ sub.attempts.toList, IsUsize e.1) ∧ ∀ e ∈ sub.orderingAcked.toList, IsUsize e.2)
    { mp := fun h => ⟨h.1, h.2.1, h.2.2.1, h.2.2.2.1, h.2.2.2.2.1, h.2.2.2.2.2⟩
      mpr := fun h => ⟨h.nextIndex, h.acked, h.inflight, h.retryQueue, h.attempts,
        h.orderingAcked⟩ }

instance (st : State) : Decidable (st.InRange dates) :=
  decidable_of_iff ((∀ e ∈ st.topics.toList, ∀ m ∈ e.2.messages, dates.Valid m.publishedAt) ∧
      (∀ e ∈ st.subscriptions.toList, e.2.InRange dates) ∧
      ∀ e ∈ st.snapshots.toList, dates.Valid e.2.expireTime ∧ IsUsize e.2.topicIndex)
    { mp := fun h => ⟨h.1, h.2.1, h.2.2⟩
      mpr := fun h => ⟨h.topics, h.subscriptions, h.snapshots⟩ }

/-- Three messages are pulled: one is acked, one stays leased and one waits to be delivered
again, when a snapshot is made. -/
def busyRun : Run := .ofCalls
  [(0, .createTopic sampleTopic),
   (0, .createSubscription { sampleSubscription with
     enableMessageOrdering := true
     enableExactlyOnceDelivery := true }),
   (seconds 1, .publish sampleTopic.name [sampleMessage "k", sampleMessage "", sampleMessage ""]),
   (seconds 2, .pull sampleSubscription.name 3),
   (seconds 3, .acknowledge sampleSubscription.name [exactlyOnceId sampleSubscription.name 0 1]),
   (seconds 4, .modifyAckDeadline sampleSubscription.name
     [exactlyOnceId sampleSubscription.name 1 1] 0),
   (seconds 5, .createSnapshot "projects/p/snapshots/n" sampleSubscription.name ∅)]

/-- The acknowledgement of the first one. -/
def busyAck : Step := busyRun.steps[4]

def busyState : State := stateAfter noJson busyRun.steps

example : (busyState.subscriptions.toList.map fun e =>
      (e.2.acked, e.2.inflight.toList.map (·.2.topicIndex), e.2.retryQueue.map (·.topicIndex))) =
    [({0}, [2], [1])] := by decide +kernel

/-- It is read back from each of its documents. -/
theorem busyState_read_back :
    (Serde.state january).Represents busyState ((Serde.state january).encode busyState) ∧
      ∀ v, (Serde.state january).Represents busyState v →
        (Serde.state january).decode v = some busyState :=
  Serde.state_read_back (by decide +kernel)

end Memory

end RelayPubsub
