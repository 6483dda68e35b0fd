import RelayPubsub.Memory.History
import RelayPubsub.Memory.Listing

/-!
# The backlog in the inventory

The subscriptions of the report of `inventory` (`src/memory.rs`), and what their
`backlog` counts. A subscription is owed the messages of its topic from the index on
that its cursor was last set to, less those that are acked
(`RelayPubsub.Memory.owed`). The report adds up three figures instead:

| figure | counts |
|---|---|
| unacked behind the cursor | every index below the cursor that is not acked |
| ahead | the log from the cursor on |
| `retry_queue.len()` | the indices that wait for a retry |

The first two make up the log less what is acked. So what is waiting for a retry is
counted twice, and what was published before the cursor was set is counted as well:
`RelayPubsub.Memory.backlog_eq` says by how much the report is off, and
`RelayPubsub.Memory.backlog_eq_owed_iff` when it is not.
-/

namespace RelayPubsub.Memory

open Lib

structure SubscriptionInventory where
  name : Text
  topic : Text
  ackDeadlineSeconds : UInt32
  enableMessageOrdering : Bool
  enableExactlyOnceDelivery : Bool
  pushEndpoint : Option Text
  pushAttributes : StrMap Text
  deadLetterTopic : Option Text
  filter : Text
  /-- Messages retained on the topic. -/
  topicMessageCount : ℕ
  /-- Cursor into the topic stream (next index to deliver). -/
  nextIndex : ℕ
  /-- Unacked / not-yet-pulled estimate. -/
  backlog : ℕ
  /-- Currently leased (inflight) deliveries. -/
  inflight : ℕ
  /-- Messages waiting on retry backoff. -/
  retryQueued : ℕ
  /-- Distinct indices acknowledged. -/
  acked : ℕ

def subscriptionInventory (st : State) (name : Text) (sub : SubscriptionState) :
    SubscriptionInventory :=
  let topicLen := (st.topics[sub.spec.topic]?.map (·.messages.length)).getD 0
  let unackedBehindCursor :=
    ((List.range (min sub.nextIndex topicLen)).filter fun i => i ∉ sub.acked).length
  let ahead := topicLen - sub.nextIndex
  { name
    topic := sub.spec.topic
    ackDeadlineSeconds := sub.spec.ackDeadlineSeconds
    enableMessageOrdering := sub.spec.enableMessageOrdering
    enableExactlyOnceDelivery := sub.spec.enableExactlyOnceDelivery
    pushEndpoint := sub.spec.pushEndpoint
    pushAttributes := sub.spec.pushAttributes
    deadLetterTopic := sub.spec.deadLetter.map (·.topic)
    filter := sub.spec.filter
    topicMessageCount := topicLen
    nextIndex := sub.nextIndex
    backlog := unackedBehindCursor + ahead + sub.retryQueue.length
    inflight := sub.inflight.size
    retryQueued := sub.retryQueue.length
    acked := sub.acked.card }

/-- The subscriptions of the report. -/
def inventorySubscriptions (st : State) (project : Text) : List SubscriptionInventory :=
  sortByName (·.name)
    ((st.subscriptions.toList.filter fun entry => decide (belongsToProject entry.1 project)).map
      fun entry => subscriptionInventory st entry.1 entry.2)

/-- A stored message as the console shows it. -/
structure MessagePreview where
  id : Text
  data : Text
  attributes : StrMap Text
  orderingKey : Text
  publishedAt : Time

structure TopicInventory where
  name : Text
  labels : StrMap Text
  messageCount : ℕ
  /-- The last twenty messages, the latest first. -/
  recent : List MessagePreview

structure InventoryReport where
  topics : List TopicInventory
  subscriptions : List SubscriptionInventory

/-- A topic in the report; `lossy` is `String::from_utf8_lossy`. -/
def topicInventory (lossy : Bytes → Text) (name : Text) (topic : TopicState) : TopicInventory where
  name := name
  labels := topic.spec.labels
  messageCount := topic.messages.length
  recent := (topic.messages.reverse.take 20).map fun m =>
    { id := m.id
      data := lossy m.data
      attributes := m.attributes
      orderingKey := m.orderingKey
      publishedAt := m.publishedAt }

def inventory (lossy : Bytes → Text) (st : State) (project : Text) : InventoryReport where
  topics := sortByName (·.name)
    ((st.topics.toList.filter fun entry => decide (belongsToProject entry.1 project)).map
      fun entry => topicInventory lossy entry.1 entry.2)
  subscriptions := inventorySubscriptions st project

/-- The report has every topic of the project. -/
theorem mem_inventory_topics {lossy : Bytes → Text} {st : State} {project : Text}
    {report : TopicInventory} :
    report ∈ (inventory lossy st project).topics ↔ ∃ (name : Text) (topic : TopicState),
      st.topics[name]? = some topic ∧ belongsToProject name project ∧
        report = topicInventory lossy name topic := by
  rw [inventory, mem_sortByName, List.mem_map]
  constructor
  · rintro ⟨⟨name, topic⟩, hmem, rfl⟩
    obtain ⟨hmem, hproject⟩ := List.mem_filter.mp hmem
    exact ⟨name, topic, Std.ExtTreeMap.mem_toList_iff_getElem?_eq_some.mp hmem,
      of_decide_eq_true hproject, rfl⟩
  · rintro ⟨name, topic, htopic, hproject, rfl⟩
    exact ⟨(name, topic), List.mem_filter.mpr
      ⟨Std.ExtTreeMap.mem_toList_iff_getElem?_eq_some.mpr htopic, decide_eq_true hproject⟩, rfl⟩

/-- The report has every subscription of the project. -/
theorem mem_inventorySubscriptions {st : State} {project : Text} {report : SubscriptionInventory} :
    report ∈ inventorySubscriptions st project ↔ ∃ (name : Text) (sub : SubscriptionState),
      st.subscriptions[name]? = some sub ∧ belongsToProject name project ∧
        report = subscriptionInventory st name sub := by
  rw [inventorySubscriptions, mem_sortByName, List.mem_map]
  constructor
  · rintro ⟨⟨name, sub⟩, hmem, rfl⟩
    obtain ⟨hmem, hproject⟩ := List.mem_filter.mp hmem
    exact ⟨name, sub, Std.ExtTreeMap.mem_toList_iff_getElem?_eq_some.mp hmem,
      of_decide_eq_true hproject, rfl⟩
  · rintro ⟨name, sub, hsub, hproject, rfl⟩
    exact ⟨(name, sub), List.mem_filter.mpr
      ⟨Std.ExtTreeMap.mem_toList_iff_getElem?_eq_some.mpr hsub, decide_eq_true hproject⟩, rfl⟩

/-- **What a subscription is owed**: the indices of the log from `base` on that it has not
acked. -/
def owed (base : ℕ) (topic : TopicState) (sub : SubscriptionState) : Finset ℕ :=
  (Finset.Ico base topic.messages.length).filter (· ∉ sub.acked)

/-! ### Counting -/

section Count

variable {p : ℕ → Prop} [DecidablePred p] {a b c : ℕ}

/-- Counting up to `c` in two parts. -/
theorem card_filter_Ico (hab : a ≤ b) (hbc : b ≤ c) :
    ((Finset.Ico a c).filter p).card =
      ((Finset.Ico a b).filter p).card + ((Finset.Ico b c).filter p).card := by
  simp only [Finset.card_filter]
  exact (Finset.sum_Ico_consecutive _ hab hbc).symm

/-- Counting where everything counts. -/
theorem card_filter_Ico_of_forall (h : ∀ i, a ≤ i → i < b → p i) :
    ((Finset.Ico a b).filter p).card = b - a := by
  rw [Finset.filter_true_of_mem, Nat.card_Ico]
  intro i hi
  obtain ⟨hai, hib⟩ := Finset.mem_Ico.mp hi
  exact h i hai hib

theorem length_filter_range (n : ℕ) :
    ((List.range n).filter fun i => p i).length = ((Finset.Ico 0 n).filter p).card := by
  rw [Nat.Ico_zero_eq_range]
  rfl

end Count

section Backlog

variable {serde : SerdeJson} {name : Text} {steps : List Step} {sub : SubscriptionState}
  {topic : TopicState}

/-- **The backlog of the report**: what is owed, the retries a second time, and the part
of the log before the index the cursor was set to. -/
theorem backlog_eq {past : List Step} {w : Watched} (hsound : Sound name past w sub)
    (htopic : w.state.topics[sub.spec.topic]? = some topic) :
    (subscriptionInventory w.state name sub).backlog =
      (owed w.base topic sub).card + sub.retryQueue.length +
        min w.base topic.messages.length := by
  set len := topic.messages.length with hlen
  have htopicLen : (w.state.topics[sub.spec.topic]?.map (·.messages.length)).getD 0 = len := by
    rw [htopic, Option.map_some, Option.getD_some]
  have hahead : ((Finset.Ico (min sub.nextIndex len) len).filter (· ∉ sub.acked)).card =
      len - sub.nextIndex := by
    rw [card_filter_Ico_of_forall]
    · omega
    · intro i hi hilen hacked
      have hlt : i < sub.nextIndex := hsound.exclusive.done_lt hacked
      omega
  have hbefore : ((Finset.Ico 0 (min w.base len)).filter (· ∉ sub.acked)).card =
      min w.base len := by
    rw [card_filter_Ico_of_forall, Nat.sub_zero]
    intro i _ hi hacked
    have hle : w.base ≤ i := hsound.above.done hacked
    omega
  have howed : (owed w.base topic sub).card =
      ((Finset.Ico (min w.base len) len).filter (· ∉ sub.acked)).card := by
    rw [owed, ← hlen]
    rcases le_total w.base len with h | h
    · rw [min_eq_left h]
    · rw [min_eq_right h, Finset.Ico_eq_empty_of_le h, Finset.Ico_self]
  have hcursor := card_filter_Ico (p := (· ∉ sub.acked)) (Nat.zero_le _)
    (min_le_right sub.nextIndex len)
  have hbase := card_filter_Ico (p := (· ∉ sub.acked)) (Nat.zero_le _) (min_le_right w.base len)
  have hreport : (subscriptionInventory w.state name sub).backlog =
      ((List.range (min sub.nextIndex len)).filter fun i => i ∉ sub.acked).length +
        (len - sub.nextIndex) + sub.retryQueue.length := by
    rw [← htopicLen]
    rfl
  rw [hreport, length_filter_range, howed]
  omega

/-- **The report counts what is owed exactly when nothing waits for a retry and nothing of
the log lies before the index the cursor was last set to**, in every state of every run. -/
theorem backlog_eq_owed_iff (serde : SerdeJson) (r : Run) (name : Text) :
    ∀ past, past <+: r.steps → ∀ sub topic,
      (watch serde name past).state.subscriptions[name]? = some sub →
      (watch serde name past).state.topics[sub.spec.topic]? = some topic →
      ((subscriptionInventory (watch serde name past).state name sub).backlog =
          (owed (watch serde name past).base topic sub).card ↔
        sub.retryQueue = [] ∧ ((watch serde name past).base = 0 ∨ topic.messages = [])) := by
  intro past hpast sub topic hsub htopic
  have hsound := sound_watch (r.fresh.sublist hpast.sublist) hsub
  rw [backlog_eq hsound htopic, ← List.length_eq_zero_iff, ← List.length_eq_zero_iff]
  omega

end Backlog

/-- A message is published to a new subscription, and pulled. -/
def pulledOnce : Run := .ofCalls
  [(0, .createTopic sampleTopic),
   (0, .createSubscription { sampleSubscription with enableExactlyOnceDelivery := true }),
   (0, .publish sampleTopic.name [sampleMessage ""]),
   (0, .pull sampleSubscription.name 1)]

/-- It is counted once. -/
theorem pulledOnce_owed : ∃ sub topic,
    (watch noJson sampleSubscription.name pulledOnce.steps).state.subscriptions[
      sampleSubscription.name]? = some sub ∧
    (subscriptionInventory (watch noJson sampleSubscription.name pulledOnce.steps).state
        sampleSubscription.name sub).backlog =
      (owed (watch noJson sampleSubscription.name pulledOnce.steps).base topic sub).card := by
  set w := watch noJson sampleSubscription.name pulledOnce.steps with hw
  have hfacts : (w.state.subscriptions[sampleSubscription.name]?.any fun sub =>
      w.state.topics[sub.spec.topic]?.any fun topic => sub.retryQueue = []) = true := by
    decide +kernel
  have hbase : w.base = 0 := by decide +kernel
  obtain ⟨sub, hsub, hfacts⟩ := (Option.any_eq_true _ _).mp hfacts
  obtain ⟨topic, htopic, hqueue⟩ := (Option.any_eq_true _ _).mp hfacts
  exact ⟨sub, topic, hsub, (backlog_eq_owed_iff noJson pulledOnce sampleSubscription.name _
    (List.prefix_refl _) sub topic hsub htopic).mpr ⟨of_decide_eq_true hqueue, Or.inl hbase⟩⟩

/-- The message is given back. -/
def givenBack : Run := .ofCalls
  [(0, .createTopic sampleTopic),
   (0, .createSubscription { sampleSubscription with enableExactlyOnceDelivery := true }),
   (0, .publish sampleTopic.name [sampleMessage ""]),
   (0, .pull sampleSubscription.name 1),
   (0, .modifyAckDeadline sampleSubscription.name
     [exactlyOnceId sampleSubscription.name 0 1] 0)]

/-- **One message is owed, and two are reported.** -/
theorem givenBack_counted_twice : ¬∀ sub topic,
    (watch noJson sampleSubscription.name givenBack.steps).state.subscriptions[
      sampleSubscription.name]? = some sub →
    (watch noJson sampleSubscription.name givenBack.steps).state.topics[sub.spec.topic]? =
      some topic →
    (subscriptionInventory (watch noJson sampleSubscription.name givenBack.steps).state
        sampleSubscription.name sub).backlog =
      (owed (watch noJson sampleSubscription.name givenBack.steps).base topic sub).card := by
  intro h
  set w := watch noJson sampleSubscription.name givenBack.steps with hw
  have hfacts : (w.state.subscriptions[sampleSubscription.name]?.any fun sub =>
      w.state.topics[sub.spec.topic]?.any fun topic =>
        (subscriptionInventory w.state sampleSubscription.name sub).backlog = 2 ∧
          (owed w.base topic sub).card = 1) = true := by
    decide +kernel
  obtain ⟨sub, hsub, hfacts⟩ := (Option.any_eq_true _ _).mp hfacts
  obtain ⟨topic, htopic, hfacts⟩ := (Option.any_eq_true _ _).mp hfacts
  obtain ⟨htwo, hone⟩ := of_decide_eq_true hfacts
  have heq := h sub topic hsub htopic
  rw [htwo, hone] at heq
  cases heq

end RelayPubsub.Memory
