import RelayPubsub.Grpc.Proto
import RelayPubsub.Memory.Specs

/-!
# Resources read and written back through gRPC

`topic_to_proto` and `subscription_to_proto` of `src/grpc.rs` render a resource as
a protobuf message. Its decoders give the resource back in all its parts but
these:

| part | rendered | decoded |
|---|---|---|
| push attributes without an endpoint | not at all | no attributes |
| an empty push endpoint | an empty string | no endpoint |
| a limit on attempts below 5, or from `2 ^ 31` on | itself, as an `i32` | 5 |
| a schema encoding without a schema | not at all | no encoding |

So the two are inverse exactly where these do not occur
(`RelayPubsub.Grpc.proto_read_modify_write_iff`).
-/

namespace RelayPubsub.Grpc

open Lib Memory

/-! ### Rendering -/

def topicToProto (value : TopicSpec) : Topic where
  name := value.name
  labels := value.labels
  kmsKeyName := value.kmsKeyName
  schemaSettings :=
    if value.schemaName = [] then none else some ⟨value.schemaName, value.schemaEncoding⟩

/-- A `u32` number of seconds, as an `i64`. -/
def durationToProto (seconds : UInt32) : Duration := ⟨Int64.ofNat seconds.toNat, 0⟩

def subscriptionToProto (value : SubscriptionSpec) : Subscription where
  name := value.name
  topic := value.topic
  pushConfig := value.pushEndpoint.map fun endpoint => ⟨endpoint, value.pushAttributes⟩
  ackDeadlineSeconds := value.ackDeadlineSeconds.toInt32
  retainAckedMessages := false
  labels := value.labels
  enableMessageOrdering := value.enableMessageOrdering
  deadLetterPolicy := value.deadLetter.map fun v => ⟨v.topic, v.maxDeliveryAttempts.toInt32⟩
  retryPolicy := value.retry.map fun v =>
    ⟨some (durationToProto v.minimumBackoffSeconds), some (durationToProto v.maximumBackoffSeconds)⟩
  detached := false
  enableExactlyOnceDelivery := value.enableExactlyOnceDelivery
  filter := value.filter

/-! ### Decoding what was rendered -/

/-- A `u32` as an `i32`. -/
theorem toInt_toInt32 (n : UInt32) :
    n.toInt32.toInt = if n.toNat < 2 ^ 31 then (n.toNat : ℤ) else n.toNat - 2 ^ 32 := by
  have hbits : n.toInt32.toInt = n.toBitVec.toInt := rfl
  rw [hbits, BitVec.toInt_eq_toNat_cond, UInt32.toNat_toBitVec]
  split_ifs
  · rfl
  · omega
  · omega
  · rfl

/-- A `u32` is read back from its value. -/
theorem ofInt_toNat (n : UInt32) : UInt32.ofInt n.toNat = n := by
  have hn : n.toNat < 2 ^ 32 := n.toNat_lt
  have hmod : ((n.toNat : ℤ) % 2 ^ 32).toNat = n.toNat := by omega
  rw [UInt32.ofInt, hmod, UInt32.ofNat_toNat]

/-- **A duration is read back.** -/
theorem durationSeconds_durationToProto (n : UInt32) :
    durationSeconds (some (durationToProto n)) = n := by
  have hn : n.toNat < 2 ^ 32 := n.toNat_lt
  change UInt32.ofInt (max 0 (Int64.ofNat n.toNat).toInt) = n
  rw [Int64.toInt_ofNat_of_lt (by omega), max_eq_right (by omega), ofInt_toNat]

/-- **A limit on attempts is read back** exactly when it is at least 5 and fits an
`i32`. -/
theorem u32OfInt32_toInt32_iff (n : UInt32) :
    u32OfInt32 5 n.toInt32 = n ↔ 5 ≤ n.toNat ∧ n.toNat < 2 ^ 31 := by
  have hfive : (5 : Int32).toInt = 5 := rfl
  rw [u32OfInt32, toInt_toInt32, hfive]
  by_cases hfit : n.toNat < 2 ^ 31
  · rw [if_pos hfit]
    by_cases hle : 5 ≤ n.toNat
    · rw [max_eq_right (by omega), ofInt_toNat]
      exact iff_of_true rfl ⟨hle, hfit⟩
    · rw [max_eq_left (by omega)]
      refine iff_of_false ?_ fun h => hle h.1
      rintro rfl
      exact hle (by decide)
  · rw [if_neg hfit, max_eq_left (by have := n.toNat_lt; omega)]
    refine iff_of_false ?_ fun h => hfit h.2
    rintro rfl
    exact hfit (by decide)

/-- A deadline that is kept is read back. -/
theorem deadline_toInt32 {n : UInt32} (h : 10 ≤ n.toNat ∧ n.toNat ≤ 600) :
    (if n.toInt32 ≤ 0 then 10 else UInt32.ofInt n.toInt32.toInt) = n := by
  have hvalue : n.toInt32.toInt = n.toNat := by
    rw [toInt_toInt32, if_pos (by omega)]
  have hpos : ¬n.toInt32 ≤ 0 := by
    rw [Int32.le_iff_toInt_le, hvalue]
    change ¬(n.toNat : ℤ) ≤ 0
    omega
  rw [if_neg hpos, hvalue, ofInt_toNat]

/-- **A topic is decoded from its message** but for an encoding without a schema. -/
theorem topicFromProto_topicToProto {topic : TopicSpec} (hname : topic.name ≠ []) :
    topicFromProto (topicToProto topic) =
      .ok { topic with
        schemaEncoding := if topic.schemaName = [] then [] else topic.schemaEncoding } := by
  unfold topicFromProto topicToProto
  rw [if_neg hname]
  split_ifs with hschema
  · simp [hschema]
  · rfl

/-- **A subscription is decoded from its message** but for the limit on attempts and
for what a push configuration without an endpoint holds. -/
theorem subscriptionFromProto_subscriptionToProto {sub : SubscriptionSpec}
    (hname : sub.name ≠ []) (htopic : sub.topic ≠ [])
    (hdeadline : 10 ≤ sub.ackDeadlineSeconds.toNat ∧ sub.ackDeadlineSeconds.toNat ≤ 600) :
    subscriptionFromProto (subscriptionToProto sub) =
      .ok { sub with
        deadLetter := sub.deadLetter.map fun d =>
          { d with maxDeliveryAttempts := u32OfInt32 5 d.maxDeliveryAttempts.toInt32 }
        pushEndpoint := sub.pushEndpoint.filter (· ≠ [])
        pushAttributes := if sub.pushEndpoint.isSome then sub.pushAttributes else ∅ } := by
  have hpush : pushFromProto (subscriptionToProto sub).pushConfig =
      (sub.pushEndpoint.filter (· ≠ []),
        if sub.pushEndpoint.isSome then sub.pushAttributes else ∅) := by
    unfold subscriptionToProto
    rcases sub.pushEndpoint with - | e
    · rfl
    · by_cases he : e = [] <;> simp [pushFromProto, he, Option.filter]
  have hretry : ((subscriptionToProto sub).retryPolicy.map fun v =>
      ({ minimumBackoffSeconds := durationSeconds v.minimumBackoff
         maximumBackoffSeconds := durationSeconds v.maximumBackoff } : RetrySpec)) = sub.retry := by
    unfold subscriptionToProto
    rcases sub.retry with - | r
    · rfl
    · simp only [Option.map_some, durationSeconds_durationToProto]
  have hdead : ((subscriptionToProto sub).deadLetterPolicy.map fun v =>
      ({ topic := v.deadLetterTopic
         maxDeliveryAttempts := u32OfInt32 5 v.maxDeliveryAttempts } : DeadLetterSpec)) =
      sub.deadLetter.map fun d =>
        { d with maxDeliveryAttempts := u32OfInt32 5 d.maxDeliveryAttempts.toInt32 } := by
    unfold subscriptionToProto
    rcases sub.deadLetter with - | d <;> rfl
  unfold subscriptionFromProto
  have hdeadline' : (if (subscriptionToProto sub).ackDeadlineSeconds ≤ 0 then 10
      else UInt32.ofInt (subscriptionToProto sub).ackDeadlineSeconds.toInt) =
      sub.ackDeadlineSeconds := deadline_toInt32 hdeadline
  rw [hpush, hretry, hdead, hdeadline',
    if_neg (show (subscriptionToProto sub).name ≠ [] from hname),
    if_neg (show (subscriptionToProto sub).topic ≠ [] from htopic)]
  rfl

/-! ### Reading and writing back -/

/-- **What a subscription must have** to be its own decoding. -/
structure Lossless (sub : SubscriptionSpec) : Prop where
  attributes : sub.pushEndpoint = none → sub.pushAttributes = ∅
  endpoint : sub.pushEndpoint ≠ some []
  attempts : ∀ d, sub.deadLetter = some d →
    5 ≤ d.maxDeliveryAttempts.toNat ∧ d.maxDeliveryAttempts.toNat < 2 ^ 31

theorem subscriptionToProto_decoded_iff (sub : SubscriptionSpec) :
    { sub with
        deadLetter := sub.deadLetter.map fun d =>
          { d with maxDeliveryAttempts := u32OfInt32 5 d.maxDeliveryAttempts.toInt32 }
        pushEndpoint := sub.pushEndpoint.filter (· ≠ [])
        pushAttributes := if sub.pushEndpoint.isSome then sub.pushAttributes else ∅ } = sub ↔
      Lossless sub := by
  constructor
  · intro h
    have hdead := congrArg SubscriptionSpec.deadLetter h
    have hendpoint := congrArg SubscriptionSpec.pushEndpoint h
    have hattributes := congrArg SubscriptionSpec.pushAttributes h
    dsimp only at hdead hendpoint hattributes
    refine ⟨fun hnone => ?_, filter_endpoint_iff.mp hendpoint, fun d hd => ?_⟩
    · rw [hnone] at hattributes
      exact hattributes.symm
    · rw [hd, Option.map_some, Option.some.injEq] at hdead
      exact (u32OfInt32_toInt32_iff _).mp (congrArg DeadLetterSpec.maxDeliveryAttempts hdead)
  · rintro ⟨hattributes, hendpoint, hattempts⟩
    have hdead : (sub.deadLetter.map fun d =>
        { d with maxDeliveryAttempts := u32OfInt32 5 d.maxDeliveryAttempts.toInt32 }) =
        sub.deadLetter := by
      rcases hd : sub.deadLetter with - | d
      · rfl
      · rw [Option.map_some, (u32OfInt32_toInt32_iff _).mpr (hattempts d hd)]
    have hattr : (if sub.pushEndpoint.isSome then sub.pushAttributes else ∅) =
        sub.pushAttributes := by
      split_ifs with hsome
      · rfl
      · exact (hattributes (Option.not_isSome_iff_eq_none.mp hsome)).symm
    rw [hdead, filter_endpoint_iff.mpr hendpoint, hattr]

/-- A name of a project is not empty. -/
theorem ne_nil_of_project {name : Text} (h : "projects/".toList <+: name) : name ≠ [] := by
  obtain ⟨rest, rfl⟩ := h
  simp

variable {serde : SerdeJson}

/-- **Reading a resource and writing it back without a mask** changes nothing, and
its message is decoded to what is stored, exactly when the resource has none of the
parts in which the two disagree. -/
theorem proto_read_modify_write_iff (steps : List Step) (env : Env) :
    (∀ (name : Text) (topic : TopicState),
      (stateAfter serde steps).topics[name]? = some topic →
      (topicFromProto (topicToProto topic.spec) = .ok topic.spec ↔
        (topic.spec.schemaName = [] → topic.spec.schemaEncoding = [])) ∧
      ((topicFromProto (topicToProto topic.spec)).map (fun spec =>
          (Memory.updateTopic env (stateAfter serde steps) spec (fieldMaskPaths none)).2) =
          .ok (stateAfter serde steps) ↔
        (topic.spec.schemaName = [] → topic.spec.schemaEncoding = []))) ∧
    ∀ (name : Text) (sub : SubscriptionState),
      (stateAfter serde steps).subscriptions[name]? = some sub →
      (subscriptionFromProto (subscriptionToProto sub.spec) = .ok sub.spec ↔
        Lossless sub.spec) ∧
      ((subscriptionFromProto (subscriptionToProto sub.spec)).map (fun spec =>
          (Memory.updateSubscription env (stateAfter serde steps) spec (fieldMaskPaths none)).2) =
          .ok (stateAfter serde steps) ↔
        Lossless sub.spec) := by
  have hk : SpecsKept (stateAfter serde steps) := specsKept_stateAfter steps
  refine ⟨fun name topic h => ?_, fun name sub h => ?_⟩
  · obtain ⟨hname, hproject⟩ := hk.topics h
    have hne : topic.spec.name ≠ [] := hname ▸ ne_nil_of_project hproject
    rw [topicFromProto_topicToProto hne, Except.ok.injEq, unbound_encoding_iff]
    refine ⟨Iff.rfl, ?_⟩
    change Except.ok _ = Except.ok _ ↔ _
    rw [Except.ok.injEq, ← unbound_encoding_iff]
    exact updateTopic_unmasked_iff h hname hname
  · obtain ⟨hname, hproject, htopic, hdeadline⟩ := hk.subscriptions h
    have hne : sub.spec.name ≠ [] := hname ▸ ne_nil_of_project hproject
    rw [subscriptionFromProto_subscriptionToProto hne (ne_nil_of_project htopic) hdeadline,
      Except.ok.injEq, subscriptionToProto_decoded_iff]
    refine ⟨Iff.rfl, ?_⟩
    change Except.ok _ = Except.ok _ ↔ _
    rw [Except.ok.injEq, ← subscriptionToProto_decoded_iff]
    exact updateSubscription_unmasked_iff hk h hname rfl rfl rfl

/-! ### A limit below the minimum -/

/-- A subscription whose messages are dead-lettered after three attempts, as a client
of the other front end may ask for. -/
def threeAttempts : Run := .ofCalls
  [(0, .createTopic sampleTopic),
   (0, .createSubscription
      { sampleSubscription with deadLetter := some ⟨"projects/p/topics/dead", 3⟩ })]

/-- The limit is decoded to five. -/
theorem threeAttempts_not_lossless :
    ¬∀ (name : Text) (sub : SubscriptionState),
      (stateAfter noJson threeAttempts.steps).subscriptions[name]? = some sub →
      subscriptionFromProto (subscriptionToProto sub.spec) = .ok sub.spec := by
  intro hlossless
  have hstored : ((stateAfter noJson threeAttempts.steps).subscriptions[
      sampleSubscription.name]?.map fun sub =>
        sub.spec.deadLetter.map DeadLetterSpec.maxDeliveryAttempts) = some (some 3) := by
    decide +kernel
  obtain ⟨sub, hsub, hlimit⟩ := Option.map_eq_some_iff.mp hstored
  obtain ⟨d, hd, hthree⟩ := Option.map_eq_some_iff.mp hlimit
  obtain ⟨hname, hproject, htopic, hdeadline⟩ :=
    (specsKept_stateAfter threeAttempts.steps).subscriptions hsub
  have hdecoded := hlossless sampleSubscription.name sub hsub
  rw [subscriptionFromProto_subscriptionToProto (hname ▸ ne_nil_of_project hproject)
    (ne_nil_of_project htopic) hdeadline, Except.ok.injEq, subscriptionToProto_decoded_iff]
    at hdecoded
  have hlow := (hdecoded.attempts d hd).1
  rw [hthree] at hlow
  exact absurd hlow (by decide)

end RelayPubsub.Grpc
