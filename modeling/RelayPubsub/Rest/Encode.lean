import RelayPubsub.Memory.Specs
import RelayPubsub.Rest.Decode

/-!
# Resources read and written back through REST

`topic_json` and `subscription_json` of `src/rest.rs` render a resource as JSON.
The decoders of `RelayPubsub.Rest.Decode` are written apart from them, and give
the resource back in all its parts but three:

| part | rendered | decoded |
|---|---|---|
| no retry policy | `null` | a policy whose backoffs are zero |
| an empty push endpoint | `""` | no endpoint |
| a schema encoding without a schema | not at all | no encoding |

So the two are inverse exactly where these do not occur
(`RelayPubsub.Rest.json_read_modify_write_iff`).
-/

namespace RelayPubsub.Rest

open Lib Memory

/-! ### Rendering -/

/-- `json!` of a map of strings. -/
def stringMapJson (m : StrMap Text) : Value := .object (m.toList.map fun f => (f.1, .string f.2))

/-- `json!` of a `u32`. -/
def u32Json (n : UInt32) : Value := .number (.posInt n.toUInt64)

/-- `format!("{}s", seconds)` -/
def durationJson (seconds : UInt32) : Value := .string (decimal seconds.toNat ++ ['s'])

def topicJson (topic : TopicSpec) : Value :=
  .object
    [("name", .string topic.name),
     ("labels", stringMapJson topic.labels),
     ("kmsKeyName", .string topic.kmsKeyName),
     ("schemaSettings",
        if topic.schemaName = [] then .null
        else
          .object
            [("schema", .string topic.schemaName), ("encoding", .string topic.schemaEncoding)])]

def deadLetterJson (d : DeadLetterSpec) : Value :=
  .object
    [("deadLetterTopic", .string d.topic), ("maxDeliveryAttempts", u32Json d.maxDeliveryAttempts)]

def retryJson (r : RetrySpec) : Value :=
  .object
    [("minimumBackoff", durationJson r.minimumBackoffSeconds),
     ("maximumBackoff", durationJson r.maximumBackoffSeconds)]

/-- `json!` of an option. -/
def optionJson (v : Option Value) : Value := v.getD .null

def subscriptionJson (sub : SubscriptionSpec) : Value :=
  .object
    [("name", .string sub.name),
     ("topic", .string sub.topic),
     ("ackDeadlineSeconds", u32Json sub.ackDeadlineSeconds),
     ("labels", stringMapJson sub.labels),
     ("enableMessageOrdering", .bool sub.enableMessageOrdering),
     ("enableExactlyOnceDelivery", .bool sub.enableExactlyOnceDelivery),
     ("pushConfig",
        .object
          [("pushEndpoint", .string (sub.pushEndpoint.getD [])),
           ("attributes", stringMapJson sub.pushAttributes)]),
     ("deadLetterPolicy", optionJson (sub.deadLetter.map deadLetterJson)),
     ("retryPolicy", optionJson (sub.retry.map retryJson)),
     ("filter", .string sub.filter)]

/-! ### Decoding what was rendered -/

/-- **A map of strings is read back.** -/
theorem toStringMap_stringMapJson (m : StrMap Text) :
    (stringMapJson m).toStringMap = some m := by
  have hfields : ∀ l : List (Text × Text),
      (l.map fun f => ((f.1, .string f.2) : Text × Value)).mapM
        (fun f => f.2.asStr.map fun s => (f.1, s)) = some l := by
    intro l
    induction l with
    | nil => rfl
    | cons f l ih =>
      rw [List.map_cons, List.mapM_cons, ih]
      rfl
  simp only [stringMapJson, Value.toStringMap, Value.asObject, Option.bind_some, hfields,
    Option.map_some, ofList_toList]

/-- **Seconds written in decimal are capped at the greatest `u32`**, by way of a double. -/
theorem parseDurationSeconds_decimal (n : ℕ) :
    parseDurationSeconds (some (.string (decimal n ++ ['s']))) = some (roundF64 n).toU32 := by
  have hsuffix : stripSuffix? ['s'] (decimal n ++ ['s']) = some (decimal n) := by
    simp [stripSuffix?, List.dropPrefix?]
  simp only [parseDurationSeconds, Option.bind_some, Value.asStr, hsuffix, parseF64_decimal_eq,
    Option.map_some]

/-- **A duration is read back**, by way of a double. -/
theorem parseDurationSeconds_durationJson (n : UInt32) :
    parseDurationSeconds (some (durationJson n)) = some n := by
  have hn : n.toNat < 2 ^ 32 := n.toNat_lt
  rw [durationJson, parseDurationSeconds_decimal, Option.some.injEq, ← UInt32.toNat_inj,
    toU32_roundF64]
  omega

/-- **A topic is decoded from its rendering** but for an encoding without a schema. -/
theorem topicSpecFromValue_topicJson (path : Text) (topic : TopicSpec) :
    topicSpecFromValue path (topicJson topic) =
      { topic with
        schemaEncoding := if topic.schemaName = [] then [] else topic.schemaEncoding } := by
  have hlabels : parseLabels (topicJson topic) = topic.labels := by
    have hget : (topicJson topic).get "labels" = some (stringMapJson topic.labels) := rfl
    rw [parseLabels, hget, Option.bind_some, toStringMap_stringMapJson, Option.getD_some]
  have hname : nameFromValue path (topicJson topic) = topic.name := rfl
  have hkey : ((topicJson topic).getStr "kmsKeyName").getD [] = topic.kmsKeyName := rfl
  have hsettings : (topicJson topic).get "schemaSettings" =
      some (if topic.schemaName = [] then .null
        else
          .object
            [("schema", .string topic.schemaName), ("encoding", .string topic.schemaEncoding)]) :=
    rfl
  unfold topicSpecFromValue
  rw [hlabels, hname, hkey, hsettings]
  split_ifs with hschema
  · simp [hschema, Value.getStr, Value.get]
  · rfl

/-- An option is read back where `null` reads as nothing. -/
theorem parseDeadLetter_subscriptionJson (sub : SubscriptionSpec) :
    parseDeadLetter (subscriptionJson sub) = sub.deadLetter := by
  have hget : (subscriptionJson sub).get "deadLetterPolicy" =
      some (optionJson (sub.deadLetter.map deadLetterJson)) := rfl
  rw [parseDeadLetter, hget]
  rcases sub.deadLetter with - | d
  · rfl
  · have hmax : (((deadLetterJson d).get "maxDeliveryAttempts").bind Value.asU64).getD 5
        = d.maxDeliveryAttempts.toUInt64 := rfl
    have htopic : (deadLetterJson d).getStr "deadLetterTopic" = some d.topic := rfl
    simp only [Option.map_some, optionJson, Option.getD_some, Option.bind_some, htopic, hmax]
    simp

/-- **No retry policy is read back as one without backoff.** -/
theorem parseRetry_subscriptionJson (sub : SubscriptionSpec) :
    parseRetry (subscriptionJson sub) = some (sub.retry.getD ⟨0, 0⟩) := by
  have hget : (subscriptionJson sub).get "retryPolicy" =
      some (optionJson (sub.retry.map retryJson)) := rfl
  rw [parseRetry, hget]
  rcases sub.retry with - | r
  · rfl
  · have hmin : (retryJson r).get "minimumBackoff" = some (durationJson r.minimumBackoffSeconds) :=
      rfl
    have hmax : (retryJson r).get "maximumBackoff" = some (durationJson r.maximumBackoffSeconds) :=
      rfl
    simp only [Option.map_some, optionJson, Option.getD_some, hmin, hmax,
      parseDurationSeconds_durationJson]

theorem parsePushConfig_subscriptionJson (sub : SubscriptionSpec) :
    parsePushConfig (subscriptionJson sub) =
      (sub.pushEndpoint.filter (· ≠ []), sub.pushAttributes) := by
  have hendpoint : ((subscriptionJson sub).get "pushConfig").bind
      (fun v => v.getStr "pushEndpoint") = some (sub.pushEndpoint.getD []) := rfl
  have hattributes : ((subscriptionJson sub).get "pushConfig").bind (fun v => v.get "attributes") =
      some (stringMapJson sub.pushAttributes) := rfl
  unfold parsePushConfig
  dsimp only
  rw [hendpoint, hattributes, Option.bind_some, toStringMap_stringMapJson]
  rcases sub.pushEndpoint with - | e <;> rfl

/-- **A subscription is decoded from its rendering** but for the retry policy and an
empty endpoint. -/
theorem subscriptionSpecFromValue_subscriptionJson (path : Text) (sub : SubscriptionSpec) :
    subscriptionSpecFromValue path (subscriptionJson sub) =
      .ok { sub with
        retry := some (sub.retry.getD ⟨0, 0⟩)
        pushEndpoint := sub.pushEndpoint.filter (· ≠ []) } := by
  have hlabels : parseLabels (subscriptionJson sub) = sub.labels := by
    have hget : (subscriptionJson sub).get "labels" = some (stringMapJson sub.labels) := rfl
    rw [parseLabels, hget, Option.bind_some, toStringMap_stringMapJson, Option.getD_some]
  have htopic : (subscriptionJson sub).getStr "topic" = some sub.topic := rfl
  have hname : nameFromValue path (subscriptionJson sub) = sub.name := rfl
  have hdeadline : (((subscriptionJson sub).get "ackDeadlineSeconds").bind Value.asU64).getD 10 =
      sub.ackDeadlineSeconds.toUInt64 := rfl
  have hordering : (((subscriptionJson sub).get "enableMessageOrdering").bind
      Value.asBool).getD false = sub.enableMessageOrdering := rfl
  have honce : (((subscriptionJson sub).get "enableExactlyOnceDelivery").bind
      Value.asBool).getD false = sub.enableExactlyOnceDelivery := rfl
  have hfilter : ((subscriptionJson sub).getStr "filter").getD [] = sub.filter := rfl
  simp only [subscriptionSpecFromValue, htopic, hname, hdeadline, hlabels, hordering, honce,
    hfilter, parsePushConfig_subscriptionJson, parseDeadLetter_subscriptionJson,
    parseRetry_subscriptionJson, UInt32.toUInt32_toUInt64]

/-- A rendering has no mask in it. -/
theorem parseUpdateMask_topicJson (topic : TopicSpec) :
    parseUpdateMask (topicJson topic) none = [] := rfl

theorem parseUpdateMask_subscriptionJson (sub : SubscriptionSpec) :
    parseUpdateMask (subscriptionJson sub) none = [] := rfl

/-! ### Reading and writing back -/

/-- The subscription is its own decoding exactly when it has a retry policy and no
empty endpoint. -/
theorem subscriptionJson_decoded_iff (sub : SubscriptionSpec) :
    { sub with
        retry := some (sub.retry.getD ⟨0, 0⟩)
        pushEndpoint := sub.pushEndpoint.filter (· ≠ []) } = sub ↔
      sub.retry.isSome = true ∧ sub.pushEndpoint ≠ some [] := by
  constructor
  · intro h
    have hretry := congrArg SubscriptionSpec.retry h
    have hendpoint := congrArg SubscriptionSpec.pushEndpoint h
    dsimp only at hretry hendpoint
    exact ⟨by rw [← hretry]; rfl, filter_endpoint_iff.mp hendpoint⟩
  · rintro ⟨hretry, hendpoint⟩
    obtain ⟨r, hr⟩ := Option.isSome_iff_exists.mp hretry
    rw [filter_endpoint_iff.mpr hendpoint, hr]
    cases sub
    cases hr
    rfl

variable {serde : SerdeJson}

/-- **Reading a resource and writing it back without a mask** changes nothing, and
its rendering is decoded to what is stored, exactly when the resource has none of the
three parts in which the two disagree. -/
theorem json_read_modify_write_iff (steps : List Step) (env : Env) (path : Text) :
    (∀ (name : Text) (topic : TopicState),
      (stateAfter serde steps).topics[name]? = some topic →
      (topicSpecFromValue path (topicJson topic.spec) = topic.spec ↔
        (topic.spec.schemaName = [] → topic.spec.schemaEncoding = [])) ∧
      ((updateTopic env (stateAfter serde steps) (topicSpecFromValue path (topicJson topic.spec))
          (parseUpdateMask (topicJson topic.spec) none)).2 = stateAfter serde steps ↔
        (topic.spec.schemaName = [] → topic.spec.schemaEncoding = []))) ∧
    ∀ (name : Text) (sub : SubscriptionState),
      (stateAfter serde steps).subscriptions[name]? = some sub →
      (subscriptionSpecFromValue path (subscriptionJson sub.spec) = .ok sub.spec ↔
        sub.spec.retry.isSome = true ∧ sub.spec.pushEndpoint ≠ some []) ∧
      ((subscriptionSpecFromValue path (subscriptionJson sub.spec)).map (fun spec =>
          (updateSubscription env (stateAfter serde steps) spec
            (parseUpdateMask (subscriptionJson sub.spec) none)).2) =
          .ok (stateAfter serde steps) ↔
        sub.spec.retry.isSome = true ∧ sub.spec.pushEndpoint ≠ some []) := by
  have hk : SpecsKept (stateAfter serde steps) := specsKept_stateAfter steps
  refine ⟨fun name topic h => ?_, fun name sub h => ?_⟩
  · have hname := (hk.topics h).name_eq
    rw [topicSpecFromValue_topicJson, parseUpdateMask_topicJson, ← unbound_encoding_iff]
    exact ⟨Iff.rfl, updateTopic_unmasked_iff h hname hname⟩
  · have hname := (hk.subscriptions h).name_eq
    rw [subscriptionSpecFromValue_subscriptionJson, parseUpdateMask_subscriptionJson,
      ← subscriptionJson_decoded_iff, Except.ok.injEq]
    refine ⟨Iff.rfl, ?_⟩
    change Except.ok _ = Except.ok _ ↔ _
    rw [Except.ok.injEq]
    exact updateSubscription_unmasked_iff hk h hname rfl rfl rfl

/-! ### A subscription without a retry policy -/

/-- A topic and a subscription. -/
def subscribedOnce : Run := .ofCalls
  [(0, .createTopic sampleTopic),
   (0, .createSubscription sampleSubscription)]

/-- The subscription is rendered with a `null` policy, which is decoded to one that
retries at once. -/
theorem subscribedOnce_not_lossless :
    ¬∀ (name : Text) (sub : SubscriptionState),
      (stateAfter noJson subscribedOnce.steps).subscriptions[name]? = some sub →
      ∀ path, subscriptionSpecFromValue path (subscriptionJson sub.spec) = .ok sub.spec := by
  intro hlossless
  have hstored : ((stateAfter noJson subscribedOnce.steps).subscriptions[
      sampleSubscription.name]?.map fun sub => sub.spec.retry.isNone) = some true := by
    decide +kernel
  obtain ⟨sub, hsub, hretry⟩ := Option.map_eq_some_iff.mp hstored
  have hdecoded := hlossless sampleSubscription.name sub hsub []
  rw [subscriptionSpecFromValue_subscriptionJson, Except.ok.injEq,
    subscriptionJson_decoded_iff] at hdecoded
  simp [Option.isNone_iff_eq_none.mp hretry] at hdecoded

end RelayPubsub.Rest
