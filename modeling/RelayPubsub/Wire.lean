import RelayPubsub.Grpc.Proto
import RelayPubsub.Memory.Backoff
import RelayPubsub.Memory.Mask
import RelayPubsub.Rest.Encode

/-!
# Numbers on the wire

How an integer that a client sends for a subscription becomes the deadline, the limit on
attempts or the backoff that is in effect. It is read by the decoder of the front end, which
casts it to a `u32`, and clamped by the store.

| field | `src/rest.rs` | `src/grpc.rs` |
|---|---|---|
| acknowledgement deadline | a JSON number, cast from `u64` | an `i32` |
| delivery attempts | a JSON number, cast from `u64` | an `i32` |
| backoff | a text of seconds, cast from `f64` | seconds, cast from `i64` |

The cast from `f64` saturates, those from `u64` and `i64` cut off the higher bits. So where
they are made, and only there, an integer from `2 ^ 32` on may have less effect than a
smaller one (`RelayPubsub.Wire.wire_numbers_iff`).
-/

namespace RelayPubsub.Wire

open Lib Memory

/-- The front end of a request. -/
inductive Transport where
  | rest
  | grpc
  deriving DecidableEq

/-- The fields of a subscription that carry an integer. -/
inductive WireField where
  | ackDeadline
  | maxAttempts
  | minBackoff
  | maxBackoff
  deriving DecidableEq

/-- **What is in effect**: the deadline as it is stored, the limit on attempts as a pull
applies it, and the seconds of the backoff. -/
def WireField.effective (spec : SubscriptionSpec) : WireField → Option ℕ
  | .ackDeadline => some (normalizeAckDeadline (max spec.ackDeadlineSeconds 10)).toNat
  | .maxAttempts => spec.deadLetter.map fun d => (clamp d.maxDeliveryAttempts 5 100).toNat
  | .minBackoff => spec.retry.map fun r => r.minimumBackoffSeconds.toNat
  | .maxBackoff => spec.retry.map fun r => r.maximumBackoffSeconds.toNat

/-! ### Requests that carry an integer -/

/-- An integer of a JSON text; from `2 ^ 64` on it is read as an `f64`. -/
def jsonInteger (n : ℕ) : Value :=
  .number (if n < 2 ^ 64 then .posInt (UInt64.ofNat n) else .float (decimal n))

/-- A number of seconds as JSON writes a duration. -/
def jsonSeconds (n : ℕ) : Value := .string (decimal n ++ ['s'])

/-- The body of a REST request carries the integer. -/
def RestCarries (body : Value) (n : ℕ) : WireField → Prop
  | .ackDeadline => body.get "ackDeadlineSeconds" = some (jsonInteger n)
  | .maxAttempts => ∃ policy topic, body.get "deadLetterPolicy" = some policy ∧
      policy.getStr "deadLetterTopic" = some topic ∧
      policy.get "maxDeliveryAttempts" = some (jsonInteger n)
  | .minBackoff => ∃ policy, body.get "retryPolicy" = some policy ∧
      policy.get "minimumBackoff" = some (jsonSeconds n)
  | .maxBackoff => ∃ policy, body.get "retryPolicy" = some policy ∧
      policy.get "maximumBackoff" = some (jsonSeconds n)

/-- The message of a gRPC request carries the integer. -/
def GrpcCarries (value : Grpc.Subscription) (n : ℕ) : WireField → Prop
  | .ackDeadline => value.ackDeadlineSeconds.toInt = n
  | .maxAttempts => ∃ policy, value.deadLetterPolicy = some policy ∧
      policy.maxDeliveryAttempts.toInt = n
  | .minBackoff => ∃ policy duration, value.retryPolicy = some policy ∧
      policy.minimumBackoff = some duration ∧ duration.seconds.toInt = n
  | .maxBackoff => ∃ policy duration, value.retryPolicy = some policy ∧
      policy.maximumBackoff = some duration ∧ duration.seconds.toInt = n

/-- **The subscription is decoded from a request that carries the integer** in the field. -/
inductive Sent (n : ℕ) (field : WireField) : Transport → SubscriptionSpec → Prop
  | rest {name : Text} {body : Value} {spec : SubscriptionSpec} :
      Rest.subscriptionSpecFromValue name body = .ok spec → RestCarries body n field →
      Sent n field .rest spec
  | grpc {value : Grpc.Subscription} {spec : SubscriptionSpec} :
      Grpc.subscriptionFromProto value = .ok spec → GrpcCarries value n field →
      Sent n field .grpc spec

/-- The decoder cuts off the higher bits of the integer. -/
def wraps : Transport → WireField → Bool
  | .rest, .ackDeadline | .rest, .maxAttempts => true
  | .grpc, .minBackoff | .grpc, .maxBackoff => true
  | _, _ => false

/-! ### What becomes of it -/

/-- The integer after the cast. A JSON number from `2 ^ 64` on is no `u64`, and the default of
the decoder stands in for it. -/
def cast (n : ℕ) : Transport → WireField → ℕ
  | .rest, .ackDeadline => (if n < 2 ^ 64 then n else 10) % 2 ^ 32
  | .rest, .maxAttempts => (if n < 2 ^ 64 then n else 5) % 2 ^ 32
  | .rest, .minBackoff | .rest, .maxBackoff => min n (2 ^ 32 - 1)
  | .grpc, .ackDeadline | .grpc, .maxAttempts => n
  | .grpc, .minBackoff | .grpc, .maxBackoff => n % 2 ^ 32

/-- The integer after the clamp of the store. -/
def clamped (n : ℕ) : WireField → ℕ
  | .ackDeadline => min (max n 10) 600
  | .maxAttempts => min (max n 5) 100
  | .minBackoff | .maxBackoff => n

theorem toNat_normalized (n : UInt32) :
    (normalizeAckDeadline (max n 10)).toNat = min (max n.toNat 10) 600 := by
  rw [normalizeAckDeadline_max, toNat_clamp (by decide)]
  rfl

theorem toNat_attempts (n : UInt32) : (clamp n 5 100).toNat = min (max n.toNat 5) 100 := by
  rw [toNat_clamp (by decide)]
  rfl

/-- `as_u64().unwrap_or(d) as u32` of an integer. -/
theorem toNat_asU64_jsonInteger (n : ℕ) (d : UInt64) :
    (((jsonInteger n).asU64).getD d).toUInt32.toNat =
      (if n < 2 ^ 64 then n else d.toNat) % 2 ^ 32 := by
  unfold jsonInteger
  split_ifs with hfits
  · rw [Value.asU64, Option.getD_some, UInt64.toNat_toUInt32, UInt64.toNat_ofNat_of_lt' hfits]
  · rw [Value.asU64, Option.getD_none, UInt64.toNat_toUInt32]
    simp

/-- A nonnegative integer as a `u32`. -/
theorem toNat_ofInt (n : ℕ) : (UInt32.ofInt n).toNat = n % 2 ^ 32 := by
  have hmod : ((n : ℤ) % 2 ^ 32).toNat = n % 2 ^ 32 := by omega
  rw [UInt32.ofInt, hmod, UInt32.toNat_ofNat']
  omega

/-! ### The decoders -/

section Decoders

variable {n m : ℕ} {field : WireField} {transport : Transport} {spec spec' : SubscriptionSpec}

/-- What the REST gateway decodes of the fields. -/
theorem fields_of_rest {name : Text} {body : Value}
    (h : Rest.subscriptionSpecFromValue name body = .ok spec) :
    spec.ackDeadlineSeconds =
        (((body.get "ackDeadlineSeconds").bind Value.asU64).getD 10).toUInt32 ∧
      spec.deadLetter = Rest.parseDeadLetter body ∧ spec.retry = Rest.parseRetry body := by
  unfold Rest.subscriptionSpecFromValue at h
  split at h
  · cases h
  · cases h
    exact ⟨rfl, rfl, rfl⟩

/-- What the gRPC gateway decodes of the fields. -/
theorem fields_of_grpc {value : Grpc.Subscription}
    (h : Grpc.subscriptionFromProto value = .ok spec) :
    spec.ackDeadlineSeconds =
        (if value.ackDeadlineSeconds ≤ 0 then 10
          else UInt32.ofInt value.ackDeadlineSeconds.toInt) ∧
      (spec.deadLetter = value.deadLetterPolicy.map fun v =>
        { topic := v.deadLetterTopic
          maxDeliveryAttempts := Grpc.u32OfInt32 5 v.maxDeliveryAttempts }) ∧
      spec.retry = value.retryPolicy.map fun v =>
        { minimumBackoffSeconds := Grpc.durationSeconds v.minimumBackoff
          maximumBackoffSeconds := Grpc.durationSeconds v.maximumBackoff } := by
  unfold Grpc.subscriptionFromProto at h
  split at h
  · cases h
  · split at h
    · cases h
    · cases h
      exact ⟨rfl, rfl, rfl⟩

/-- The seconds of a duration of a REST request, capped. -/
theorem toNat_parseDurationSeconds (n : ℕ) :
    ((Rest.parseDurationSeconds (some (jsonSeconds n))).getD 0).toNat = min n (2 ^ 32 - 1) := by
  rw [jsonSeconds, Rest.parseDurationSeconds_decimal, Option.getD_some, toU32_roundF64]

/-- The seconds of a duration of a gRPC request, cut off. -/
theorem toNat_durationSeconds {duration : Grpc.Duration} (h : duration.seconds.toInt = n) :
    (Grpc.durationSeconds (some duration)).toNat = n % 2 ^ 32 := by
  rw [Grpc.durationSeconds, h, max_eq_right (Int.natCast_nonneg n), toNat_ofInt]

theorem effective_of_rest {name : Text} {body : Value}
    (h : Rest.subscriptionSpecFromValue name body = .ok spec)
    (hcarries : RestCarries body n field) :
    field.effective spec = some (clamped (cast n .rest field) field) := by
  obtain ⟨hdeadline, hdead, hretry⟩ := fields_of_rest h
  cases field with
  | ackDeadline =>
    rw [WireField.effective, toNat_normalized, hdeadline, show body.get "ackDeadlineSeconds" = _
      from hcarries, Option.bind_some, toNat_asU64_jsonInteger]
    rfl
  | maxAttempts =>
    obtain ⟨policy, topic, hpolicy, htopic, hattempts⟩ := hcarries
    rw [WireField.effective, hdead, Rest.parseDeadLetter, hpolicy, Option.bind_some, htopic,
      Option.map_some, Option.map_some, toNat_attempts, hattempts, Option.bind_some,
      toNat_asU64_jsonInteger]
    rfl
  | minBackoff =>
    obtain ⟨policy, hpolicy, hseconds⟩ := hcarries
    rw [WireField.effective, hretry, Rest.parseRetry, hpolicy, Option.map_some, Option.map_some,
      hseconds, toNat_parseDurationSeconds]
    rfl
  | maxBackoff =>
    obtain ⟨policy, hpolicy, hseconds⟩ := hcarries
    rw [WireField.effective, hretry, Rest.parseRetry, hpolicy, Option.map_some, Option.map_some,
      hseconds, toNat_parseDurationSeconds]
    rfl

theorem effective_of_grpc {value : Grpc.Subscription}
    (h : Grpc.subscriptionFromProto value = .ok spec) (hcarries : GrpcCarries value n field) :
    field.effective spec = some (clamped (cast n .grpc field) field) := by
  obtain ⟨hdeadline, hdead, hretry⟩ := fields_of_grpc h
  cases field with
  | ackDeadline =>
    have hn : value.ackDeadlineSeconds.toInt = n := hcarries
    have hlt := value.ackDeadlineSeconds.toInt_lt
    rw [WireField.effective, toNat_normalized, hdeadline, Option.some.injEq]
    split_ifs with hzero
    · -- zero stands for no deadline, and both are raised to the least one
      rw [Int32.le_iff_toInt_le, hn, Int32.toInt_zero] at hzero
      obtain rfl : n = 0 := by omega
      rfl
    · rw [hn, toNat_ofInt, Nat.mod_eq_of_lt (by omega)]
      rfl
  | maxAttempts =>
    obtain ⟨policy, hpolicy, hn⟩ := hcarries
    have hlt := policy.maxDeliveryAttempts.toInt_lt
    have hmax : max (5 : Int32).toInt policy.maxDeliveryAttempts.toInt = (max 5 n : ℕ) := by
      rw [hn]
      exact (Nat.cast_max 5 n).symm
    rw [WireField.effective, hdead, hpolicy, Option.map_some, Option.map_some, toNat_attempts,
      Grpc.u32OfInt32, hmax, toNat_ofInt, Nat.mod_eq_of_lt (by omega), Option.some.injEq]
    show _ = min (max n 5) 100
    omega
  | minBackoff =>
    obtain ⟨policy, duration, hpolicy, hduration, hn⟩ := hcarries
    rw [WireField.effective, hretry, hpolicy, Option.map_some, Option.map_some, hduration,
      toNat_durationSeconds hn]
    rfl
  | maxBackoff =>
    obtain ⟨policy, duration, hpolicy, hduration, hn⟩ := hcarries
    rw [WireField.effective, hretry, hpolicy, Option.map_some, Option.map_some, hduration,
      toNat_durationSeconds hn]
    rfl

/-- **What is in effect of an integer sent**: its cast, clamped. -/
theorem Sent.effective_eq (h : Sent n field transport spec) :
    field.effective spec = some (clamped (cast n transport field) field) := by
  cases h with
  | rest hspec hcarries => exact effective_of_rest hspec hcarries
  | grpc hspec hcarries => exact effective_of_grpc hspec hcarries

/-! ### Requests for every integer -/

/-- A body that carries the integer in every field. -/
def sampleBody (n : ℕ) : Value :=
  .object
    [("topic", .string "projects/p/topics/t"),
     ("ackDeadlineSeconds", jsonInteger n),
     ("deadLetterPolicy",
        .object
          [("deadLetterTopic", .string "projects/p/topics/d"),
           ("maxDeliveryAttempts", jsonInteger n)]),
     ("retryPolicy",
        .object [("minimumBackoff", jsonSeconds n), ("maximumBackoff", jsonSeconds n)])]

/-- A message that carries the integer in every field that it fits. -/
def sampleMessage (n : ℕ) : Grpc.Subscription where
  name := "projects/p/subscriptions/s"
  topic := "projects/p/topics/t"
  ackDeadlineSeconds := .ofNat n
  deadLetterPolicy := some ⟨"projects/p/topics/d", .ofNat n⟩
  retryPolicy := some ⟨some ⟨.ofNat n, 0⟩, some ⟨.ofNat n, 0⟩⟩

theorem restCarries_sampleBody (n : ℕ) (field : WireField) :
    RestCarries (sampleBody n) n field := by
  cases field with
  | ackDeadline => rfl
  | maxAttempts => exact ⟨_, _, rfl, rfl, rfl⟩
  | minBackoff => exact ⟨_, rfl, rfl⟩
  | maxBackoff => exact ⟨_, rfl, rfl⟩

/-- The bits a field of a message has for an integer that is not negative. -/
def grpcBits : WireField → ℕ
  | .ackDeadline | .maxAttempts => 31
  | .minBackoff | .maxBackoff => 63

theorem lt_of_grpcCarries {value : Grpc.Subscription} (h : GrpcCarries value n field) :
    n < 2 ^ grpcBits field := by
  cases field with
  | ackDeadline =>
    have hn : value.ackDeadlineSeconds.toInt = n := h
    have hlt := value.ackDeadlineSeconds.toInt_lt
    show n < 2 ^ 31
    omega
  | maxAttempts =>
    obtain ⟨policy, -, hn⟩ := h
    have hlt := policy.maxDeliveryAttempts.toInt_lt
    show n < 2 ^ 31
    omega
  | minBackoff =>
    obtain ⟨-, duration, -, -, hn⟩ := h
    have hlt := duration.seconds.toInt_lt
    show n < 2 ^ 63
    omega
  | maxBackoff =>
    obtain ⟨-, duration, -, -, hn⟩ := h
    have hlt := duration.seconds.toInt_lt
    show n < 2 ^ 63
    omega

theorem grpcCarries_sampleMessage (h : n < 2 ^ grpcBits field) :
    GrpcCarries (sampleMessage n) n field := by
  cases field with
  | ackDeadline => exact Int32.toInt_ofNat_of_lt h
  | maxAttempts => exact ⟨_, rfl, Int32.toInt_ofNat_of_lt h⟩
  | minBackoff => exact ⟨_, _, rfl, rfl, Int64.toInt_ofNat_of_lt h⟩
  | maxBackoff => exact ⟨_, _, rfl, rfl, Int64.toInt_ofNat_of_lt h⟩

theorem exists_sent_rest (n : ℕ) (field : WireField) : ∃ spec, Sent n field .rest spec := by
  have hspec : Rest.subscriptionSpecFromValue "projects/p/subscriptions/s" (sampleBody n) =
    .ok _ := rfl
  exact ⟨_, .rest hspec (restCarries_sampleBody n field)⟩

theorem exists_sent_grpc (field : WireField) (h : n < 2 ^ grpcBits field) :
    ∃ spec, Sent n field .grpc spec :=
  ⟨_, .grpc rfl (grpcCarries_sampleMessage h)⟩

/-- An integer of a message fits its field. -/
theorem Sent.lt (h : Sent n field transport spec) (hgrpc : transport = .grpc) : n < 2 ^ 64 := by
  cases h with
  | rest => cases hgrpc
  | grpc _ hcarries =>
    have hbits : grpcBits field ≤ 64 := by cases field <;> decide
    exact (lt_of_grpcCarries hcarries).trans_le (Nat.pow_le_pow_right (by decide) hbits)

/-- A smaller integer can be sent in the same way. -/
theorem Sent.exists_of_le (h : Sent n field transport spec) (hle : m ≤ n) :
    ∃ spec', Sent m field transport spec' := by
  cases h with
  | rest => exact exists_sent_rest m field
  | grpc _ hcarries => exact exists_sent_grpc field (hle.trans_lt (lt_of_grpcCarries hcarries))

end Decoders

/-! ### Greater integers -/

/-- What is in effect in the first subscription is at most what is in the second. -/
def AtMost (field : WireField) (spec spec' : SubscriptionSpec) : Prop :=
  ∃ a b, field.effective spec = some a ∧ field.effective spec' = some b ∧ a ≤ b

/-- The greatest effect an integer can have. -/
def cap : WireField → ℕ
  | .ackDeadline => 600
  | .maxAttempts => 100
  | .minBackoff | .maxBackoff => 2 ^ 32 - 1

/-- **The integer loses nothing that counts**: it is below `2 ^ 32` where the decoder would
cut off higher bits, or its lower bits are enough for the greatest effect. -/
def Harmless (n : ℕ) (field : WireField) (transport : Transport) : Prop :=
  wraps transport field = true → n < 2 ^ 32 ∨ n < 2 ^ 64 ∧ cap field ≤ n % 2 ^ 32

section Monotone

variable {n m : ℕ} {field : WireField} {transport : Transport} {spec spec' : SubscriptionSpec}

theorem Sent.atMost_iff (h : Sent m field transport spec) (h' : Sent n field transport spec') :
    AtMost field spec spec' ↔
      clamped (cast m transport field) field ≤ clamped (cast n transport field) field := by
  unfold AtMost
  rw [h.effective_eq, h'.effective_eq]
  simp only [Option.some.injEq]
  constructor
  · rintro ⟨a, b, rfl, rfl, hle⟩
    exact hle
  · exact fun hle => ⟨_, _, rfl, rfl, hle⟩

/-! What the casts and the clamps do to an integer, apart from each other. -/

theorem cast_of_lt (h : n < 2 ^ 32) (transport : Transport) (field : WireField) :
    cast n transport field = n := by
  cases transport <;> cases field <;> simp only [cast] <;> grind

theorem cast_mono (hwraps : wraps transport field = false) (h : m ≤ n) :
    cast m transport field ≤ cast n transport field := by
  cases transport <;> cases field <;> simp only [cast, wraps, reduceCtorEq] at * <;> omega

theorem clamped_mono (h : m ≤ n) (field : WireField) : clamped m field ≤ clamped n field := by
  cases field <;> simp only [clamped] <;> omega

theorem clamped_cap (field : WireField) : clamped (cap field) field = cap field := by
  cases field <;> rfl

theorem cap_lt (field : WireField) : cap field < 2 ^ 32 := by
  cases field <;> decide

/-- No integer has more effect than the cap. -/
theorem clamped_cast_le_cap (n : ℕ) (transport : Transport) (field : WireField) :
    clamped (cast n transport field) field ≤ cap field := by
  cases transport <;> cases field <;> simp only [cast, clamped, cap] <;> omega

/-- Where higher bits are cut off, the lower ones decide about the greatest effect. -/
theorem clamped_cast_eq_cap_iff (hwraps : wraps transport field = true)
    (hn : transport = .grpc → n < 2 ^ 64) :
    clamped (cast n transport field) field = cap field ↔ n < 2 ^ 64 ∧ cap field ≤ n % 2 ^ 32 := by
  cases transport <;> cases field <;>
    simp only [cast, clamped, cap, wraps, reduceCtorEq, forall_const] at * <;> grind

/-- **No smaller integer has more effect**, unless bits that count are cut off. -/
theorem clamped_cast_le_iff (hn : transport = .grpc → n < 2 ^ 64) :
    (∀ m ≤ n, clamped (cast m transport field) field ≤ clamped (cast n transport field) field) ↔
      Harmless n field transport := by
  constructor
  · intro hall hwraps
    by_cases hlt : n < 2 ^ 32
    · exact .inl hlt
    · -- the cap itself is a smaller integer, and has the greatest effect
      have hcap := hall (cap field) (by have := cap_lt field; omega)
      rw [cast_of_lt (cap_lt field), clamped_cap] at hcap
      have heq := le_antisymm (clamped_cast_le_cap n transport field) hcap
      exact .inr ((clamped_cast_eq_cap_iff hwraps hn).mp heq)
  · intro hharmless m hm
    cases hwraps : wraps transport field with
    | false => exact clamped_mono (cast_mono hwraps hm) field
    | true =>
      rcases hharmless hwraps with hlt | hcap
      · rw [cast_of_lt hlt, cast_of_lt (hm.trans_lt hlt)]
        exact clamped_mono hm field
      · rw [(clamped_cast_eq_cap_iff hwraps hn).mpr hcap]
        exact clamped_cast_le_cap m transport field

/-- **The two front ends agree** about an integer that both can carry, unless bits that count
are cut off. -/
theorem clamped_cast_rest_eq_iff (hn : n < 2 ^ grpcBits field) :
    clamped (cast n .rest field) field = clamped (cast n .grpc field) field ↔
      Harmless n field .grpc := by
  cases field <;>
    simp only [Harmless, wraps, cap, cast, clamped, grpcBits, reduceCtorEq] at * <;> grind

/-- The minimum of a retry policy is what is in effect of it. -/
theorem retryBounds_fst {a : ℕ} (h : WireField.minBackoff.effective spec = some a) :
    (retryBounds spec).1.toNat = a := by
  obtain ⟨policy, hpolicy, rfl⟩ := Option.map_eq_some_iff.mp h
  rw [retryBounds, hpolicy]

/-- So is the maximum. -/
theorem retryBounds_snd {a : ℕ} (h : WireField.maxBackoff.effective spec = some a) :
    (retryBounds spec).2.toNat = a := by
  obtain ⟨policy, hpolicy, rfl⟩ := Option.map_eq_some_iff.mp h
  rw [retryBounds, hpolicy]

/-- **A retry policy with greater bounds waits at least as long.** -/
theorem backoffSeconds_mono (hmin : AtMost .minBackoff spec spec')
    (hmax : AtMost .maxBackoff spec spec') (attempt : UInt32) :
    (backoffSeconds spec attempt).toNat ≤ (backoffSeconds spec' attempt).toNat := by
  obtain ⟨lo, lo', hlo, hlo', hle⟩ := hmin
  obtain ⟨hi, hi', hhi, hhi', hle'⟩ := hmax
  rw [backoffSeconds_toNat, backoffSeconds_toNat, retryBounds_fst hlo, retryBounds_fst hlo',
    retryBounds_snd hhi, retryBounds_snd hhi']
  gcongr

end Monotone

/-! ### In the store -/

section Store

variable {n : ℕ} {field : WireField} {transport : Transport} {spec : SubscriptionSpec}

/-- The store normalizes a subscription without a change of what is in effect. -/
theorem effective_normalized (field : WireField) (spec : SubscriptionSpec) :
    field.effective (normalized spec) = field.effective spec := by
  cases field with
  | ackDeadline =>
    have hkept : normalized (normalized spec) = normalized spec :=
      normalized_of_bounds (normalizeAckDeadline_bounds _)
    exact congrArg (fun spec => some spec.ackDeadlineSeconds.toNat) hkept
  | maxAttempts => rfl
  | minBackoff => rfl
  | maxBackoff => rfl

/-- **What is in effect in the store** once a subscription has been created from a request. -/
theorem Sent.effective_created {serde : SerdeJson} {st : State} {s : Step}
    (h : Sent n field transport spec) (hcall : s.call = .createSubscription spec)
    (hnew : spec.name ∉ st.subscriptions) (hmem : spec.name ∈ (exec serde st s).subscriptions) :
    ∃ sub, (exec serde st s).subscriptions[spec.name]? = some sub ∧
      field.effective sub.spec = some (clamped (cast n transport field) field) := by
  obtain ⟨topic, -, -, hsub⟩ := created_of_exec hcall hnew hmem
  exact ⟨_, hsub, (effective_normalized field spec).trans h.effective_eq⟩

end Store

/-! ### The whole range -/

/-- **A greater integer has no less effect exactly where no bits that count are cut off**, and
the two front ends agree there. Greater backoffs make no delay shorter. -/
theorem wire_numbers_iff (n : ℕ) (field : WireField) :
    (∀ {transport spec}, Sent n field transport spec →
      ((∀ m ≤ n, ∀ spec', Sent m field transport spec' → AtMost field spec' spec) ↔
        Harmless n field transport)) ∧
    (∀ {spec spec'}, Sent n field .rest spec → Sent n field .grpc spec' →
      (field.effective spec = field.effective spec' ↔ Harmless n field .grpc)) ∧
    ∀ {spec spec'}, AtMost .minBackoff spec spec' → AtMost .maxBackoff spec spec' →
      ∀ attempt, (backoffSeconds spec attempt).toNat ≤ (backoffSeconds spec' attempt).toNat := by
  refine ⟨?_, ?_, fun hmin hmax => backoffSeconds_mono hmin hmax⟩
  · intro transport spec h
    have hn : transport = .grpc → n < 2 ^ 64 := h.lt
    rw [← clamped_cast_le_iff hn]
    constructor
    · intro hall m hm
      obtain ⟨spec', h'⟩ := h.exists_of_le hm
      exact (h'.atMost_iff h).mp (hall m hm spec' h')
    · exact fun hall m hm spec' h' => (h'.atMost_iff h).mpr (hall m hm)
  · intro spec spec' h h'
    cases h' with
    | grpc hspec hcarries =>
      rw [h.effective_eq, effective_of_grpc hspec hcarries, Option.some.injEq]
      exact clamped_cast_rest_eq_iff (lt_of_grpcCarries hcarries)

/-- A deadline of `2 ^ 32` seconds is shorter than one of `600`, and a backoff of `2 ^ 32`
seconds than one of `1`. -/
theorem greater_number_has_less_effect :
    (∃ spec spec', Sent 600 .ackDeadline .rest spec ∧ Sent (2 ^ 32) .ackDeadline .rest spec' ∧
      ¬AtMost .ackDeadline spec spec') ∧
    ∃ spec spec', Sent 1 .minBackoff .grpc spec ∧ Sent (2 ^ 32) .minBackoff .grpc spec' ∧
      ¬AtMost .minBackoff spec spec' := by
  constructor
  · obtain ⟨spec, h⟩ := exists_sent_rest 600 .ackDeadline
    obtain ⟨spec', h'⟩ := exists_sent_rest (2 ^ 32) .ackDeadline
    exact ⟨spec, spec', h, h', fun hle => absurd ((h.atMost_iff h').mp hle) (by decide)⟩
  · have hone : 1 < 2 ^ grpcBits .minBackoff := by decide
    have hgreat : 2 ^ 32 < 2 ^ grpcBits .minBackoff := by decide
    obtain ⟨spec, h⟩ := exists_sent_grpc .minBackoff hone
    obtain ⟨spec', h'⟩ := exists_sent_grpc .minBackoff hgreat
    exact ⟨spec, spec', h, h', fun hle => absurd ((h.atMost_iff h').mp hle) (by decide)⟩

end RelayPubsub.Wire
