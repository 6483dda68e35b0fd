import RelayPubsub.Lib.Text

/-!
# The data model of the gateway

The types of `src/model.rs` and the errors of `src/backend.rs`, with the values
the rest of the gateway computes on:

* a `HashMap<String, _>` is a finite map `RelayPubsub.StrMap`, equal to another
  exactly when it maps the same keys to the same values; where the source
  iterates over a map, the order is an input of the model
  (`RelayPubsub.Memory.Env.iter`), as it is unspecified in Rust;
* a `DateTime<Utc>` is the number of nanoseconds since the epoch;
* `u32` is `UInt32`, so that its arithmetic wraps as it does in a release build.
-/

namespace RelayPubsub

open Lib

/-- A `HashMap` with string keys. -/
abbrev StrMap (β : Type) : Type := Std.ExtTreeMap Text β compare

section Maps

variable {κ β : Type} {cmp : κ → κ → Ordering} [Std.TransCmp cmp] [Std.LawfulEqCmp cmp]
  {m : Std.ExtTreeMap κ β cmp} {k k' : κ}

/-- Putting a value under another key. -/
theorem getElem?_insert_of_ne {v : β} (h : k ≠ k') : (m.insert k v)[k']? = m[k']? := by
  simp [Std.ExtTreeMap.getElem?_insert, h]

/-- Removing another key. -/
theorem getElem?_erase_of_ne (h : k ≠ k') : (m.erase k)[k']? = m[k']? := by
  simp [Std.ExtTreeMap.getElem?_erase, h]

/-- Putting a value where there is one changes nothing exactly when it is that value. -/
theorem insert_eq_self_iff {v v' : β} (h : m[k]? = some v) : m.insert k v' = m ↔ v' = v := by
  constructor
  · intro heq
    have hk := Std.ExtTreeMap.getElem?_insert_self (t := m) (k := k) (v := v')
    rw [heq, h] at hk
    exact (Option.some.inj hk).symm
  · rintro rfl
    refine Std.ExtTreeMap.ext_getElem? fun k' => ?_
    rcases eq_or_ne k k' with rfl | hne
    · rw [Std.ExtTreeMap.getElem?_insert_self, h]
    · exact getElem?_insert_of_ne hne

end Maps

/-- **A map is read back from its entries.** -/
theorem ofList_toList {β : Type} (m : StrMap β) : Std.ExtTreeMap.ofList m.toList = m := by
  refine Std.ExtTreeMap.ext_getElem? fun k => ?_
  rcases h : m[k]? with - | v
  · refine Std.ExtTreeMap.getElem?_ofList_of_contains_eq_false ?_
    rw [Std.ExtTreeMap.map_fst_toList_eq_keys]
    simpa using h
  · exact Std.ExtTreeMap.getElem?_ofList_of_mem Std.ReflCmp.compare_self
      Std.ExtTreeMap.distinct_keys_toList (Std.ExtTreeMap.mem_toList_iff_getElem?_eq_some.mpr h)


/-- A byte string. -/
abbrev Bytes : Type := List UInt8

/-- A `DateTime<Utc>`, in nanoseconds since the epoch. -/
abbrev Time : Type := ℤ

/-- `ChronoDuration::seconds`. -/
def seconds (n : UInt32) : ℤ := n.toNat * 1000000000

/-- `u32::clamp`. -/
def clamp (n lo hi : UInt32) : UInt32 := if n < lo then lo else if hi < n then hi else n

section Words

variable {n lo hi : UInt32}

theorem toNat_min (a b : UInt32) : (min a b).toNat = min a.toNat b.toNat := by
  show (if a ≤ b then a else b).toNat = _
  split_ifs with hle
  · rw [UInt32.le_iff_toNat_le] at hle
    omega
  · rw [UInt32.le_iff_toNat_le] at hle
    omega

theorem toNat_max (a b : UInt32) : (max a b).toNat = max a.toNat b.toNat := by
  show (if a ≤ b then b else a).toNat = _
  split_ifs with hle
  · rw [UInt32.le_iff_toNat_le] at hle
    omega
  · rw [UInt32.le_iff_toNat_le] at hle
    omega

/-- A clamp is the least of its upper bound and what is raised to the lower one. -/
theorem toNat_clamp (h : lo.toNat ≤ hi.toNat) :
    (clamp n lo hi).toNat = min (max n.toNat lo.toNat) hi.toNat := by
  unfold clamp
  split_ifs with hlo hhi
  · rw [UInt32.lt_iff_toNat_lt] at hlo
    omega
  · rw [UInt32.lt_iff_toNat_lt] at hlo hhi
    omega
  · rw [UInt32.lt_iff_toNat_lt] at hlo hhi
    omega

end Words

/-! ### Resources -/

structure TopicSpec where
  name : Text
  labels : StrMap Text := ∅
  kmsKeyName : Text := []
  /-- Bound schema resource name (`projects/.../schemas/...`). -/
  schemaName : Text := []
  /-- `JSON` or `BINARY`. Empty means JSON when a schema is bound. -/
  schemaEncoding : Text := []

structure DeadLetterSpec where
  topic : Text
  maxDeliveryAttempts : UInt32

structure RetrySpec where
  minimumBackoffSeconds : UInt32
  maximumBackoffSeconds : UInt32

structure SubscriptionSpec where
  name : Text
  topic : Text
  ackDeadlineSeconds : UInt32
  labels : StrMap Text := ∅
  enableMessageOrdering : Bool := false
  enableExactlyOnceDelivery : Bool := false
  deadLetter : Option DeadLetterSpec := none
  retry : Option RetrySpec := none
  pushEndpoint : Option Text := none
  pushAttributes : StrMap Text := ∅
  /-- Google-compatible attribute filter. Immutable after create. -/
  filter : Text := []

structure SnapshotSpec where
  name : Text
  topic : Text
  expireTime : Time
  labels : StrMap Text
  /-- Topic message index captured at snapshot creation (seek restores to this). -/
  topicIndex : ℕ

structure SchemaSpec where
  name : Text
  /-- "PROTOCOL_BUFFER" | "AVRO" | "UNSPECIFIED" -/
  schemaType : Text
  definition : Text

structure IamBinding where
  role : Text
  members : List Text

structure IamPolicy where
  version : Int32
  bindings : List IamBinding
  etag : Text

/-! ### Messages -/

structure RelayMessage where
  id : Text
  data : Bytes
  attributes : StrMap Text
  orderingKey : Text
  publishedAt : Time

structure NewMessage where
  data : Bytes
  attributes : StrMap Text := ∅
  orderingKey : Text := []
  /-- Publisher-supplied id used for topic-level dedup. Empty = assign UUID. -/
  messageId : Text := []

structure Delivery where
  ackId : Text
  message : RelayMessage
  deliveryAttempt : UInt32

/-! ### Errors -/

inductive BackendError where
  | notFound (what : Text)
  | alreadyExists (what : Text)
  | invalidArgument (what : Text)
  | failedPrecondition (what : Text)
  | unavailable (what : Text)
  | internal (what : Text)
  | permissionDenied (what : Text)
  deriving DecidableEq

end RelayPubsub
