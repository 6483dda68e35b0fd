import RelayPubsub.JsonText
import RelayPubsub.Lib.Format
import RelayPubsub.Lib.Numeral

/-!
# The documents of the data model

How `serde` writes the types of `src/model.rs` as JSON documents and reads them, by the
`Serialize` and `Deserialize` instances it derives, as formats (`Lib.Format`): a structure
is an object with a field for each of its own, a `Vec` an array, a `HashMap` an object, a
number a number of its range. Reading demands every field that is not `#[serde(default)]`
and no field twice, and skips the fields it does not know; the entries of an object are
taken in the order of the document, so a document is more than a map.

The text of a point in time is the work of the `chrono` crate
(`RelayPubsub.Dates`).
-/

namespace RelayPubsub

open Lib

/-- **Points in time as text**, as `chrono` writes and reads a `DateTime<Utc>`. -/
structure Dates where
  render : Time → Text
  parse : Text → Option Time
  /-- The points in time the type has. -/
  Valid : Time → Prop
  parse_render : ∀ {t}, Valid t → parse (render t) = some t

namespace Serde

/-! ### Values -/

def text : Format Value Text := .ofInverse .string Value.asStr

def boolean : Format Value Bool := .ofInverse .bool Value.asBool

/-- An unsigned integer below a bound. -/
def unsigned (bound : ℕ) (h : bound ≤ 2 ^ 64) : Format Value ℕ where
  Fits n := n < bound
  encode n := .number (.posInt (UInt64.ofNat n))
  Represents n v := v = .number (.posInt (UInt64.ofNat n)) ∧ n < bound
  decode v := (v.asU64.map UInt64.toNat).filter fun n => decide (n < bound)
  represents_encode hn := ⟨rfl, hn⟩
  decode_eq := by
    rintro n v ⟨rfl, hn⟩
    have htoNat : (UInt64.ofNat n).toNat = n := UInt64.toNat_ofNat_of_lt' (hn.trans_le h)
    unfold Value.asU64
    rw [Option.map_some, htoNat, Option.filter_some, if_pos (decide_eq_true hn)]

def usize : Format Value ℕ := unsigned (2 ^ 64) le_rfl

def u32 : Format Value UInt32 :=
  (unsigned (2 ^ 32) (by decide)).map UInt32.ofNat UInt32.toNat fun _ => UInt32.ofNat_toNat

def u8 : Format Value UInt8 :=
  (unsigned (2 ^ 8) (by decide)).map UInt8.ofNat UInt8.toNat fun _ => UInt8.ofNat_toNat

/-- A signed integer is written as a nonnegative or as a negative number. -/
def signed (n : ℤ) : Value :=
  .number (if 0 ≤ n then .posInt (UInt64.ofNat n.toNat) else .negInt (Int64.ofInt n))

theorem asI64_signed {n : ℤ} (hlow : -2 ^ 63 ≤ n) (hhigh : n < 2 ^ 63) :
    (signed n).asI64 = some (Int64.ofInt n) := by
  unfold signed
  split
  · rename_i hn
    have hlt : n.toNat < 2 ^ 64 := by omega
    have htoNat : (UInt64.ofNat n.toNat).toNat = n.toNat := UInt64.toNat_ofNat_of_lt' hlt
    unfold Value.asI64
    dsimp only
    rw [htoNat, if_pos (by omega), ← Int64.ofInt_eq_ofNat, Int.toNat_of_nonneg hn]
  · rfl

def i32 : Format Value Int32 :=
  .ofInverse (fun n => signed n.toInt) fun v =>
    v.asI64.bind fun n =>
      if -2 ^ 31 ≤ n.toInt ∧ n.toInt < 2 ^ 31 then some (Int32.ofInt n.toInt) else none

def date (dates : Dates) : Format Value Time where
  Fits := dates.Valid
  encode t := .string (dates.render t)
  Represents t v := ∃ s, v = .string s ∧ dates.parse s = some t
  decode v := v.asStr.bind dates.parse
  represents_encode ht := ⟨_, rfl, dates.parse_render ht⟩
  decode_eq := by
    rintro t v ⟨s, rfl, hs⟩
    exact hs

/-- An `Option`, of which `None` is written `null`. -/
def option {α : Type} (F : Format Value α) (h : F.decode .null = none) :
    Format Value (Option α) where
  Fits o := ∀ a, o = some a → F.Fits a
  encode o := o.elim .null F.encode
  Represents o v := o.elim (v = .null) (F.Represents · v)
  decode v :=
    match v with
    | .null => some none
    | v => (F.decode v).map some
  represents_encode {o} ho := by
    cases o with
    | none => rfl
    | some a => exact F.represents_encode (ho a rfl)
  decode_eq := by
    rintro (- | a) v hv
    · obtain rfl : v = .null := hv
      rfl
    · have ha := F.decode_eq hv
      split
      · rw [h] at ha
        cases ha
      · rw [ha]
        rfl

/-- A `Vec` or a `VecDeque`. -/
def array {α : Type} (F : Format Value α) : Format Value (List α) :=
  F.list.through .array Value.asArray fun _ => rfl

/-- A `HashSet` of indices. -/
def indices : Format Value (Finset ℕ) :=
  (Format.set usize).through .array Value.asArray fun _ => rfl

/-- A `HashMap` with string keys. -/
def strMap {β : Type} (F : Format Value β) : Format Value (StrMap β) :=
  (Format.entries compare (.ofInverse id some) F).through .object Value.asObject fun _ => rfl

/-- A number as a key: its digits, without a leading zero. -/
def decimalKey : Format Text ℕ where
  Fits n := n < 2 ^ 64
  encode := decimal
  Represents n k := k = decimal n ∧ n < 2 ^ 64
  decode k := (parseUsize k).filter fun n => decide (decimal n = k)
  represents_encode hn := ⟨rfl, hn⟩
  decode_eq := by
    rintro n k ⟨rfl, hn⟩
    rw [parseUsize_decimal hn, Option.filter_some, if_pos (decide_eq_true rfl)]

/-- A `HashMap` with indices as keys. -/
def indexMap {β : Type} (F : Format Value β) :
    Format Value (Std.ExtTreeMap ℕ β compare) :=
  (Format.entries compare decimalKey F).through .object Value.asObject fun _ => rfl

/-- A structure: an object with its fields. -/
def object {keys : List Text} {α : Type} (R : Record Value keys α) : Format Value α :=
  R.toFormat.through .object Value.asObject fun _ => rfl

/-! ### The types -/

def topicSpec : Format Value TopicSpec :=
  (object <|
    (Record.field "name".toList text).prod <|
    (Record.fieldOr "labels".toList ∅ (strMap text)).prod <|
    (Record.fieldOr "kms_key_name".toList [] text).prod <|
    (Record.fieldOr "schema_name".toList [] text).prod <|
    Record.fieldOr "schema_encoding".toList [] text).map
    (fun (name, labels, kmsKeyName, schemaName, schemaEncoding) =>
      { name, labels, kmsKeyName, schemaName, schemaEncoding })
    (fun t => (t.name, t.labels, t.kmsKeyName, t.schemaName, t.schemaEncoding))
    fun _ => rfl

def deadLetterSpec : Format Value DeadLetterSpec :=
  (object <|
    (Record.field "topic".toList text).prod <|
    Record.field "max_delivery_attempts".toList u32).map
    (fun (topic, maxDeliveryAttempts) => { topic, maxDeliveryAttempts })
    (fun d => (d.topic, d.maxDeliveryAttempts))
    fun _ => rfl

def retrySpec : Format Value RetrySpec :=
  (object <|
    (Record.field "minimum_backoff_seconds".toList u32).prod <|
    Record.field "maximum_backoff_seconds".toList u32).map
    (fun p => { minimumBackoffSeconds := p.1, maximumBackoffSeconds := p.2 })
    (fun r => (r.minimumBackoffSeconds, r.maximumBackoffSeconds))
    fun _ => rfl

def subscriptionSpec : Format Value SubscriptionSpec :=
  (object <|
    (Record.field "name".toList text).prod <|
    (Record.field "topic".toList text).prod <|
    (Record.field "ack_deadline_seconds".toList u32).prod <|
    (Record.fieldOr "labels".toList ∅ (strMap text)).prod <|
    (Record.fieldOr "enable_message_ordering".toList false boolean).prod <|
    (Record.fieldOr "enable_exactly_once_delivery".toList false boolean).prod <|
    (Record.fieldOr "dead_letter".toList none (option deadLetterSpec rfl)).prod <|
    (Record.fieldOr "retry".toList none (option retrySpec rfl)).prod <|
    (Record.fieldOr "push_endpoint".toList none (option text rfl)).prod <|
    (Record.fieldOr "push_attributes".toList ∅ (strMap text)).prod <|
    Record.fieldOr "filter".toList [] text).map
    (fun (name, topic, ackDeadlineSeconds, labels, enableMessageOrdering,
        enableExactlyOnceDelivery, deadLetter, retry, pushEndpoint, pushAttributes, filter) =>
      { name, topic, ackDeadlineSeconds, labels, enableMessageOrdering,
        enableExactlyOnceDelivery, deadLetter, retry, pushEndpoint, pushAttributes, filter })
    (fun s => (s.name, s.topic, s.ackDeadlineSeconds, s.labels, s.enableMessageOrdering,
      s.enableExactlyOnceDelivery, s.deadLetter, s.retry, s.pushEndpoint, s.pushAttributes,
      s.filter))
    fun _ => rfl

def relayMessage (dates : Dates) : Format Value RelayMessage :=
  (object <|
    (Record.field "id".toList text).prod <|
    (Record.field "data".toList (array u8)).prod <|
    (Record.fieldOr "attributes".toList ∅ (strMap text)).prod <|
    (Record.fieldOr "ordering_key".toList [] text).prod <|
    Record.field "published_at".toList (date dates)).map
    (fun (id, data, attributes, orderingKey, publishedAt) =>
      { id, data, attributes, orderingKey, publishedAt })
    (fun m => (m.id, m.data, m.attributes, m.orderingKey, m.publishedAt))
    fun _ => rfl

def snapshotSpec (dates : Dates) : Format Value SnapshotSpec :=
  (object <|
    (Record.field "name".toList text).prod <|
    (Record.field "topic".toList text).prod <|
    (Record.field "expire_time".toList (date dates)).prod <|
    (Record.fieldOr "labels".toList ∅ (strMap text)).prod <|
    Record.field "topic_index".toList usize).map
    (fun (name, topic, expireTime, labels, topicIndex) =>
      { name, topic, expireTime, labels, topicIndex })
    (fun s => (s.name, s.topic, s.expireTime, s.labels, s.topicIndex))
    fun _ => rfl

def schemaSpec : Format Value SchemaSpec :=
  (object <|
    (Record.field "name".toList text).prod <|
    (Record.field "schema_type".toList text).prod <|
    Record.field "definition".toList text).map
    (fun (name, schemaType, definition) => { name, schemaType, definition })
    (fun s => (s.name, s.schemaType, s.definition))
    fun _ => rfl

def iamBinding : Format Value IamBinding :=
  (object <|
    (Record.field "role".toList text).prod <|
    Record.field "members".toList (array text)).map
    (fun (role, members) => { role, members })
    (fun b => (b.role, b.members))
    fun _ => rfl

def iamPolicy : Format Value IamPolicy :=
  (object <|
    (Record.field "version".toList i32).prod <|
    (Record.field "bindings".toList (array iamBinding)).prod <|
    Record.field "etag".toList text).map
    (fun (version, bindings, etag) => { version, bindings, etag })
    (fun p => (p.version, p.bindings, p.etag))
    fun _ => rfl

/-! ### What can be written

Only indices and points in time have a range that is not in their type. -/

section Fits

variable {α : Type} {F : Format Value α}

theorem fits_array {l : List α} (h : ∀ a, F.Fits a) : (array F).Fits l := fun a _ => h a

theorem fits_option (hnull : F.decode .null = none) {o : Option α} (h : ∀ a, F.Fits a) :
    (option F hnull).Fits o := fun a _ => h a

/-- The entries of a map with string keys. -/
theorem fits_strMap_iff {m : StrMap α} : (strMap F).Fits m ↔ ∀ e ∈ m.toList, F.Fits e.2 :=
  forall₂_congr fun _ _ => and_iff_right rfl

theorem fits_strMap {m : StrMap α} (h : ∀ a, F.Fits a) : (strMap F).Fits m :=
  fits_strMap_iff.mpr fun _ _ => h _

theorem fits_text (s : Text) : text.Fits s := rfl

theorem fits_u32 (n : UInt32) : u32.Fits n := n.toNat_lt

theorem fits_i32 (n : Int32) : i32.Fits n := by
  have hlow := n.le_toInt
  have hhigh := n.toInt_lt
  show ((signed n.toInt).asI64.bind _) = some n
  rw [asI64_signed (by omega) (by omega), Option.bind_some,
    Int64.toInt_ofInt_of_le (by omega) (by omega), if_pos ⟨hlow, hhigh⟩, Int32.ofInt_toInt]

theorem fits_topicSpec (t : TopicSpec) : topicSpec.Fits t :=
  ⟨rfl, fits_strMap fits_text, rfl, rfl, rfl⟩

theorem fits_deadLetterSpec (d : DeadLetterSpec) : deadLetterSpec.Fits d := ⟨rfl, fits_u32 _⟩

theorem fits_retrySpec (r : RetrySpec) : retrySpec.Fits r := ⟨fits_u32 _, fits_u32 _⟩

theorem fits_subscriptionSpec (s : SubscriptionSpec) : subscriptionSpec.Fits s :=
  ⟨rfl, rfl, fits_u32 _, fits_strMap fits_text, rfl, rfl,
    fits_option rfl fits_deadLetterSpec, fits_option rfl fits_retrySpec,
    fits_option rfl fits_text, fits_strMap fits_text, rfl⟩

theorem fits_relayMessage {dates : Dates} {m : RelayMessage} (h : dates.Valid m.publishedAt) :
    (relayMessage dates).Fits m :=
  ⟨rfl, fits_array fun n => n.toNat_lt, fits_strMap fits_text, rfl, h⟩

theorem fits_snapshotSpec {dates : Dates} {s : SnapshotSpec} (h : dates.Valid s.expireTime)
    (hindex : s.topicIndex < 2 ^ 64) : (snapshotSpec dates).Fits s :=
  ⟨rfl, rfl, h, fits_strMap fits_text, hindex⟩

theorem fits_schemaSpec (s : SchemaSpec) : schemaSpec.Fits s := ⟨rfl, rfl, rfl⟩

theorem fits_iamBinding (b : IamBinding) : iamBinding.Fits b := ⟨rfl, fits_array fits_text⟩

theorem fits_iamPolicy (p : IamPolicy) : iamPolicy.Fits p :=
  ⟨fits_i32 _, fits_array fits_iamBinding, rfl⟩

end Fits

/-! ### What is written has no doubles -/

section Integral

/-- **The documents that are written are made of integers.** -/
def WritesIntegral {α : Type} (F : Format Value α) : Prop := ∀ a, (F.encode a).Integral

/-- The same of the fields of a record. -/
def FieldsIntegral {keys : List Text} {α : Type} (R : Record Value keys α) : Prop :=
  ∀ a, ∀ e ∈ R.encode a, e.2.Integral

variable {α β : Type} {F : Format Value α} {keys ls : List Text} {R : Record Value keys α}
  {S : Record Value ls β}

theorem WritesIntegral.map {f : α → β} {g : β → α} {h : ∀ b, f (g b) = b}
    (hF : WritesIntegral F) : WritesIntegral (F.map f g h) := fun b => hF (g b)

theorem WritesIntegral.option (hnull : F.decode .null = none) (hF : WritesIntegral F) :
    WritesIntegral (option F hnull) := by
  rintro (- | a)
  · exact .null
  · exact hF a

theorem WritesIntegral.array (hF : WritesIntegral F) : WritesIntegral (array F) := by
  refine fun l => .array fun v hv => ?_
  obtain ⟨a, -, rfl⟩ := List.mem_map.mp hv
  exact hF a

theorem WritesIntegral.strMap (hF : WritesIntegral F) : WritesIntegral (strMap F) := by
  refine fun m => .object fun e he => ?_
  obtain ⟨f, -, rfl⟩ := List.mem_map.mp he
  exact hF f.2

theorem WritesIntegral.indexMap (hF : WritesIntegral F) : WritesIntegral (indexMap F) := by
  refine fun m => .object fun e he => ?_
  obtain ⟨f, -, rfl⟩ := List.mem_map.mp he
  exact hF f.2

theorem WritesIntegral.object (hR : FieldsIntegral R) : WritesIntegral (object R) :=
  fun a => .object (hR a)

theorem WritesIntegral.field {key : Text} (hF : WritesIntegral F) :
    FieldsIntegral (Record.field key F) := by
  intro a e he
  rw [List.mem_singleton.mp he]
  exact hF a

theorem WritesIntegral.fieldOr {key : Text} {dflt : α} (hF : WritesIntegral F) :
    FieldsIntegral (Record.fieldOr key dflt F) := by
  intro a e he
  rw [List.mem_singleton.mp he]
  exact hF a

theorem FieldsIntegral.prod {h : ∀ k ∈ keys, k ∉ ls} (hR : FieldsIntegral R)
    (hS : FieldsIntegral S) : FieldsIntegral (R.prod S h) := by
  intro x e he
  rcases List.mem_append.mp he with he | he
  · exact hR x.1 e he
  · exact hS x.2 e he

theorem writesIntegral_text : WritesIntegral text := fun s => .string s

theorem writesIntegral_boolean : WritesIntegral boolean := fun b => .bool b

theorem writesIntegral_unsigned {bound : ℕ} {h : bound ≤ 2 ^ 64} :
    WritesIntegral (unsigned bound h) := fun _ => .posInt _

theorem writesIntegral_indices : WritesIntegral indices := by
  refine fun s => .array fun v hv => ?_
  obtain ⟨n, -, rfl⟩ := List.mem_map.mp hv
  exact writesIntegral_unsigned n

theorem writesIntegral_i32 : WritesIntegral i32 := by
  intro n
  have hlow := n.le_toInt
  show (signed n.toInt).Integral
  unfold signed
  split_ifs with hn
  · exact .posInt _
  · refine .negInt _ ?_
    rw [Int64.toInt_ofInt_of_le (by omega) (by omega)]
    exact not_le.mp hn

theorem writesIntegral_date (dates : Dates) : WritesIntegral (date dates) := fun _ => .string _

theorem writesIntegral_labels : WritesIntegral (strMap text) := writesIntegral_text.strMap

theorem writesIntegral_topicSpec : WritesIntegral topicSpec :=
  .map <| .object <|
    writesIntegral_text.field.prod <|
    writesIntegral_labels.fieldOr.prod <|
    writesIntegral_text.fieldOr.prod <|
    writesIntegral_text.fieldOr.prod writesIntegral_text.fieldOr

theorem writesIntegral_deadLetterSpec : WritesIntegral deadLetterSpec :=
  .map <| .object <| writesIntegral_text.field.prod writesIntegral_unsigned.map.field

theorem writesIntegral_retrySpec : WritesIntegral retrySpec :=
  .map <| .object <|
    writesIntegral_unsigned.map.field.prod writesIntegral_unsigned.map.field

theorem writesIntegral_subscriptionSpec : WritesIntegral subscriptionSpec :=
  .map <| .object <|
    writesIntegral_text.field.prod <|
    writesIntegral_text.field.prod <|
    writesIntegral_unsigned.map.field.prod <|
    writesIntegral_labels.fieldOr.prod <|
    writesIntegral_boolean.fieldOr.prod <|
    writesIntegral_boolean.fieldOr.prod <|
    (writesIntegral_deadLetterSpec.option rfl).fieldOr.prod <|
    (writesIntegral_retrySpec.option rfl).fieldOr.prod <|
    (writesIntegral_text.option rfl).fieldOr.prod <|
    writesIntegral_labels.fieldOr.prod writesIntegral_text.fieldOr

theorem writesIntegral_relayMessage (dates : Dates) : WritesIntegral (relayMessage dates) :=
  .map <| .object <|
    writesIntegral_text.field.prod <|
    writesIntegral_unsigned.map.array.field.prod <|
    writesIntegral_labels.fieldOr.prod <|
    writesIntegral_text.fieldOr.prod (writesIntegral_date dates).field

theorem writesIntegral_snapshotSpec (dates : Dates) : WritesIntegral (snapshotSpec dates) :=
  .map <| .object <|
    writesIntegral_text.field.prod <|
    writesIntegral_text.field.prod <|
    (writesIntegral_date dates).field.prod <|
    writesIntegral_labels.fieldOr.prod writesIntegral_unsigned.field

theorem writesIntegral_schemaSpec : WritesIntegral schemaSpec :=
  .map <| .object <|
    writesIntegral_text.field.prod <|
    writesIntegral_text.field.prod writesIntegral_text.field

theorem writesIntegral_iamBinding : WritesIntegral iamBinding :=
  .map <| .object <| writesIntegral_text.field.prod writesIntegral_text.array.field

theorem writesIntegral_iamPolicy : WritesIntegral iamPolicy :=
  .map <| .object <|
    writesIntegral_i32.field.prod <|
    writesIntegral_iamBinding.array.field.prod writesIntegral_text.field

end Integral

end Serde

end RelayPubsub
