import RelayPubsub.Memory.State
import RelayPubsub.Page
import RelayPubsub.Schema

/-!
# Reading resources

The calls of `MemoryBackend` that look up a topic or a schema, or that list the
resources of a project and the subscriptions of a topic. They only read; each page
is cut out of the whole listing, in the order of names.
-/

namespace RelayPubsub.Memory

open Lib

def belongsToProject (resource project : Text) : Prop := project ++ ['/'] <+: resource

instance (resource project : Text) : Decidable (belongsToProject resource project) :=
  inferInstanceAs (Decidable (_ <+: _))

/-- The values of a map. -/
def values {β : Type} (m : StrMap β) : List β := m.toList.map Prod.snd

theorem mem_values {β : Type} {m : StrMap β} {v : β} :
    v ∈ values m ↔ ∃ k : Text, m[k]? = some v := by
  simp [values, Std.ExtTreeMap.mem_toList_iff_getElem?_eq_some]

/-- Sorted by name. -/
def sortByName {α : Type} (name : α → Text) (items : List α) : List α :=
  items.mergeSort fun a b => (compare (name a) (name b)).isLE

/-- A page of the resources of a project. -/
def listOfProject {α : Type} (name : α → Text) (items : List α) (project : Text)
    (pageSize : Int32) (pageToken : Text) : Page α :=
  paginate
    (sortByName name (items.filter fun item => decide (belongsToProject (name item) project)))
    pageSize pageToken

variable (st : State)

def getTopic (name : Text) : Except BackendError TopicSpec :=
  match st.topics[name]? with
  | some topic => .ok topic.spec
  | none => .error (.notFound name)

def getSchema (name : Text) : Except BackendError SchemaSpec :=
  match st.schemas[name]? with
  | some schema => .ok schema
  | none => .error (.notFound name)

def getSubscription (name : Text) : Except BackendError SubscriptionSpec :=
  match st.subscriptions[name]? with
  | some sub => .ok sub.spec
  | none => .error (.notFound name)

def getSnapshot (name : Text) : Except BackendError SnapshotSpec :=
  match st.snapshots[name]? with
  | some snapshot => .ok snapshot
  | none => .error (.notFound name)

/-- The policy of a resource that has been given none. -/
def defaultPolicy : IamPolicy where
  version := 1
  bindings := [⟨"roles/pubsub.admin", ["allAuthenticatedUsers"]⟩]
  etag := "default"

def getIamPolicy (resource : Text) : IamPolicy := st.iam[resource]?.getD defaultPolicy

/-- All permissions that are asked for are granted, as every resource has a policy. -/
def testIamPermissions (resource : Text) (permissions : List Text) : List Text :=
  let _ := getIamPolicy st resource
  permissions

/-- `validate_message`: the schema is given, or named. -/
def validateMessage (serde : SerdeJson) (schemaName : Option Text) (schema : Option SchemaSpec)
    (message : Bytes) : Except BackendError Unit := do
  let resolved ← match schema, schemaName with
    | some schema, _ => pure schema
    | none, some name => getSchema st name
    | none, none => .error (.invalidArgument "schema name or schema body is required")
  validatePayload serde resolved "JSON" message

def listTopics (project : Text) (pageSize : Int32) (pageToken : Text) : Page TopicSpec :=
  listOfProject (·.name) ((values st.topics).map (·.spec)) project pageSize pageToken

/-- The names of the subscriptions of a topic. -/
def topicSubscriptions (topic : Text) : List Text :=
  sortByName id (((values st.subscriptions).filter fun s => decide (s.spec.topic = topic)).map
    (·.spec.name))

def listTopicSubscriptions (topic : Text) (pageSize : Int32) (pageToken : Text) :
    Except BackendError (Page Text) :=
  if topic ∉ st.topics then .error (.notFound topic)
  else .ok (paginate (topicSubscriptions st topic) pageSize pageToken)

def listSubscriptions (project : Text) (pageSize : Int32) (pageToken : Text) :
    Page SubscriptionSpec :=
  listOfProject (·.name) ((values st.subscriptions).map (·.spec)) project pageSize pageToken

def listSnapshots (project : Text) (pageSize : Int32) (pageToken : Text) : Page SnapshotSpec :=
  listOfProject (·.name) (values st.snapshots) project pageSize pageToken

def listSchemas (parent : Text) (pageSize : Int32) (pageToken : Text) : Page SchemaSpec :=
  listOfProject (·.name) (values st.schemas) parent pageSize pageToken

/-- `list_push_subscriptions`, with the order in which the map is iterated. -/
def listPushSubscriptions (order : List SubscriptionSpec → List SubscriptionSpec) :
    List SubscriptionSpec :=
  order (((values st.subscriptions).map (·.spec)).filter (·.pushEndpoint.isSome))

/-! ### What is listed -/

theorem mem_sortByName {α : Type} {name : α → Text} {items : List α} {x : α} :
    x ∈ sortByName name items ↔ x ∈ items := by
  simp [sortByName]

/-- **A listing of a project names resources below it only.** -/
theorem belongs_of_mem_listOfProject {α : Type} {name : α → Text} {items : List α}
    {project : Text} {pageSize : Int32} {pageToken : Text} {x : α}
    (h : x ∈ (listOfProject name items project pageSize pageToken).items) :
    belongsToProject (name x) project := by
  have hx := mem_sortByName.mp (mem_of_mem_paginate h)
  simpa using (List.mem_filter.mp hx).2

variable {st}

theorem mem_topicSubscriptions {topic name : Text} :
    name ∈ topicSubscriptions st topic ↔
      ∃ (k : Text) (sub : SubscriptionState), st.subscriptions[k]? = some sub ∧
        sub.spec.topic = topic ∧ sub.spec.name = name := by
  simp only [topicSubscriptions, mem_sortByName, List.mem_map, List.mem_filter, mem_values,
    decide_eq_true_eq]
  constructor
  · rintro ⟨sub, ⟨⟨k, hk⟩, htopic⟩, hname⟩
    exact ⟨k, sub, hk, htopic, hname⟩
  · rintro ⟨k, sub, hk, htopic, hname⟩
    exact ⟨sub, ⟨⟨k, hk⟩, htopic⟩, hname⟩

/-- A topic has no more subscriptions than there are. -/
theorem length_topicSubscriptions_le (topic : Text) :
    (topicSubscriptions st topic).length ≤ st.subscriptions.size := by
  rw [topicSubscriptions, sortByName, List.length_mergeSort, List.length_map]
  refine (List.length_filter_le _ _).trans ?_
  rw [values, List.length_map, Std.ExtTreeMap.length_toList]

/-! ### The order of a listing -/

/-- **A map that stores its values under their names.** -/
def NamedBy {β : Type} (name : β → Text) (m : StrMap β) : Prop :=
  ∀ ⦃k v⦄, m[k]? = some v → name v = k

section Order

variable {α β : Type} {m : StrMap β} {name : α → Text} {items : List α}

/-- The values of a map have different names. -/
theorem NamedBy.nodup_values {name : β → Text} (h : NamedBy name m) :
    ((values m).map name).Nodup := by
  have hkeys : (values m).map name = m.keys := by
    rw [values, List.map_map, ← Std.ExtTreeMap.map_fst_toList_eq_keys]
    refine List.map_congr_left fun entry hentry => ?_
    exact h (Std.ExtTreeMap.mem_toList_iff_getElem?_eq_some.mp hentry)
  rw [hkeys]
  exact Std.ExtTreeMap.nodup_keys

theorem NamedBy.insert {name : β → Text} (h : NamedBy name m) {k : Text} {v : β}
    (hv : name v = k) : NamedBy name (m.insert k v) := by
  intro k' v' hget
  rcases eq_or_ne k k' with rfl | hk
  · rw [Std.ExtTreeMap.getElem?_insert_self] at hget
    exact Option.some.inj hget ▸ hv
  · rw [getElem?_insert_of_ne hk] at hget
    exact h hget

theorem NamedBy.erase {name : β → Text} (h : NamedBy name m) (k : Text) :
    NamedBy name (m.erase k) := by
  intro k' v' hget
  rcases eq_or_ne k k' with rfl | hk
  · rw [Std.ExtTreeMap.getElem?_erase_self] at hget
    cases hget
  · rw [getElem?_erase_of_ne hk] at hget
    exact h hget

/-- **Items of different names are sorted strictly.** -/
theorem sortByName_strict (h : (items.map name).Nodup) :
    ((sortByName name items).map name).Pairwise fun a b => compare a b = .lt := by
  have hle : (sortByName name items).Pairwise fun a b => (compare (name a) (name b)).isLE :=
    List.pairwise_mergeSort (fun _ _ _ => Std.TransCmp.isLE_trans) (fun a b => by
      have hswap : compare (name b) (name a) = (compare (name a) (name b)).swap :=
        Std.OrientedCmp.eq_swap
      rw [hswap]
      cases compare (name a) (name b) <;> rfl) _
  have hne : ((sortByName name items).map name).Nodup :=
    ((List.mergeSort_perm items _).map name).nodup_iff.mpr h
  rw [List.pairwise_map]
  refine (hle.and (List.pairwise_map.mp hne)).imp ?_
  rintro a b ⟨hab, hnot⟩
  exact (Ordering.isLE_iff_eq_lt_or_eq_eq.mp hab).resolve_right fun heq =>
    hnot (Std.LawfulEqCmp.eq_of_compare heq)

end Order

end RelayPubsub.Memory
