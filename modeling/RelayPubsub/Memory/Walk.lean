import RelayPubsub.Memory.Listing
import RelayPubsub.Memory.Specs

/-!
# Walking the listings of the store

A walk over one of the listings of a project visits every resource of the project
once, in the order of names (`RelayPubsub.Memory.walk_once`). That the pages of a
walk are the listing is a fact about any list (`RelayPubsub.walked_walk`); that the
listing has each resource once needs the resources to be stored under their names,
which every reachable state does:

| map | invariant |
|---|---|
| topics, subscriptions | `RelayPubsub.Memory.SpecsKept` |
| snapshots | `RelayPubsub.Memory.namedBy_snapshots` |
| schemas | `RelayPubsub.Memory.namedBy_schemas` |
-/

namespace RelayPubsub.Memory

open Lib

variable {serde : SerdeJson} {st : State}

/-! ### Resources are stored under their names -/

theorem namedBy_snapshots_step (h : NamedBy (·.name) st.snapshots) (s : Step) :
    NamedBy (·.name) (exec serde st s).snapshots := by
  unfold exec
  cases s.call with
  | createSnapshot name subscription labels =>
    dsimp only
    unfold createSnapshot
    split_ifs
    · exact h
    · exact h
    split
    · exact h
    · rw [answer_snd]
      exact h.insert rfl
  | updateSnapshot snapshot mask =>
    dsimp only
    unfold updateSnapshot
    split
    · exact h
    rename_i entry hentry
    rw [answer_snd]
    refine h.insert ?_
    have hname : entry.name = snapshot.name := h hentry
    split_ifs <;> exact hname
  | deleteSnapshot name =>
    dsimp only
    unfold deleteSnapshot
    split
    · exact h
    · rw [answer_snd]
      exact h.erase name
  | _ => simpa using h

theorem namedBy_schemas_step (h : NamedBy (·.name) st.schemas) (s : Step) :
    NamedBy (·.name) (exec serde st s).schemas := by
  unfold exec
  cases s.call with
  | createSchema schema =>
    dsimp only
    unfold createSchema
    split
    · exact h
    split
    · exact h
    split
    · exact h
    · rw [answer_snd]
      exact h.insert rfl
  | deleteSchema name =>
    dsimp only
    unfold deleteSchema
    split
    · exact h
    · rw [answer_snd]
      exact h.erase name
  | _ => simpa using h

theorem namedBy_snapshots (steps : List Step) :
    NamedBy (·.name) (stateAfter serde steps).snapshots :=
  (Machine.always_of_step (P := fun st : State => NamedBy SnapshotSpec.name st.snapshots)
    (by simp [NamedBy]) fun _ s _ h => namedBy_snapshots_step h s).last

theorem namedBy_schemas (steps : List Step) :
    NamedBy (·.name) (stateAfter serde steps).schemas :=
  (Machine.always_of_step (P := fun st : State => NamedBy SchemaSpec.name st.schemas)
    (by simp [NamedBy]) fun _ s _ h => namedBy_schemas_step h s).last

theorem namedBy_topics (steps : List Step) :
    NamedBy (·.spec.name) (stateAfter serde steps).topics :=
  fun _ _ h => ((specsKept_stateAfter steps).topics h).name_eq

theorem namedBy_subscriptions (steps : List Step) :
    NamedBy (·.spec.name) (stateAfter serde steps).subscriptions :=
  fun _ _ h => ((specsKept_stateAfter steps).subscriptions h).name_eq

/-! ### Walks -/

/-- **The pages of a walk that came to its end and has every resource once**, in the
order of names. -/
structure Enumerates {α : Type} (name : α → Text) (resources : α → Prop) (pages : List (Page α)) :
    Prop where
  walked : ∃ items, Walked items pages
  inOrder : ((pages.map (·.items)).flatten.map name).Pairwise fun a b => compare a b = .lt
  mem_iff : ∀ x, x ∈ (pages.map (·.items)).flatten ↔ resources x

/-- **A walk over a listing of a project**, of the values of a map that are read off
through `p`. -/
theorem enumerates_walk {α β : Type} {m : StrMap β} {p : β → α} {name : α → Text}
    (hnamed : NamedBy (fun v => name (p v)) m) (hsize : m.size < 2 ^ 63) (project : Text)
    (sizes : ℕ → Int32) {n : ℕ} (hn : m.size < n) :
    Enumerates name
      (fun x => belongsToProject (name x) project ∧ ∃ (k : Text) (v : β), m[k]? = some v ∧ p v = x)
      (walk (listOfProject name ((values m).map p) project) sizes n) := by
  set items := sortByName name
    (((values m).map p).filter fun x => decide (belongsToProject (name x) project)) with hitems
  have hlength : items.length ≤ m.size := by
    rw [hitems, sortByName, List.length_mergeSort]
    refine (List.length_filter_le _ _).trans ?_
    rw [List.length_map, values, List.length_map, Std.ExtTreeMap.length_toList]
  have hwalked : Walked items (walk (listOfProject name ((values m).map p) project) sizes n) :=
    walked_walk (hlength.trans_lt hsize) sizes (hlength.trans_lt hn)
  refine ⟨⟨items, hwalked⟩, ?_, fun x => ?_⟩
  · rw [hwalked.visits, hitems]
    refine sortByName_strict ?_
    refine (List.filter_sublist.map name).nodup ?_
    rw [List.map_map]
    exact hnamed.nodup_values
  · rw [hwalked.visits, hitems, mem_sortByName, List.mem_filter, List.mem_map, decide_eq_true_eq,
      and_comm]
    refine and_congr_right fun _ => ⟨?_, ?_⟩
    · rintro ⟨v, hv, rfl⟩
      obtain ⟨k, hk⟩ := mem_values.mp hv
      exact ⟨k, v, hk, rfl⟩
    · rintro ⟨k, v, hk, rfl⟩
      exact ⟨v, mem_values.mpr ⟨k, hk⟩, rfl⟩

/-- **Walking the pages visits every item once**: over any list, and so over the four
listings of a project in every reachable state, where each has the resources of the
project in the order of names. A vector has fewer than `2 ^ 63` elements. -/
theorem walk_once (serde : SerdeJson) (steps : List Step) (project : Text) (sizes : ℕ → Int32) :
    let st := stateAfter serde steps
    (∀ {α : Type} (items : List α), items.length < 2 ^ 63 → ∀ n, items.length < n →
      Walked items (walk (paginate items) sizes n)) ∧
    (st.topics.size < 2 ^ 63 → ∀ n, st.topics.size < n →
      Enumerates (·.name)
        (fun spec => belongsToProject spec.name project ∧
          ∃ (k : Text) (topic : TopicState), st.topics[k]? = some topic ∧ topic.spec = spec)
        (walk (listTopics st project) sizes n)) ∧
    (st.subscriptions.size < 2 ^ 63 → ∀ n, st.subscriptions.size < n →
      Enumerates (·.name)
        (fun spec => belongsToProject spec.name project ∧
          ∃ (k : Text) (sub : SubscriptionState), st.subscriptions[k]? = some sub ∧ sub.spec = spec)
        (walk (listSubscriptions st project) sizes n)) ∧
    (st.snapshots.size < 2 ^ 63 → ∀ n, st.snapshots.size < n →
      Enumerates (·.name)
        (fun spec => belongsToProject spec.name project ∧ ∃ k : Text, st.snapshots[k]? = some spec)
        (walk (listSnapshots st project) sizes n)) ∧
    (st.schemas.size < 2 ^ 63 → ∀ n, st.schemas.size < n →
      Enumerates (·.name)
        (fun spec => belongsToProject spec.name project ∧ ∃ k : Text, st.schemas[k]? = some spec)
        (walk (listSchemas st project) sizes n)) := by
  intro st
  refine ⟨fun items hlen n hn => walked_walk hlen sizes hn, fun hsize n hn => ?_,
    fun hsize n hn => ?_, fun hsize n hn => ?_, fun hsize n hn => ?_⟩
  · exact enumerates_walk (namedBy_topics steps) hsize project sizes hn
  · exact enumerates_walk (namedBy_subscriptions steps) hsize project sizes hn
  · have h := enumerates_walk (p := id) (@namedBy_snapshots serde steps) hsize project
      sizes hn
    simp only [List.map_id, id_eq, exists_eq_right] at h
    exact h
  · have h := enumerates_walk (p := id) (@namedBy_schemas serde steps) hsize project
      sizes hn
    simp only [List.map_id, id_eq, exists_eq_right] at h
    exact h

/-- A walk over three items that asks for no number, for one and for two. -/
theorem walk_once_three : Walked [1, 2, 3] (walk (paginate [1, 2, 3]) Int32.ofNat 4) :=
  (walk_once noJson [] [] Int32.ofNat).1 [1, 2, 3] (by decide) 4 (by decide)

end RelayPubsub.Memory
