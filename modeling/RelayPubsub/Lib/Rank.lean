import Mathlib

/-!
# Positions in a filtered list

The position an element of a list has among the elements a predicate accepts is the
number of accepted elements before it, its *rank* (`Lib.rank`). Rank is defined at
every position, also at rejected ones and at the end: it is the position in the
filtered list that has the same accepted elements to its left.
-/

namespace Lib

variable {α : Type*} (p : α → Bool)

/-- The number of accepted elements before a position. -/
def rank (l : List α) (i : ℕ) : ℕ := (l.take i).countP p

/-- The list has an accepted element at the position. -/
def AcceptedAt (l : List α) (i : ℕ) : Prop := ∃ a, l[i]? = some a ∧ p a = true

variable {p} {l l' : List α} {i j : ℕ} {a : α}

theorem AcceptedAt.lt (h : AcceptedAt p l i) : i < l.length := by
  obtain ⟨a, ha, -⟩ := h
  exact (List.getElem?_eq_some_iff.mp ha).1

/-- The next position, at an element of the list. -/
theorem rank_succ (h : l[i]? = some a) :
    rank p l (i + 1) = rank p l i + if p a then 1 else 0 := by
  rw [rank, rank, List.take_add_one, h, List.countP_append, Option.toList_some,
    List.countP_singleton]

/-- The end of the list is the end of the filtered list. -/
theorem rank_length (l : List α) : rank p l l.length = (l.filter p).length := by
  rw [rank, List.take_length, List.countP_eq_length_filter]

theorem rank_mono (h : i ≤ j) : rank p l i ≤ rank p l j :=
  (List.take_prefix_take_left h).sublist.countP_le

/-- Rank is strict at an accepted element. -/
theorem rank_lt (h : AcceptedAt p l i) (hij : i < j) : rank p l i < rank p l j := by
  obtain ⟨a, ha, hp⟩ := h
  have hsucc : rank p l (i + 1) = rank p l i + 1 := by rw [rank_succ ha, if_pos hp]
  have hmono : rank p l (i + 1) ≤ rank p l j := rank_mono hij
  omega

/-- **Accepted elements have different ranks.** -/
theorem rank_inj (hi : AcceptedAt p l i) (hj : AcceptedAt p l j) :
    rank p l i = rank p l j ↔ i = j := by
  refine ⟨fun h => ?_, fun h => h ▸ rfl⟩
  rcases Nat.lt_trichotomy i j with hlt | heq | hgt
  · exact absurd h (rank_lt hi hlt).ne
  · exact heq
  · exact absurd h.symm (rank_lt hj hgt).ne

/-- A longer list has the same ranks at the old positions. -/
theorem rank_of_isPrefix (h : l <+: l') (hi : i ≤ l.length) : rank p l' i = rank p l i := by
  obtain ⟨rest, rfl⟩ := h
  rw [rank, rank, List.take_append_of_le_length hi]

theorem AcceptedAt.of_isPrefix (h : AcceptedAt p l i) (hl : l <+: l') : AcceptedAt p l' i := by
  obtain ⟨a, ha, hp⟩ := h
  obtain ⟨rest, rfl⟩ := hl
  refine ⟨a, ?_, hp⟩
  rwa [List.getElem?_append_left (List.getElem?_eq_some_iff.mp ha).1]

/-- **The element at a rank** is the one of that rank. -/
theorem getElem?_filter_rank (ha : l[i]? = some a) (hp : p a = true) :
    (l.filter p)[rank p l i]? = some a := by
  have hlt : i < l.length := (List.getElem?_eq_some_iff.mp ha).1
  have hsplit : l = l.take i ++ a :: l.drop (i + 1) := by
    rw [← (List.getElem?_eq_some_iff.mp ha).2, List.getElem_cons_drop, List.take_append_drop]
  have hfilter : l.filter p = (l.take i).filter p ++ a :: (l.drop (i + 1)).filter p := by
    conv_lhs => rw [hsplit]
    rw [List.filter_append, List.filter_cons_of_pos hp]
  rw [rank, List.countP_eq_length_filter, hfilter, List.getElem?_append_right le_rfl, Nat.sub_self]
  rfl

/-- **A search for the first element from which on a property holds** finds the same
place in the filtered list. -/
theorem rank_findIdx {q : α → Bool} (hq : l.Pairwise fun a b => q a = true → q b = true) :
    rank p l (l.findIdx q) = (l.filter p).findIdx q := by
  induction l with
  | nil => rfl
  | cons a l ih =>
    rw [List.pairwise_cons] at hq
    by_cases ha : q a = true
    · -- everything from here on has the property
      have hzero : ((a :: l).filter p).findIdx q = 0 := by
        rcases hl : (a :: l).filter p with - | ⟨b, rest⟩
        · rfl
        · have hb : b ∈ a :: l := (List.mem_filter.mp (hl ▸ List.mem_cons_self)).1
          have hqb : q b = true := (List.mem_cons.mp hb).elim (fun h => h ▸ ha) fun h => hq.1 b h ha
          rw [List.findIdx_cons, hqb]
          rfl
      rw [hzero, List.findIdx_cons, ha]
      rfl
    · rw [Bool.not_eq_true] at ha
      have hsucc : rank p (a :: l) (l.findIdx q + 1) =
          rank p l (l.findIdx q) + if p a then 1 else 0 := by
        rw [rank, rank, List.take_succ_cons, List.countP_cons]
      rw [List.findIdx_cons, ha, cond_false, hsucc, ih hq.2]
      by_cases hp : p a = true
      · rw [List.filter_cons_of_pos hp, List.findIdx_cons, ha, cond_false, if_pos hp]
      · rw [List.filter_cons_of_neg hp, if_neg hp, Nat.add_zero]

/-! ### Lists that match the filtered one, element by element -/

section Matching

variable {β : Type*} {R : α → β → Prop} {k : List β}

/-- The element that matches an accepted one is at its rank. -/
theorem exists_getElem?_rank (h : List.Forall₂ R (l.filter p) k) (ha : l[i]? = some a)
    (hp : p a = true) : ∃ b, k[rank p l i]? = some b ∧ R a b := by
  obtain ⟨hi, hget⟩ := List.getElem?_eq_some_iff.mp (getElem?_filter_rank ha hp)
  have hk : rank p l i < k.length := h.length_eq ▸ hi
  refine ⟨k[rank p l i], List.getElem?_eq_getElem hk, ?_⟩
  have hmatch := h.get hi hk
  simp only [List.get_eq_getElem, hget] at hmatch
  exact hmatch

theorem length_of_matching (h : List.Forall₂ R (l.filter p) k) : k.length = rank p l l.length := by
  rw [rank_length, h.length_eq]

/-- A search in two lists that match finds the same place. -/
theorem findIdx_of_matching {l : List α} {q : α → Bool} {q' : β → Bool}
    (hq : ∀ a b, R a b → q a = q' b) (h : List.Forall₂ R l k) : l.findIdx q = k.findIdx q' := by
  induction h with
  | nil => rfl
  | cons hab _ ih => rw [List.findIdx_cons, List.findIdx_cons, hq _ _ hab, ih]

end Matching

end Lib
