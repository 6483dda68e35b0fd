import Mathlib.Data.List.Forall2
import Mathlib.Data.List.Induction

/-!
# First occurrences

A list whose elements may have a key, without those whose key has occurred
before: what is left when duplicates are dropped as they arrive. Elements without
a key are all kept.

The list is consumed from the left: one more element at its end is kept or not
by what came before (`Lib.firsts_concat`). Of the elements with one key, exactly
the first is kept (`Lib.firsts_filter`), and those without one are all kept
(`Lib.firsts_filter_none`).

A store whose elements all have a key does the same as they arrive
(`Lib.deposit`); to it, beginnings of a list that arrive before the whole list make
no difference (`Lib.depositAll_beginning`).
-/

namespace Lib

variable {α κ : Type*} [DecidableEq κ] (key : α → Option κ)

/-- **An element repeats a list**: it has a key that occurs there. -/
def Repeats (l : List α) (a : α) : Prop := ∃ k ∈ key a, ∃ b ∈ l, key b = some k

instance (l : List α) (a : α) : Decidable (Repeats key l a) :=
  inferInstanceAs (Decidable (∃ k ∈ key a, ∃ b ∈ l, key b = some k))

/-- The first occurrences in a list that follows another. -/
def firstsAfter (earlier : List α) : List α → List α
  | [] => []
  | a :: l =>
    if Repeats key earlier a then firstsAfter (earlier ++ [a]) l
    else a :: firstsAfter (earlier ++ [a]) l

/-- **The first occurrences.** -/
def firsts (l : List α) : List α := firstsAfter key [] l

variable {key}

theorem firstsAfter_append (earlier l l' : List α) :
    firstsAfter key earlier (l ++ l') =
      firstsAfter key earlier l ++ firstsAfter key (earlier ++ l) l' := by
  induction l generalizing earlier with
  | nil => simp [firstsAfter]
  | cons a l ih =>
    rw [List.cons_append, firstsAfter, firstsAfter, ih, List.append_assoc, List.singleton_append]
    split
    · rfl
    · rw [List.cons_append]

/-- **One more element** is kept unless it repeats the list. -/
theorem firsts_concat (l : List α) (a : α) :
    firsts key (l ++ [a]) = if Repeats key l a then firsts key l else firsts key l ++ [a] := by
  unfold firsts
  rw [firstsAfter_append, List.nil_append, firstsAfter, firstsAfter]
  split
  · rw [List.append_nil]
  · rfl

/-- The kept elements stand in the order of the list. -/
theorem firsts_sublist (l : List α) : (firsts key l).Sublist l := by
  induction l using List.reverseRecOn with
  | nil => exact List.Sublist.slnil
  | append_singleton l a ih =>
    rw [firsts_concat]
    split
    · exact ih.trans (List.sublist_append_left l [a])
    · exact ih.append (List.Sublist.refl [a])

/-- **The elements without a key are all kept.** -/
theorem firsts_filter_none (l : List α) :
    (firsts key l).filter (fun a => decide (key a = none)) =
      l.filter fun a => decide (key a = none) := by
  induction l using List.reverseRecOn with
  | nil => rfl
  | append_singleton l a ih =>
    rw [firsts_concat, List.filter_append, ← ih]
    split
    · rename_i hr
      obtain ⟨k, hk, -⟩ := hr
      have hkey : [a].filter (fun b => decide (key b = none)) = [] :=
        List.filter_cons_of_neg (by simp [Option.mem_def.mp hk])
      rw [hkey, List.append_nil]
    · rw [List.filter_append]

/-- **Of the elements with one key, the first is kept, and no other.** -/
theorem firsts_filter (l : List α) (k : κ) :
    (firsts key l).filter (fun a => decide (key a = some k)) =
      (l.filter fun a => decide (key a = some k)).head?.toList := by
  induction l using List.reverseRecOn with
  | nil => rfl
  | append_singleton l a ih =>
    have hrep : Repeats key l a → key a = some k →
        (l.filter fun b => decide (key b = some k)) ≠ [] := by
      rintro ⟨k', hk', b, hb, hkey⟩ hk hnil
      obtain rfl := Option.some.inj (hk.symm.trans hk')
      exact List.ne_nil_of_mem (List.mem_filter.mpr ⟨hb, decide_eq_true hkey⟩) hnil
    have hnew : ¬Repeats key l a → key a = some k →
        (l.filter fun b => decide (key b = some k)) = [] := by
      intro hno hk
      refine List.filter_eq_nil_iff.mpr fun b hb hkey => hno ⟨k, hk, b, hb, ?_⟩
      exact of_decide_eq_true hkey
    rw [firsts_concat, List.filter_append]
    by_cases hk : key a = some k
    · have hone : [a].filter (fun b => decide (key b = some k)) = [a] :=
        List.filter_cons_of_pos (decide_eq_true hk)
      split
      · rename_i hr
        obtain ⟨b, l', hl⟩ := List.exists_cons_of_ne_nil (hrep hr hk)
        rw [ih, hl, List.cons_append, List.head?_cons, List.head?_cons]
      · rename_i hr
        rw [List.filter_append, ih, hnew hr hk, hone]
        rfl
    · have hnone : [a].filter (fun b => decide (key b = some k)) = [] :=
        List.filter_cons_of_neg (by simpa using hk)
      rw [hnone, List.append_nil, ← ih]
      split
      · rfl
      · rw [List.filter_append, hnone, List.append_nil]

/-! ### A store that keeps first occurrences -/

section Store

variable {α κ : Type*} [DecidableEq κ] (key : α → κ)

/-- **An element arrives**: it is stored unless one with its key has been. -/
def deposit (stored : List α) (a : α) : List α :=
  if key a ∈ stored.map key then stored else stored ++ [a]

/-- Several elements arrive, one after another. -/
def depositAll (stored as : List α) : List α := as.foldl (deposit key) stored

variable {key} {stored as : List α}

theorem depositAll_append (as bs : List α) :
    depositAll key stored (as ++ bs) = depositAll key (depositAll key stored as) bs :=
  List.foldl_append

/-- What is stored is not changed any more. -/
theorem prefix_depositAll : stored <+: depositAll key stored as := by
  induction as generalizing stored with
  | nil => exact List.prefix_refl _
  | cons a as ih =>
    refine List.IsPrefix.trans ?_ (@ih (deposit key stored a))
    unfold deposit
    split
    · exact List.prefix_refl _
    · exact List.prefix_append _ _

/-- **Nothing is lost.** -/
theorem key_mem_depositAll {a : α} (ha : a ∈ as) : key a ∈ (depositAll key stored as).map key := by
  induction as generalizing stored with
  | nil => cases ha
  | cons b as ih =>
    rcases List.mem_cons.mp ha with rfl | ha
    · have hkeep : deposit key stored a <+: depositAll key (deposit key stored a) as :=
        prefix_depositAll
      refine (hkeep.map key).subset ?_
      unfold deposit
      split
      · assumption
      · simp
    · exact ih ha

/-- **Nothing is stored twice.** -/
theorem nodup_depositAll (h : (stored.map key).Nodup) :
    ((depositAll key stored as).map key).Nodup := by
  induction as generalizing stored with
  | nil => exact h
  | cons a as ih =>
    refine @ih (deposit key stored a) ?_
    unfold deposit
    split
    · exact h
    · rename_i hnew
      rw [List.map_append, List.map_singleton]
      refine List.nodup_append.mpr ⟨h, by simp, fun k hk k' hk' heq => ?_⟩
      obtain rfl := List.mem_singleton.mp hk'
      exact hnew (heq ▸ hk)

/-- What arrives again is not stored again. -/
theorem depositAll_of_keys (h : ∀ a ∈ as, key a ∈ stored.map key) :
    depositAll key stored as = stored := by
  induction as with
  | nil => rfl
  | cons a as ih =>
    have ha : deposit key stored a = stored := if_pos (h a List.mem_cons_self)
    exact (congrArg (depositAll key · as) ha).trans (ih fun b hb => h b (List.mem_cons_of_mem _ hb))

/-- **A beginning may arrive before the whole.** -/
theorem depositAll_beginning {pre : List α} (h : pre <+: as) :
    depositAll key (depositAll key stored pre) as = depositAll key stored as := by
  obtain ⟨rest, rfl⟩ := h
  rw [depositAll_append, depositAll_of_keys fun a ha => key_mem_depositAll ha, ← depositAll_append]

/-- **Two beginnings of one list** leave what one beginning leaves. -/
theorem exists_depositAll_beginnings {pre pre' : List α} (h : pre <+: as) (h' : pre' <+: as) :
    ∃ longer, longer <+: as ∧
      depositAll key (depositAll key stored pre) pre' = depositAll key stored longer := by
  rcases List.prefix_or_prefix_of_prefix h h' with hle | hle
  · exact ⟨pre', h', depositAll_beginning hle⟩
  · exact ⟨pre, h, depositAll_of_keys fun a ha => key_mem_depositAll (hle.subset ha)⟩

end Store

/-- What is aligned with an element of a list. -/
theorem exists_getElem?_of_forall₂ {α β : Type*} {R : α → β → Prop} {l : List α} {l' : List β}
    (h : List.Forall₂ R l l') {i : ℕ} {a : α} (ha : l[i]? = some a) :
    ∃ b, l'[i]? = some b ∧ R a b := by
  obtain ⟨hi, rfl⟩ := List.getElem?_eq_some_iff.mp ha
  obtain ⟨hlength, hget⟩ := List.forall₂_iff_get.mp h
  exact ⟨l'[i], List.getElem?_eq_getElem (hlength ▸ hi), hget i hi (hlength ▸ hi)⟩

/-- An element of a list that is aligned with another. -/
theorem exists_of_forall₂ {α β : Type*} {R : α → β → Prop} {l : List α} {l' : List β}
    (h : List.Forall₂ R l l') {a : α} (ha : a ∈ l) : ∃ b ∈ l', R a b := by
  obtain ⟨i, hi⟩ := List.getElem?_of_mem ha
  obtain ⟨b, hb, hr⟩ := exists_getElem?_of_forall₂ h hi
  exact ⟨b, List.mem_of_getElem? hb, hr⟩

/-- Two lists aligned with a third are aligned with each other. -/
theorem forall₂_of_common {β γ : Type*} {R : α → β → Prop} {S : α → γ → Prop} {T : β → γ → Prop}
    (hT : ∀ a b c, R a b → S a c → T b c) {l : List α} {bs : List β} {cs : List γ}
    (hb : List.Forall₂ R l bs) (hc : List.Forall₂ S l cs) : List.Forall₂ T bs cs := by
  induction hb generalizing cs with
  | nil =>
    cases hc
    exact .nil
  | cons hab _ ih =>
    cases hc with
    | cons hac hrest => exact .cons (hT _ _ _ hab hac) (ih hrest)

end Lib
