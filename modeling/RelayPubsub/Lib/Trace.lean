import RelayPubsub.Lib.Ledger

/-!
# Histories of a ledger

A history is a list of events, each a `Lib.Ledger.Move` and each allowed by a
guard that may look at the ledger it happens on (`Lib.Ledger.Trace`). The
invariants of `Lib.Ledger` are carried along a history here, and the facts that
are about *several* events are proved:

* what is done stays done, and is never granted
  (`Lib.Ledger.Trace.not_granted`);
* a single visit – a history of service events – grants every position at most
  once, and none that was leased or done when it started
  (`Lib.Ledger.Trace.grants_nodup`);
* if every grant finds the earlier positions of its group done, then no group
  ever has two leases (`Lib.Ledger.OrderedLeases.eq_of_same`), and a group's
  positions are granted in order: once a position has been granted, no earlier
  one of its group is granted any more
  (`Lib.Ledger.Trace.grants_in_order`).
-/

namespace Lib.Ledger

variable {κ : Type*} [DecidableEq κ]

/-- **A history of a ledger**, every event of which the guard allows. -/
inductive Trace (G : Ledger κ → Event κ → Prop) : Ledger κ → List (Event κ) → Ledger κ → Prop
  /-- Nothing happened. -/
  | nil (L : Ledger κ) : Trace G L [] L
  /-- Something happened first. -/
  | cons {L M N : Ledger κ} {e : Event κ} {es : List (Event κ)} :
      Move L e M → G L e → Trace G M es N → Trace G L (e :: es) N

/-- The leases granted along a history, in order. -/
def grants : List (Event κ) → List (κ × ℕ)
  | [] => []
  | .grant k i :: es => (k, i) :: grants es
  | _ :: es => grants es

omit [DecidableEq κ] in
@[simp] theorem grants_append (es fs : List (Event κ)) :
    grants (es ++ fs) = grants es ++ grants fs := by
  induction es with
  | nil => rfl
  | cons e es ih => cases e <;> simp [grants, ih]

omit [DecidableEq κ] in
theorem mem_grants {es : List (Event κ)} {k : κ} {i : ℕ} :
    (k, i) ∈ grants es ↔ Event.grant k i ∈ es := by
  induction es with
  | nil => simp [grants]
  | cons e es ih => cases e <;> simp [grants, ih]

/-- **A grant respects a grouping of the positions**: the earlier positions of
its group are done when it happens. -/
def InOrder (same : ℕ → ℕ → Prop) (L : Ledger κ) : Event κ → Prop
  | .grant _ i => ∀ j < i, same j i → j ∈ L.done
  | _ => True

/-- **A lease is held only where the earlier positions of the group are
done.** -/
def OrderedLeases (same : ℕ → ℕ → Prop) (L : Ledger κ) : Prop :=
  ∀ i, L.Held i → ∀ j < i, same j i → j ∈ L.done

namespace Trace

variable {G : Ledger κ → Event κ → Prop} {L M N : Ledger κ} {es fs : List (Event κ)}

/-- A history of one event. -/
theorem single {e : Event κ} (hm : Move L e M) (hG : G L e) : Trace G L [e] M :=
  cons hm hG (nil M)

/-- Histories compose. -/
theorem append (h : Trace G L es M) (h' : Trace G M fs N) : Trace G L (es ++ fs) N := by
  induction h with
  | nil _ => exact h'
  | cons hm hG _ ih => exact cons hm hG (ih h')

/-- A weaker guard allows the same histories. -/
theorem mono {G' : Ledger κ → Event κ → Prop} (h : Trace G L es M)
    (hGG : ∀ L e, G L e → G' L e) : Trace G' L es M := by
  induction h with
  | nil _ => exact nil _
  | cons hm hG _ ih => exact cons hm (hGG _ _ hG) ih

/-- **What every allowed event keeps, a history keeps.** -/
theorem invariant {P : Ledger κ → Prop} (h : Trace G L es M)
    (hstep : ∀ {L e M}, P L → Move L e M → G L e → P M) (hL : P L) : P M := by
  induction h with
  | nil _ => exact hL
  | cons hm hG _ ih => exact ih (hstep hL hm hG)

/-- A history keeps the places apart. -/
theorem exclusive (h : Trace G L es M) (hL : Exclusive L) : Exclusive M :=
  h.invariant (fun hL hm _ => hL.move hm) hL

/-- A history without a forfeit, during which the cursor is not set anew, loses
nothing. -/
theorem retains {base : ℕ} (h : Trace G L es M) (hf : ∀ L e, G L e → ¬e.IsForfeit)
    (hr : ∀ L e, G L e → ¬e.IsRewind) (hL : L.Retains base) : M.Retains base :=
  h.invariant (fun hL hm hG => hL.move hm (hf _ _ hG) (hr _ _ hG)) hL

/-- Such a history keeps a position that is kept at its start. -/
theorem kept {i : ℕ} (h : Trace G L es M) (hf : ∀ L e, G L e → ¬e.IsForfeit)
    (hr : ∀ L e, G L e → ¬e.IsRewind) (hL : L.Kept i) : M.Kept i :=
  h.invariant (P := fun L => L.Kept i) (fun hL hm hG => hL.move hm (hf _ _ hG) (hr _ _ hG)) hL

theorem above {base : ℕ} (h : Trace G L es M) (hr : ∀ L e, G L e → ¬e.IsRewind)
    (hL : L.Above base) : M.Above base :=
  h.invariant (fun hL hm hG => hL.move hm (hr _ _ hG)) hL

end Trace

/-! ### What is done stays done -/

section Done

variable {G : Ledger κ → Event κ → Prop} {L M : Ledger κ} {es : List (Event κ)}

/-- One event settles no position back, unless it sets the cursor anew. -/
theorem Move.done_subset {e : Event κ} (hm : Move L e M) (hr : ¬e.IsRewind) : L.done ⊆ M.done := by
  cases hm with
  | requeue _ | forfeit _ => exact subset_rfl
  | settle _ => exact Finset.subset_insert _ _
  | park ht => exact ht.done_eq.symm.subset
  | retire ht => exact ht.done_eq.symm.subset.trans (Finset.subset_insert _ _)
  | grant ht _ => exact ht.done_eq.symm.subset
  | rewind _ => exact absurd trivial hr

/-- The cursor only advances, unless it is set anew. -/
theorem Move.cursor_le {e : Event κ} (hm : Move L e M) (hr : ¬e.IsRewind) :
    L.cursor ≤ M.cursor := by
  cases hm with
  | requeue _ | forfeit _ | settle _ => exact le_rfl
  | park ht | retire ht | grant ht _ => exact ht.cursor_le
  | rewind _ => exact absurd trivial hr

/-- **What is done stays done.** -/
theorem Trace.done_subset (h : Trace G L es M) (hr : ∀ L e, G L e → ¬e.IsRewind) :
    L.done ⊆ M.done := by
  induction h with
  | nil _ => exact subset_rfl
  | cons hm hG _ ih => exact (hm.done_subset (hr _ _ hG)).trans ih

theorem Trace.cursor_le (h : Trace G L es M) (hr : ∀ L e, G L e → ¬e.IsRewind) :
    L.cursor ≤ M.cursor := by
  induction h with
  | nil _ => exact le_rfl
  | cons hm hG _ ih => exact (hm.cursor_le (hr _ _ hG)).trans ih

/-- **What is done is never granted.** -/
theorem Trace.not_granted (h : Trace G L es M) (hr : ∀ L e, G L e → ¬e.IsRewind)
    (hL : Exclusive L) {i : ℕ} (hi : i ∈ L.done) (k : κ) : (k, i) ∉ grants es := by
  induction h with
  | nil _ => simp [grants]
  | @cons L M N e es hm hG _ ih =>
    have hrest := ih (hL.move hm) (hm.done_subset (hr _ _ hG) hi)
    cases hm with
    | @grant k' i' M ht _ =>
      obtain ⟨-, hfree⟩ := hL.take ht
      simp only [grants, List.mem_cons, not_or]
      refine ⟨fun hc => hfree.done ?_, hrest⟩
      obtain ⟨-, rfl⟩ := Prod.mk.inj hc
      rwa [ht.done_eq]
    | _ => exact hrest

/-- A lease held after a history was held before, or was granted. -/
theorem Trace.lease_of (h : Trace G L es M) (hr : ∀ L e, G L e → ¬e.IsRewind) {k : κ} {i : ℕ}
    (hk : M.lease k = some i) : L.lease k = some i ∨ (k, i) ∈ grants es := by
  induction h with
  | nil _ => exact Or.inl hk
  | @cons L M N e es hm hG _ ih =>
    rcases ih hk with hM | hgrants
    · cases hm with
      | requeue _ | forfeit _ | settle _ => exact Or.inl (lease_of_unlease hM).2
      | park ht | retire ht => exact Or.inl (by simpa [ht.lease_eq] using hM)
      | grant ht _ =>
        rcases lease_of_addLease hM with ⟨rfl, rfl⟩ | ⟨-, hM⟩
        · exact Or.inr List.mem_cons_self
        · exact Or.inl (by rwa [ht.lease_eq] at hM)
      | rewind _ => exact absurd trivial (hr _ _ hG)
    · refine Or.inr (mem_grants.mpr (List.mem_cons_of_mem e (mem_grants.mp hgrants)))

/-- Nothing below `base` is granted, if nothing below it was in any place. -/
theorem Trace.le_of_granted {base : ℕ} (h : Trace G L es M) (hr : ∀ L e, G L e → ¬e.IsRewind)
    (hL : L.Above base) {k : κ} {i : ℕ} (hk : (k, i) ∈ grants es) : base ≤ i := by
  induction h with
  | nil _ => cases hk
  | @cons L M N e es hm hG _ ih =>
    have hrest := ih (hL.move hm (hr _ _ hG))
    cases hm with
    | @grant k' i' M ht _ =>
      rcases List.mem_cons.mp hk with heq | hk
      · obtain ⟨-, rfl⟩ := Prod.mk.inj heq
        exact (hL.take ht).2
      · exact hrest hk
    | _ => exact hrest hk

end Done

/-! ### A single visit -/

section Visit

variable {G : Ledger κ → Event κ → Prop} {L M : Ledger κ} {es : List (Event κ)}

/-- A service event ends no lease. -/
theorem Move.held_of_service {e : Event κ} (hm : Move L e M) (hs : e.IsService) {i : ℕ}
    (hi : L.Held i) : M.Held i := by
  cases hm with
  | park ht | retire ht => exact ht.held_iff.mpr hi
  | grant ht hk => exact Held.addLease (by rw [ht.lease_eq, hk]) (ht.held_iff.mpr hi)
  | _ => exact absurd hs id

/-- A position leased when a visit starts is not granted during it. -/
theorem Trace.not_granted_of_held (h : Trace G L es M) (hs : ∀ L e, G L e → e.IsService)
    (hL : Exclusive L) {i : ℕ} (hi : L.Held i) (k : κ) : (k, i) ∉ grants es := by
  induction h with
  | nil _ => simp [grants]
  | @cons L M N e es hm hG _ ih =>
    have hrest := ih (hL.move hm) (hm.held_of_service (hs _ _ hG) hi)
    cases hm with
    | @grant k' i' M ht _ =>
      obtain ⟨-, hfree⟩ := hL.take ht
      simp only [grants, List.mem_cons, not_or]
      refine ⟨fun hc => hfree.held ?_, hrest⟩
      obtain ⟨-, rfl⟩ := Prod.mk.inj hc
      exact ht.held_iff.mpr hi
    | _ => exact hrest

/-- **A visit grants every position at most once.** -/
theorem Trace.grants_nodup (h : Trace G L es M) (hs : ∀ L e, G L e → e.IsService)
    (hL : Exclusive L) : ((grants es).map Prod.snd).Nodup := by
  induction h with
  | nil _ => simp [grants]
  | @cons L M N e es hm hG hrest ih =>
    have hM := hL.move hm
    cases hm with
    | @grant k i M ht _ =>
      simp only [grants, List.map_cons, List.nodup_cons]
      refine ⟨fun hmem => ?_, ih hM⟩
      obtain ⟨⟨k', i'⟩, hk', rfl⟩ := List.mem_map.mp hmem
      exact hrest.not_granted_of_held hs hM (held_addLease M k _) k' hk'
    | _ => exact ih hM

/-- The leases granted during a visit are held when it ends. -/
theorem Trace.lease_of_granted (h : Trace G L es M) (hs : ∀ L e, G L e → e.IsService) {k : κ}
    {i : ℕ} (hk : L.lease k = some i ∨ (k, i) ∈ grants es) : M.lease k = some i := by
  induction h with
  | nil _ => simpa [grants] using hk
  | @cons L M N e es hm hG _ ih =>
    refine ih ?_
    have hserv := hs _ _ hG
    cases hm with
    | park ht | retire ht => exact hk.imp_left fun hk => by simpa [ht.lease_eq] using hk
    | @grant k' i' M ht hk' =>
      rcases hk with hk | hk
      · have hne : k ≠ k' := by
          rintro rfl
          simp [hk'] at hk
        exact Or.inl (by simpa [hne, ht.lease_eq] using hk)
      · rcases List.mem_cons.mp hk with hc | hk
        · obtain ⟨rfl, rfl⟩ := Prod.mk.inj hc
          exact Or.inl (by simp)
        · exact Or.inr hk
    | _ => exact absurd hserv id

end Visit

/-! ### Groups served in order -/

section Ordered

variable {same : ℕ → ℕ → Prop} {L M : Ledger κ}

omit [DecidableEq κ] in
/-- **No group has two leases**, if a lease is held only where the earlier
positions of its group are done. -/
theorem OrderedLeases.eq_of_same (hL : Exclusive L) (h : L.OrderedLeases same)
    (hsymm : ∀ i j, same i j → same j i) {i j : ℕ} (hi : L.Held i) (hj : L.Held j)
    (hij : same i j) : i = j := by
  rcases Nat.lt_trichotomy i j with hlt | heq | hgt
  · exact absurd (h j hj i hlt hij) (hL.not_done_of_held hi)
  · exact heq
  · exact absurd (h i hi j hgt (hsymm i j hij)) (hL.not_done_of_held hj)

/-- An event in order keeps the leases in order. -/
theorem OrderedLeases.move {e : Event κ} (h : L.OrderedLeases same) (hm : Move L e M)
    (ho : L.InOrder same e) (hr : ¬e.IsRewind) : M.OrderedLeases same := by
  intro i hi j hj hji
  refine hm.done_subset hr ?_
  obtain ⟨k, hk⟩ := hi
  cases hm with
  | requeue _ | forfeit _ | settle _ => exact h i ⟨k, (lease_of_unlease hk).2⟩ j hj hji
  | park ht | retire ht => exact h i (ht.held_iff.mp ⟨k, hk⟩) j hj hji
  | grant ht _ =>
    rcases lease_of_addLease hk with ⟨-, rfl⟩ | ⟨-, hk⟩
    · exact ho j hj hji
    · exact h i (ht.held_iff.mp ⟨k, hk⟩) j hj hji
  | rewind _ => exact absurd trivial hr

variable {G : Ledger κ → Event κ → Prop} {es : List (Event κ)}

theorem Trace.orderedLeases (h : Trace G L es M) (ho : ∀ L e, G L e → L.InOrder same e)
    (hr : ∀ L e, G L e → ¬e.IsRewind) (hL : L.OrderedLeases same) : M.OrderedLeases same :=
  h.invariant (fun hL hm hG => hL.move hm (ho _ _ hG) (hr _ _ hG)) hL

/-- **A group's positions are granted in order.** Once a position has been
granted, the earlier ones of its group are done, so none of them is granted
again; grants of the same position may repeat. -/
theorem Trace.grants_in_order (h : Trace G L es M) (ho : ∀ L e, G L e → L.InOrder same e)
    (hr : ∀ L e, G L e → ¬e.IsRewind) (hL : Exclusive L) :
    ((grants es).map Prod.snd).Pairwise fun i j => same j i → i ≤ j := by
  induction h with
  | nil _ => simp [grants]
  | @cons L M N e es hm hG hrest ih =>
    have hM := hL.move hm
    have hord := ho _ _ hG
    cases hm with
    | @grant k i M ht hk =>
      simp only [grants, List.map_cons, List.pairwise_cons]
      refine ⟨fun j hj hji => ?_, ih hM⟩
      obtain ⟨⟨k', j'⟩, hk', rfl⟩ := List.mem_map.mp hj
      by_contra hlt
      have hdone : j' ∈ M.done := by
        rw [ht.done_eq]
        exact hord j' (Nat.lt_of_not_le hlt) hji
      exact hrest.not_granted hr hM hdone k' hk'
    | _ => exact ih hM

end Ordered

end Lib.Ledger
