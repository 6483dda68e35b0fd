import RelayPubsub.Lib.Machine

/-!
# Two runs that differ in what is hidden

To show that an observer learns nothing about a part of the inputs, two runs are
laid side by side: their inputs are aligned in pairs, a pair being the same input
twice, or two inputs the observer is not to learn about. If each pair keeps the
two states indistinguishable, the runs stay so (`Lib.Machine.run_related`), and
that is shown one pair at a time.

Where the state is made of finite maps, indistinguishable mostly means that two
maps agree off the keys that are hidden (`Lib.AgreeOff`), or have the same keys
(`Lib.SameKeys`).
-/

namespace Lib

/-! ### Maps -/

section Maps

variable {κ β : Type*} {cmp : κ → κ → Ordering} [Std.TransCmp cmp]
  {hidden : Set κ} {m m' m'' : Std.ExtTreeMap κ β cmp} {k : κ} {v v' : β}

/-- **The two maps agree off a set of keys.** -/
def AgreeOff (hidden : Set κ) (m m' : Std.ExtTreeMap κ β cmp) : Prop :=
  ∀ k ∉ hidden, m'[k]? = m[k]?

theorem AgreeOff.refl (hidden : Set κ) (m : Std.ExtTreeMap κ β cmp) : AgreeOff hidden m m :=
  fun _ _ => rfl

theorem AgreeOff.symm (h : AgreeOff hidden m m') : AgreeOff hidden m' m :=
  fun k hk => (h k hk).symm

theorem AgreeOff.trans (h : AgreeOff hidden m m') (h' : AgreeOff hidden m' m'') :
    AgreeOff hidden m m'' :=
  fun k hk => (h' k hk).trans (h k hk)

/-- A key that is not hidden is in both maps or in neither. -/
theorem AgreeOff.mem_iff (h : AgreeOff hidden m m') (hk : k ∉ hidden) : k ∈ m' ↔ k ∈ m := by
  rw [Std.ExtTreeMap.mem_iff_isSome_getElem?, Std.ExtTreeMap.mem_iff_isSome_getElem?, h k hk]

/-- A key of both maps is given a value, the same one unless the key is hidden. -/
theorem AgreeOff.insert [Std.LawfulEqCmp cmp] (h : AgreeOff hidden m m')
    (hv : k ∉ hidden → v' = v) : AgreeOff hidden (m.insert k v) (m'.insert k v') := by
  intro n hn
  rw [Std.ExtTreeMap.getElem?_insert, Std.ExtTreeMap.getElem?_insert]
  split
  · rename_i heq
    obtain rfl := Std.LawfulEqCmp.eq_of_compare heq
    rw [hv hn]
  · exact h n hn

theorem AgreeOff.erase (h : AgreeOff hidden m m') (k : κ) :
    AgreeOff hidden (m.erase k) (m'.erase k) := by
  intro n hn
  rw [Std.ExtTreeMap.getElem?_erase, Std.ExtTreeMap.getElem?_erase]
  split
  · rfl
  · exact h n hn

/-- **The two maps have the same keys.** -/
def SameKeys (m m' : Std.ExtTreeMap κ β cmp) : Prop := ∀ k, k ∈ m' ↔ k ∈ m

theorem SameKeys.refl (m : Std.ExtTreeMap κ β cmp) : SameKeys m m := fun _ => Iff.rfl

theorem SameKeys.symm (h : SameKeys m m') : SameKeys m' m := fun k => (h k).symm

theorem SameKeys.trans (h : SameKeys m m') (h' : SameKeys m' m'') : SameKeys m m'' :=
  fun k => (h' k).trans (h k)

theorem SameKeys.insert (h : SameKeys m m') (k : κ) (v v' : β) :
    SameKeys (m.insert k v) (m'.insert k v') := by
  intro n
  rw [Std.ExtTreeMap.mem_insert, Std.ExtTreeMap.mem_insert, h n]

theorem SameKeys.erase (h : SameKeys m m') (k : κ) : SameKeys (m.erase k) (m'.erase k) := by
  intro n
  rw [Std.ExtTreeMap.mem_erase, Std.ExtTreeMap.mem_erase, h n]

/-- A key has a value in both maps or in neither. -/
theorem SameKeys.getElem?_cases [Std.LawfulEqCmp cmp] (h : SameKeys m m') (k : κ) :
    (m[k]? = none ∧ m'[k]? = none) ∨ ∃ v v', m[k]? = some v ∧ m'[k]? = some v' := by
  have hsome := h k
  rw [Std.ExtTreeMap.mem_iff_isSome_getElem?, Std.ExtTreeMap.mem_iff_isSome_getElem?] at hsome
  rcases hm : m[k]? with - | v <;> rcases hm' : m'[k]? with - | v'
  · exact Or.inl ⟨rfl, rfl⟩
  · simp [hm, hm'] at hsome
  · simp [hm, hm'] at hsome
  · exact Or.inr ⟨v, v', rfl, rfl⟩

end Maps

/-! ### Runs -/

/-- **The unwinding rule.** Two runs over inputs aligned in pairs stay related, if
each pair keeps two related states related. -/
theorem Machine.run_related {σ ι : Type*} {step : σ → ι → σ} {R : σ → σ → Prop} {s s' : σ}
    {pairs : List (ι × ι)} (h0 : R s s')
    (hstep : ∀ p ∈ pairs, ∀ t t', R t t' → R (step t p.1) (step t' p.2)) :
    R (Machine.run step s (pairs.map Prod.fst)) (Machine.run step s' (pairs.map Prod.snd)) := by
  induction pairs generalizing s s' with
  | nil => exact h0
  | cons p pairs ih =>
    rw [List.map_cons, List.map_cons, Machine.run_cons, Machine.run_cons]
    exact ih (hstep p List.mem_cons_self s s' h0) fun q hq => hstep q (List.mem_cons_of_mem p hq)

end Lib
