import Mathlib

/-!
# Runs of a machine that answers one input after another

A deterministic machine is a step function `σ → ι → σ`; a run is a fold of it
over the inputs. Two things are said about runs again and again, and both are
settled here once, for every machine:

* **an invariant of every state reached** – `Lib.Machine.invariant`, where the
  invariant may speak of the inputs already consumed, so that a fact such as
  “this identifier was issued earlier” is an invariant like any other;
* **a guard on every step taken** – `Lib.Machine.Guarded`, a condition on the
  state before a step and on its input. A program that keeps its promise except
  on some inputs keeps it in every run whose steps are guarded against these.
-/

namespace Lib.Machine

variable {σ ι : Type*} (step : σ → ι → σ)

/-- The state a run ends in. -/
def run (s : σ) (is : List ι) : σ := is.foldl step s

@[simp] theorem run_nil (s : σ) : run step s [] = s := rfl

@[simp] theorem run_cons (s : σ) (i : ι) (is : List ι) :
    run step s (i :: is) = run step (step s i) is := rfl

@[simp] theorem run_append (s : σ) (is js : List ι) :
    run step s (is ++ js) = run step (run step s is) js := by
  simp [run]

/-- The state after one more input. -/
theorem run_concat (s : σ) (is : List ι) (i : ι) :
    run step s (is ++ [i]) = step (run step s is) i := by
  simp

/-- **A property of every state a run goes through**, the first and the last
included. -/
def Always (P : σ → Prop) (s : σ) (is : List ι) : Prop :=
  ∀ pre, pre <+: is → P (run step s pre)

/-- **A condition on every step a run takes**: on the state before the step and
the input. -/
def Guarded (G : σ → ι → Prop) (s : σ) (is : List ι) : Prop :=
  ∀ pre i, pre ++ [i] <+: is → G (run step s pre) i

variable {step}

/-- The last state of a run is one of its states. -/
theorem Always.last {P : σ → Prop} {s : σ} {is : List ι} (h : Always step P s is) :
    P (run step s is) :=
  h is (List.prefix_refl is)

theorem Always.mono {P Q : σ → Prop} {s : σ} {is : List ι} (h : Always step P s is)
    (hPQ : ∀ t, P t → Q t) : Always step Q s is :=
  fun pre hpre => hPQ _ (h pre hpre)

/-- The beginning of a run goes through fewer states. -/
theorem Always.of_isPrefix {P : σ → Prop} {s : σ} {is js : List ι} (h : Always step P s is)
    (hjs : js <+: is) : Always step P s js :=
  fun pre hpre => h pre (hpre.trans hjs)

/-- The beginning of a run takes fewer steps. -/
theorem Guarded.of_isPrefix {G : σ → ι → Prop} {s : σ} {is js : List ι} (h : Guarded step G s is)
    (hjs : js <+: is) : Guarded step G s js :=
  fun pre i hpre => h pre i (hpre.trans hjs)

/-- The end of a run takes fewer steps. -/
theorem Guarded.of_append {G : σ → ι → Prop} {s : σ} {is js : List ι}
    (h : Guarded step G s (is ++ js)) : Guarded step G (run step s is) js := by
  intro pre i hpre
  have hstep := h (is ++ pre) i (by
    rw [List.append_assoc]
    exact (List.prefix_append_right_inj is).mpr hpre)
  rwa [run_append] at hstep

/-- The states of a run with one more input. -/
theorem always_concat {P : σ → Prop} {s : σ} {is : List ι} {i : ι} :
    Always step P s (is ++ [i]) ↔ Always step P s is ∧ P (step (run step s is) i) := by
  constructor
  · intro h
    refine ⟨h.of_isPrefix (List.prefix_append _ _), ?_⟩
    have hlast := h.last
    rwa [run_concat] at hlast
  · rintro ⟨h, hlast⟩ pre hpre
    rcases List.prefix_concat_iff.mp hpre with rfl | hpre
    · rwa [run_concat]
    · exact h pre hpre

/-- The steps of a run with one more input. -/
theorem guarded_concat {G : σ → ι → Prop} {s : σ} {is : List ι} {i : ι} :
    Guarded step G s (is ++ [i]) ↔ Guarded step G s is ∧ G (run step s is) i := by
  constructor
  · intro h
    exact ⟨h.of_isPrefix (List.prefix_append _ _), h is i (List.prefix_refl _)⟩
  · rintro ⟨h, hlast⟩ pre j hpre
    rcases List.prefix_concat_iff.mp hpre with heq | hpre
    · obtain ⟨rfl, hij⟩ := List.append_inj' heq rfl
      rwa [(List.cons.inj hij).1]
    · exact h pre j hpre

/-- A run of no steps stays where it is. -/
theorem always_nil {P : σ → Prop} {s : σ} (h : P s) : Always step P s [] := by
  intro pre hpre
  rwa [List.prefix_nil.mp hpre]

/-- The states of a run, from the first one on. -/
theorem always_cons {P : σ → Prop} {s : σ} {i : ι} {is : List ι} :
    Always step P s (i :: is) ↔ P s ∧ Always step P (step s i) is := by
  refine ⟨fun h => ⟨h [] List.nil_prefix, fun pre hpre => h (i :: pre) ?_⟩, ?_⟩
  · exact List.cons_prefix_cons.mpr ⟨rfl, hpre⟩
  · rintro ⟨hs, h⟩ pre hpre
    rcases List.prefix_cons_iff.mp hpre with rfl | ⟨tail, rfl, htail⟩
    · exact hs
    · exact h tail htail

/-- The steps of a run, from the first one on. -/
theorem guarded_cons {G : σ → ι → Prop} {s : σ} {i : ι} {is : List ι} :
    Guarded step G s (i :: is) ↔ G s i ∧ Guarded step G (step s i) is := by
  constructor
  · intro h
    refine ⟨h [] i (List.cons_prefix_cons.mpr ⟨rfl, List.nil_prefix⟩), fun pre j hpre => ?_⟩
    exact h (i :: pre) j (List.cons_prefix_cons.mpr ⟨rfl, hpre⟩)
  · rintro ⟨hs, h⟩ pre j hpre
    cases pre with
    | nil =>
      obtain ⟨rfl, -⟩ := List.cons_prefix_cons.mp hpre
      exact hs
    | cons k pre =>
      obtain ⟨rfl, htail⟩ := List.cons_prefix_cons.mp hpre
      exact h pre j htail

/-- A run of no steps takes none. -/
theorem guarded_nil {G : σ → ι → Prop} {s : σ} : Guarded step G s [] := fun _ _ hpre =>
  absurd (List.prefix_nil.mp hpre) (by simp)

theorem Guarded.mono {G G' : σ → ι → Prop} {s : σ} {is : List ι} (h : Guarded step G s is)
    (hGG : ∀ t i, G t i → G' t i) : Guarded step G' s is :=
  fun pre i hpre => hGG _ _ (h pre i hpre)

/-- **The invariant rule.** The invariant may depend on the inputs consumed so
far; the step lemma is asked only for the inputs of this run. -/
theorem invariant {P : List ι → σ → Prop} {s : σ} {is : List ι} (h0 : P [] s)
    (hstep : ∀ pre i, pre ++ [i] <+: is → P pre (run step s pre) →
      P (pre ++ [i]) (step (run step s pre) i)) :
    ∀ pre, pre <+: is → P pre (run step s pre) := by
  intro pre
  induction pre using List.reverseRecOn with
  | nil => exact fun _ => h0
  | append_singleton pre i ih =>
    intro hpre
    rw [run_concat]
    exact hstep pre i hpre (ih ((List.prefix_append pre [i]).trans hpre))

/-- The invariant rule for a property of states alone. -/
theorem always_of_step {P : σ → Prop} {s : σ} {is : List ι} (h0 : P s)
    (hstep : ∀ t, ∀ i ∈ is, P t → P (step t i)) : Always step P s is :=
  invariant (P := fun _ t => P t) h0 fun pre i hpre ht =>
    hstep _ i (hpre.subset (by simp)) ht

end Lib.Machine
