import Mathlib.Data.Finset.Lattice.Fold

/-!
# Overwriting the fields of a record

A record of which some fields are overwritten with those of another. Which fields a record
has is left open: all that is asked of the operation is that overwriting no field changes
nothing, and that overwriting twice from the same record overwrites the fields of both times
(`Lib.Overwrite`). So an interpreter that overwrites, for each word of a list, the fields that
the word names, overwrites the fields that are named by any of them
(`Lib.Overwrite.foldl_write`): neither their order nor repetitions make a difference.
-/

namespace Lib

/-- **Overwriting**: `write p s t` is the record `s`, with the fields in the set `p` taken
from `t`. -/
structure Overwrite (P S : Type*) [SemilatticeSup P] [OrderBot P] where
  write : P → S → S → S
  write_bot : ∀ s t, write ⊥ s t = s
  write_write : ∀ p q s t, write q (write p s t) t = write (p ⊔ q) s t

namespace Overwrite

variable {P S A : Type*} [SemilatticeSup P] [OrderBot P] [DecidableEq A] (o : Overwrite P S)

/-- Overwriting the same fields again changes nothing. -/
theorem write_idem (p : P) (s t : S) : o.write p (o.write p s t) t = o.write p s t := by
  rw [o.write_write, sup_idem]

/-- **Word by word**, the fields of all words are overwritten. -/
theorem foldl_write (named : A → P) (t : S) (words : List A) :
    ∀ s, words.foldl (fun s a => o.write (named a) s t) s =
      o.write (words.toFinset.sup named) s t := by
  induction words with
  | nil =>
    intro s
    rw [List.foldl_nil, List.toFinset_nil, Finset.sup_empty, o.write_bot]
  | cons a words ih =>
    intro s
    rw [List.foldl_cons, ih, List.toFinset_cons, Finset.sup_insert, o.write_write]

end Overwrite

end Lib
