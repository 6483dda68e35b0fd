import RelayPubsub.Lib.Text

/-!
# The bytes of a text

UTF-8, as far as a program needs it that joins texts by an ASCII separator and
looks at the bytes of the result: the encoding is injective
(`Lib.asBytes_injective`), and a byte below `0x80` in it is a character of the
text, so that cutting the bytes at a separator is cutting the text
(`Lib.asBytes_eq_append_cons`).
-/

namespace Lib

/-- `as_bytes()`. -/
def asBytes (s : Text) : List UInt8 := s.flatMap String.utf8EncodeChar

@[simp] theorem asBytes_nil : asBytes [] = [] := rfl

@[simp] theorem asBytes_append (s t : Text) : asBytes (s ++ t) = asBytes s ++ asBytes t :=
  List.flatMap_append

theorem asBytes_cons (c : Char) (s : Text) :
    asBytes (c :: s) = String.utf8EncodeChar c ++ asBytes s :=
  List.flatMap_cons

/-- **Two texts with the same bytes are the same.** -/
theorem asBytes_injective : Function.Injective asBytes := by
  intro s t h
  have hb : s.utf8Encode = t.utf8Encode := congrArg List.toByteArray h
  rw [← String.toByteArray_ofList, ← String.toByteArray_ofList, String.toByteArray_inj] at hb
  exact String.ofList_injective hb

theorem not_lt_ofNat {n : ℕ} (hlow : 128 ≤ n) (hhigh : n < 256) : ¬UInt8.ofNat n < 0x80 := by
  rw [UInt8.lt_iff_toNat_lt, UInt8.toNat_ofNat', Nat.mod_eq_of_lt hhigh]
  exact Nat.not_lt.mpr hlow

/-- **A byte below `0x80` is a character**: the bytes of the other characters are
above. -/
theorem utf8EncodeChar_eq_of_mem {c : Char} {b : UInt8} (h : b ∈ String.utf8EncodeChar c)
    (hb : b < 0x80) : String.utf8EncodeChar c = [b] ∧ c.toNat = b.toNat := by
  unfold String.utf8EncodeChar at h ⊢
  dsimp only at h ⊢
  split at h
  · rename_i hc
    obtain rfl := List.mem_singleton.mp h
    rw [if_pos hc, UInt8.toNat_ofNat', Nat.mod_eq_of_lt (Nat.lt_of_le_of_lt hc (by decide))]
    exact ⟨rfl, rfl⟩
  split at h
  · simp only [List.mem_cons, List.not_mem_nil, or_false] at h
    rcases h with rfl | rfl <;> exact absurd hb (not_lt_ofNat (by omega) (by omega))
  split at h
  · simp only [List.mem_cons, List.not_mem_nil, or_false] at h
    rcases h with rfl | rfl | rfl <;> exact absurd hb (not_lt_ofNat (by omega) (by omega))
  · simp only [List.mem_cons, List.not_mem_nil, or_false] at h
    rcases h with rfl | rfl | rfl | rfl <;> exact absurd hb (not_lt_ofNat (by omega) (by omega))

/-- **Cutting the bytes of a text at an ASCII separator** is cutting the text. -/
theorem asBytes_eq_append_cons {c : Char} {b : UInt8} (hc : c.toNat = b.toNat) (hb : b < 0x80)
    {s : Text} {x y : List UInt8} (h : asBytes s = x ++ b :: y) :
    ∃ s₁ s₂, s = s₁ ++ c :: s₂ ∧ asBytes s₁ = x ∧ asBytes s₂ = y := by
  induction s generalizing x with
  | nil => simp at h
  | cons d s ih =>
    rw [asBytes_cons] at h
    rcases List.append_eq_append_iff.mp h with ⟨z, hx, hz⟩ | ⟨z, hd, hz⟩
    · -- the separator is further on
      obtain ⟨s₁, s₂, rfl, rfl, rfl⟩ := ih hz
      exact ⟨d :: s₁, s₂, rfl, by rw [asBytes_cons, hx], rfl⟩
    · cases z with
      | nil =>
        obtain ⟨s₁, s₂, rfl, hs₁, rfl⟩ := ih (x := []) hz.symm
        refine ⟨d :: s₁, s₂, rfl, ?_, rfl⟩
        rw [asBytes_cons, hs₁, hd, List.append_nil, List.append_nil]
      | cons b' z =>
        obtain ⟨rfl, hs⟩ := List.cons.inj hz
        have hmem : b ∈ String.utf8EncodeChar d := by rw [hd]; simp
        obtain ⟨hone, hnat⟩ := utf8EncodeChar_eq_of_mem hmem hb
        rw [hone] at hd
        cases x with
        | nil =>
          obtain ⟨-, rfl⟩ := List.cons.inj hd
          refine ⟨[], s, ?_, rfl, by simpa using hs.symm⟩
          rw [List.nil_append, Char.toNat_inj.mp (hc.trans hnat.symm)]
        | cons a x => simp at hd

end Lib
