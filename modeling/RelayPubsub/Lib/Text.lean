import Mathlib

/-!
# Text as a list of characters

The string operations of the Rust standard library that a request path, a
resource name or an identifier goes through, over `Lib.Text`: a Rust `&str` is
a sequence of Unicode scalar values, which is what a list of `Char` is. The
operations that only compare (`starts_with`, `ends_with`, `contains`) are the
prefix, suffix and infix relations of lists; `split` is `List.splitOn`. The
others are written here, each over an arbitrary alphabet.

| Rust | here |
|---|---|
| `split_once(c)` | `Lib.splitOnce` |
| `strip_prefix(p)` | `List.dropPrefix?` |
| `strip_suffix(p)` | `Lib.stripSuffix?` |
| `trim_start_matches(p)` | `Lib.trimStartMatches` |
| `trim_end_matches(p)` | `Lib.trimEndMatches` |
| `trim()` | `Lib.trim` |
| `to_string()` of an integer | `Lib.decimal` |

The one fact about them that is not bookkeeping is
`Lib.decimal_joined_injective`: a list of numbers written in decimal and joined
by a separator that is no digit can be read back.
-/

namespace Lib

/-- A Rust string: a sequence of Unicode scalar values. -/
abbrev Text : Type := List Char

/-- A string literal read as a text. -/
instance : Coe String Text := ⟨String.toList⟩

instance (s : Text) (l : List Text) : Decidable (s ∈ l) := List.instDecidableMemOfLawfulBEq s l

section Alphabet

variable {α : Type*} [DecidableEq α]

/-- `split_once(c)`: the parts before and after the first `c`. -/
def splitOnce (c : α) : List α → Option (List α × List α)
  | [] => none
  | a :: s => if a = c then some ([], s) else (splitOnce c s).map fun p => (a :: p.1, p.2)

/-- `strip_suffix(pat)`. -/
def stripSuffix? (pat s : List α) : Option (List α) :=
  (s.reverse.dropPrefix? pat.reverse).map List.reverse

/-- Remove `pat` from the front, at most `n` times. -/
def trimStartUpTo (pat : List α) : ℕ → List α → List α
  | 0, s => s
  | n + 1, s =>
    match s.dropPrefix? pat with
    | some r => trimStartUpTo pat n r
    | none => s

/-- `trim_start_matches(pat)`: every leading copy of `pat` removed. A text of
length `n` starts with at most `n` copies of a nonempty pattern. -/
def trimStartMatches (pat s : List α) : List α := trimStartUpTo pat s.length s

/-- `trim_end_matches(pat)`: every trailing copy of `pat` removed. -/
def trimEndMatches (pat s : List α) : List α := (trimStartMatches pat.reverse s.reverse).reverse

end Alphabet

/-- `char::is_whitespace`: the Unicode property `White_Space`. -/
def isWhitespace (c : Char) : Bool :=
  let n := c.toNat
  (0x09 ≤ n ∧ n ≤ 0x0D) ∨ n = 0x20 ∨ n = 0x85 ∨ n = 0xA0 ∨ n = 0x1680 ∨
    (0x2000 ≤ n ∧ n ≤ 0x200A) ∨ n = 0x2028 ∨ n = 0x2029 ∨ n = 0x202F ∨ n = 0x205F ∨ n = 0x3000

/-- `trim_start()`. -/
def trimStart (s : Text) : Text := s.dropWhile isWhitespace

/-- `trim()`. -/
def trim (s : Text) : Text := s.rdropWhile isWhitespace |>.dropWhile isWhitespace

/-- `to_string()` of an unsigned integer. -/
def decimal (n : ℕ) : Text := Nat.toDigits 10 n

/-- `to_ascii_uppercase()`. -/
def toAsciiUppercase (s : Text) : Text := s.map Char.toUpper

/-- `to_ascii_lowercase()`. -/
def toAsciiLowercase (s : Text) : Text := s.map Char.toLower

/-! ### Splitting at the first separator -/

section Split

variable {α : Type*} [DecidableEq α] {c : α}

/-- Nothing is split where the separator does not occur. -/
theorem splitOnce_eq_none {s : List α} (h : c ∉ s) : splitOnce c s = none := by
  induction s with
  | nil => rfl
  | cons a s ih =>
    have hac : a ≠ c := fun hc => h (hc ▸ List.mem_cons_self)
    have hs : c ∉ s := fun hc => h (List.mem_cons_of_mem a hc)
    simp [splitOnce, hac, ih hs]

/-- The split is at the **first** separator. -/
theorem splitOnce_append {a b : List α} (h : c ∉ a) : splitOnce c (a ++ c :: b) = some (a, b) := by
  induction a with
  | nil => simp [splitOnce]
  | cons x a ih =>
    have hxc : x ≠ c := fun hc => h (hc ▸ List.mem_cons_self)
    have ha : c ∉ a := fun hc => h (List.mem_cons_of_mem x hc)
    simp [splitOnce, hxc, ih ha]

/-- The first of several parts ends at a separator. -/
theorem append_of_splitOn {s x y : List α} {l : List (List α)} (h : s.splitOn c = x :: y :: l) :
    ∃ z, s = x ++ c :: z := by
  by_cases hc : c ∈ s
  · obtain ⟨a, b, rfl, ha⟩ := List.eq_append_cons_of_mem hc
    rw [List.splitOn_append_cons_self_of_not_mem ha] at h
    obtain ⟨rfl, -⟩ := List.cons.inj h
    exact ⟨b, rfl⟩
  · rw [List.splitOn_eq_singleton hc] at h
    simp at h

/-- A single part is the whole. -/
theorem eq_of_splitOn_singleton {s x : List α} (h : s.splitOn c = [x]) : s = x := by
  by_cases hc : c ∈ s
  · obtain ⟨a, b, rfl, ha⟩ := List.eq_append_cons_of_mem hc
    rw [List.splitOn_append_cons_self_of_not_mem ha] at h
    exact absurd (List.cons.inj h).2 (List.splitOn_ne_nil _ _)
  · rw [List.splitOn_eq_singleton hc] at h
    exact (List.cons.inj h).1

end Split

/-! ### Trimming the end -/

section Trim

variable {α : Type*} [DecidableEq α] {c : α}

/-- Trimming takes copies of the pattern off the front. -/
theorem trimStartUpTo_induction {pat : List α} {P : List α → Prop}
    (hstep : ∀ s r, P s → s = pat ++ r → P r) (n : ℕ) (s : List α) (hs : P s) :
    P (trimStartUpTo pat n s) := by
  induction n generalizing s with
  | zero => exact hs
  | succ n ih =>
    unfold trimStartUpTo
    split
    · rename_i r hr
      obtain ⟨pat', heq, hpat⟩ := List.dropPrefix?_eq_some_iff.mp hr
      obtain rfl : pat' = pat := by simpa using hpat
      exact ih r (hstep s r hs heq)
    · exact hs

/-- The same, at the end. -/
theorem trimEndMatches_induction {pat : List α} {P : List α → Prop}
    (hstep : ∀ s r, P s → s = r ++ pat → P r) {s : List α} (hs : P s) :
    P (trimEndMatches pat s) := by
  refine trimStartUpTo_induction (P := fun t => P t.reverse) (fun s r hs heq => ?_) _ _
    (by simpa using hs)
  exact hstep s.reverse r.reverse hs (by simp [heq])

/-- **Trimming stops at a character that does not occur in the pattern.** -/
theorem trimEndMatches_keeps {pat : List α} (hc : c ∉ pat) (x y : List α) :
    ∃ y', trimEndMatches pat (x ++ c :: y) = x ++ c :: y' := by
  refine trimEndMatches_induction (P := fun s => ∃ y', s = x ++ c :: y') ?_ ⟨y, rfl⟩
  rintro s r ⟨y', rfl⟩ heq
  rcases List.append_eq_append_iff.mp heq with ⟨m, rfl, hm⟩ | ⟨m, rfl, hm⟩
  · rcases m with - | ⟨b, m⟩
    · rw [List.nil_append] at hm
      exact absurd (hm ▸ List.mem_cons_self) hc
    · obtain ⟨rfl, -⟩ := List.cons.inj hm
      exact ⟨m, rfl⟩
  · rw [hm] at hc
    simp at hc

omit [DecidableEq α] in
/-- What follows the last separator. -/
theorem eq_of_append_cons {x r w q : List α} (hw : c ∉ w) (hq : c ∉ q)
    (h : x ++ c :: w = r ++ c :: q) : w = q := by
  rcases List.append_eq_append_iff.mp h with ⟨m, -, hm⟩ | ⟨m, -, hm⟩ <;>
    rcases m with - | ⟨b, m⟩
  · exact (List.cons.inj hm).2
  · rw [(List.cons.inj hm).2] at hw
    simp at hw
  · exact (List.cons.inj hm).2.symm
  · rw [(List.cons.inj hm).2] at hq
    simp at hq

/-- **Trimming segments stops at another segment.** -/
theorem trimEndMatches_segment {q w : List α} (hq : c ∉ q) (hw : c ∉ w) (hne : w ≠ q)
    (x y : List α) :
    ∃ y', trimEndMatches (c :: q) (x ++ c :: (w ++ c :: y)) = x ++ c :: (w ++ y') := by
  suffices h : ∃ y', trimEndMatches (c :: q) (x ++ c :: (w ++ c :: y)) = x ++ c :: (w ++ y') ∧
      (y' = [] ∨ y'.head? = some c) from h.imp fun _ hy' => hy'.1
  refine trimEndMatches_induction
    (P := fun s => ∃ y', s = x ++ c :: (w ++ y') ∧ (y' = [] ∨ y'.head? = some c)) ?_
    ⟨c :: y, rfl, Or.inr rfl⟩
  rintro s r ⟨y', rfl, hhead⟩ heq
  have heq' : (x ++ c :: w) ++ y' = r ++ c :: q := by simpa using heq
  rcases List.append_eq_append_iff.mp heq' with ⟨m, rfl, hy'⟩ | ⟨m, hm, hy'⟩
  · refine ⟨m, by simp, ?_⟩
    rcases m with - | ⟨b, m⟩
    · exact Or.inl rfl
    · rcases hhead with rfl | hhead
      · simp at hy'
      · rw [hy'] at hhead
        exact Or.inr (by simpa using hhead)
  · -- the pattern reaches into the segment, so it is the segment
    rcases m with - | ⟨b, m⟩
    · exact ⟨[], by simpa using hm.symm, Or.inl rfl⟩
    · obtain ⟨rfl, hq'⟩ := List.cons.inj hy'
      rcases hhead with rfl | hhead
      · obtain rfl : q = m := hq'.trans (List.append_nil m)
        exact absurd (eq_of_append_cons hw hq hm) hne
      · refine absurd ?_ hq
        rw [hq']
        exact List.mem_append_right m (List.mem_of_mem_head? hhead)

end Trim

/-! ### Numbers in decimal -/

/-- A number is read back from its decimal digits. -/
theorem decimal_injective : Function.Injective decimal := by
  intro m n h
  have hm := Nat.ofDigitChars_ten_toDigits (n := m)
  rw [show Nat.toDigits 10 m = Nat.toDigits 10 n from h, Nat.ofDigitChars_ten_toDigits] at hm
  exact hm.symm

theorem decimal_ne_nil (n : ℕ) : decimal n ≠ [] := Nat.toDigits_ne_nil

/-- Decimal digits are digits. -/
theorem isDigit_of_mem_decimal {c : Char} {n : ℕ} (h : c ∈ decimal n) : c.isDigit = true :=
  Nat.isDigit_of_mem_toDigits (by decide) (by decide) h

/-- A character that is no digit does not occur in a number. -/
theorem notMem_decimal {c : Char} (hc : c.isDigit = false) (n : ℕ) : c ∉ decimal n := fun h => by
  rw [isDigit_of_mem_decimal h] at hc
  exact Bool.noConfusion hc

/-- **Two numbers joined by a separator are read back**: the separator is no
digit, so it marks where the first number ends. -/
theorem decimal_joined_injective {c : Char} (hc : c.isDigit = false) {m n m' n' : ℕ}
    (h : decimal m ++ c :: decimal n = decimal m' ++ c :: decimal n') : m = m' ∧ n = n' := by
  have hl := congrArg (splitOnce c) h
  rw [splitOnce_append (notMem_decimal hc m), splitOnce_append (notMem_decimal hc m')] at hl
  obtain ⟨hm, hn⟩ := Prod.mk.inj (Option.some.inj hl)
  exact ⟨decimal_injective hm, decimal_injective hn⟩

end Lib
