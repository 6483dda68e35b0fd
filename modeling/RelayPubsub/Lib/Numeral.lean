import RelayPubsub.Lib.Text

/-!
# Numbers read from text

What `str::parse` of the Rust standard library accepts, and the value it gives:
an integer is an optional sign and decimal digits, and must fit its type; an
`f64` is a decimal number, an infinity or a NaN, rounded to the nearest double
with ties to even.

| Rust | here |
|---|---|
| `parse::<i32>()` | `Lib.parseI32` |
| `parse::<usize>()` | `Lib.parseUsize` |
| `parse::<f64>()` | `Lib.parseF64` |
| `v.max(0.0) as u32` | `Lib.F64.toU32` |
-/

namespace Lib

/-! ### Integers -/

/-- A nonempty sequence of decimal digits. -/
def parseDigits (s : Text) : Option ℕ :=
  if s ≠ [] ∧ s.all Char.isDigit then some (Nat.ofDigitChars 10 s 0) else none

/-- An optional sign: whether it is a minus, and the rest. -/
def splitSign : Text → Bool × Text
  | '+' :: s => (false, s)
  | '-' :: s => (true, s)
  | s => (false, s)

def parseInt (s : Text) : Option ℤ :=
  (parseDigits (splitSign s).2).map fun n => if (splitSign s).1 then -n else n

def parseI32 (s : Text) : Option Int32 :=
  (parseInt s).bind fun n => if -2 ^ 31 ≤ n ∧ n < 2 ^ 31 then some (Int32.ofInt n) else none

/-- An unsigned number takes no minus sign; a `usize` has 64 bits. -/
def parseUsize (s : Text) : Option ℕ :=
  (parseDigits (match s with | '+' :: s => s | s => s)).filter fun n => decide (n < 2 ^ 64)

/-- A number written in decimal is read back. -/
theorem parseUsize_decimal {n : ℕ} (h : n < 2 ^ 64) : parseUsize (decimal n) = some n := by
  have hdigits : ∀ c ∈ decimal n, c.isDigit = true := fun c hc => isDigit_of_mem_decimal hc
  have hplus : (match decimal n with | '+' :: s => s | s => s) = decimal n := by
    split
    · rename_i s heq
      exact absurd (hdigits '+' (heq ▸ List.mem_cons_self)) (by decide)
    · rfl
  unfold parseUsize
  rw [hplus, parseDigits, if_pos ⟨decimal_ne_nil n, List.all_eq_true.mpr hdigits⟩, decimal,
    Nat.ofDigitChars_ten_toDigits, Option.filter_some, if_pos (decide_eq_true h)]

/-! ### Doubles -/

/-- An `f64`, up to the sign of zero. -/
inductive F64 where
  | nan
  | infinite (negative : Bool)
  | finite (x : ℚ)

/-- The nearest integer; the even one of two that are equally near. -/
def roundHalfEven (x : ℚ) : ℤ :=
  let n := ⌊x⌋
  if x - n < 1 / 2 ∨ (x - n = 1 / 2 ∧ n % 2 = 0) then n else n + 1

/-- **The nearest double**: 53 significant bits, of which the last is worth at
least `2 ^ (-1074)`. -/
def roundF64 (x : ℚ) : F64 :=
  let ulp : ℚ := 2 ^ max (Int.log 2 |x| - 52) (-1074)
  let y := roundHalfEven (x / ulp) * ulp
  if 2 ^ 1024 ≤ |y| then .infinite (decide (y < 0)) else .finite y

/-- A decimal number without a sign: digits with at most one point among them,
and an exponent. -/
def parseDecimal (s : Text) : Option ℚ :=
  let beforeExp (c : Char) : Bool := c ≠ 'e' ∧ c ≠ 'E'
  let mantissa := s.takeWhile beforeExp
  let exponent : Option ℤ :=
    match s.dropWhile beforeExp with
    | [] => some 0
    | _ :: e => parseInt e
  let whole := mantissa.takeWhile (· ≠ '.')
  let fraction := (mantissa.dropWhile (· ≠ '.')).drop 1
  (parseDigits (whole ++ fraction)).bind fun n =>
    exponent.map fun e => (n : ℚ) * 10 ^ (e - (fraction.length : ℤ))

def parseF64 (s : Text) : Option F64 :=
  let (negative, digits) := splitSign s
  let word := toAsciiLowercase digits
  if word = "nan".toList then some .nan
  else if word = "inf".toList ∨ word = "infinity".toList then some (.infinite negative)
  else (parseDecimal digits).map fun x => roundF64 (if negative then -x else x)

/-- `v.max(0.0) as u32`: the cast truncates, and saturates. -/
def F64.toU32 : F64 → UInt32
  | .nan => 0
  | .infinite negative => if negative then 0 else UInt32.ofNat (2 ^ 32 - 1)
  | .finite x => UInt32.ofNat (min ⌊max x 0⌋.toNat (2 ^ 32 - 1))

/-- An integer is its own nearest integer. -/
theorem roundHalfEven_intCast (n : ℤ) : roundHalfEven n = n := by
  simp [roundHalfEven]

/-- A number of 53 bits is a double. -/
theorem roundF64_natCast {n : ℕ} (h : n < 2 ^ 53) : roundF64 n = .finite n := by
  have hlog : Int.log 2 (n : ℚ) ≤ 52 := by
    rw [Int.log_natCast]
    rcases Nat.eq_zero_or_pos n with rfl | hn
    · simp
    · have := (Nat.log_lt_iff_lt_pow (by norm_num) hn.ne').mpr h
      omega
  obtain ⟨k, hk⟩ : ∃ k : ℕ, max (Int.log 2 |(n : ℚ)| - 52) (-1074) = -(k : ℤ) := by
    rw [Nat.abs_cast]
    exact ⟨(-max (Int.log 2 (n : ℚ) - 52) (-1074)).toNat, by omega⟩
  have hy : roundHalfEven ((n : ℚ) / 2 ^ (-(k : ℤ))) * (2 : ℚ) ^ (-(k : ℤ)) = n := by
    have hint : (n : ℚ) / 2 ^ (-(k : ℤ)) = ((n * 2 ^ k : ℕ) : ℤ) := by
      rw [zpow_neg, div_inv_eq_mul, zpow_natCast]
      push_cast
      rfl
    rw [hint, roundHalfEven_intCast, ← hint]
    exact div_mul_cancel₀ _ (zpow_ne_zero _ (by norm_num))
  have hsmall : ¬(2 : ℚ) ^ 1024 ≤ |(n : ℚ)| := by
    rw [Nat.abs_cast, not_le]
    calc (n : ℚ) < 2 ^ 53 := by exact_mod_cast h
      _ ≤ 2 ^ 1024 := pow_le_pow_right₀ (by norm_num) (by norm_num)
  unfold roundF64
  rw [hk]
  dsimp only
  rw [hy, if_neg hsmall]

/-- A digit is no letter. -/
theorem toLower_of_isDigit {c : Char} (h : c.isDigit = true) : c.toLower = c := by
  unfold Char.toLower
  refine dif_neg ?_
  rintro ⟨hletter, -⟩
  simp only [Char.isDigit, Bool.and_eq_true, decide_eq_true_eq, UInt32.le_iff_toNat_le,
    ge_iff_le] at h hletter
  simp at h hletter
  omega

/-- **A number written in decimal is read as the nearest double.** -/
theorem parseF64_decimal_eq (n : ℕ) : parseF64 (decimal n) = some (roundF64 n) := by
  have hdigits : ∀ c ∈ decimal n, c.isDigit = true := fun c hc => isDigit_of_mem_decimal hc
  have hsign : splitSign (decimal n) = (false, decimal n) := by
    unfold splitSign
    split
    · rename_i s heq
      exact absurd (hdigits '+' (heq ▸ List.mem_cons_self)) (by decide)
    · rename_i s heq
      exact absurd (hdigits '-' (heq ▸ List.mem_cons_self)) (by decide)
    · rfl
  have hlower : toAsciiLowercase (decimal n) = decimal n :=
    (List.map_congr_left fun c hc => toLower_of_isDigit (hdigits c hc)).trans (List.map_id _)
  have hword : ∀ w : Text, (∃ c ∈ w, c.isDigit = false) → decimal n ≠ w := by
    rintro w ⟨c, hc, hdigit⟩ rfl
    exact notMem_decimal hdigit n hc
  have hdec : parseDecimal (decimal n) = some (n : ℚ) := by
    have htake : ∀ p : Char → Bool, (∀ c, c.isDigit = true → p c = true) →
        (decimal n).takeWhile p = decimal n ∧ (decimal n).dropWhile p = [] := fun p hp =>
      ⟨List.takeWhile_eq_self_iff.mpr fun c hc => hp c (hdigits c hc),
        List.dropWhile_eq_nil_iff.mpr fun c hc => hp c (hdigits c hc)⟩
    have hexp := htake (fun c => decide (c ≠ 'e' ∧ c ≠ 'E')) (by
      intro c hc
      refine decide_eq_true ⟨?_, ?_⟩ <;> rintro rfl <;> exact absurd hc (by decide))
    have hpoint := htake (fun c => decide (c ≠ '.')) (by
      intro c hc
      refine decide_eq_true ?_
      rintro rfl
      exact absurd hc (by decide))
    have hparse : parseDigits (decimal n) = some n := by
      rw [parseDigits, if_pos ⟨decimal_ne_nil n, List.all_eq_true.mpr hdigits⟩, decimal,
        Nat.ofDigitChars_ten_toDigits]
    unfold parseDecimal
    dsimp only
    rw [hexp.1, hexp.2, hpoint.1, hpoint.2]
    simp [hparse]
  unfold parseF64
  rw [hsign]
  dsimp only
  rw [hlower, if_neg (hword _ ⟨'n', by decide, by decide⟩), if_neg, hdec]
  · simp
  · rintro (heq | heq)
    · exact hword _ ⟨'i', by decide, by decide⟩ heq
    · exact hword _ ⟨'i', by decide, by decide⟩ heq

/-- The cast of an integer. -/
theorem toU32_finite (n : ℕ) : (F64.finite n).toU32 = UInt32.ofNat (min n (2 ^ 32 - 1)) := by
  have hfloor : ⌊max (n : ℚ) 0⌋.toNat = n := by
    rw [max_eq_left (Nat.cast_nonneg n), Int.floor_natCast, Int.toNat_natCast]
  rw [F64.toU32, hfloor]

/-- Rounding does not go below an integer. -/
theorem le_roundHalfEven {x : ℚ} {m : ℤ} (h : m ≤ x) : m ≤ roundHalfEven x := by
  have hfloor : m ≤ ⌊x⌋ := Int.le_floor.mpr h
  unfold roundHalfEven
  dsimp only
  split_ifs
  · exact hfloor
  · omega

/-- The cast of a number that is too great is the greatest `u32`, also where it is rounded. -/
theorem toU32_roundF64_of_le {n : ℕ} (h : 2 ^ 53 ≤ n) :
    (roundF64 n).toU32 = UInt32.ofNat (2 ^ 32 - 1) := by
  have hn : n ≠ 0 := by
    rintro rfl
    exact absurd h (by decide)
  have hlog : 53 ≤ Nat.log 2 n := Nat.le_log_of_pow_le (by norm_num) h
  have hk : max (Int.log 2 |(n : ℚ)| - 52) (-1074) = ((Nat.log 2 n - 52 : ℕ) : ℤ) := by
    rw [Nat.abs_cast, Int.log_natCast]
    omega
  set ulp : ℚ := 2 ^ (Nat.log 2 n - 52) with hulp
  have hone : (1 : ℚ) ≤ ulp := one_le_pow₀ (by norm_num)
  have hquot : ((2 ^ 52 : ℤ) : ℚ) ≤ n / ulp := by
    have hpow : 2 ^ 52 * 2 ^ (Nat.log 2 n - 52) ≤ n := by
      rw [← pow_add, show 52 + (Nat.log 2 n - 52) = Nat.log 2 n by omega]
      exact Nat.pow_log_le_self 2 hn
    rw [le_div_iff₀ (by positivity), hulp]
    exact_mod_cast hpow
  -- the double is at least the number of steps up to it
  have hround : (2 ^ 52 : ℚ) ≤ roundHalfEven (n / ulp) * ulp := by
    have hsteps : ((2 ^ 52 : ℤ) : ℚ) ≤ roundHalfEven (n / ulp) := by
      exact_mod_cast le_roundHalfEven hquot
    calc (2 ^ 52 : ℚ) = ((2 ^ 52 : ℤ) : ℚ) * 1 := by norm_num
      _ ≤ roundHalfEven (n / ulp) * ulp := by gcongr
  unfold roundF64
  rw [hk, zpow_natCast]
  dsimp only
  rw [← hulp]
  generalize (roundHalfEven (n / ulp) : ℚ) * ulp = y at hround
  have hpos : (0 : ℚ) ≤ y := le_trans (by positivity) hround
  split_ifs with hinf
  · rw [F64.toU32, if_neg (by simpa using hpos)]
  · have hfloor : (2 ^ 52 : ℤ) ≤ ⌊y⌋ := Int.le_floor.mpr (by exact_mod_cast hround)
    rw [F64.toU32, max_eq_left hpos, min_eq_right (by omega)]

/-- **An integer read as a double is capped at the greatest `u32`.** -/
theorem toU32_roundF64 (n : ℕ) : (roundF64 n).toU32.toNat = min n (2 ^ 32 - 1) := by
  have hcast : (roundF64 n).toU32 = UInt32.ofNat (min n (2 ^ 32 - 1)) := by
    by_cases hexact : n < 2 ^ 53
    · rw [roundF64_natCast hexact, toU32_finite]
    · rw [toU32_roundF64_of_le (by omega), min_eq_right (by omega)]
  have hlt : min n (2 ^ 32 - 1) < UInt32.size := by
    show min n (2 ^ 32 - 1) < 2 ^ 32
    omega
  rw [hcast, UInt32.toNat_ofNat_of_lt' hlt]

end Lib
