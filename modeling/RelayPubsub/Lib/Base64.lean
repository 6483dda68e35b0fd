import RelayPubsub.Lib.Text

/-!
# Base64

The standard encoding of bytes as text, with padding, and its decoder. Three bytes are four
digits of the base 64; what is left at the end, one byte or two, is filled up with zero bits
to two digits or three, and with `=` to four characters. The decoder takes no other text
than an encoding: digits that are left over, bits that are set in what is filled up, and
characters outside the alphabet are errors.
-/

namespace Lib

namespace Base64

/-- The digit for a number below 64: capitals, small letters, decimal digits, and two signs. -/
def digit (n : ℕ) : Char :=
  if n < 26 then Char.ofNat (n + 65)
  else if n < 52 then Char.ofNat (n + 71)
  else if n < 62 then Char.ofNat (n - 4)
  else if n = 62 then '+'
  else '/'

def value? (c : Char) : Option ℕ :=
  let n := c.toNat
  if 65 ≤ n ∧ n ≤ 90 then some (n - 65)
  else if 97 ≤ n ∧ n ≤ 122 then some (n - 71)
  else if 48 ≤ n ∧ n ≤ 57 then some (n + 4)
  else if c = '+' then some 62
  else if c = '/' then some 63
  else none

theorem value?_digit {n : ℕ} (h : n < 64) : value? (digit n) = some n := by
  have hall : ∀ n < 64, value? (digit n) = some n := by decide +kernel
  exact hall n h

theorem digit_ne_pad {n : ℕ} (h : n < 64) : digit n ≠ '=' := by
  intro heq
  have hvalue := value?_digit h
  rw [heq] at hvalue
  exact absurd hvalue (by decide +revert)

/-- The digits of three bytes. -/
def quad (a b c : ℕ) : Text :=
  [digit (a / 4), digit (a % 4 * 16 + b / 16), digit (b % 16 * 4 + c / 64), digit (c % 64)]

end Base64

open Base64

def base64Encode : List UInt8 → Text
  | a :: b :: c :: rest => quad a.toNat b.toNat c.toNat ++ base64Encode rest
  | [a, b] => (quad a.toNat b.toNat 0).take 3 ++ ['=']
  | [a] => (quad a.toNat 0 0).take 2 ++ ['=', '=']
  | [] => []

def base64Decode : Text → Option (List UInt8)
  | [] => some []
  | [w, x, '=', '='] => do
    let w ← value? w
    let x ← value? x
    if x % 16 = 0 then some [UInt8.ofNat (w * 4 + x / 16)] else none
  | [w, x, y, '='] => do
    let w ← value? w
    let x ← value? x
    let y ← value? y
    if y % 4 = 0 then
      some [UInt8.ofNat (w * 4 + x / 16), UInt8.ofNat (x % 16 * 16 + y / 4)]
    else none
  | w :: x :: y :: z :: rest => do
    let w ← value? w
    let x ← value? x
    let y ← value? y
    let z ← value? z
    let bytes ← base64Decode rest
    some (UInt8.ofNat (w * 4 + x / 16) :: UInt8.ofNat (x % 16 * 16 + y / 4) ::
      UInt8.ofNat (y % 4 * 64 + z) :: bytes)
  | _ => none

theorem base64Decode_cons {w x y z : Char} {rest : Text} (hz : z ≠ '=') :
    base64Decode (w :: x :: y :: z :: rest) = (do
      let w ← value? w
      let x ← value? x
      let y ← value? y
      let z ← value? z
      let bytes ← base64Decode rest
      some (UInt8.ofNat (w * 4 + x / 16) :: UInt8.ofNat (x % 16 * 16 + y / 4) ::
        UInt8.ofNat (y % 4 * 64 + z) :: bytes)) := by
  rw [base64Decode]
  · rintro - rfl
    exact absurd rfl hz
  · rintro rfl
    exact absurd rfl hz

/-- The byte whose value a sum of parts is. -/
theorem ofNat_eq_of {n : ℕ} {b : UInt8} (h : n = b.toNat) : UInt8.ofNat n = b := by
  rw [h]
  exact UInt8.ofNat_toNat

/-- **Decoding inverts encoding.** -/
theorem base64Decode_encode (data : List UInt8) : base64Decode (base64Encode data) = some data := by
  fun_induction base64Encode data with
  | case1 a b c rest ih =>
    -- the last digit is no padding, so that there may be more
    have ha := a.toNat_lt
    have hb := b.toNat_lt
    have hc := c.toNat_lt
    show base64Decode (_ :: _ :: _ :: _ :: base64Encode rest) = _
    rw [base64Decode_cons (digit_ne_pad (Nat.mod_lt _ (by decide))), value?_digit (by omega),
      value?_digit (by omega), value?_digit (by omega), value?_digit (by omega), ih]
    show some (_ :: _ :: _ :: rest) = _
    rw [@ofNat_eq_of _ a (by omega), @ofNat_eq_of _ b (by omega), @ofNat_eq_of _ c (by omega)]
  | case2 a b =>
    have ha := a.toNat_lt
    have hb := b.toNat_lt
    show base64Decode [digit _, digit _, digit _, '='] = _
    rw [base64Decode, value?_digit (by omega), value?_digit (by omega), value?_digit (by omega)]
    · show (if _ then some [_, _] else none) = _
      rw [if_pos (by omega), @ofNat_eq_of _ a (by omega), @ofNat_eq_of _ b (by omega)]
    · exact digit_ne_pad (by omega)
  | case3 a =>
    have ha := a.toNat_lt
    show base64Decode [digit _, digit _, '=', '='] = _
    rw [base64Decode, value?_digit (by omega), value?_digit (by omega)]
    show (if _ then some [_] else none) = _
    rw [if_pos (by omega), @ofNat_eq_of _ a (by omega)]
  | case4 => rfl

example : base64Encode [0x4d, 0x61] = "TWE=".toList := by decide

end Lib
