import RelayPubsub.Json

/-!
# JSON values as text

The compact text of a value, as `serde_json::to_string` writes it, and a reader of such texts.
The reader takes no white space, and no number with a fraction or an exponent: it reads the
values that are made of integers (`RelayPubsub.Value.Integral`), and these it reads back from
what is written (`RelayPubsub.Value.ofText_toText`).

| | written | read |
|---|---|---|
| strings | `RelayPubsub.Value.quote` | `RelayPubsub.Value.readString` |
| integers | `RelayPubsub.Number.toText` | `RelayPubsub.Value.readNumber` |
| arrays and objects | `RelayPubsub.Value.joined` | `RelayPubsub.Value.readItems` |
-/

namespace RelayPubsub

open Lib

/-! ### Writing -/

/-- The characters for one character of a string. -/
def Value.escape (c : Char) : Text :=
  if c = '"' then "\\\""
  else if c = '\\' then "\\\\"
  else if c = '\n' then "\\n"
  else if c = '\r' then "\\r"
  else if c = '\t' then "\\t"
  else if c = Char.ofNat 8 then "\\b"
  else if c = Char.ofNat 12 then "\\f"
  else if c.toNat < 32 then
    ['\\', 'u', '0', '0', Nat.digitChar (c.toNat / 16), Nat.digitChar (c.toNat % 16)]
  else [c]

def Value.quote (s : Text) : Text := '"' :: (s.flatMap escape ++ ['"'])

def Number.toText : Number → Text
  | .posInt n => decimal n.toNat
  | .negInt n => '-' :: decimal n.toInt.natAbs
  | .float repr => repr

namespace Value

/-- Texts with commas between them, up to a closing bracket. -/
def joined (close : Char) : List Text → Text
  | [] => [close]
  | [t] => t ++ [close]
  | t :: ts => t ++ ',' :: joined close ts

mutual

/-- **The text of a value.** -/
def toText : Value → Text
  | .null => "null"
  | .bool true => "true"
  | .bool false => "false"
  | .number n => n.toText
  | .string s => quote s
  | .array items => '[' :: joined ']' (itemTexts items)
  | .object fields => '\x7b' :: joined '\x7d' (fieldTexts fields)

def itemTexts : List Value → List Text
  | [] => []
  | v :: items => toText v :: itemTexts items

def fieldTexts : List (Text × Value) → List Text
  | [] => []
  | (key, v) :: fields => (quote key ++ ':' :: toText v) :: fieldTexts fields

end

/-! ### Reading

A reader gives what it has read and the rest of the text. -/

def hexValue (c : Char) : Option ℕ := "0123456789abcdef".toList.idxOf? c

/-- The character of a short escape. -/
def unescape (c : Char) : Option Char :=
  match c with
  | '"' | '\\' | '/' => some c
  | 'n' => some '\n'
  | 'r' => some '\r'
  | 't' => some '\t'
  | 'b' => some (Char.ofNat 8)
  | 'f' => some (Char.ofNat 12)
  | _ => none

/-- The character of four hexadecimal digits. -/
def unicode (w x y z : Char) : Option Char := do
  let w ← hexValue w
  let x ← hexValue x
  let y ← hexValue y
  let z ← hexValue z
  let n := w * 4096 + x * 256 + y * 16 + z
  if n.isValidChar then some (Char.ofNat n) else none

/-- A character in front of what is read. -/
def push (c : Char) (p : Text × Text) : Text × Text := (c :: p.1, p.2)

/-- A string, after its first quotation mark. -/
def readString : Text → Option (Text × Text)
  | [] => none
  | '"' :: r => some ([], r)
  | '\\' :: 'u' :: w :: x :: y :: z :: r =>
    (unicode w x y z).bind fun c => (readString r).map (push c)
  | '\\' :: e :: r => (unescape e).bind fun c => (readString r).map (push c)
  | c :: r => if c.toNat < 32 ∨ c = '\\' then none else (readString r).map (push c)

/-- The number of a sign and digits, if it is written in this way. -/
def integer (negative : Bool) (digits : Text) : Option Number :=
  let n := Nat.ofDigitChars 10 digits 0
  if decimal n ≠ digits then none
  else if negative then
    if 0 < n ∧ n ≤ 2 ^ 63 then some (.negInt (Int64.ofInt (-n))) else none
  else if n < 2 ^ 64 then some (.posInt (UInt64.ofNat n)) else none

/-- An integer, up to what is no digit. -/
def readNumber (s : Text) : Option (Number × Text) :=
  match s with
  | '-' :: s =>
    (integer true (s.takeWhile Char.isDigit)).map fun n => (n, s.dropWhile Char.isDigit)
  | s => (integer false (s.takeWhile Char.isDigit)).map fun n => (n, s.dropWhile Char.isDigit)

/-- One thing or more, with commas between them, up to the closing bracket; there are at most
`fuel`. -/
def readItems {α : Type} (read : Text → Option (α × Text)) (close : Char) :
    ℕ → Text → Option (List α × Text)
  | 0, _ => none
  | fuel + 1, s =>
    (read s).bind fun (a, r) =>
      match r with
      | [] => none
      | c :: r =>
        if c = close then some ([a], r)
        else if c = ',' then (readItems read close fuel r).map fun p => (a :: p.1, p.2)
        else none

/-- A key and what is read after it. -/
def readField {α : Type} (read : Text → Option (α × Text)) : Text → Option ((Text × α) × Text)
  | '"' :: s =>
    (readString s).bind fun (key, r) =>
      match r with
      | ':' :: r => (read r).map fun p => ((key, p.1), p.2)
      | _ => none
  | _ => none

/-- A value, of a text that is no longer than `fuel`. -/
def readValue : ℕ → Text → Option (Value × Text)
  | 0, _ => none
  | fuel + 1, s =>
    match s with
    | 'n' :: 'u' :: 'l' :: 'l' :: r => some (.null, r)
    | 't' :: 'r' :: 'u' :: 'e' :: r => some (.bool true, r)
    | 'f' :: 'a' :: 'l' :: 's' :: 'e' :: r => some (.bool false, r)
    | '"' :: r => (readString r).map fun p => (.string p.1, p.2)
    | '[' :: ']' :: r => some (.array [], r)
    | '[' :: r => (readItems (readValue fuel) ']' fuel r).map fun p => (.array p.1, p.2)
    | '\x7b' :: '\x7d' :: r => some (.object [], r)
    | '\x7b' :: r =>
      (readItems (readField (readValue fuel)) '\x7d' fuel r).map fun p => (.object p.1, p.2)
    | s => (readNumber s).map fun p => (.number p.1, p.2)

/-- **The value of a text.** -/
def ofText (s : Text) : Option Value :=
  match readValue (s.length + 1) s with
  | some (v, []) => some v
  | _ => none

/-! ### What is written is read back -/

/-- **A value without doubles.** -/
inductive Integral : Value → Prop
  | null : Integral .null
  | bool (b : Bool) : Integral (.bool b)
  | posInt (n : UInt64) : Integral (.number (.posInt n))
  | negInt (n : Int64) : n.toInt < 0 → Integral (.number (.negInt n))
  | string (s : Text) : Integral (.string s)
  | array {items : List Value} : (∀ v ∈ items, Integral v) → Integral (.array items)
  | object {fields : List (Text × Value)} : (∀ f ∈ fields, Integral f.2) →
      Integral (.object fields)

theorem hexValue_digitChar {n : ℕ} (h : n < 16) : hexValue (Nat.digitChar n) = some n := by
  have hall : ∀ n < 16, hexValue (Nat.digitChar n) = some n := by decide +kernel
  exact hall n h

/-- A control character is read back from its digits. -/
theorem unicode_control {c : Char} (h : c.toNat < 32) :
    unicode '0' '0' (Nat.digitChar (c.toNat / 16)) (Nat.digitChar (c.toNat % 16)) = some c := by
  have hzero : hexValue '0' = some 0 := rfl
  have hsum : 0 * 4096 + 0 * 256 + c.toNat / 16 * 16 + c.toNat % 16 = c.toNat := by omega
  have hvalid : c.toNat.isValidChar := c.valid
  unfold unicode
  rw [hzero, hexValue_digitChar (by omega), hexValue_digitChar (by omega)]
  show (if (0 * 4096 + 0 * 256 + c.toNat / 16 * 16 + c.toNat % 16).isValidChar then some _
    else none) = some c
  rw [hsum, if_pos hvalid, Char.ofNat_toNat]

theorem readString_escape (c : Char) (r : Text) :
    readString (escape c ++ r) = (readString r).map (push c) := by
  unfold escape
  split_ifs with hquote hslash hnewline hreturn htab hback hfeed hcontrol
  · rw [hquote]
    rfl
  · rw [hslash]
    rfl
  · rw [hnewline]
    rfl
  · rw [hreturn]
    rfl
  · rw [htab]
    rfl
  · rw [hback]
    rfl
  · rw [hfeed]
    rfl
  · show (unicode '0' '0' _ _).bind _ = _
    rw [unicode_control hcontrol]
    rfl
  · -- a character that stands for itself
    show readString (c :: r) = _
    rw [readString, if_neg (by simp [hcontrol, hslash])]
    · exact hquote
    · rintro - - - - - rfl
      exact absurd rfl hslash
    · rintro - - rfl
      exact absurd rfl hslash

/-- **A string is read back.** -/
theorem readString_quote (s r : Text) :
    readString (s.flatMap escape ++ '"' :: r) = some (s, r) := by
  induction s with
  | nil => rfl
  | cons c s ih =>
    rw [List.flatMap_cons, List.append_assoc, readString_escape, ih]
    rfl

/-- The rest of a text begins with what may follow a value. -/
def Ends (r : Text) : Prop := ∀ c ∈ r.head?, c = ',' ∨ c = ']' ∨ c = '\x7d'

/-- The digits of a number end where it does. -/
theorem Ends.digits {r : Text} (h : Ends r) (n : ℕ) :
    (decimal n ++ r).takeWhile Char.isDigit = decimal n ∧
      (decimal n ++ r).dropWhile Char.isDigit = r := by
  have hdigits : ∀ c ∈ decimal n, c.isDigit = true := fun c hc => isDigit_of_mem_decimal hc
  have hstop : ∀ c ∈ r.head?, c.isDigit = false := by
    intro c hc
    rcases h c hc with rfl | rfl | rfl <;> rfl
  rw [List.takeWhile_append_of_pos hdigits, List.dropWhile_append_of_pos hdigits]
  cases r with
  | nil => exact ⟨List.append_nil _, rfl⟩
  | cons c r =>
    have hc : c.isDigit = false := hstop c rfl
    refine ⟨?_, ?_⟩
    · rw [List.takeWhile_cons_of_neg (by simp [hc]), List.append_nil]
    · exact List.dropWhile_cons_of_neg (by simp [hc])

theorem ofDigitChars_decimal (n : ℕ) : Nat.ofDigitChars 10 (decimal n) 0 = n :=
  Nat.ofDigitChars_ten_toDigits

/-- **An integer is read back.** -/
theorem readNumber_toText {n : Number} (h : Integral (.number n)) {r : Text} (hr : Ends r) :
    readNumber (n.toText ++ r) = some (n, r) := by
  cases h with
  | posInt n =>
    obtain ⟨htake, hdrop⟩ := hr.digits n.toNat
    have hinteger : integer false (decimal n.toNat) = some (.posInt n) := by
      unfold integer
      rw [ofDigitChars_decimal]
      simp [n.toNat_lt]
    show readNumber (decimal n.toNat ++ r) = _
    unfold readNumber
    split
    · rename_i s hs
      -- a number without a sign does not begin with one
      obtain ⟨c, ds, hds⟩ := List.exists_cons_of_ne_nil (decimal_ne_nil n.toNat)
      have hc : c.isDigit = true := isDigit_of_mem_decimal (hds ▸ List.mem_cons_self)
      rw [hds] at hs
      obtain rfl : c = '-' := (List.cons.inj hs).1
      exact absurd hc (by decide)
    · rw [htake, hdrop, hinteger]
      rfl
  | negInt n hneg =>
    obtain ⟨htake, hdrop⟩ := hr.digits n.toInt.natAbs
    have hlow := n.le_toInt
    have habs : (-(n.toInt.natAbs : ℤ)) = n.toInt := by omega
    have hinteger : integer true (decimal n.toInt.natAbs) = some (.negInt n) := by
      unfold integer
      rw [ofDigitChars_decimal]
      have hbounds : 0 < n.toInt.natAbs ∧ n.toInt.natAbs ≤ 2 ^ 63 := by omega
      dsimp only
      rw [if_neg (by simp), if_pos rfl, if_pos hbounds, habs, Int64.ofInt_toInt]
    show (integer true ((decimal n.toInt.natAbs ++ r).takeWhile Char.isDigit)).map
      (fun k => (k, (decimal n.toInt.natAbs ++ r).dropWhile Char.isDigit)) = _
    rw [htake, hdrop, hinteger]
    rfl

/-! ### Arrays and objects -/

section Joined

variable {close : Char} {ts : List Text}

theorem joined_cons_cons (t u : Text) :
    joined close (t :: u :: ts) = t ++ ',' :: joined close (u :: ts) := rfl

/-- The first character is that of the first text. -/
theorem joined_eq_cons {t : Text} {c : Char} {s : Text} (ht : t = c :: s) :
    ∃ s', joined close (t :: ts) = c :: s' := by
  subst ht
  cases ts with
  | nil => exact ⟨_, rfl⟩
  | cons u ts => exact ⟨_, rfl⟩

/-- A text is shorter than the texts with their commas and their bracket. -/
theorem length_lt_joined {t : Text} (h : t ∈ ts) : t.length < (joined close ts).length := by
  induction ts with
  | nil => cases h
  | cons u ts ih =>
    cases ts with
    | nil =>
      rw [List.mem_singleton.mp h]
      simp [joined]
    | cons w ts =>
      rw [joined_cons_cons, List.length_append, List.length_cons]
      rcases List.mem_cons.mp h with rfl | h
      · omega
      · have := ih h
        omega

/-- Each text has a comma or the bracket after it. -/
theorem length_le_joined : ts.length ≤ (joined close ts).length := by
  induction ts with
  | nil => exact Nat.zero_le _
  | cons t ts ih =>
    cases ts with
    | nil => simp [joined]
    | cons u ts =>
      simp only [joined_cons_cons, List.length_append, List.length_cons] at ih ⊢
      omega

/-- There is fuel for as many things as are written. -/
theorem length_le_of_joined {α : Type} {write : α → Text} {items : List α} {fuel : ℕ}
    (h : (joined close (items.map write)).length ≤ fuel) : items.length ≤ fuel := by
  rw [← List.length_map write]
  exact length_le_joined.trans h

/-- **Things are read back one by one**, if each is read back in front of a comma and of the
closing bracket. -/
theorem readItems_joined {α : Type} {read : Text → Option (α × Text)} {write : α → Text}
    (hclose : close ≠ ',') {items : List α} (hne : items ≠ [])
    (hread : ∀ a ∈ items, ∀ c r, c = ',' ∨ c = close →
      read (write a ++ c :: r) = some (a, c :: r))
    {fuel : ℕ} (hfuel : items.length ≤ fuel) (r : Text) :
    readItems read close fuel (joined close (items.map write) ++ r) = some (items, r) := by
  -- on the items: each turn of the loop takes one, and one unit of fuel
  induction items generalizing fuel with
  | nil => exact absurd rfl hne
  | cons a items ih =>
    obtain ⟨fuel, rfl⟩ : ∃ k, fuel = k + 1 := ⟨fuel - 1, by simp at hfuel; omega⟩
    have ha := hread a List.mem_cons_self
    cases items with
    | nil =>
      show readItems read close (fuel + 1) (write a ++ [close] ++ r) = _
      rw [List.append_assoc, readItems]
      show (read (write a ++ close :: r)).bind _ = _
      rw [ha close r (Or.inr rfl), Option.bind_some]
      exact if_pos rfl
    | cons b items =>
      have hrest := ih (List.cons_ne_nil b items)
        (fun x hx => hread x (List.mem_cons_of_mem a hx)) (Nat.le_of_succ_le_succ hfuel)
      rw [List.map_cons, List.map_cons, joined_cons_cons, List.append_assoc, readItems]
      show (read (write a ++ ',' :: (joined close (write b :: items.map write) ++ r))).bind _ = _
      rw [ha ',' _ (Or.inl rfl), Option.bind_some]
      show (if ',' = close then _ else if ',' = ',' then _ else none) = _
      rw [if_neg hclose.symm, if_pos rfl]
      rw [List.map_cons] at hrest
      rw [hrest]
      rfl

end Joined

theorem itemTexts_eq (items : List Value) : itemTexts items = items.map toText := by
  induction items with
  | nil => rfl
  | cons v items ih => rw [itemTexts, ih, List.map_cons]

/-- The text of a field. -/
def fieldText (f : Text × Value) : Text := quote f.1 ++ ':' :: toText f.2

theorem fieldTexts_eq (fields : List (Text × Value)) :
    fieldTexts fields = fields.map fieldText := by
  induction fields with
  | nil => rfl
  | cons f fields ih =>
    obtain ⟨key, v⟩ := f
    rw [fieldTexts, ih, List.map_cons, fieldText]

/-- A field is read back if its value is. -/
theorem readField_fieldText {read : Text → Option (Value × Text)} {f : Text × Value} {r : Text}
    (h : read (toText f.2 ++ r) = some (f.2, r)) :
    readField read (fieldText f ++ r) = some (f, r) := by
  rw [fieldText, quote, List.cons_append, List.cons_append, List.append_assoc, List.append_assoc,
    readField]
  show ((readString (f.1.flatMap escape ++ '"' :: (':' :: (toText f.2 ++ r)))).bind _) = _
  rw [readString_quote, Option.bind_some]
  show (read (toText f.2 ++ r)).map _ = _
  rw [h]
  rfl

/-- A value does not begin with a bracket that closes an array. -/
theorem toText_ne_close {v : Value} (h : Integral v) :
    ∃ c s, toText v = c :: s ∧ c ≠ ']' := by
  cases h with
  | null => exact ⟨'n', "ull", rfl, by decide⟩
  | bool b =>
    cases b with
    | false => exact ⟨'f', "alse", rfl, by decide⟩
    | true => exact ⟨'t', "rue", rfl, by decide⟩
  | posInt n =>
    obtain ⟨c, ds, hds⟩ := List.exists_cons_of_ne_nil (decimal_ne_nil n.toNat)
    refine ⟨c, ds, hds, ?_⟩
    rintro rfl
    have hc : (']').isDigit = true := isDigit_of_mem_decimal (hds ▸ List.mem_cons_self)
    exact absurd hc (by decide)
  | negInt n _ => exact ⟨'-', _, rfl, by decide⟩
  | string s => exact ⟨'"', _, rfl, by decide⟩
  | array _ => exact ⟨'[', _, by rw [toText], by decide⟩
  | object _ => exact ⟨'\x7b', _, by rw [toText], by decide⟩

/-- What is no other value is a number. -/
theorem readValue_of_number {c : Char} (hc : c.isDigit = true ∨ c = '-') (fuel : ℕ) (s : Text) :
    readValue (fuel + 1) (c :: s) = (readNumber (c :: s)).map fun p => (.number p.1, p.2) := by
  have hne : ∀ d, d.isDigit = false → d ≠ '-' → c ≠ d := by
    rintro d hdigit hminus rfl
    rcases hc with hc | hc
    · rw [hdigit] at hc
      cases hc
    · exact hminus hc
  rw [readValue]
  all_goals
    intro r heq
    exact hne _ (by decide) (by decide) (List.cons.inj heq).1

/-- **A value is read back** in front of what may follow it. -/
theorem readValue_toText {v : Value} (h : Integral v) {fuel : ℕ}
    (hfuel : (toText v).length ≤ fuel + 1) {r : Text} (hr : Ends r) :
    readValue (fuel + 1) (toText v ++ r) = some (v, r) := by
  induction h generalizing fuel r with
  | null => rfl
  | bool b => cases b <;> rfl
  | posInt n =>
    -- the first digit tells that it is a number
    obtain ⟨c, ds, hds⟩ := List.exists_cons_of_ne_nil (decimal_ne_nil n.toNat)
    have hc : c.isDigit = true := isDigit_of_mem_decimal (hds ▸ List.mem_cons_self)
    have hread := readNumber_toText (.posInt n) hr
    rw [Number.toText, hds] at hread
    rw [toText, Number.toText, hds, List.cons_append, readValue_of_number (Or.inl hc),
      ← List.cons_append, hread]
    rfl
  | negInt n hneg =>
    have hread := readNumber_toText (.negInt n hneg) hr
    rw [Number.toText] at hread
    rw [toText, Number.toText, List.cons_append, readValue_of_number (Or.inr rfl),
      ← List.cons_append, hread]
    rfl
  | string s =>
    rw [toText, quote, List.cons_append, List.append_assoc, readValue]
    show (readString (s.flatMap escape ++ '"' :: r)).map _ = _
    rw [readString_quote]
    rfl
  | @array items hitems ih =>
    rw [toText, itemTexts_eq, List.length_cons, Nat.add_le_add_iff_right] at hfuel
    cases items with
    | nil => rfl
    | cons v items =>
      have hshort : ∀ x ∈ v :: items, (toText x).length < fuel := fun x hx =>
        (length_lt_joined (List.mem_map_of_mem hx)).trans_le hfuel
      have hcount := length_le_of_joined hfuel
      -- the induction hypothesis speaks of a value for which there is fuel
      obtain ⟨fuel, rfl⟩ : ∃ k, fuel = k + 1 :=
        Nat.exists_eq_succ_of_ne_zero (Nat.ne_zero_of_lt (hshort v List.mem_cons_self))
      have hread : readItems (readValue (fuel + 1)) ']' (fuel + 1)
          (joined ']' ((v :: items).map toText) ++ r) = some (v :: items, r) := by
        refine readItems_joined (by decide) (List.cons_ne_nil v items) (fun x hx c r hc => ?_)
          hcount r
        refine ih x hx (hshort x hx).le ?_
        rintro _ ⟨⟩
        exact hc.imp_right Or.inl
      -- the array is not empty
      obtain ⟨c, s, hs, hc⟩ := toText_ne_close (hitems v List.mem_cons_self)
      obtain ⟨s', hs'⟩ : ∃ s', joined ']' ((v :: items).map toText) = c :: s' :=
        joined_eq_cons hs
      rw [hs'] at hread
      rw [toText, itemTexts_eq, List.cons_append, hs', readValue, hread]
      · rfl
      · rintro r' heq
        exact hc (List.cons.inj heq).1
  | @object fields hfields ih =>
    rw [toText, fieldTexts_eq, List.length_cons, Nat.add_le_add_iff_right] at hfuel
    cases fields with
    | nil => rfl
    | cons f fields =>
      have hshort : ∀ x ∈ f :: fields, (toText x.2).length < fuel := fun x hx => by
        have htext : (fieldText x).length < _ :=
          (length_lt_joined (List.mem_map_of_mem hx)).trans_le hfuel
        rw [fieldText, List.length_append, List.length_cons] at htext
        omega
      have hcount := length_le_of_joined hfuel
      obtain ⟨fuel, rfl⟩ : ∃ k, fuel = k + 1 :=
        Nat.exists_eq_succ_of_ne_zero (Nat.ne_zero_of_lt (hshort f List.mem_cons_self))
      have hread : readItems (readField (readValue (fuel + 1))) '\x7d' (fuel + 1)
          (joined '\x7d' ((f :: fields).map fieldText) ++ r) = some (f :: fields, r) := by
        refine readItems_joined (by decide) (List.cons_ne_nil f fields) (fun x hx c r hc => ?_)
          hcount r
        refine readField_fieldText (ih x hx (hshort x hx).le ?_)
        rintro _ ⟨⟩
        exact hc.imp_right Or.inr
      obtain ⟨s', hs'⟩ : ∃ s', joined '\x7d' ((f :: fields).map fieldText) = '"' :: s' :=
        joined_eq_cons rfl
      rw [hs'] at hread
      rw [toText, fieldTexts_eq, List.cons_append, hs', readValue, hread]
      · rfl
      · rintro r' heq
        exact absurd (List.cons.inj heq).1 (by decide)

/-- **Reading inverts writing** on values without doubles. -/
theorem ofText_toText {v : Value} (h : Integral v) : ofText (toText v) = some v := by
  have hread := readValue_toText h (Nat.le_succ _) (r := []) (by simp [Ends])
  rw [List.append_nil] at hread
  rw [ofText, hread]

/-- An object with an empty list and a string with a line break. -/
example : toText (.object [("a".toList, .array []), ("b".toList, .string "\n")]) =
    "\x7b\"a\":[],\"b\":\"\\n\"\x7d".toList := by decide +kernel

/-- The value of a text, or the error that there is none. -/
def fromText (s : Text) : Except Text Value :=
  match ofText s with
  | some v => .ok v
  | none => .error "expected value at line 1 column 1"

theorem fromText_toText {v : Value} (h : Integral v) : fromText (toText v) = .ok v := by
  rw [fromText, ofText_toText h]

end Value

/-- A parser of compact texts, in ASCII where they are bytes. -/
def compactJson : SerdeJson where
  fromSlice bytes :=
    if bytes.all (· < 0x80) then Value.fromText (bytes.map fun b => Char.ofNat b.toNat)
    else .error "invalid unicode code point at line 1 column 1"
  fromStr := Value.fromText

end RelayPubsub
