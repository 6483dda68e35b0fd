import RelayPubsub.Filter.Render

/-!
# Filters composed as text

A filter that is accepted is accepted as a part of a greater one, in parentheses, with the
same meaning (`RelayPubsub.AttributeFilter.parse_composes`). The parser has no tokens: at
every step it looks at the text that is still to be read, which goes on beyond the part. So
what is shown is that a closing parenthesis hides everything after it.

A parser whose text goes on with blanks and a closing parenthesis, `RelayPubsub.ClosedBy`,
reads what it reads without them. Of the things the parser looks for, none but the closing
parenthesis itself contains one or a blank, so that none begins in the part and ends beyond
it (`RelayPubsub.ClosedBy.prefix_iff`); no attribute name goes on with one; and a quoted
string that is closed within the part ends there. The recursion may use more fuel than it
needs (`RelayPubsub.goesAsFar_parse`).
-/

namespace RelayPubsub

open Lib RelayPubsub.Parser

/-! ### Before a closing parenthesis -/

/-- **The second parser reads the text of the first, and blanks, a closing parenthesis and
`r` after it.** The numbers of bytes read may differ. -/
def ClosedBy (r : Text) (p p' : Parser) : Prop :=
  ∃ w, Blank w ∧ p'.rest = p.rest ++ (w ++ ')' :: r)

/-- No blank and no closing parenthesis is in the text. -/
def Solid (s : Text) : Prop := ∀ c ∈ s, isWhitespace c = false ∧ c ≠ ')'

instance (s : Text) : Decidable (Solid s) := List.decidableBAll _ s

section Closed

variable {r s : Text} {p p' q : Parser} {key value : Text} {e : Expr}

/-- What follows begins with a blank or the parenthesis. -/
theorem head_of_blank {w : Text} (hw : Blank w) {c : Char} {x : Text}
    (h : w ++ ')' :: r = c :: x) : isWhitespace c = true ∨ c = ')' := by
  rcases w with - | ⟨d, w⟩
  · exact Or.inr (List.cons.inj h).1.symm
  · obtain ⟨rfl, -⟩ := List.cons.inj h
    exact Or.inl (hw d List.mem_cons_self)

theorem ClosedBy.skipWs (h : ClosedBy r p p') : ClosedBy r p.skipWs p'.skipWs := by
  obtain ⟨w, hw, hrest⟩ := h
  have hstop : (w ++ ')' :: r).dropWhile isWhitespace = ')' :: r := by
    rw [List.dropWhile_append_of_pos hw]
    exact List.dropWhile_cons_of_neg (by decide)
  unfold ClosedBy
  rw [rest_skipWs, rest_skipWs, hrest, List.dropWhile_append]
  split
  · rename_i hempty
    rw [List.isEmpty_iff] at hempty
    exact ⟨[], fun c hc => absurd hc List.not_mem_nil, by rw [hempty, hstop]; rfl⟩
  · exact ⟨w, hw, rfl⟩

theorem ClosedBy.advance (h : ClosedBy r p p') {n : ℕ} (hn : n ≤ p.rest.length) :
    ClosedBy r (p.advance n) (p'.advance n) := by
  obtain ⟨w, hw, hrest⟩ := h
  refine ⟨w, hw, ?_⟩
  simp only [Parser.advance, hrest, List.drop_append_of_le_length hn]

/-- **What contains neither a blank nor a closing parenthesis** comes next in both, or in
neither. -/
theorem ClosedBy.prefix_iff (h : ClosedBy r p p')
    (hs : Solid s) : s <+: p'.rest ↔ s <+: p.rest := by
  obtain ⟨w, hw, hrest⟩ := h
  rw [hrest]
  refine ⟨fun hbegins => ?_, fun hbegins => hbegins.trans (List.prefix_append _ _)⟩
  rcases List.prefix_or_prefix_of_prefix hbegins (List.prefix_append p.rest _) with hin | hout
  · exact hin
  -- what it has beyond the text begins with a blank or the parenthesis
  obtain ⟨y, rfl⟩ := hout
  rcases y with - | ⟨c, y⟩
  · rw [List.append_nil]
  · obtain ⟨x, hx⟩ := (List.prefix_append_right_inj p.rest).mp hbegins
    obtain ⟨hblank, hparen⟩ := hs c (by simp)
    rcases head_of_blank hw hx.symm with hc | hc
    · rw [hblank] at hc
      cases hc
    · exact absurd hc hparen

theorem ClosedBy.eat (h : ClosedBy r p p') (hs : Solid s)
    {b : Bool} (hp : p.eat s = (b, q)) : ∃ q', p'.eat s = (b, q') ∧ ClosedBy r q q' := by
  have hiff := h.skipWs.prefix_iff hs
  unfold Parser.eat at hp ⊢
  dsimp only at hp ⊢
  split_ifs at hp with hbegins
  · obtain ⟨rfl, rfl⟩ := Prod.mk.inj hp
    rw [if_pos (hiff.mpr hbegins)]
    exact ⟨_, rfl, h.skipWs.advance hbegins.length_le⟩
  · obtain ⟨rfl, rfl⟩ := Prod.mk.inj hp
    rw [if_neg (hiff.not.mpr hbegins)]
    exact ⟨_, rfl, h.skipWs⟩

theorem ClosedBy.expect (h : ClosedBy r p p') (hs : Solid s)
    (hp : p.expect s = .ok q) : ∃ q', p'.expect s = .ok q' ∧ ClosedBy r q q' := by
  unfold Parser.expect at hp
  split at hp
  · rename_i q₀ heat
    cases hp
    obtain ⟨q', hq', hclosed⟩ := h.eat hs heat
    exact ⟨q', by rw [Parser.expect, hq'], hclosed⟩
  · cases hp

/-- A closing parenthesis within the text is read as well. -/
theorem ClosedBy.expect_paren (h : ClosedBy r p p') (hp : p.expect ")" = .ok q) :
    ∃ q', p'.expect ")" = .ok q' ∧ ClosedBy r q q' := by
  unfold Parser.expect Parser.eat at hp ⊢
  dsimp only at hp ⊢
  by_cases hbegins : (")" : Text) <+: p.skipWs.rest
  · rw [if_pos hbegins] at hp
    obtain rfl := Except.ok.inj hp
    have hbegins' : (")" : Text) <+: p'.skipWs.rest := by
      obtain ⟨w, -, hrest⟩ := h.skipWs
      rw [hrest]
      exact hbegins.trans (List.prefix_append _ _)
    rw [if_pos hbegins']
    exact ⟨_, rfl, h.skipWs.advance hbegins.length_le⟩
  · rw [if_neg hbegins] at hp
    cases hp

/-- A name ends before what follows. -/
theorem ClosedBy.parseIdent (h : ClosedBy r p p') (hp : p.parseIdent = .ok (key, q)) :
    ∃ q', p'.parseIdent = .ok (key, q') ∧ ClosedBy r q q' := by
  have hsame : p'.skipWs.rest.takeWhile isIdentChar = p.skipWs.rest.takeWhile isIdentChar := by
    obtain ⟨w, hw, hrest⟩ := h.skipWs
    have hstop : (w ++ ')' :: r).takeWhile isIdentChar = [] := by
      rcases hnext : w ++ ')' :: r with - | ⟨c, x⟩
      · rfl
      refine List.takeWhile_cons_of_neg ?_
      rcases head_of_blank hw hnext with hc | rfl
      · simp [isIdentChar_of_isWhitespace hc]
      · decide
    rw [hrest, List.takeWhile_append, hstop, List.append_nil]
    split_ifs with hall
    · exact ((List.takeWhile_prefix _).eq_of_length hall).symm
    · rfl
  unfold Parser.parseIdent at hp ⊢
  dsimp only at hp ⊢
  rw [hsame]
  split at hp
  · cases hp
  · rename_i hne
    obtain ⟨rfl, rfl⟩ := Prod.mk.inj (Except.ok.inj hp)
    rw [if_neg hne]
    exact ⟨_, rfl, h.skipWs.advance (List.takeWhile_prefix _).length_le⟩

theorem ClosedBy.parseAttrField (h : ClosedBy r p p') (hp : p.parseAttrField = .ok (key, q)) :
    ∃ q', p'.parseAttrField = .ok (key, q') ∧ ClosedBy r q q' := by
  obtain ⟨p₁, h₁, hp⟩ := exists_of_bind_ok hp
  obtain ⟨p₁', h₁', hclosed₁⟩ := h.skipWs.expect (by decide) h₁
  obtain ⟨q', hq', hclosed⟩ := hclosed₁.parseIdent hp
  refine ⟨q', ?_, hclosed⟩
  simp only [Parser.parseAttrField, h₁', bind, Except.bind, hq']

/-- One step of reading a quoted string, which is the same when the text goes on. -/
theorem scanString_append_step {x cs y out : Text} {g : Text → Text} {k n : ℕ}
    (h : scanString x = some (out, n))
    (hx : scanString x = (scanString cs).map fun r => (g r.1, r.2 + k))
    (hxy : scanString (x ++ y) = (scanString (cs ++ y)).map fun r => (g r.1, r.2 + k))
    (hlen : x.length = cs.length + k)
    (ih : ∀ ⦃out n⦄, scanString cs = some (out, n) →
      scanString (cs ++ y) = some (out, n) ∧ n ≤ cs.length) :
    scanString (x ++ y) = some (out, n) ∧ n ≤ x.length := by
  rw [hx, Option.map_eq_some_iff] at h
  obtain ⟨⟨out', n'⟩, hcs, heq⟩ := h
  obtain ⟨rfl, rfl⟩ := Prod.mk.inj heq
  obtain ⟨hscan, hle⟩ := ih hcs
  refine ⟨?_, by omega⟩
  rw [hxy, hscan]
  rfl

/-- **A quoted string that is closed ends there**, whatever follows. -/
theorem scanString_append (y : Text) {x out : Text} {n : ℕ} (h : scanString x = some (out, n)) :
    scanString (x ++ y) = some (out, n) ∧ n ≤ x.length := by
  induction x using scanString.induct generalizing out n with
  | case1 => simp [scanString] at h
  | case2 cs =>
    simp only [scanString, Option.some.injEq, Prod.mk.injEq] at h
    obtain ⟨rfl, rfl⟩ := h
    simp [scanString]
  | case3 cs ih =>
    exact scanString_append_step h (scanString.eq_3 _) (scanString.eq_3 _) rfl fun _ _ hcs => ih hcs
  | case4 cs ih =>
    exact scanString_append_step h (scanString.eq_4 _) (scanString.eq_4 _) rfl fun _ _ hcs => ih hcs
  | case5 c cs hquote hslash ih =>
    exact scanString_append_step (g := fun out => '\\' :: c :: out) h
      (scanString.eq_5 _ _ hquote hslash) (scanString.eq_5 _ _ hquote hslash) rfl
      fun _ _ hcs => ih hcs
  | case6 => simp [scanString] at h
  | case7 c cs hquote _ _ hnext hlast ih =>
    have hslash : c ≠ '\\' := by
      rintro rfl
      rcases cs with - | ⟨d, cs⟩
      · exact hlast rfl rfl
      · exact hnext d cs rfl rfl
    exact scanString_append_step h (scanString_cons hquote hslash _)
      (scanString_cons hquote hslash _) rfl fun _ _ hcs => ih hcs

theorem ClosedBy.parseString (h : ClosedBy r p p') (hp : p.parseString = .ok (value, q)) :
    ∃ q', p'.parseString = .ok (value, q') ∧ ClosedBy r q q' := by
  unfold Parser.parseString at hp
  split at hp
  · cases hp
  rename_i p₁ h₁
  obtain ⟨p₁', h₁', hclosed⟩ := h.skipWs.eat (by decide) h₁
  split at hp
  · rename_i out n hscan
    obtain ⟨rfl, rfl⟩ := Prod.mk.inj (Except.ok.inj hp)
    have hclosed' := hclosed
    obtain ⟨w, -, hrest⟩ := hclosed'
    obtain ⟨hscan', hle⟩ := scanString_append (w ++ ')' :: r) hscan
    rw [← hrest] at hscan'
    refine ⟨p₁'.advance n, ?_, hclosed.advance hle⟩
    simp only [Parser.parseString, h₁', hscan']
  · cases hp

theorem ClosedBy.parseComparison (h : ClosedBy r p p') (hp : p.parseComparison = .ok (e, q)) :
    ∃ q', p'.parseComparison = .ok (e, q') ∧ ClosedBy r q q' := by
  obtain ⟨⟨key, p₁⟩, h₁, hp⟩ := exists_of_bind_ok hp
  obtain ⟨p₁', h₁', hclosed₁⟩ := h.parseAttrField h₁
  dsimp only at hp
  split at hp
  · rename_i p₂ h₂
    obtain ⟨⟨value, p₃⟩, h₃, hp⟩ := exists_of_bind_ok hp
    obtain ⟨rfl, rfl⟩ := Prod.mk.inj (Except.ok.inj hp)
    obtain ⟨p₂', h₂', hclosed₂⟩ := hclosed₁.skipWs.eat (by decide) h₂
    obtain ⟨q', hq', hclosed⟩ := hclosed₂.parseString h₃
    refine ⟨q', ?_, hclosed⟩
    simp only [Parser.parseComparison, bind, Except.bind, h₁', h₂', hq']
    rfl
  · rename_i p₂ h₂
    obtain ⟨p₂', h₂', hclosed₂⟩ := hclosed₁.skipWs.eat (by decide) h₂
    split at hp
    · rename_i p₃ h₃
      obtain ⟨⟨value, p₄⟩, h₄, hp⟩ := exists_of_bind_ok hp
      obtain ⟨rfl, rfl⟩ := Prod.mk.inj (Except.ok.inj hp)
      obtain ⟨p₃', h₃', hclosed₃⟩ := hclosed₂.eat (by decide) h₃
      obtain ⟨q', hq', hclosed⟩ := hclosed₃.parseString h₄
      refine ⟨q', ?_, hclosed⟩
      simp only [Parser.parseComparison, bind, Except.bind, h₁', h₂', h₃', hq']
      rfl
    · cases hp

end Closed

/-! ### Expressions -/

/-- **Where the first function yields an expression, the second yields it as well** when a
closing parenthesis and more text follow. -/
def GoesAsFar (f f' : Parser → Except BackendError (Expr × Parser)) : Prop :=
  ∀ ⦃r : Text⦄ ⦃p p' : Parser⦄ ⦃e : Expr⦄ ⦃q : Parser⦄, ClosedBy r p p' → f p = .ok (e, q) →
    ∃ q', f' p' = .ok (e, q') ∧ ClosedBy r q q'

/-- **The parser goes as far**, function by function, with as much fuel or more. -/
theorem goesAsFar_parse {n m : ℕ} (hnm : n ≤ m) :
    GoesAsFar (parseOr n) (parseOr m) ∧
    (∀ left, GoesAsFar (parseOrRest n left) (parseOrRest m left)) ∧
    GoesAsFar (parseAnd n) (parseAnd m) ∧
    (∀ left, GoesAsFar (parseAndRest n left) (parseAndRest m left)) ∧
    GoesAsFar (parseNot n) (parseNot m) ∧
    GoesAsFar (parsePrimary n) (parsePrimary m) := by
  induction n generalizing m with
  | zero =>
    simp [GoesAsFar, parseOr, parseOrRest, parseAnd, parseAndRest, parseNot, parsePrimary]
  | succ n ih =>
    obtain ⟨m, rfl⟩ := Nat.exists_eq_add_one_of_ne_zero (show m ≠ 0 by omega)
    obtain ⟨ihOr, ihOrRest, ihAnd, ihAndRest, ihNot, ihPrimary⟩ :=
      ih (Nat.le_of_succ_le_succ hnm)
    refine ⟨?_, ?_, ?_, ?_, ?_, ?_⟩
    · intro r p p' e q h hp
      rw [parseOr] at hp
      obtain ⟨⟨left, p₁⟩, h₁, hp⟩ := exists_of_bind_ok hp
      obtain ⟨p₁', h₁', hclosed₁⟩ := ihAnd h h₁
      obtain ⟨q', hq', hclosed⟩ := ihOrRest left hclosed₁ hp
      exact ⟨q', by simp only [parseOr, bind, Except.bind, h₁', hq'], hclosed⟩
    · intro left r p p' e q h hp
      rw [parseOrRest] at hp
      split at hp
      · rename_i p₁ h₁
        obtain ⟨⟨right, p₂⟩, h₂, hp⟩ := exists_of_bind_ok hp
        obtain ⟨p₁', h₁', hclosed₁⟩ := h.skipWs.eat (by decide) h₁
        obtain ⟨p₂', h₂', hclosed₂⟩ := ihAnd hclosed₁ h₂
        obtain ⟨q', hq', hclosed⟩ := ihOrRest _ hclosed₂ hp
        exact ⟨q', by simp only [parseOrRest, bind, Except.bind, h₁', h₂', hq'], hclosed⟩
      · rename_i p₁ h₁
        obtain ⟨rfl, rfl⟩ := Prod.mk.inj (Except.ok.inj hp)
        obtain ⟨p₁', h₁', hclosed₁⟩ := h.skipWs.eat (by decide) h₁
        exact ⟨p₁', by simp only [parseOrRest, h₁'], hclosed₁⟩
    · intro r p p' e q h hp
      rw [parseAnd] at hp
      obtain ⟨⟨left, p₁⟩, h₁, hp⟩ := exists_of_bind_ok hp
      obtain ⟨p₁', h₁', hclosed₁⟩ := ihNot h h₁
      obtain ⟨q', hq', hclosed⟩ := ihAndRest left hclosed₁ hp
      exact ⟨q', by simp only [parseAnd, bind, Except.bind, h₁', hq'], hclosed⟩
    · intro left r p p' e q h hp
      rw [parseAndRest] at hp
      split at hp
      · rename_i p₁ h₁
        obtain ⟨⟨right, p₂⟩, h₂, hp⟩ := exists_of_bind_ok hp
        obtain ⟨p₁', h₁', hclosed₁⟩ := h.skipWs.eat (by decide) h₁
        obtain ⟨p₂', h₂', hclosed₂⟩ := ihNot hclosed₁ h₂
        obtain ⟨q', hq', hclosed⟩ := ihAndRest _ hclosed₂ hp
        exact ⟨q', by simp only [parseAndRest, bind, Except.bind, h₁', h₂', hq'], hclosed⟩
      · rename_i p₁ h₁
        obtain ⟨rfl, rfl⟩ := Prod.mk.inj (Except.ok.inj hp)
        obtain ⟨p₁', h₁', hclosed₁⟩ := h.skipWs.eat (by decide) h₁
        exact ⟨p₁', by simp only [parseAndRest, h₁'], hclosed₁⟩
    · intro r p p' e q h hp
      rw [parseNot] at hp
      split at hp
      · rename_i p₁ h₁
        obtain ⟨⟨inner, p₂⟩, h₂, hp⟩ := exists_of_bind_ok hp
        obtain ⟨rfl, rfl⟩ := Prod.mk.inj (Except.ok.inj hp)
        obtain ⟨p₁', h₁', hclosed₁⟩ := h.skipWs.eat (by decide) h₁
        obtain ⟨q', hq', hclosed⟩ := ihNot hclosed₁ h₂
        refine ⟨q', ?_, hclosed⟩
        simp only [parseNot, bind, Except.bind, h₁', hq']
        rfl
      · rename_i p₁ h₁
        obtain ⟨p₁', h₁', hclosed₁⟩ := h.skipWs.eat (by decide) h₁
        obtain ⟨q', hq', hclosed⟩ := ihPrimary hclosed₁ hp
        exact ⟨q', by simp only [parseNot, h₁', hq'], hclosed⟩
    · intro r p p' e q h hp
      rw [parsePrimary] at hp
      split at hp
      · rename_i p₁ h₁
        obtain ⟨⟨inner, p₂⟩, h₂, hp⟩ := exists_of_bind_ok hp
        obtain ⟨p₃, h₃, hp⟩ := exists_of_bind_ok hp
        obtain ⟨rfl, rfl⟩ := Prod.mk.inj (Except.ok.inj hp)
        obtain ⟨p₁', h₁', hclosed₁⟩ := h.skipWs.eat (by decide) h₁
        obtain ⟨p₂', h₂', hclosed₂⟩ := ihOr hclosed₁ h₂
        obtain ⟨q', hq', hclosed⟩ := hclosed₂.expect_paren h₃
        refine ⟨q', ?_, hclosed⟩
        simp only [parsePrimary, bind, Except.bind, h₁', h₂', hq']
        rfl
      rename_i p₁ h₁
      obtain ⟨p₁', h₁', hclosed₁⟩ := h.skipWs.eat (by decide) h₁
      split at hp
      · rename_i p₂ h₂
        obtain ⟨p₃, h₃, hp⟩ := exists_of_bind_ok hp
        obtain ⟨⟨key, p₄⟩, h₄, hp⟩ := exists_of_bind_ok hp
        obtain ⟨p₅, h₅, hp⟩ := exists_of_bind_ok hp
        obtain ⟨⟨pre, p₆⟩, h₆, hp⟩ := exists_of_bind_ok hp
        obtain ⟨p₇, h₇, hp⟩ := exists_of_bind_ok hp
        obtain ⟨rfl, rfl⟩ := Prod.mk.inj (Except.ok.inj hp)
        obtain ⟨p₂', h₂', hclosed₂⟩ := hclosed₁.eat (by decide) h₂
        obtain ⟨p₃', h₃', hclosed₃⟩ := hclosed₂.expect (by decide) h₃
        obtain ⟨p₄', h₄', hclosed₄⟩ := hclosed₃.parseAttrField h₄
        obtain ⟨p₅', h₅', hclosed₅⟩ := hclosed₄.expect (by decide) h₅
        obtain ⟨p₆', h₆', hclosed₆⟩ := hclosed₅.parseString h₆
        obtain ⟨q', hq', hclosed⟩ := hclosed₆.expect_paren h₇
        refine ⟨q', ?_, hclosed⟩
        simp only [parsePrimary, bind, Except.bind, h₁', h₂', h₃', h₄', h₅', h₆', hq']
        rfl
      rename_i p₂ h₂
      obtain ⟨p₂', h₂', hclosed₂⟩ := hclosed₁.eat (by decide) h₂
      split at hp
      · rename_i p₃ h₃
        obtain ⟨⟨key, p₄⟩, h₄, hp⟩ := exists_of_bind_ok hp
        obtain ⟨rfl, rfl⟩ := Prod.mk.inj (Except.ok.inj hp)
        obtain ⟨p₃', h₃', hclosed₃⟩ := hclosed₂.eat (by decide) h₃
        obtain ⟨q', hq', hclosed⟩ := hclosed₃.parseIdent h₄
        refine ⟨q', ?_, hclosed⟩
        simp only [parsePrimary, bind, Except.bind, h₁', h₂', h₃', hq']
        rfl
      rename_i p₃ h₃
      obtain ⟨p₃', h₃', hclosed₃⟩ := hclosed₂.eat (by decide) h₃
      split at hp
      · rename_i hfield
        obtain ⟨q', hq', hclosed⟩ := hclosed₃.parseComparison hp
        have hfield' : ("attributes." : Text) <+: p₃'.rest :=
          (hclosed₃.prefix_iff (by decide)).mpr hfield
        exact ⟨q', by simp only [parsePrimary, h₁', h₂', h₃', if_pos hfield', hq'], hclosed⟩
      · cases hp

/-! ### In parentheses -/

@[simp] theorem parseNot_skipWs (n : ℕ) (p : Parser) : parseNot n p.skipWs = parseNot n p := by
  cases n <;> simp only [parseNot, skipWs_skipWs]

@[simp] theorem parseAnd_skipWs (n : ℕ) (p : Parser) : parseAnd n p.skipWs = parseAnd n p := by
  cases n <;> simp only [parseAnd, parseNot_skipWs]

@[simp] theorem parseOr_skipWs (n : ℕ) (p : Parser) : parseOr n p.skipWs = parseOr n p := by
  cases n <;> simp only [parseOr, parseAnd_skipWs]

/-- A text is what trimming leaves, between blanks. -/
theorem exists_trim (s : Text) : ∃ a b, Blank a ∧ Blank b ∧ s = a ++ (trim s ++ b) := by
  refine ⟨(s.rdropWhile isWhitespace).takeWhile isWhitespace, s.rtakeWhile isWhitespace,
    fun c hc => List.mem_takeWhile_imp hc, fun c hc => List.mem_rtakeWhile_imp hc, ?_⟩
  rw [← List.append_assoc, trim, List.takeWhile_append_dropWhile,
    List.rdropWhile_append_rtakeWhile]

/-- What trimming leaves does not begin with a blank. -/
theorem dropWhile_trim (s : Text) : (trim s).dropWhile isWhitespace = trim s := by
  have h := congrArg Parser.rest (skipWs_skipWs ⟨s.rdropWhile isWhitespace, 0⟩)
  simp only [rest_skipWs] at h
  exact h

/-- A text that neither begins nor ends with a blank is left as it is. -/
theorem trim_eq_self {c d : Char} (hc : isWhitespace c = false) (hd : isWhitespace d = false)
    (x : Text) : trim (c :: (x ++ [d])) = c :: (x ++ [d]) := by
  rw [trim, ← List.cons_append, List.rdropWhile_concat_neg _ _ _ (by simp [hd]), List.cons_append,
    List.dropWhile_cons_of_neg (by simp [hc])]

/-- **The text is accepted as an expression.** -/
structure Accepts (s : Text) (e : Expr) : Prop where
  parse : AttributeFilter.parse s = .ok ⟨trim s, some e⟩
  nonblank : trim s ≠ []

/-- A text that is accepted and not blank is accepted as an expression. -/
theorem exists_accepts {s : Text} {f : AttributeFilter} (h : AttributeFilter.parse s = .ok f)
    (hs : trim s ≠ []) :
    ∃ e, Accepts s e ∧ ∀ attributes, f.matches attributes = e.eval attributes := by
  have hparse := h
  unfold AttributeFilter.parse at h
  dsimp only at h
  rw [if_neg hs] at h
  obtain ⟨⟨e, p⟩, -, h⟩ := exists_of_bind_ok h
  dsimp only at h
  split at h
  · cases h
  · obtain rfl := Except.ok.inj h
    exact ⟨e, ⟨hparse, hs⟩, fun _ => rfl⟩

section Enclosed

variable {s t r : Text} {e e' : Expr} {p q : Parser} {n : ℕ}

/-- What the parser does with a text that is accepted. -/
theorem Accepts.parseOr (h : Accepts s e) : ∃ q,
    parseOr (4 * (trim s).length + 4) ⟨trim s, 0⟩ = .ok (e, q) ∧ Blank q.rest := by
  obtain ⟨hparse, hs⟩ := h
  unfold AttributeFilter.parse at hparse
  dsimp only at hparse
  rw [if_neg hs] at hparse
  obtain ⟨⟨e', q⟩, hq, hparse⟩ := exists_of_bind_ok hparse
  dsimp only at hparse
  split at hparse
  · cases hparse
  · rename_i hend
    simp only [Except.ok.injEq, AttributeFilter.mk.injEq, Option.some.injEq, true_and] at hparse
    obtain rfl := hparse
    refine ⟨q, hq, List.dropWhile_eq_nil_iff.mp ?_⟩
    rw [← rest_skipWs]
    exact not_not.mp hend

/-- **A text that is accepted is read in parentheses**, whatever follows. -/
theorem Accepts.parsePrimary (h : Accepts s e) (hn : 4 * s.length + 5 ≤ n)
    (hp : p.skipWs.rest = '(' :: (s ++ ')' :: r)) :
    ∃ q, parsePrimary n p = .ok (e, q) ∧ q.rest = r := by
  obtain ⟨n, rfl⟩ := Nat.exists_eq_add_one_of_ne_zero (show n ≠ 0 by omega)
  obtain ⟨p₁, h₁, hrest₁⟩ := eat_of_append (s := "(") hp
  obtain ⟨a, b, ha, hb, hs⟩ := exists_trim s
  obtain ⟨q, hq, hblank⟩ := h.parseOr
  have hinner : p₁.rest = a ++ (trim s ++ (b ++ ')' :: r)) := by
    calc p₁.rest = s ++ ')' :: r := hrest₁
      _ = a ++ (trim s ++ b) ++ ')' :: r := congrArg (· ++ ')' :: r) hs
      _ = a ++ (trim s ++ (b ++ ')' :: r)) := by simp only [List.append_assoc]
  -- without the blanks the parser stands before the text that is accepted
  have hclosed : ClosedBy r ⟨trim s, 0⟩ p₁.skipWs := by
    refine ⟨b, hb, ?_⟩
    rw [rest_skipWs, hinner, List.dropWhile_append_of_pos ha, List.dropWhile_append,
      dropWhile_trim, if_neg (by simpa using h.nonblank)]
  have hlen : (trim s).length ≤ s.length := by
    have hlen := congrArg List.length hs
    rw [List.length_append, List.length_append] at hlen
    omega
  obtain ⟨q', hq', w, hw, hrest⟩ := (goesAsFar_parse (m := n) (by omega)).1 hclosed hq
  rw [parseOr_skipWs] at hq'
  have hparen : q'.skipWs.rest = ')' :: r := by
    refine rest_skipWs_of_blank (w := q.rest ++ w) (fun c hc => ?_) (by decide) ?_
    · exact (List.mem_append.mp hc).elim (hblank c) (hw c)
    · rw [hrest, List.append_assoc]
  obtain ⟨q₂, h₂, hrest₂⟩ := eat_of_append (s := ")") hparen
  refine ⟨q₂, ?_, hrest₂⟩
  simp only [Parser.parsePrimary, eat_skipWs, h₁, bind, Except.bind, hq', Parser.expect, h₂]
  rfl

theorem Accepts.parseNot (h : Accepts s e) (hn : 4 * s.length + 6 ≤ n)
    (hp : p.skipWs.rest = '(' :: (s ++ ')' :: r)) :
    ∃ q, parseNot n p = .ok (e, q) ∧ q.rest = r := by
  obtain ⟨n, rfl⟩ := Nat.exists_eq_add_one_of_ne_zero (show n ≠ 0 by omega)
  obtain ⟨q, hq, hrest⟩ := h.parsePrimary (n := n) (by omega) hp
  have hnot : p.eat "NOT" = (false, p.skipWs) := by
    refine eat_of_not_prefix fun hbegins => ?_
    rw [hp] at hbegins
    exact absurd (List.cons_prefix_cons.mp hbegins).1 (by decide)
  exact ⟨q, by simp only [Parser.parseNot, eat_skipWs, hnot, parsePrimary_skipWs, hq], hrest⟩

/-- The loop of `parse_and` ends where no `AND` comes next. -/
theorem parseAndRest_of_not_prefix (hn : 0 < n) (h : ¬("AND" : Text) <+: p.skipWs.rest) :
    parseAndRest n e p = .ok (e, p.skipWs) := by
  obtain ⟨n, rfl⟩ := Nat.exists_eq_add_one_of_ne_zero hn.ne'
  simp only [parseAndRest, eat_skipWs, eat_of_not_prefix h]

/-- The loop of `parse_or` ends where no `OR` comes next. -/
theorem parseOrRest_of_not_prefix (hn : 0 < n) (h : ¬("OR" : Text) <+: p.skipWs.rest) :
    parseOrRest n e p = .ok (e, p.skipWs) := by
  obtain ⟨n, rfl⟩ := Nat.exists_eq_add_one_of_ne_zero hn.ne'
  simp only [parseOrRest, eat_skipWs, eat_of_not_prefix h]

/-- **An expression at the end of the text** is what `parse_and` reads there. -/
theorem parseAnd_of_parseNot (hn : 0 < n) (h : parseNot n p = .ok (e, q)) (hq : q.rest = []) :
    ∃ q', parseAnd (n + 1) p = .ok (e, q') ∧ q'.rest = [] := by
  have hend : q.skipWs.rest = [] := by rw [rest_skipWs, hq]; rfl
  refine ⟨q.skipWs, ?_, hend⟩
  have hrest := parseAndRest_of_not_prefix (e := e) hn (p := q) (by rw [hend]; decide)
  simp only [parseAnd, bind, Except.bind, h, hrest]

theorem parseOr_of_parseAnd (hn : 0 < n) (h : parseAnd n p = .ok (e, q)) (hq : q.rest = []) :
    ∃ q', Parser.parseOr (n + 1) p = .ok (e, q') ∧ q'.rest = [] := by
  have hend : q.skipWs.rest = [] := by rw [rest_skipWs, hq]; rfl
  refine ⟨q.skipWs, ?_, hend⟩
  have hrest := parseOrRest_of_not_prefix (e := e) hn (p := q) (by rw [hend]; decide)
  simp only [Parser.parseOr, bind, Except.bind, h, hrest]

/-- A space before the text is skipped. -/
theorem rest_skipWs_of_space {c : Char} (hc : isWhitespace c = false)
    (hp : p.rest = c :: s ∨ p.rest = ' ' :: c :: s) : p.skipWs.rest = c :: s := by
  rcases hp with hp | hp
  · exact rest_skipWs_of_blank (w := []) (fun _ hd => absurd hd List.not_mem_nil) hc hp
  · refine rest_skipWs_of_blank (w := [' ']) (fun d hd => ?_) hc hp
    rw [List.mem_singleton.mp hd]
    decide

/-- A negation is read. -/
theorem Accepts.parseNot_not (h : Accepts s e) (hn : 4 * s.length + 7 ≤ n)
    (hp : p.skipWs.rest = "NOT" ++ ' ' :: '(' :: (s ++ ')' :: r)) :
    ∃ q, Parser.parseNot n p = .ok (.not e, q) ∧ q.rest = r := by
  obtain ⟨n, rfl⟩ := Nat.exists_eq_add_one_of_ne_zero (show n ≠ 0 by omega)
  obtain ⟨p₁, h₁, hrest₁⟩ := eat_of_append hp
  obtain ⟨q, hq, hrest⟩ := h.parseNot (n := n) (by omega)
    (rest_skipWs_of_space (by decide) (Or.inr hrest₁))
  refine ⟨q, ?_, hrest⟩
  simp only [Parser.parseNot, eat_skipWs, h₁, bind, Except.bind, hq]
  rfl

/-- A conjunction at the end of the text is read. -/
theorem Accepts.parseAnd_and (h : Accepts s e) (h' : Accepts t e')
    (hn : 4 * s.length + 4 * t.length + 8 ≤ n)
    (hp : p.skipWs.rest = '(' :: (s ++ ')' :: (" AND (" ++ t ++ ")"))) :
    ∃ q, parseAnd n p = .ok (.and e e', q) ∧ q.rest = [] := by
  obtain ⟨n, rfl⟩ : ∃ k, n = k + 1 + 1 := ⟨n - 2, by omega⟩
  obtain ⟨q, hq, hrest⟩ := h.parseNot (n := n + 1) (by omega) hp
  have hand : q.skipWs.rest = "AND" ++ ' ' :: '(' :: (t ++ [')']) :=
    rest_skipWs_of_space (by decide) (Or.inr hrest)
  obtain ⟨q₁, h₁, hrest₁⟩ := eat_of_append hand
  obtain ⟨q₂, h₂, hrest₂⟩ := h'.parseNot (n := n) (by omega)
    (rest_skipWs_of_space (by decide) (Or.inr hrest₁))
  have hend : q₂.skipWs.rest = [] := by rw [rest_skipWs, hrest₂]; rfl
  have hstop := parseAndRest_of_not_prefix (n := n) (e := .and e e') (p := q₂) (by omega)
    (by rw [hend]; decide)
  refine ⟨q₂.skipWs, ?_, hend⟩
  simp only [parseAnd, bind, Except.bind, hq, parseAndRest, eat_skipWs, h₁, h₂, hstop]

/-- A disjunction at the end of the text is read. -/
theorem Accepts.parseOr_or (h : Accepts s e) (h' : Accepts t e')
    (hn : 4 * s.length + 4 * t.length + 10 ≤ n)
    (hp : p.skipWs.rest = '(' :: (s ++ ')' :: (" OR (" ++ t ++ ")"))) :
    ∃ q, Parser.parseOr n p = .ok (.or e e', q) ∧ q.rest = [] := by
  obtain ⟨n, rfl⟩ : ∃ k, n = k + 1 + 1 + 1 := ⟨n - 3, by omega⟩
  obtain ⟨q, hq, hrest⟩ := h.parseNot (n := n + 1) (by omega) hp
  have hor : q.skipWs.rest = "OR" ++ ' ' :: '(' :: (t ++ [')']) :=
    rest_skipWs_of_space (by decide) (Or.inr hrest)
  -- the loop of `parse_and` has no `AND` to go on with
  have hleft : parseAnd (n + 1 + 1) p = .ok (e, q.skipWs) := by
    have hstop := parseAndRest_of_not_prefix (n := n + 1) (e := e) (p := q) (by omega) (by
      rw [hor]
      exact fun hbegins => absurd (List.cons_prefix_cons.mp hbegins).1 (by decide))
    rw [parseAnd, hq]
    exact hstop
  obtain ⟨q₁, h₁, hrest₁⟩ := eat_of_append hor
  obtain ⟨q₂, h₂, hrest₂⟩ := h'.parseNot (n := n) (by omega)
    (rest_skipWs_of_space (by decide) (Or.inr hrest₁))
  obtain ⟨q₃, h₃, hrest₃⟩ := parseAnd_of_parseNot (by omega) h₂ hrest₂
  have hend : q₃.skipWs.rest = [] := by rw [rest_skipWs, hrest₃]; rfl
  have hstop := parseOrRest_of_not_prefix (n := n + 1) (e := .or e e') (p := q₃) (by omega)
    (by rw [hend]; decide)
  refine ⟨q₃.skipWs, ?_, hend⟩
  generalize n + 1 = m at hleft h₃ hstop ⊢
  simp only [Parser.parseOr, bind, Except.bind, hleft, parseOrRest, eat_skipWs, h₁, h₃, hstop]

/-- A text without blanks at its ends that is read to its end is accepted. -/
theorem accepts_of_parseOr {text x : Text} {c d : Char} (hc : isWhitespace c = false)
    (hd : isWhitespace d = false) (htext : text = c :: (x ++ [d]))
    (h : ∀ p : Parser, p.skipWs.rest = text →
      ∃ q, Parser.parseOr (4 * text.length + 4) p = .ok (e, q) ∧ q.rest = []) :
    Accepts text e := by
  have htrim : trim text = text := by
    rw [htext]
    exact trim_eq_self hc hd x
  have hne : text ≠ [] := htext ▸ List.cons_ne_nil c _
  refine ⟨?_, htrim.symm ▸ hne⟩
  obtain ⟨q, hq, hrest⟩ := h ⟨text, 0⟩ (by
    rw [htext]
    exact rest_skipWs_of_space hc (Or.inl rfl))
  have hend : q.skipWs.rest = [] := by rw [rest_skipWs, hrest]; rfl
  simp only [AttributeFilter.parse, htrim, if_neg hne, bind, Except.bind, hq, hend]
  rfl

/-- **`NOT (s)`.** -/
theorem Accepts.not (h : Accepts s e) : Accepts ("NOT (" ++ s ++ ")") (.not e) := by
  refine accepts_of_parseOr (x := "OT (" ++ s) (c := 'N') (d := ')') (by decide) (by decide) rfl
    fun p hp => ?_
  have hlen : ("NOT (" ++ s ++ ")" : Text).length = s.length + 6 := by simp
  obtain ⟨q, hq, hrest⟩ := h.parseNot_not (n := 4 * (s.length + 6) + 2) (by omega) hp
  obtain ⟨q', hq', hrest'⟩ := parseAnd_of_parseNot (by omega) hq hrest
  rw [hlen]
  exact parseOr_of_parseAnd (by omega) hq' hrest'

/-- **`(s) AND (t)`.** -/
theorem Accepts.and (h : Accepts s e) (h' : Accepts t e') :
    Accepts ("(" ++ s ++ ") AND (" ++ t ++ ")") (.and e e') := by
  refine accepts_of_parseOr (x := s ++ ") AND (" ++ t) (c := '(') (d := ')') (by decide)
    (by decide) rfl fun p hp => ?_
  have hlen : ("(" ++ s ++ ") AND (" ++ t ++ ")" : Text).length = s.length + t.length + 9 := by
    simp
    omega
  obtain ⟨q, hq, hrest⟩ := h.parseAnd_and h' (n := 4 * (s.length + t.length + 9) + 3) (p := p)
    (by omega) (by simpa using hp)
  rw [hlen]
  exact parseOr_of_parseAnd (by omega) hq hrest

/-- **`(s) OR (t)`.** -/
theorem Accepts.or (h : Accepts s e) (h' : Accepts t e') :
    Accepts ("(" ++ s ++ ") OR (" ++ t ++ ")") (.or e e') := by
  refine accepts_of_parseOr (x := s ++ ") OR (" ++ t) (c := '(') (d := ')') (by decide)
    (by decide) rfl fun p hp => ?_
  have hlen : ("(" ++ s ++ ") OR (" ++ t ++ ")" : Text).length = s.length + t.length + 8 := by
    simp
    omega
  rw [hlen]
  exact h.parseOr_or h' (by omega) (by simpa using hp)

end Enclosed

namespace AttributeFilter

/-- **Filters compose as text.** If `s` and `t` are accepted and not blank, then so are
`NOT (s)`, `(s) AND (t)` and `(s) OR (t)`, and they match what the connectives say. -/
theorem parse_composes {s t : Text} {f g : AttributeFilter} (hs : parse s = .ok f)
    (hsome : trim s ≠ []) (ht : parse t = .ok g) (htsome : trim t ≠ []) :
    (∃ h, parse ("NOT (" ++ s ++ ")") = .ok h ∧
      ∀ attributes, h.matches attributes = !f.matches attributes) ∧
    (∃ h, parse ("(" ++ s ++ ") AND (" ++ t ++ ")") = .ok h ∧
      ∀ attributes, h.matches attributes = (f.matches attributes && g.matches attributes)) ∧
    ∃ h, parse ("(" ++ s ++ ") OR (" ++ t ++ ")") = .ok h ∧
      ∀ attributes, h.matches attributes = (f.matches attributes || g.matches attributes) := by
  obtain ⟨e, he, hf⟩ := exists_accepts hs hsome
  obtain ⟨e', he', hg⟩ := exists_accepts ht htsome
  refine ⟨⟨_, he.not.parse, fun attributes => ?_⟩, ⟨_, (he.and he').parse, fun attributes => ?_⟩,
    ⟨_, (he.or he').parse, fun attributes => ?_⟩⟩
  · rw [hf]
    rfl
  · rw [hf, hg]
    rfl
  · rw [hf, hg]
    rfl

/-- Two filters without blanks, one of them with a parenthesis in a quoted string. -/
theorem parse_composes_key : ∃ f g h : AttributeFilter,
    parse "attributes:a" = .ok f ∧ parse "attributes.b=\")\"" = .ok g ∧
    parse "(attributes:a) AND (attributes.b=\")\")" = .ok h ∧
    ∀ attributes, h.matches attributes = (f.matches attributes && g.matches attributes) := by
  have hf : parse "attributes:a" = .ok ⟨"attributes:a", some (.hasKey "a")⟩ := by decide +kernel
  have hg : parse "attributes.b=\")\"" = .ok ⟨"attributes.b=\")\"", some (.eq "b" ")")⟩ := by
    decide +kernel
  obtain ⟨-, ⟨h, hparse, hmatches⟩, -⟩ :=
    parse_composes hf (by decide +kernel) hg (by decide +kernel)
  exact ⟨_, _, h, hf, hg, hparse, hmatches⟩

end AttributeFilter

end RelayPubsub
