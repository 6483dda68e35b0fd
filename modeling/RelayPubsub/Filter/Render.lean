import RelayPubsub.Filter

/-!
# Filters written out and read back

The parser of `src/filter.rs` inverts the documented syntax. An expression is
written as a list of tokens (`RelayPubsub.Expr.tokens`), with the parentheses that
`NOT > AND > OR` and left associativity require and no others, and a text spells
the tokens with blanks around them (`RelayPubsub.Spells`).

| reads | tokens | result |
|---|---|---|
| `parseNot` | `tokens 2` | the expression (`RelayPubsub.ReadsNot`) |
| `parseAnd` | `tokens 1` | its loop, with the expression on the left (`RelayPubsub.ReadsAnd`) |
| `parseOr` | `tokens 0` | its loop, with the expression on the left (`RelayPubsub.ReadsOr`) |

The two functions with a loop read a left operand exactly as they read a whole
expression, which is why they are described by where they enter the loop: the
operator after the operand is then read by the same loop. What follows is
arbitrary, except that an expression ends where neither loop goes on.
-/

namespace RelayPubsub

open Lib RelayPubsub.Parser

/-! ### Expressions as tokens -/

/-- An attribute name: what `parse_ident` reads. -/
def IsAttrName (key : Text) : Prop := key ≠ [] ∧ ∀ c ∈ key, isIdentChar c = true

/-- **Well-formed expressions**: every attribute name is one. The values are arbitrary. -/
def Expr.WellFormed : Expr → Prop
  | .hasKey key | .eq key _ | .ne key _ | .hasPrefix key _ => IsAttrName key
  | .not inner => inner.WellFormed
  | .and left right | .or left right => left.WellFormed ∧ right.WellFormed

/-- The tokens of the filter language. -/
inductive FilterToken where
  | leftParen | rightParen | comma | eq | ne
  | not | and | or
  | hasPrefix
  /-- `attributes:` -/
  | has
  /-- `attributes.` -/
  | field
  | name (key : Text)
  | quoted (value : Text)

/-- A quote and a backslash are escaped in a quoted string. -/
def escape : Text → Text
  | [] => []
  | c :: s => if c = '"' ∨ c = '\\' then '\\' :: c :: escape s else c :: escape s

def FilterToken.text : FilterToken → Text
  | .leftParen => "("
  | .rightParen => ")"
  | .comma => ","
  | .eq => "="
  | .ne => "!="
  | .not => "NOT"
  | .and => "AND"
  | .or => "OR"
  | .hasPrefix => "hasPrefix"
  | .has => "attributes:"
  | .field => "attributes."
  | .name key => key
  | .quoted value => '"' :: (escape value ++ ['"'])

/-- The tokens in parentheses, when these are needed. -/
def parens (needed : Bool) (ts : List FilterToken) : List FilterToken :=
  if needed then .leftParen :: (ts ++ [.rightParen]) else ts

/-- **The tokens of an expression** where an `OR` may stand (`0`), where an `AND` may
stand but no `OR` (`1`), and where neither may (`2`). -/
def Expr.tokens : ℕ → Expr → List FilterToken
  | _, .hasKey key => [.has, .name key]
  | _, .eq key value => [.field, .name key, .eq, .quoted value]
  | _, .ne key value => [.field, .name key, .ne, .quoted value]
  | _, .hasPrefix key pre =>
    [.hasPrefix, .leftParen, .field, .name key, .comma, .quoted pre, .rightParen]
  | _, .not inner => .not :: inner.tokens 2
  | place, .and left right => parens (1 < place) (left.tokens 1 ++ .and :: right.tokens 2)
  | place, .or left right => parens (0 < place) (left.tokens 0 ++ .or :: right.tokens 1)

/-! ### Tokens as text -/

/-- Blanks only. -/
def Blank (w : Text) : Prop := ∀ c ∈ w, isWhitespace c = true

/-- Nothing that could belong to the token comes next. -/
def FilterToken.EndsBefore : FilterToken → Text → Prop
  | .name _, s => ∀ c ∈ s.head?, isIdentChar c = false
  | _, _ => True

/-- **The text spells the tokens**: there are blanks before, between and after them, as
many as one likes, but a name ends before a character that could belong to it. -/
inductive Spells : List FilterToken → Text → Prop
  | done {w : Text} (hw : Blank w) : Spells [] w
  | token {w s : Text} {t : FilterToken} {ts : List FilterToken} (hw : Blank w)
      (hend : t.EndsBefore s) (hs : Spells ts s) : Spells (t :: ts) (w ++ (t.text ++ s))

/-- The tokens with the given blanks before, between and after them. -/
def spell (blanks : ℕ → Text) : List FilterToken → Text
  | [] => blanks 0
  | t :: ts => blanks 0 ++ (t.text ++ spell (fun k => blanks (k + 1)) ts)

/-- A blank is no part of a name. -/
theorem isIdentChar_of_isWhitespace {c : Char} (h : isWhitespace c = true) :
    isIdentChar c = false := by
  have hval : c.toNat = c.val.toNat := rfl
  have hne : ∀ d : Char, d.toNat ∈ [95, 45, 46] → c ≠ d := by
    rintro d hd rfl
    simp [isWhitespace] at h hd
    omega
  simp only [isWhitespace, decide_eq_true_eq] at h
  simp only [isIdentChar, Char.isAlphanum, Char.isAlpha, Char.isUpper, Char.isLower,
    Char.isDigit, Bool.or_eq_false_iff, Bool.and_eq_false_iff, decide_eq_false_iff_not,
    UInt32.le_iff_toNat_le, ge_iff_le]
  refine ⟨⟨⟨⟨⟨?_, ?_⟩, ?_⟩, hne '_' (by decide)⟩, hne '-' (by decide)⟩, hne '.' (by decide)⟩
  all_goals simp; omega

/-- **Blanks between the tokens spell them.** -/
theorem spells_spell {blanks : ℕ → Text} (hblank : ∀ k, Blank (blanks k))
    (hsome : ∀ k, blanks k ≠ []) (ts : List FilterToken) : Spells ts (spell blanks ts) := by
  induction ts generalizing blanks with
  | nil => exact .done (hblank 0)
  | cons t ts ih =>
    refine .token (hblank 0) ?_ (ih (fun k => hblank (k + 1)) fun k => hsome (k + 1))
    have hhead : ∀ c ∈ (spell (fun k => blanks (k + 1)) ts).head?, isIdentChar c = false := by
      intro c hc
      refine isIdentChar_of_isWhitespace (hblank 1 c ?_)
      have hhead : (spell (fun k => blanks (k + 1)) ts).head? = (blanks 1).head? := by
        cases ts <;> simp [spell, List.head?_append_of_ne_nil _ (hsome 1)]
      rw [hhead] at hc
      exact List.mem_of_mem_head? hc
    cases t with
    | name key => exact hhead
    | _ => trivial

/-! ### Reading one token -/

namespace Parser

variable {p : Parser} {s r : Text}

theorem rest_skipWs (p : Parser) : p.skipWs.rest = p.rest.dropWhile isWhitespace :=
  (congrArg (List.drop _) (List.takeWhile_append_dropWhile (p := isWhitespace)).symm).trans
    List.drop_left

theorem advance_zero (p : Parser) : p.advance 0 = p := by
  cases p
  simp [advance, utf8Len]

@[simp] theorem skipWs_skipWs (p : Parser) : p.skipWs.skipWs = p.skipWs := by
  have h : p.skipWs.rest.takeWhile isWhitespace = [] := by
    rw [rest_skipWs, List.takeWhile_eq_nil_iff]
    exact fun hl => List.dropWhile_get_zero_not _ _ hl
  rw [skipWs, h]
  exact advance_zero _

@[simp] theorem eat_skipWs (p : Parser) (s : Text) : p.skipWs.eat s = p.eat s := by
  simp only [eat, skipWs_skipWs]

@[simp] theorem expect_skipWs (p : Parser) (s : Text) : p.skipWs.expect s = p.expect s := by
  simp only [expect, eat_skipWs]

@[simp] theorem parseIdent_skipWs (p : Parser) : p.skipWs.parseIdent = p.parseIdent := by
  simp only [parseIdent, skipWs_skipWs]

theorem length_skipWs_le (p : Parser) : p.skipWs.rest.length ≤ p.rest.length := by
  rw [rest_skipWs]
  exact List.length_dropWhile_le _ _

/-- Blanks before the text are skipped. -/
theorem rest_skipWs_of_blank {w : Text} {c : Char} (hw : Blank w) (hc : isWhitespace c = false)
    (h : p.rest = w ++ c :: s) : p.skipWs.rest = c :: s := by
  rw [rest_skipWs, h, List.dropWhile_append_of_pos hw, List.dropWhile_cons_of_neg (by simp [hc])]

theorem eat_of_append (h : p.skipWs.rest = s ++ r) :
    ∃ q : Parser, p.eat s = (true, q) ∧ q.rest = r := by
  refine ⟨p.skipWs.advance s.length, ?_, ?_⟩
  · rw [eat, if_pos ⟨r, h.symm⟩]
  · simp [advance, h]

theorem eat_of_not_prefix (h : ¬s <+: p.skipWs.rest) : p.eat s = (false, p.skipWs) := by
  rw [eat, if_neg h]

/-- A character that is neither a quote nor a backslash is read as itself. -/
theorem scanString_cons {c : Char} (hquote : c ≠ '"') (hslash : c ≠ '\\') (s : Text) :
    scanString (c :: s) = (scanString s).map fun r => (c :: r.1, r.2 + 1) := by
  rw [scanString.eq_def]
  split <;> simp_all

/-- **A quoted string is read back.** -/
theorem scanString_escape (value r : Text) :
    scanString (escape value ++ '"' :: r) = some (value, (escape value).length + 1) := by
  induction value with
  | nil => simp [escape, scanString]
  | cons c value ih =>
    unfold escape
    split
    · rename_i hc
      rcases hc with rfl | rfl <;> simp [scanString, ih]
    · rename_i hc
      obtain ⟨hquote, hslash⟩ := not_or.mp hc
      rw [List.cons_append, scanString_cons hquote hslash, ih]
      rfl

end Parser

theorem FilterToken.text_quoted (value : Text) :
    (FilterToken.quoted value).text = '"' :: (escape value ++ ['"']) := rfl

/-- Tokens that the parser can read: a name is one. -/
def FilterToken.WellFormed : FilterToken → Prop
  | .name key => IsAttrName key
  | _ => True

/-- No token begins with a blank. -/
theorem FilterToken.WellFormed.text_eq_cons {t : FilterToken} (ht : t.WellFormed) :
    ∃ c s, t.text = c :: s ∧ isWhitespace c = false := by
  cases t with
  | name key =>
    obtain ⟨hne, hident⟩ := ht
    rcases key with - | ⟨c, key⟩
    · exact absurd rfl hne
    refine ⟨c, key, rfl, Bool.eq_false_iff.mpr fun hc => ?_⟩
    have := isIdentChar_of_isWhitespace hc
    rw [hident c List.mem_cons_self] at this
    exact Bool.noConfusion this
  | quoted value => exact ⟨'"', _, rfl, rfl⟩
  | _ => exact ⟨_, _, rfl, by decide⟩

section Token

variable {p : Parser} {t : FilterToken} {ts : List FilterToken}

/-- **After a token**: the parser stands where `ts` is spelled, further on than `p`. -/
structure ReadTo (p : Parser) (ts : List FilterToken) (q : Parser) : Prop where
  spells : Spells ts q.rest
  shorter : q.rest.length < p.rest.length

/-- After the blanks comes the token. -/
theorem Spells.rest_skipWs (h : Spells (t :: ts) p.rest) (ht : t.WellFormed) :
    ∃ s, p.skipWs.rest = t.text ++ s ∧ t.EndsBefore s ∧ Spells ts s := by
  obtain ⟨c, x, hx, hc⟩ := ht.text_eq_cons
  generalize hrest : p.rest = rest at h
  cases h with
  | @token w s _ _ hw hend hs =>
    refine ⟨s, ?_, hend, hs⟩
    rw [hx] at hrest ⊢
    exact rest_skipWs_of_blank hw hc hrest

/-- Where nothing is spelled, there are only blanks. -/
theorem Spells.rest_skipWs_nil (h : Spells [] p.rest) : p.skipWs.rest = [] := by
  generalize hrest : p.rest = rest at h
  cases h with
  | done hw => rw [Parser.rest_skipWs, hrest, List.dropWhile_eq_nil_iff.mpr hw]

/-- Skipping blanks does not change what is spelled. -/
theorem Spells.skipWs (h : Spells (t :: ts) p.rest) (ht : t.WellFormed) :
    Spells (t :: ts) p.skipWs.rest := by
  obtain ⟨s, hs, hend, hspells⟩ := h.rest_skipWs ht
  rw [hs]
  exact .token (w := []) (fun _ h => absurd h List.not_mem_nil) hend hspells

/-- What is read after the blanks makes the text shorter. -/
theorem ReadTo.of_append {x r : Text} {q : Parser} (h : p.skipWs.rest = x ++ r) (hx : x ≠ [])
    (hq : q.rest = r) (hs : Spells ts r) : ReadTo p ts q := by
  refine ⟨hq ▸ hs, ?_⟩
  have hle := length_skipWs_le p
  have hpos := List.length_pos_of_ne_nil hx
  rw [h, List.length_append] at hle
  rw [hq]
  omega

/-- The token is eaten. -/
theorem Spells.eat (h : Spells (t :: ts) p.rest) (ht : t.WellFormed) :
    ∃ q, p.eat t.text = (true, q) ∧ ReadTo p ts q := by
  obtain ⟨c, x, hx, -⟩ := ht.text_eq_cons
  obtain ⟨s, hs, -, hspells⟩ := h.rest_skipWs ht
  obtain ⟨q, hq, hrest⟩ := eat_of_append hs
  exact ⟨q, hq, .of_append hs (hx ▸ List.cons_ne_nil c x) hrest hspells⟩

/-- An expected token is read. -/
theorem Spells.expect (h : Spells (t :: ts) p.rest) (ht : t.WellFormed) :
    ∃ q, p.expect t.text = .ok q ∧ ReadTo p ts q := by
  obtain ⟨q, hq, hread⟩ := h.eat ht
  exact ⟨q, by rw [Parser.expect, hq], hread⟩

/-- The text and the token differ before either ends. -/
def Differ (s : Text) (t : FilterToken) : Prop := ¬s <+: t.text ∧ ¬t.text <+: s

instance (s : Text) (t : FilterToken) : Decidable (Differ s t) :=
  inferInstanceAs (Decidable (_ ∧ _))

/-- What does not come next is not eaten. -/
theorem Spells.eat_other {s : Text} (h : Spells ts p.rest) (hs : s ≠ [])
    (hne : ∀ t ∈ ts.head?, t.WellFormed ∧ Differ s t) : p.eat s = (false, p.skipWs) := by
  refine eat_of_not_prefix fun hbegins => ?_
  rcases ts with - | ⟨t, ts⟩
  · rw [h.rest_skipWs_nil] at hbegins
    exact hs (List.prefix_nil.mp hbegins)
  · obtain ⟨ht, hdiffer⟩ := hne t rfl
    obtain ⟨r, hr, -, -⟩ := h.rest_skipWs ht
    rw [hr] at hbegins
    exact not_or.mpr hdiffer
      (List.prefix_or_prefix_of_prefix hbegins (List.prefix_append t.text r))

/-- Another token is not eaten. -/
theorem Spells.eat_differ {s : Text} (h : Spells (t :: ts) p.rest) (ht : t.WellFormed)
    (hs : s ≠ []) (hne : Differ s t) : p.eat s = (false, p.skipWs) :=
  h.eat_other hs fun _ heq => Option.some.inj heq ▸ ⟨ht, hne⟩

/-- A name is read. -/
theorem Spells.parseIdent {key : Text} (h : Spells (.name key :: ts) p.rest)
    (ht : IsAttrName key) :
    ∃ q, p.parseIdent = .ok (key, q) ∧ ReadTo p ts q := by
  obtain ⟨s, hs, hend, hspells⟩ := h.rest_skipWs ht
  replace hs : p.skipWs.rest = key ++ s := hs
  have hident : p.skipWs.rest.takeWhile isIdentChar = key := by
    have hstop : s.takeWhile isIdentChar = [] := by
      rcases s with - | ⟨c, s⟩
      · rfl
      · exact List.takeWhile_cons_of_neg (Bool.eq_false_iff.mp (hend c rfl))
    rw [hs, List.takeWhile_append_of_pos ht.2, hstop, List.append_nil]
  refine ⟨p.skipWs.advance key.length, ?_, .of_append hs ht.1 ?_ hspells⟩
  · simp only [Parser.parseIdent, hident, if_neg ht.1]
  · simp [advance, hs]

/-- A quoted string is read. -/
theorem Spells.parseString {value : Text} (h : Spells (.quoted value :: ts) p.rest) :
    ∃ q, p.parseString = .ok (value, q) ∧ ReadTo p ts q := by
  obtain ⟨s, hs, -, hspells⟩ := h.rest_skipWs True.intro
  have hopen : p.skipWs.rest = ['"'] ++ (escape value ++ '"' :: s) := by
    rw [hs, FilterToken.text_quoted]
    simp
  obtain ⟨q, hq, hrest⟩ := eat_of_append hopen
  refine ⟨q.advance ((escape value).length + 1), ?_,
    .of_append hs (List.cons_ne_nil _ _) ?_ hspells⟩
  · simp only [Parser.parseString, eat_skipWs, hq, hrest, scanString_escape]
  · simp [advance, hrest, List.drop_append]

theorem ReadTo.trans {q r : Parser} {ts' : List FilterToken} (h : ReadTo p ts q)
    (h' : ReadTo q ts' r) : ReadTo p ts' r :=
  ⟨h'.spells, h'.shorter.trans h.shorter⟩

/-- `attributes.name` is read. -/
theorem Spells.parseAttrField {key : Text} (h : Spells (.field :: .name key :: ts) p.rest)
    (hkey : IsAttrName key) :
    ∃ q, p.parseAttrField = .ok (key, q) ∧ ReadTo p ts q := by
  obtain ⟨p₁, h₁, hread₁⟩ := h.expect True.intro
  obtain ⟨q, hq, hread⟩ := hread₁.spells.parseIdent hkey
  refine ⟨q, ?_, hread₁.trans hread⟩
  rw [Parser.parseAttrField, expect_skipWs, show p.expect "attributes." = .ok p₁ from h₁]
  exact hq

/-- A comparison is read. -/
theorem Spells.parseComparison_eq {key value : Text}
    (h : Spells (.field :: .name key :: .eq :: .quoted value :: ts) p.rest)
    (hkey : IsAttrName key) :
    ∃ q, p.parseComparison = .ok (.eq key value, q) ∧ ReadTo p ts q := by
  obtain ⟨p₁, h₁, hread₁⟩ := h.parseAttrField hkey
  have hne : p₁.eat "!=" = (false, p₁.skipWs) :=
    hread₁.spells.eat_differ True.intro (by decide) (by decide)
  obtain ⟨p₂, h₂, hread₂⟩ := hread₁.spells.eat True.intro
  replace h₂ : p₁.eat "=" = (true, p₂) := h₂
  obtain ⟨q, hq, hread⟩ := hread₂.spells.parseString
  refine ⟨q, ?_, (hread₁.trans hread₂).trans hread⟩
  simp only [Parser.parseComparison, bind, Except.bind, h₁, eat_skipWs, hne, h₂, hq]
  rfl

theorem Spells.parseComparison_ne {key value : Text}
    (h : Spells (.field :: .name key :: .ne :: .quoted value :: ts) p.rest)
    (hkey : IsAttrName key) :
    ∃ q, p.parseComparison = .ok (.ne key value, q) ∧ ReadTo p ts q := by
  obtain ⟨p₁, h₁, hread₁⟩ := h.parseAttrField hkey
  obtain ⟨p₂, h₂, hread₂⟩ := hread₁.spells.eat True.intro
  replace h₂ : p₁.eat "!=" = (true, p₂) := h₂
  obtain ⟨q, hq, hread⟩ := hread₂.spells.parseString
  refine ⟨q, ?_, (hread₁.trans hread₂).trans hread⟩
  simp only [Parser.parseComparison, bind, Except.bind, h₁, eat_skipWs, h₂, hq]
  rfl

/-! ### Reading an expression -/

theorem ReadTo.of_skipWs {q : Parser} (h : ReadTo p.skipWs ts q) : ReadTo p ts q :=
  ⟨h.spells, h.shorter.trans_le (length_skipWs_le p)⟩

/-- `parsePrimary` skips blanks first. -/
@[simp] theorem parsePrimary_skipWs (n : ℕ) (p : Parser) :
    parsePrimary n p.skipWs = parsePrimary n p := by
  cases n <;> simp only [parsePrimary, skipWs_skipWs]

@[simp] theorem parseOrRest_skipWs (n : ℕ) (e : Expr) (p : Parser) :
    parseOrRest n e p.skipWs = parseOrRest n e p := by
  cases n <;> simp only [parseOrRest, skipWs_skipWs]

/-- What `parse_not` reads when no `NOT` comes next. -/
theorem Spells.parseNot (h : Spells (t :: ts) p.rest) (ht : t.WellFormed) (n : ℕ)
    (hne : Differ "NOT" t) : parseNot (n + 1) p = parsePrimary n p := by
  have hnot := h.eat_differ ht (by simp) hne
  simp only [Parser.parseNot, eat_skipWs, hnot, parsePrimary_skipWs]

/-- An expression in parentheses is read. -/
theorem Spells.parsePrimary_parens {e : Expr} {n : ℕ}
    (h : Spells (.leftParen :: ts) p.rest) {ts' : List FilterToken}
    (hinner : ∀ p', ReadTo p ts p' →
      ∃ q, parseOr n p' = .ok (e, q) ∧ ReadTo p' (.rightParen :: ts') q) :
    ∃ q, parsePrimary (n + 1) p = .ok (e, q) ∧ ReadTo p ts' q := by
  obtain ⟨p₁, h₁, hread₁⟩ := h.eat True.intro
  replace h₁ : p.eat "(" = (true, p₁) := h₁
  obtain ⟨p₂, h₂, hread₂⟩ := hinner p₁ hread₁
  obtain ⟨q, hq, hread⟩ := hread₂.spells.expect True.intro
  replace hq : p₂.expect ")" = .ok q := hq
  refine ⟨q, ?_, (hread₁.trans hread₂).trans hread⟩
  simp only [parsePrimary, eat_skipWs, h₁, bind, Except.bind, h₂, hq]
  rfl

theorem Spells.parsePrimary_hasPrefix {key pre : Text} (n : ℕ)
    (h : Spells ((Expr.hasPrefix key pre).tokens 2 ++ ts) p.rest) (hkey : IsAttrName key) :
    ∃ q, parsePrimary (n + 1) p = .ok (.hasPrefix key pre, q) ∧ ReadTo p ts q := by
  have hparen : p.eat "(" = (false, p.skipWs) := h.eat_differ True.intro (by decide) (by decide)
  obtain ⟨p₁, h₁, hread₁⟩ := h.eat True.intro
  replace h₁ : p.eat "hasPrefix" = (true, p₁) := h₁
  obtain ⟨p₂, h₂, hread₂⟩ := hread₁.spells.expect True.intro
  replace h₂ : p₁.expect "(" = .ok p₂ := h₂
  obtain ⟨p₃, h₃, hread₃⟩ := hread₂.spells.parseAttrField hkey
  obtain ⟨p₄, h₄, hread₄⟩ := hread₃.spells.expect True.intro
  replace h₄ : p₃.expect "," = .ok p₄ := h₄
  obtain ⟨p₅, h₅, hread₅⟩ := hread₄.spells.parseString
  obtain ⟨q, hq, hread⟩ := hread₅.spells.expect True.intro
  replace hq : p₅.expect ")" = .ok q := hq
  refine ⟨q, ?_, ((((hread₁.trans hread₂).trans hread₃).trans hread₄).trans hread₅).trans hread⟩
  simp only [parsePrimary, eat_skipWs, hparen, h₁, bind, Except.bind, h₂, h₃, h₄, h₅, hq]
  rfl

theorem Spells.parsePrimary_hasKey {key : Text} (n : ℕ)
    (h : Spells (.has :: .name key :: ts) p.rest) (hkey : IsAttrName key) :
    ∃ q, parsePrimary (n + 1) p = .ok (.hasKey key, q) ∧ ReadTo p ts q := by
  have hparen : p.eat "(" = (false, p.skipWs) := h.eat_differ True.intro (by decide) (by decide)
  have hpre : p.eat "hasPrefix" = (false, p.skipWs) :=
    h.eat_differ True.intro (by decide) (by decide)
  obtain ⟨p₁, h₁, hread₁⟩ := h.eat True.intro
  replace h₁ : p.eat "attributes:" = (true, p₁) := h₁
  obtain ⟨q, hq, hread⟩ := hread₁.spells.parseIdent hkey
  refine ⟨q, ?_, hread₁.trans hread⟩
  simp only [parsePrimary, eat_skipWs, hparen, hpre, h₁, bind, Except.bind, hq]
  rfl

/-- Where a field comes next, a comparison is read. -/
theorem Spells.parsePrimary_field (n : ℕ) (h : Spells (.field :: ts) p.rest) :
    parsePrimary (n + 1) p = p.skipWs.parseComparison := by
  have hparen : p.eat "(" = (false, p.skipWs) := h.eat_differ True.intro (by decide) (by decide)
  have hpre : p.eat "hasPrefix" = (false, p.skipWs) :=
    h.eat_differ True.intro (by decide) (by decide)
  have hhas : p.eat "attributes:" = (false, p.skipWs) :=
    h.eat_differ True.intro (by decide) (by decide)
  obtain ⟨s, hs, -, -⟩ := h.rest_skipWs True.intro
  have hfield : ("attributes." : Text) <+: p.skipWs.rest := hs ▸ List.prefix_append _ s
  simp only [parsePrimary, eat_skipWs, hparen, hpre, hhas, if_pos hfield]

end Token

/-- Where an expression ends: at the end, at a closing parenthesis, or at an `OR`. -/
def Ends (ts : List FilterToken) : Prop := ∀ t ∈ ts.head?, t = .rightParen ∨ t = .or

/-- **`parse_not` reads the expression**, whatever follows. -/
def ReadsNot (e : Expr) : Prop := ∀ ⦃n : ℕ⦄ ⦃ts : List FilterToken⦄ ⦃p : Parser⦄,
  4 * p.rest.length + 2 ≤ n → Spells (e.tokens 2 ++ ts) p.rest →
    ∃ q, parseNot n p = .ok (e, q) ∧ ReadTo p ts q

/-- **`parse_and` reads the expression** and goes on with its loop. -/
def ReadsAnd (e : Expr) : Prop := ∀ ⦃n : ℕ⦄ ⦃ts : List FilterToken⦄ ⦃p : Parser⦄,
  4 * p.rest.length + 3 ≤ n → Spells (e.tokens 1 ++ ts) p.rest →
    ∃ m q, parseAnd n p = parseAndRest m e q ∧ ReadTo p ts q ∧ 4 * q.rest.length < m

/-- **`parse_or` reads the expression** and goes on with its loop. -/
def ReadsOr (e : Expr) : Prop := ∀ ⦃n : ℕ⦄ ⦃ts : List FilterToken⦄ ⦃p : Parser⦄,
  4 * p.rest.length + 4 ≤ n → Ends ts → Spells (e.tokens 0 ++ ts) p.rest →
    ∃ m q, parseOr n p = parseOrRest m e q ∧ ReadTo p ts q ∧ 4 * q.rest.length < m

section Reads

variable {e left right : Expr}

/-- The loop of `parse_and` ends where an expression ends. -/
theorem Spells.parseAndRest {p : Parser} {ts : List FilterToken} (h : Spells ts p.rest)
    (hends : Ends ts) {m : ℕ} (hm : 0 < m) : parseAndRest m e p = .ok (e, p.skipWs) := by
  obtain ⟨m, rfl⟩ := Nat.exists_eq_add_one_of_ne_zero hm.ne'
  have hand : p.eat "AND" = (false, p.skipWs) := by
    refine h.eat_other (by decide) fun t ht => ?_
    rcases hends t ht with rfl | rfl
    · exact ⟨True.intro, by decide⟩
    · exact ⟨True.intro, by decide⟩
  simp only [Parser.parseAndRest, eat_skipWs, hand]

/-- `parse_and` reads an expression without `AND` or `OR` outside parentheses. -/
theorem ReadsNot.readsAnd (h : ReadsNot e) (htokens : e.tokens 1 = e.tokens 2) : ReadsAnd e := by
  intro n ts p hn hspells
  rw [htokens] at hspells
  obtain ⟨n, rfl⟩ := Nat.exists_eq_add_one_of_ne_zero (show n ≠ 0 by omega)
  obtain ⟨q, hq, hread⟩ := h (n := n) (by omega) hspells
  have hshorter := hread.shorter
  refine ⟨n, q, ?_, hread, by omega⟩
  simp only [parseAnd, hq, bind, Except.bind]

/-- `parse_or` reads an expression without `OR` outside parentheses. -/
theorem ReadsAnd.readsOr (h : ReadsAnd e) (htokens : e.tokens 0 = e.tokens 1) : ReadsOr e := by
  intro n ts p hn hends hspells
  rw [htokens] at hspells
  obtain ⟨n, rfl⟩ := Nat.exists_eq_add_one_of_ne_zero (show n ≠ 0 by omega)
  obtain ⟨m, q, hq, hread, hm⟩ := h (n := n) (by omega) hspells
  have hshorter := hread.shorter
  refine ⟨n, q, ?_, hread, by omega⟩
  have hrest := hread.spells.parseAndRest (e := e) hends (m := m) (by omega)
  simp only [parseOr, hq, hrest, bind, Except.bind, parseOrRest_skipWs]

/-- `parse_or` reads a whole expression. -/
theorem ReadsOr.parseOr (h : ReadsOr e) {n : ℕ} {ts : List FilterToken} {p : Parser}
    (hn : 4 * p.rest.length + 4 ≤ n) (hends : ∀ t ∈ ts.head?, t = .rightParen)
    (hspells : Spells (e.tokens 0 ++ ts) p.rest) :
    ∃ q, parseOr n p = .ok (e, q.skipWs) ∧ ReadTo p ts q := by
  obtain ⟨m, q, hq, hread, hm⟩ := h hn (fun t ht => Or.inl (hends t ht)) hspells
  obtain ⟨m, rfl⟩ := Nat.exists_eq_add_one_of_ne_zero (show m ≠ 0 by omega)
  have hor : q.eat "OR" = (false, q.skipWs) := by
    refine hread.spells.eat_other (by decide) fun t ht => ?_
    rw [hends t ht]
    exact ⟨True.intro, by decide⟩
  refine ⟨q, ?_, hread⟩
  simp only [hq, parseOrRest, eat_skipWs, hor]

/-- `parse_not` reads an expression in parentheses. -/
theorem ReadsOr.readsNot (h : ReadsOr e)
    (htokens : e.tokens 2 = .leftParen :: (e.tokens 0 ++ [.rightParen])) : ReadsNot e := by
  intro n ts p hn hspells
  rw [htokens, List.cons_append, List.append_assoc] at hspells
  obtain ⟨n, rfl⟩ : ∃ k, n = k + 1 + 1 := ⟨n - 2, by omega⟩
  rw [hspells.parseNot True.intro (n + 1) (by decide)]
  refine hspells.parsePrimary_parens fun p' hread => ?_
  have hshorter := hread.shorter
  have hends : ∀ t ∈ (FilterToken.rightParen :: ts).head?, t = .rightParen := by
    rintro _ ⟨⟩
    rfl
  obtain ⟨q, hq, hread'⟩ := h.parseOr (n := n) (by omega) hends hread.spells
  exact ⟨q.skipWs, hq, hread'.spells.skipWs True.intro,
    (length_skipWs_le q).trans_lt hread'.shorter⟩

/-- A conjunction is read: its left side enters the loop, which reads the right one. -/
theorem readsAnd_and (hleft : ReadsAnd left) (hright : ReadsNot right) :
    ReadsAnd (.and left right) := by
  intro n ts p hn hspells
  replace hspells : Spells (left.tokens 1 ++ (.and :: (right.tokens 2 ++ ts))) p.rest := by
    simpa [Expr.tokens, parens] using hspells
  obtain ⟨m, q, hq, hread, hm⟩ := hleft hn hspells
  obtain ⟨m, rfl⟩ := Nat.exists_eq_add_one_of_ne_zero (show m ≠ 0 by omega)
  obtain ⟨q₁, h₁, hread₁⟩ := hread.spells.eat True.intro
  replace h₁ : q.eat "AND" = (true, q₁) := h₁
  have hshorter₁ := hread₁.shorter
  obtain ⟨q₂, h₂, hread₂⟩ := hright (n := m) (by omega) hread₁.spells
  have hshorter₂ := hread₂.shorter
  refine ⟨m, q₂, ?_, (hread.trans hread₁).trans hread₂, by omega⟩
  simp only [hq, parseAndRest, eat_skipWs, h₁, bind, Except.bind, h₂]

/-- A disjunction is read. -/
theorem readsOr_or (hleft : ReadsOr left) (hright : ReadsAnd right) :
    ReadsOr (.or left right) := by
  intro n ts p hn hends hspells
  replace hspells : Spells (left.tokens 0 ++ (.or :: (right.tokens 1 ++ ts))) p.rest := by
    simpa [Expr.tokens, parens] using hspells
  obtain ⟨m, q, hq, hread, hm⟩ := hleft hn (by rintro _ ⟨⟩; exact Or.inr rfl) hspells
  obtain ⟨m, rfl⟩ := Nat.exists_eq_add_one_of_ne_zero (show m ≠ 0 by omega)
  obtain ⟨q₁, h₁, hread₁⟩ := hread.spells.eat True.intro
  replace h₁ : q.eat "OR" = (true, q₁) := h₁
  have hshorter₁ := hread₁.shorter
  obtain ⟨m₂, q₂, h₂, hread₂, hm₂⟩ := hright (n := m) (by omega) hread₁.spells
  have hshorter₂ := hread₂.shorter
  have hrest := hread₂.spells.parseAndRest (e := right) hends (m := m₂) (by omega)
  refine ⟨m, q₂, ?_, (hread.trans hread₁).trans hread₂, by omega⟩
  simp only [hq, parseOrRest, eat_skipWs, h₁, bind, Except.bind, h₂, hrest, parseOrRest_skipWs]

/-- What `parse_primary` reads is read at every place. -/
theorem ReadsNot.reads (h : ReadsNot e) (h₁ : e.tokens 1 = e.tokens 2)
    (h₀ : e.tokens 0 = e.tokens 2) : ReadsNot e ∧ ReadsAnd e ∧ ReadsOr e :=
  ⟨h, h.readsAnd h₁, (h.readsAnd h₁).readsOr (h₀.trans h₁.symm)⟩

/-- **Every well-formed expression is read at every place.** -/
theorem Expr.WellFormed.reads (he : e.WellFormed) : ReadsNot e ∧ ReadsAnd e ∧ ReadsOr e := by
  induction e with
  | hasKey key =>
    refine ReadsNot.reads (fun n ts p hn h => ?_) rfl rfl
    obtain ⟨n, rfl⟩ : ∃ k, n = k + 1 + 1 := ⟨n - 2, by omega⟩
    rw [Spells.parseNot h True.intro _ (by decide)]
    exact Spells.parsePrimary_hasKey n h he
  | hasPrefix key pre =>
    refine ReadsNot.reads (fun n ts p hn h => ?_) rfl rfl
    obtain ⟨n, rfl⟩ : ∃ k, n = k + 1 + 1 := ⟨n - 2, by omega⟩
    rw [Spells.parseNot h True.intro _ (by decide)]
    exact Spells.parsePrimary_hasPrefix n h he
  | eq key value =>
    refine ReadsNot.reads (fun n ts p hn h => ?_) rfl rfl
    obtain ⟨n, rfl⟩ : ∃ k, n = k + 1 + 1 := ⟨n - 2, by omega⟩
    rw [Spells.parseNot h True.intro _ (by decide), Spells.parsePrimary_field n h]
    obtain ⟨q, hq, hread⟩ := Spells.parseComparison_eq (h.skipWs True.intro) he
    exact ⟨q, hq, hread.of_skipWs⟩
  | ne key value =>
    refine ReadsNot.reads (fun n ts p hn h => ?_) rfl rfl
    obtain ⟨n, rfl⟩ : ∃ k, n = k + 1 + 1 := ⟨n - 2, by omega⟩
    rw [Spells.parseNot h True.intro _ (by decide), Spells.parsePrimary_field n h]
    obtain ⟨q, hq, hread⟩ := Spells.parseComparison_ne (h.skipWs True.intro) he
    exact ⟨q, hq, hread.of_skipWs⟩
  | not inner ih =>
    refine ReadsNot.reads (fun n ts p hn h => ?_) rfl rfl
    obtain ⟨n, rfl⟩ := Nat.exists_eq_add_one_of_ne_zero (show n ≠ 0 by omega)
    obtain ⟨p₁, h₁, hread₁⟩ := Spells.eat h True.intro
    replace h₁ : p.eat "NOT" = (true, p₁) := h₁
    have hshorter := hread₁.shorter
    obtain ⟨q, hq, hread⟩ := (ih he).1 (n := n) (by omega) hread₁.spells
    refine ⟨q, ?_, hread₁.trans hread⟩
    simp only [parseNot, eat_skipWs, h₁, bind, Except.bind, hq]
    rfl
  | and left right ihl ihr =>
    have hand := readsAnd_and (ihl he.1).2.1 (ihr he.2).1
    have hor := hand.readsOr rfl
    exact ⟨hor.readsNot rfl, hand, hor⟩
  | or left right ihl ihr =>
    have hor := readsOr_or (ihl he.1).2.2 (ihr he.2).2.1
    have hnot := hor.readsNot rfl
    exact ⟨hnot, hnot.readsAnd rfl, hor⟩

end Reads

/-! ### Trimming -/

/-- No token ends with a blank. -/
theorem FilterToken.WellFormed.text_eq_concat {t : FilterToken} (ht : t.WellFormed) :
    ∃ s c, t.text = s ++ [c] ∧ isWhitespace c = false := by
  cases t with
  | name key =>
    obtain ⟨hne, hident⟩ := ht
    rcases List.eq_nil_or_concat key with rfl | ⟨s, c, rfl⟩
    · exact absurd rfl hne
    refine ⟨s, c, List.concat_eq_append, Bool.eq_false_iff.mpr fun hc => ?_⟩
    have := isIdentChar_of_isWhitespace hc
    rw [hident c (by simp)] at this
    exact Bool.noConfusion this
  | quoted value => exact ⟨'"' :: escape value, '"', rfl, rfl⟩
  | _ => exact ⟨_, _, (List.dropLast_append_getLast (by decide)).symm, by decide⟩

/-- A text that begins the same ends the token as well. -/
theorem FilterToken.EndsBefore.of_prefix {t : FilterToken} {s s' : Text} (h : t.EndsBefore s)
    (hbegins : s' <+: s) : t.EndsBefore s' := by
  cases t with
  | name key =>
    rcases s' with - | ⟨c, s'⟩
    · exact fun c hc => absurd hc (by simp)
    · obtain ⟨r, rfl⟩ := hbegins
      exact h
  | _ => trivial

/-- Trimming stops at a token. -/
theorem rdropWhile_append_token {t : FilterToken} (ht : t.WellFormed) (w s : Text) :
    (w ++ (t.text ++ s)).rdropWhile isWhitespace =
      w ++ (t.text ++ s.rdropWhile isWhitespace) := by
  have hsplit : s.rdropWhile isWhitespace ++ s.rtakeWhile isWhitespace = s :=
    List.rdropWhile_append_rtakeWhile
  have hblank : ∀ c ∈ (s.rtakeWhile isWhitespace).reverse, isWhitespace c = true := fun c hc =>
    List.mem_rtakeWhile_imp (List.mem_reverse.mp hc)
  have hdrop : (w ++ (t.text ++ s)).rdropWhile isWhitespace =
      (w ++ (t.text ++ s.rdropWhile isWhitespace)).rdropWhile isWhitespace := by
    conv_lhs => rw [← hsplit]
    rw [← List.append_assoc, ← List.append_assoc, List.rdropWhile, List.reverse_append,
      List.dropWhile_append_of_pos hblank, List.append_assoc]
    rfl
  rw [hdrop, List.rdropWhile_eq_self_iff]
  intro hl
  by_cases hnil : s.rdropWhile isWhitespace = []
  · obtain ⟨x, c, hx, hc⟩ := ht.text_eq_concat
    simp [hnil, hx, hc]
  · have hlast := List.rdropWhile_last_not isWhitespace s hnil
    simpa [List.getLast_append, hnil] using hlast

/-- **Trimming does not change what is spelled.** -/
theorem Spells.rdropWhile {ts : List FilterToken} {s : Text} (h : Spells ts s)
    (hts : ∀ t ∈ ts, t.WellFormed) : Spells ts (s.rdropWhile isWhitespace) := by
  induction h with
  | done hw =>
    rw [List.rdropWhile_eq_nil_iff.mpr hw]
    exact .done fun _ h => absurd h List.not_mem_nil
  | @token w s t ts hw hend hs ih =>
    obtain ⟨ht, hts⟩ := List.forall_mem_cons.mp hts
    rw [rdropWhile_append_token ht]
    exact .token hw (hend.of_prefix (List.rdropWhile_prefix _ s)) (ih hts)

/-- The tokens of a well-formed expression are well formed. -/
theorem Expr.WellFormed.tokens {e : Expr} (he : e.WellFormed) (place : ℕ) :
    ∀ t ∈ e.tokens place, t.WellFormed := by
  have hparens : ∀ (needed : Bool) {ts : List FilterToken}, (∀ t ∈ ts, t.WellFormed) →
      ∀ t ∈ parens needed ts, t.WellFormed := by
    intro needed ts hts t ht
    cases needed with
    | false => exact hts t ht
    | true =>
      simp only [parens, if_true, List.mem_cons, List.mem_append, List.not_mem_nil, or_false]
        at ht
      rcases ht with rfl | ht | rfl
      · trivial
      · exact hts t ht
      · trivial
  induction e generalizing place with
  | not inner ih => exact List.forall_mem_cons.mpr ⟨trivial, ih he 2⟩
  | and left right ihl ihr =>
    refine hparens _ fun t ht => ?_
    rcases List.mem_append.mp ht with ht | ht
    · exact ihl he.1 1 t ht
    · exact List.forall_mem_cons.mpr ⟨trivial, ihr he.2 2⟩ t ht
  | or left right ihl ihr =>
    refine hparens _ fun t ht => ?_
    rcases List.mem_append.mp ht with ht | ht
    · exact ihl he.1 0 t ht
    · exact List.forall_mem_cons.mpr ⟨trivial, ihr he.2 1⟩ t ht
  | hasKey key => exact List.forall_mem_cons.mpr ⟨trivial, List.forall_mem_singleton.mpr he⟩
  | eq key value | ne key value =>
    refine List.forall_mem_cons.mpr ⟨trivial, List.forall_mem_cons.mpr ⟨he, ?_⟩⟩
    simp [FilterToken.WellFormed]
  | hasPrefix key pre =>
    refine List.forall_mem_cons.mpr ⟨trivial, List.forall_mem_cons.mpr ⟨trivial, ?_⟩⟩
    refine List.forall_mem_cons.mpr ⟨trivial, List.forall_mem_cons.mpr ⟨he, ?_⟩⟩
    simp [FilterToken.WellFormed]

/-! ### What the parser yields -/

/-- A computation that succeeds has succeeded in its first step. -/
theorem exists_of_bind_ok {ε α β : Type} {x : Except ε α} {f : α → Except ε β} {b : β}
    (h : (x >>= f) = .ok b) : ∃ a, x = .ok a ∧ f a = .ok b := by
  rcases x with e | a
  · cases h
  · exact ⟨a, rfl, h⟩

section Yields

variable {p q : Parser} {key : Text} {e : Expr}

/-- A name that has been read is one. -/
theorem isAttrName_of_parseIdent (h : p.parseIdent = .ok (key, q)) : IsAttrName key := by
  unfold parseIdent at h
  dsimp only at h
  split at h
  · cases h
  · rename_i hne
    cases h
    exact ⟨hne, fun c hc => List.mem_takeWhile_imp hc⟩

theorem isAttrName_of_parseAttrField (h : p.parseAttrField = .ok (key, q)) : IsAttrName key := by
  obtain ⟨p₁, -, h⟩ := exists_of_bind_ok h
  exact isAttrName_of_parseIdent h

theorem wellFormed_of_parseComparison (h : p.parseComparison = .ok (e, q)) : e.WellFormed := by
  obtain ⟨⟨key, p₁⟩, hkey, h⟩ := exists_of_bind_ok h
  have hname := isAttrName_of_parseAttrField hkey
  dsimp only at h
  split at h
  · obtain ⟨⟨value, p₂⟩, -, h⟩ := exists_of_bind_ok h
    cases h
    exact hname
  · split at h
    · obtain ⟨⟨value, p₂⟩, -, h⟩ := exists_of_bind_ok h
      cases h
      exact hname
    · cases h

/-- **What the parser yields is well formed**, function by function. -/
theorem wellFormed_of_parse (n : ℕ) :
    (∀ ⦃p e q⦄, parseOr n p = .ok (e, q) → e.WellFormed) ∧
    (∀ ⦃l p e q⦄, l.WellFormed → parseOrRest n l p = .ok (e, q) → e.WellFormed) ∧
    (∀ ⦃p e q⦄, parseAnd n p = .ok (e, q) → e.WellFormed) ∧
    (∀ ⦃l p e q⦄, l.WellFormed → parseAndRest n l p = .ok (e, q) → e.WellFormed) ∧
    (∀ ⦃p e q⦄, parseNot n p = .ok (e, q) → e.WellFormed) ∧
    (∀ ⦃p e q⦄, parsePrimary n p = .ok (e, q) → e.WellFormed) := by
  induction n with
  | zero => simp [parseOr, parseOrRest, parseAnd, parseAndRest, parseNot, parsePrimary]
  | succ n ih =>
    obtain ⟨ihOr, ihOrRest, ihAnd, ihAndRest, ihNot, ihPrimary⟩ := ih
    refine ⟨?_, ?_, ?_, ?_, ?_, ?_⟩
    · intro p e q h
      rw [parseOr] at h
      obtain ⟨⟨left, p₁⟩, hleft, h⟩ := exists_of_bind_ok h
      exact ihOrRest (ihAnd hleft) h
    · intro l p e q hl h
      rw [parseOrRest] at h
      split at h
      · obtain ⟨⟨right, p₁⟩, hright, h⟩ := exists_of_bind_ok h
        exact ihOrRest (l := .or l right) ⟨hl, ihAnd hright⟩ h
      · cases h
        exact hl
    · intro p e q h
      rw [parseAnd] at h
      obtain ⟨⟨left, p₁⟩, hleft, h⟩ := exists_of_bind_ok h
      exact ihAndRest (ihNot hleft) h
    · intro l p e q hl h
      rw [parseAndRest] at h
      split at h
      · obtain ⟨⟨right, p₁⟩, hright, h⟩ := exists_of_bind_ok h
        exact ihAndRest (l := .and l right) ⟨hl, ihNot hright⟩ h
      · cases h
        exact hl
    · intro p e q h
      rw [parseNot] at h
      split at h
      · obtain ⟨⟨inner, p₁⟩, hinner, h⟩ := exists_of_bind_ok h
        cases h
        exact ihNot (e := inner) hinner
      · exact ihPrimary h
    · intro p e q h
      rw [parsePrimary] at h
      split at h
      · obtain ⟨⟨inner, p₁⟩, hinner, h⟩ := exists_of_bind_ok h
        obtain ⟨p₂, -, h⟩ := exists_of_bind_ok h
        cases h
        exact ihOr hinner
      split at h
      · obtain ⟨p₁, -, h⟩ := exists_of_bind_ok h
        obtain ⟨⟨key, p₂⟩, hkey, h⟩ := exists_of_bind_ok h
        obtain ⟨p₃, -, h⟩ := exists_of_bind_ok h
        obtain ⟨⟨pre, p₄⟩, -, h⟩ := exists_of_bind_ok h
        obtain ⟨p₅, -, h⟩ := exists_of_bind_ok h
        cases h
        exact isAttrName_of_parseAttrField hkey
      split at h
      · obtain ⟨⟨key, p₁⟩, hkey, h⟩ := exists_of_bind_ok h
        cases h
        show IsAttrName key
        exact isAttrName_of_parseIdent hkey
      split at h
      · exact wellFormed_of_parseComparison h
      · cases h

end Yields

/-! ### The two are inverse -/

theorem Expr.tokens_ne_nil (e : Expr) (place : ℕ) : e.tokens place ≠ [] := by
  cases e with
  | and left right | or left right => unfold Expr.tokens parens; split <;> simp
  | _ => exact List.cons_ne_nil _ _

namespace AttributeFilter

/-- **A text that spells a well-formed expression is parsed to it.** -/
theorem parse_of_spells {e : Expr} (he : e.WellFormed) {raw : Text}
    (h : Spells (e.tokens 0) raw) : parse raw = .ok ⟨trim raw, some e⟩ := by
  have hts := he.tokens 0
  have htrim : Spells (e.tokens 0) (trim raw) ∧ trim raw ≠ [] := by
    have hend := h.rdropWhile hts
    have hdrop : (Parser.mk (raw.rdropWhile isWhitespace) 0).skipWs.rest = trim raw :=
      rest_skipWs _
    obtain ⟨t, ts, htokens⟩ := List.exists_cons_of_ne_nil (e.tokens_ne_nil 0)
    rw [htokens] at hts hend ⊢
    obtain ⟨ht, -⟩ := List.forall_mem_cons.mp hts
    obtain ⟨c, x, hx, -⟩ := ht.text_eq_cons
    obtain ⟨s, hs, -, -⟩ := Spells.rest_skipWs (p := ⟨_, 0⟩) hend ht
    refine ⟨hdrop ▸ Spells.skipWs (p := ⟨_, 0⟩) hend ht, ?_⟩
    rw [show trim raw = t.text ++ s from hdrop.symm.trans hs, hx]
    exact List.cons_ne_nil _ _
  obtain ⟨hspells, hne⟩ := htrim
  have hends : ∀ t ∈ ([] : List FilterToken).head?, t = .rightParen := by simp
  rw [← List.append_nil (e.tokens 0)] at hspells
  obtain ⟨q, hq, hread⟩ := he.reads.2.2.parseOr (p := ⟨trim raw, 0⟩) le_rfl hends hspells
  have hrest : q.skipWs.rest = [] := hread.spells.rest_skipWs_nil
  rw [parse, if_neg hne, hq]
  simp [bind, Except.bind, hrest]

/-- **Parsing inverts rendering.** A text that spells the tokens of a well-formed
expression, whatever the blanks, is parsed to that expression; any blanks between
the tokens spell them; and every expression that the parser yields is well formed,
so that it is yielded again by every text that spells it. -/
theorem parse_inverts_tokens :
    (∀ e : Expr, e.WellFormed → ∀ raw, Spells (e.tokens 0) raw →
      parse raw = .ok ⟨trim raw, some e⟩) ∧
    (∀ (e : Expr) (blanks : ℕ → Text), (∀ k, Blank (blanks k) ∧ blanks k ≠ []) →
      Spells (e.tokens 0) (spell blanks (e.tokens 0))) ∧
    ∀ raw f, parse raw = .ok f → ∀ e, f.expr = some e → e.WellFormed ∧
      ∀ raw', Spells (e.tokens 0) raw' → parse raw' = .ok ⟨trim raw', some e⟩ := by
  have hparse : ∀ e : Expr, e.WellFormed → ∀ raw, Spells (e.tokens 0) raw →
      parse raw = .ok ⟨trim raw, some e⟩ := fun e he raw h => parse_of_spells he h
  refine ⟨hparse, ?_, ?_⟩
  · intro e blanks hblanks
    exact spells_spell (fun k => (hblanks k).1) (fun k => (hblanks k).2) (e.tokens 0)
  · intro raw f h e hf
    suffices hwf : e.WellFormed from ⟨hwf, hparse e hwf⟩
    unfold parse at h
    dsimp only at h
    split at h
    · cases h
      cases hf
    · obtain ⟨⟨e', p⟩, hor, h⟩ := exists_of_bind_ok h
      dsimp only at h
      split at h
      · cases h
      · cases h
        obtain rfl : e' = e := Option.some.inj hf
        exact (wellFormed_of_parse _).1 hor

/-- Parentheses stand only where they are needed. -/
example :
    let e : Expr := .or (.and (.not (.hasKey "a")) (.hasKey "b")) (.and (.hasKey "c")
      (.or (.hasKey "d") (.eq "k" "say \"OR\"")))
    spell (fun _ => " ") (e.tokens 0) = (" NOT attributes: a AND attributes: b OR attributes: c" ++
      " AND ( attributes: d OR attributes. k = \"say \\\"OR\\\"\" ) " : String) := by
  decide +kernel

end AttributeFilter

end RelayPubsub
