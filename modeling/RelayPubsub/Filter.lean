import RelayPubsub.Model

/-!
# Subscription filters

`src/filter.rs`: the subset of the Google Pub/Sub filter language that
subscriptions accept.

- `attributes:name` / `NOT attributes:name`
- `attributes.name = "value"` / `attributes.name != "value"`
- `hasPrefix(attributes.name, "pre")` / `NOT hasPrefix(...)`
- `AND` / `OR` and parentheses

Non-matching messages are auto-acknowledged by the pull path. An empty filter
matches every message.

The parser is recursive descent over the text still to be read, with the number
of bytes read so far, which the error texts report. The recursion is bounded by
a fuel that `RelayPubsub.AttributeFilter.parse` sets from the length of the text:
every descent from `parseOr` back to `parseOr` reads an opening parenthesis, and
passes through four functions. It never runs out
(`RelayPubsub.AttributeFilter.parse_ne_outOfFuel`).
-/

namespace RelayPubsub

open Lib

/-- A parsed filter expression. -/
inductive Expr where
  | hasKey (key : Text)
  | eq (key value : Text)
  | ne (key value : Text)
  | hasPrefix (key pre : Text)
  | not (inner : Expr)
  | and (left right : Expr)
  | or (left right : Expr)
  deriving DecidableEq

/-- The value of a filter expression on the attributes of a message. -/
def Expr.eval (attributes : StrMap Text) : Expr → Bool
  | .hasKey key => attributes.contains key
  | .eq key value => attributes[key]? == some value
  | .ne key value => !(attributes[key]? == some value)
  | .hasPrefix key pre => attributes[key]?.any fun v => pre.isPrefixOf v
  | .not inner => !inner.eval attributes
  | .and left right => left.eval attributes && right.eval attributes
  | .or left right => left.eval attributes || right.eval attributes

/-! ### The parser -/

/-- What is still to be read, and the number of bytes read so far. -/
structure Parser where
  rest : Text
  pos : ℕ

namespace Parser

/-- The number of bytes of a text in UTF-8. -/
def utf8Len (s : Text) : ℕ := (s.map Char.utf8Size).sum

/-- Read `n` characters. -/
def advance (p : Parser) (n : ℕ) : Parser := ⟨p.rest.drop n, p.pos + utf8Len (p.rest.take n)⟩

def skipWs (p : Parser) : Parser := p.advance (p.rest.takeWhile isWhitespace).length

/-- Skip blanks, then read `s` if it comes next. -/
def eat (p : Parser) (s : Text) : Bool × Parser :=
  let p := p.skipWs
  if s <+: p.rest then (true, p.advance s.length) else (false, p)

def expect (p : Parser) (s : Text) : Except BackendError Parser :=
  match p.eat s with
  | (true, p) => .ok p
  | (false, p) =>
    .error (.invalidArgument ("expected '" ++ s ++ "' in filter at position " ++ decimal p.pos))

def isIdentChar (c : Char) : Bool := c.isAlphanum || c = '_' || c = '-' || c = '.'

def parseIdent (p : Parser) : Except BackendError (Text × Parser) :=
  let p := p.skipWs
  let ident := p.rest.takeWhile isIdentChar
  if ident = [] then .error (.invalidArgument "expected attribute name in filter")
  else .ok (ident, p.advance ident.length)

def parseAttrField (p : Parser) : Except BackendError (Text × Parser) := do
  let p ← p.skipWs.expect "attributes."
  p.parseIdent

/-- The characters of a quoted string after its opening quote, and the number
of characters they took, closing quote included; nothing when it is not
closed. -/
def scanString : Text → Option (Text × ℕ)
  | [] => none
  | '"' :: _ => some ([], 1)
  | '\\' :: '"' :: cs => (scanString cs).map fun r => ('"' :: r.1, r.2 + 2)
  | '\\' :: '\\' :: cs => (scanString cs).map fun r => ('\\' :: r.1, r.2 + 2)
  | '\\' :: c :: cs => (scanString cs).map fun r => ('\\' :: c :: r.1, r.2 + 2)
  | ['\\'] => none
  | c :: cs => (scanString cs).map fun r => (c :: r.1, r.2 + 1)

def parseString (p : Parser) : Except BackendError (Text × Parser) :=
  match p.skipWs.eat ['"'] with
  | (false, _) => .error (.invalidArgument "expected quoted string in filter")
  | (true, p) =>
    match scanString p.rest with
    | some (out, n) => .ok (out, p.advance n)
    | none => .error (.invalidArgument "unterminated string in filter")

/-- A comparison: what follows `attributes.` in an expression. -/
def parseComparison (p : Parser) : Except BackendError (Expr × Parser) := do
  let (key, p) ← p.parseAttrField
  match p.skipWs.eat "!=" with
  | (true, p) => do
    let (value, p) ← p.parseString
    return (.ne key value, p)
  | (false, p) =>
    match p.eat "=" with
    | (true, p) => do
      let (value, p) ← p.parseString
      return (.eq key value, p)
    | (false, _) => .error (.invalidArgument ("expected comparison after attributes." ++ key))

/-- The answer when the fuel runs out, which the fuel of
`RelayPubsub.AttributeFilter.parse` never does. -/
def outOfFuel : BackendError := .internal "filter fuel"

mutual

def parseOr : ℕ → Parser → Except BackendError (Expr × Parser)
  | 0, _ => .error outOfFuel
  | n + 1, p => do
    let (left, p) ← parseAnd n p
    parseOrRest n left p

/-- The loop of `parse_or`. -/
def parseOrRest : ℕ → Expr → Parser → Except BackendError (Expr × Parser)
  | 0, _, _ => .error outOfFuel
  | n + 1, left, p =>
    match p.skipWs.eat "OR" with
    | (true, p) => do
      let (right, p) ← parseAnd n p
      parseOrRest n (.or left right) p
    | (false, p) => .ok (left, p)

def parseAnd : ℕ → Parser → Except BackendError (Expr × Parser)
  | 0, _ => .error outOfFuel
  | n + 1, p => do
    let (left, p) ← parseNot n p
    parseAndRest n left p

/-- The loop of `parse_and`. -/
def parseAndRest : ℕ → Expr → Parser → Except BackendError (Expr × Parser)
  | 0, _, _ => .error outOfFuel
  | n + 1, left, p =>
    match p.skipWs.eat "AND" with
    | (true, p) => do
      let (right, p) ← parseNot n p
      parseAndRest n (.and left right) p
    | (false, p) => .ok (left, p)

def parseNot : ℕ → Parser → Except BackendError (Expr × Parser)
  | 0, _ => .error outOfFuel
  | n + 1, p =>
    match p.skipWs.eat "NOT" with
    | (true, p) => do
      let (inner, p) ← parseNot n p
      return (.not inner, p)
    | (false, p) => parsePrimary n p

def parsePrimary : ℕ → Parser → Except BackendError (Expr × Parser)
  | 0, _ => .error outOfFuel
  | n + 1, p =>
    match p.skipWs.eat "(" with
    | (true, p) => do
      let (inner, p) ← parseOr n p
      let p ← p.expect ")"
      return (inner, p)
    | (false, p) =>
      match p.eat "hasPrefix" with
      | (true, p) => do
        let p ← p.expect "("
        let (key, p) ← p.parseAttrField
        let p ← p.expect ","
        let (pre, p) ← p.parseString
        let p ← p.expect ")"
        return (.hasPrefix key pre, p)
      | (false, p) =>
        match p.eat "attributes:" with
        | (true, p) => do
          let (key, p) ← p.parseIdent
          return (.hasKey key, p)
        | (false, p) =>
          if "attributes.".toList <+: p.rest then p.parseComparison
          else
            .error (.invalidArgument ("unexpected token in filter at position " ++ decimal p.pos))

end

end Parser

/-! ### Filters -/

/-- A filter: its trimmed text, and its expression unless it is empty. -/
structure AttributeFilter where
  raw : Text
  expr : Option Expr
  deriving DecidableEq

namespace AttributeFilter

def parse (raw : Text) : Except BackendError AttributeFilter :=
  let trimmed := trim raw
  if trimmed = [] then .ok ⟨[], none⟩
  else do
    let (expr, p) ← Parser.parseOr (4 * trimmed.length + 4) ⟨trimmed, 0⟩
    let p := p.skipWs
    if p.rest ≠ [] then
      .error (.invalidArgument ("trailing characters in filter at position " ++ decimal p.pos))
    else .ok ⟨trimmed, some expr⟩

def «matches» (f : AttributeFilter) (attributes : StrMap Text) : Bool :=
  match f.expr with
  | none => true
  | some expr => expr.eval attributes

end AttributeFilter

end RelayPubsub
