import RelayPubsub.Filter.Render

/-!
# The fuel of the filter parser

The recursion of the parser is bounded by a fuel, which the source does not have. The fuel
that `RelayPubsub.AttributeFilter.parse` starts with is enough for every text
(`RelayPubsub.AttributeFilter.parse_ne_outOfFuel`), so that what is rejected is rejected with
an error of the source.

For a text of `k` characters the functions from `parse_primary` up to `parse_or` need
`4 * k + 1` up to `4 * k + 4`: each calls the next one down with one less, and what goes back
up has read a character, which pays for all four. A loop goes on only after it has read its
connective, and needs no more than `parse_primary`.
-/

namespace RelayPubsub

open Lib RelayPubsub.Parser

/-- **The computation does not run out of fuel**, and `P` holds of what it yields. -/
def Settles {α : Type} (P : α → Prop) : Except BackendError α → Prop
  | .ok a => P a
  | .error err => err ≠ outOfFuel

section Settles

variable {α β : Type} {P : α → Prop} {Q : β → Prop}

theorem Settles.bind {x : Except BackendError α} {f : α → Except BackendError β}
    (hx : Settles P x) (hf : ∀ a, P a → Settles Q (f a)) : Settles Q (x >>= f) := by
  rcases x with err | a
  · exact hx
  · exact hf a hx

theorem settles_invalidArgument (P : α → Prop) (msg : Text) :
    Settles P (.error (.invalidArgument msg)) := by
  intro h
  cases h

end Settles

/-! ### What is left to read -/

/-- **At most `k` characters are left**, if the computation succeeds. -/
def Leaves {α : Type} (k : ℕ) : Except BackendError (α × Parser) → Prop :=
  Settles fun r => r.2.rest.length ≤ k

section Leaves

variable {p q : Parser} {s : Text} {b : Bool} {k : ℕ}

theorem Leaves.mono {α : Type} {j : ℕ} {x : Except BackendError (α × Parser)} (h : Leaves j x)
    (hjk : j ≤ k) : Leaves k x := by
  rcases x with err | ⟨a, q⟩
  · exact h
  · exact le_trans (show q.rest.length ≤ j from h) hjk

theorem length_advance_le (p : Parser) (n : ℕ) : (p.advance n).rest.length ≤ p.rest.length := by
  simp [Parser.advance]

theorem length_le_of_eat (h : p.eat s = (b, q)) : q.rest.length ≤ p.rest.length := by
  have hskip := length_skipWs_le p
  unfold Parser.eat at h
  dsimp only at h
  split_ifs at h
  · obtain ⟨-, rfl⟩ := Prod.mk.inj h
    exact (length_advance_le _ _).trans hskip
  · obtain ⟨-, rfl⟩ := Prod.mk.inj h
    exact hskip

/-- What has been eaten is no longer there. -/
theorem length_add_le_of_eat (h : p.eat s = (true, q)) :
    q.rest.length + s.length ≤ p.rest.length := by
  have hskip := length_skipWs_le p
  unfold Parser.eat at h
  dsimp only at h
  split_ifs at h with hbegins
  · obtain ⟨-, rfl⟩ := Prod.mk.inj h
    have hlen := hbegins.length_le
    simp only [Parser.advance, List.length_drop]
    omega
  · cases h

theorem settles_expect (p : Parser) (s : Text) :
    Settles (fun q => q.rest.length ≤ p.rest.length) (p.expect s) := by
  unfold Parser.expect
  split
  · rename_i q heat
    exact length_le_of_eat heat
  · exact settles_invalidArgument _ _

theorem leaves_parseIdent (p : Parser) : Leaves p.rest.length p.parseIdent := by
  unfold Parser.parseIdent
  dsimp only
  split
  · exact settles_invalidArgument _ _
  · exact (length_advance_le _ _).trans (length_skipWs_le p)

theorem leaves_parseAttrField (p : Parser) : Leaves p.rest.length p.parseAttrField := by
  refine (settles_expect _ _).bind fun q hq => ?_
  exact (leaves_parseIdent q).mono (hq.trans (length_skipWs_le p))

theorem leaves_parseString (p : Parser) : Leaves p.rest.length p.parseString := by
  unfold Parser.parseString
  split
  · exact settles_invalidArgument _ _
  · rename_i q heat
    split
    · exact (length_advance_le _ _).trans ((length_le_of_eat heat).trans (length_skipWs_le p))
    · exact settles_invalidArgument _ _

theorem leaves_parseComparison (p : Parser) : Leaves p.rest.length p.parseComparison := by
  refine (leaves_parseAttrField p).bind ?_
  rintro ⟨key, p₁⟩ h₁
  have hskip := (length_skipWs_le p₁).trans h₁
  dsimp only
  split
  · rename_i p₂ h₂
    refine (leaves_parseString p₂).bind ?_
    rintro ⟨value, q⟩ hq
    exact hq.trans ((length_le_of_eat h₂).trans hskip)
  · rename_i p₂ h₂
    split
    · rename_i p₃ h₃
      refine (leaves_parseString p₃).bind ?_
      rintro ⟨value, q⟩ hq
      exact hq.trans ((length_le_of_eat h₃).trans ((length_le_of_eat h₂).trans hskip))
    · exact settles_invalidArgument _ _

end Leaves

/-! ### Enough fuel -/

/-- **With `c` more fuel than four for each character left** the function ends, and leaves no
more characters than it found. -/
def EnoughFuel (c n : ℕ) (f : Parser → Except BackendError (Expr × Parser)) : Prop :=
  ∀ p : Parser, 4 * p.rest.length + c ≤ n → Leaves p.rest.length (f p)

/-- **The parser does not run out of fuel**, function by function. -/
theorem enoughFuel_parse (n : ℕ) :
    EnoughFuel 4 n (parseOr n) ∧ (∀ left, EnoughFuel 1 n (parseOrRest n left)) ∧
    EnoughFuel 3 n (parseAnd n) ∧ (∀ left, EnoughFuel 1 n (parseAndRest n left)) ∧
    EnoughFuel 2 n (parseNot n) ∧ EnoughFuel 1 n (parsePrimary n) := by
  induction n with
  | zero =>
    refine ⟨?_, fun left => ?_, ?_, fun left => ?_, ?_, ?_⟩ <;>
      exact fun p hp => absurd hp (by omega)
  | succ n ih =>
    obtain ⟨ihOr, ihOrRest, ihAnd, ihAndRest, ihNot, ihPrimary⟩ := ih
    refine ⟨?_, ?_, ?_, ?_, ?_, ?_⟩
    · intro p hp
      rw [parseOr]
      refine (ihAnd p (by omega)).bind ?_
      rintro ⟨left, p₁⟩ h₁
      have hlen : p₁.rest.length ≤ p.rest.length := h₁
      exact (ihOrRest left p₁ (by omega)).mono hlen
    · intro left p hp
      have hskip := length_skipWs_le p
      rw [parseOrRest]
      split
      · rename_i p₁ heat
        have hlen₁ : p₁.rest.length + 2 ≤ p.skipWs.rest.length := length_add_le_of_eat heat
        refine (ihAnd p₁ (by omega)).bind ?_
        rintro ⟨right, p₂⟩ h₂
        have hlen₂ : p₂.rest.length ≤ p₁.rest.length := h₂
        exact (ihOrRest _ p₂ (by omega)).mono (by omega)
      · rename_i p₁ heat
        exact (length_le_of_eat heat).trans hskip
    · intro p hp
      rw [parseAnd]
      refine (ihNot p (by omega)).bind ?_
      rintro ⟨left, p₁⟩ h₁
      have hlen : p₁.rest.length ≤ p.rest.length := h₁
      exact (ihAndRest left p₁ (by omega)).mono hlen
    · intro left p hp
      have hskip := length_skipWs_le p
      rw [parseAndRest]
      split
      · rename_i p₁ heat
        have hlen₁ : p₁.rest.length + 3 ≤ p.skipWs.rest.length := length_add_le_of_eat heat
        refine (ihNot p₁ (by omega)).bind ?_
        rintro ⟨right, p₂⟩ h₂
        have hlen₂ : p₂.rest.length ≤ p₁.rest.length := h₂
        exact (ihAndRest _ p₂ (by omega)).mono (by omega)
      · rename_i p₁ heat
        exact (length_le_of_eat heat).trans hskip
    · intro p hp
      have hskip := length_skipWs_le p
      rw [parseNot]
      split
      · rename_i p₁ heat
        have hlen₁ : p₁.rest.length + 3 ≤ p.skipWs.rest.length := length_add_le_of_eat heat
        refine (ihNot p₁ (by omega)).bind ?_
        rintro ⟨inner, p₂⟩ h₂
        have hlen₂ : p₂.rest.length ≤ p₁.rest.length := h₂
        show p₂.rest.length ≤ p.rest.length
        omega
      · rename_i p₁ heat
        have hlen₁ := (length_le_of_eat heat).trans hskip
        exact (ihPrimary p₁ (by omega)).mono hlen₁
    · intro p hp
      have hskip := length_skipWs_le p
      rw [parsePrimary]
      split
      · rename_i p₁ heat
        -- the parenthesis pays for the way down
        have hlen₁ : p₁.rest.length + 1 ≤ p.skipWs.rest.length := length_add_le_of_eat heat
        refine (ihOr p₁ (by omega)).bind ?_
        rintro ⟨inner, p₂⟩ h₂
        have hlen₂ : p₂.rest.length ≤ p₁.rest.length := h₂
        refine (settles_expect p₂ _).bind fun q hq => ?_
        show q.rest.length ≤ p.rest.length
        omega
      rename_i p₁ heat
      have hlen₁ := (length_le_of_eat heat).trans hskip
      split
      · rename_i p₂ h₂
        refine (settles_expect p₂ _).bind fun p₃ h₃ => ?_
        refine (leaves_parseAttrField p₃).bind ?_
        rintro ⟨key, p₄⟩ h₄
        refine (settles_expect p₄ _).bind fun p₅ h₅ => ?_
        refine (leaves_parseString p₅).bind ?_
        rintro ⟨pre, p₆⟩ h₆
        refine (settles_expect p₆ _).bind fun q hq => ?_
        calc q.rest.length ≤ p₆.rest.length := hq
          _ ≤ p₅.rest.length := h₆
          _ ≤ p₄.rest.length := h₅
          _ ≤ p₃.rest.length := h₄
          _ ≤ p₂.rest.length := h₃
          _ ≤ p₁.rest.length := length_le_of_eat h₂
          _ ≤ p.rest.length := hlen₁
      rename_i p₂ h₂
      have hlen₂ := (length_le_of_eat h₂).trans hlen₁
      split
      · rename_i p₃ h₃
        refine (leaves_parseIdent p₃).bind ?_
        rintro ⟨key, q⟩ hq
        exact hq.trans ((length_le_of_eat h₃).trans hlen₂)
      rename_i p₃ h₃
      split
      · exact (leaves_parseComparison p₃).mono ((length_le_of_eat h₃).trans hlen₂)
      · exact settles_invalidArgument _ _

/-- **Every text is accepted or rejected by the source's own rules**: the fuel is enough. -/
theorem AttributeFilter.parse_ne_outOfFuel (raw : Text) :
    AttributeFilter.parse raw ≠ .error outOfFuel := by
  suffices h : Settles (fun _ => True) (AttributeFilter.parse raw) by
    intro hfuel
    rw [hfuel] at h
    exact h rfl
  unfold AttributeFilter.parse
  dsimp only
  split
  · trivial
  · refine ((enoughFuel_parse _).1 ⟨trim raw, 0⟩ le_rfl).bind fun ⟨e, q⟩ _ => ?_
    dsimp only
    split
    · exact settles_invalidArgument _ _
    · trivial

end RelayPubsub
