/-
A cursor over a line, and the tokens it passes.

A cursor holds the position reached and the text not yet read. Looking at the next token leaves it where it is, and
moving on takes it behind that token. At the end of the line it stays, and looking there shows an empty end token.

`advance_rest_length_lt`: before the end every step shortens the text that is left, which is why skipping blanks and
listing the tokens come to an end. `token_kind_ne_whitespace`: behind skipped blanks no blank comes next.
`tokens_eq`: the list of tokens starts with the next one.
-/
import ExactCalc.Token.Lexeme

namespace ExactCalc

/-- a position in a line with the text from there on -/
structure Cursor where
  offset : Nat
  rest : List Char
  deriving DecidableEq, Repr

namespace Cursor

/-- the cursor before the first character of a line -/
def start (line : String) : Cursor :=
  ⟨0, line.toList⟩

/-! ## One step -/

/-- the next token, and the cursor behind it -/
def next (c : Cursor) : Token × Cursor :=
  let lexeme := Lexeme.first c.rest
  let t : Token := ⟨lexeme.kind, c.offset, String.ofList lexeme.text⟩
  (t, ⟨t.stop, lexeme.rest⟩)

/-- the next token, left where it is -/
def peek (c : Cursor) : Token :=
  c.next.1

/-- the cursor behind the next token -/
def advance (c : Cursor) : Cursor :=
  c.next.2

theorem kind_peek_eq_endOfInput_iff {c : Cursor} : c.peek.kind = .endOfInput ↔ c.rest = [] :=
  Lexeme.kind_first_eq_endOfInput_iff

theorem advance_rest_length_lt {c : Cursor} (h : c.peek.kind ≠ .endOfInput) :
    c.advance.rest.length < c.rest.length :=
  Lexeme.rest_length_lt (mt kind_peek_eq_endOfInput_iff.2 h)

theorem text_peek_append_rest (c : Cursor) : c.peek.text.toList ++ c.advance.rest = c.rest := by
  simpa [peek, advance, next] using Lexeme.text_append_rest c.rest

theorem offset_advance (c : Cursor) : c.advance.offset = c.peek.stop := rfl

/-! ## Blanks -/

/-- move on while a run of blanks comes next -/
def skipBlanks (c : Cursor) : Cursor :=
  if c.peek.kind = .whitespace then c.advance.skipBlanks else c
termination_by c.rest.length
decreasing_by exact advance_rest_length_lt (by simp [*])

theorem skipBlanks_rest_length_le (c : Cursor) : c.skipBlanks.rest.length ≤ c.rest.length := by
  fun_induction skipBlanks c with
  | case1 c h ih => exact Nat.le_of_lt (Nat.lt_of_le_of_lt ih (advance_rest_length_lt (by simp [h])))
  | case2 c h => exact Nat.le_refl _

/-! ## Tokens that are not blank -/

/-- the next token that is not blank -/
def token (c : Cursor) : Token :=
  c.skipBlanks.peek

/-- the cursor behind the next token that is not blank -/
def afterToken (c : Cursor) : Cursor :=
  c.skipBlanks.advance

theorem token_kind_ne_whitespace (c : Cursor) : c.token.kind ≠ .whitespace := by
  unfold token
  fun_induction skipBlanks c with
  | case1 c h ih => exact ih
  | case2 c h => exact h

theorem afterToken_rest_length_lt {c : Cursor} (h : c.token.kind ≠ .endOfInput) :
    c.afterToken.rest.length < c.rest.length :=
  Nat.lt_of_lt_of_le (advance_rest_length_lt h) c.skipBlanks_rest_length_le

/-! ## All tokens -/

/-- the tokens from here to the end, blanks included and the end token not -/
def tokens (c : Cursor) : List Token :=
  let step := c.next
  if step.1.kind = .endOfInput then [] else step.1 :: step.2.tokens
termination_by c.rest.length
decreasing_by exact advance_rest_length_lt (by assumption)

theorem tokens_eq (c : Cursor) :
    c.tokens = if c.peek.kind = .endOfInput then [] else c.peek :: c.advance.tokens := by
  rw [tokens]
  rfl

end Cursor

/-- the tokens of a line -/
def Token.scan (line : String) : List Token :=
  (Cursor.start line).tokens

end ExactCalc
