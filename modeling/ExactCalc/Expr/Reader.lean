/-
Reading expressions from a line.

An expression is an atom, or elements in parentheses; blanks may stand anywhere between tokens. Reading takes one token
off the cursor and decides by its kind. Inside a list the next token is looked at first: the closing parenthesis ends
the list, the end of the line or an invalid character stops the reading right there, and anything else starts an
element, unless it would lie too deep.

Reading leaves a cursor behind in every case. A refused first token has been taken, and what stops a list has only been
looked at, so that reading can go on from there.

`Reply.shorter`: whatever was read took something off the line, which is why reading comes to an end.
`cursor_expression_of_atom`: an atom is taken and nothing else.
-/
import ExactCalc.Cursor
import ExactCalc.Expr

namespace ExactCalc

/-! ## Replies -/

/-- what reading from a cursor gives: a value, with less text left behind it, or a failure, with the cursor where it
was noticed -/
inductive Reply (c : Cursor) (α : Type) where
  | read (value : α) (next : Cursor) (shorter : next.rest.length < c.rest.length)
  | refused (failure : Failure) (next : Cursor)

namespace Reply

variable {c : Cursor} {α : Type}

/-- the value or the failure -/
def result : Reply c α → Except Failure α
  | .read value _ _ => .ok value
  | .refused failure _ => .error failure

/-- where reading left the cursor -/
def cursor : Reply c α → Cursor
  | .read _ next _ => next
  | .refused _ next => next

theorem shorter {r : Reply c α} {value : α} (h : r.result = .ok value) : r.cursor.rest.length < c.rest.length := by
  cases r with
  | read _ next shorter => exact shorter
  | refused _ _ => cases h

end Reply

/-! ## Reading -/

namespace Expr

/-- the failure at an invalid token -/
def unexpected (t : Token) : Failure :=
  (Failure.of (.unexpectedChar (t.text.toList.headD '\x00'))).tag t.span .parse

/-- the failure at a token that starts no expression -/
def noEntry (t : Token) : Failure :=
  (Failure.of (.invalidEntryPoint t.kind)).tag t.span .parse

/-- the failure at the end of a line inside the list that `opening` starts -/
def unterminated (opening ending : Token) : Failure :=
  (Failure.of .unterminatedList).tag (.between opening.offset ending.offset) .parse

/-- the failure at a token behind a complete expression -/
def trailing (t : Token) : Failure :=
  (Failure.of .trailingInput).tag t.span .parse

theorem kind_ne_endOfInput_of_isAtomic {t : Token} (h : t.isAtomic = true) : t.kind ≠ .endOfInput := by
  intro e
  simp [Token.isAtomic, e, Token.Kind.isAtomic] at h

mutual

/-- read one expression at this depth -/
def expressionAt (depth : Nat) (c : Cursor) : Reply c (Located Expr) :=
  if atomic : c.token.isAtomic then
    .read ⟨c.token.span, .atom c.token⟩ c.afterToken
      (Cursor.afterToken_rest_length_lt (kind_ne_endOfInput_of_isAtomic atomic))
  else if opens : c.token.kind = .openParen then
    have taken : c.afterToken.rest.length < c.rest.length := Cursor.afterToken_rest_length_lt (by simp [opens])
    match elementsAt depth c.token c.afterToken with
    | .read (es, stop) next shorter =>
      .read ⟨.between c.token.offset stop, ofList es⟩ next (Nat.lt_trans shorter taken)
    | .refused f next => .refused f next
  else if c.token.kind = .invalid then .refused (unexpected c.token) c.afterToken
  else .refused (noEntry c.token) c.afterToken
termination_by 2 * c.rest.length
decreasing_by omega

/-- read the elements of a list up to its closing parenthesis, and say where that ends; the list starts with `opening`
and lies at this depth -/
def elementsAt (depth : Nat) (opening : Token) (c : Cursor) : Reply c (List Expr × Nat) :=
  if closes : c.token.kind = .closeParen then
    .read ([], c.token.stop) c.afterToken (Cursor.afterToken_rest_length_lt (by simp [closes]))
  else if c.token.kind = .endOfInput then .refused (unterminated opening c.token) c.skipBlanks
  else if c.token.kind = .invalid then .refused (unexpected c.token) c.skipBlanks
  else
    match deeper depth with
    | .error r => .refused ((Failure.of r).tag opening.span .parse) c.skipBlanks
    | .ok inner =>
      match expressionAt inner c with
      | .refused f next => .refused f next
      | .read e next shorter =>
        match elementsAt depth opening next with
        | .refused f last => .refused f last
        | .read (es, stop) last shorter' => .read (e.value :: es, stop) last (Nat.lt_trans shorter' shorter)
termination_by 2 * c.rest.length + 1
decreasing_by all_goals omega

end

/-- read one expression -/
def expression (c : Cursor) : Reply c (Located Expr) :=
  expressionAt 0 c

/-- whether nothing but blanks is left, which are skipped -/
def finish (c : Cursor) : Except Failure Unit × Cursor :=
  if c.token.kind = .endOfInput then (.ok (), c.skipBlanks)
  else if c.token.kind = .invalid then (.error (unexpected c.token), c.skipBlanks)
  else (.error (trailing c.token), c.skipBlanks)

/-- read a line that holds one expression and nothing else -/
def parse (line : String) : Except Failure (Located Expr) := do
  let reply := expression (Cursor.start line)
  let e ← reply.result
  (finish reply.cursor).1
  return e

theorem cursor_expression_of_atom {c : Cursor} (h : c.token.isAtomic = true) :
    (expression c).result = .ok ⟨c.token.span, .atom c.token⟩ ∧ (expression c).cursor = c.afterToken := by
  rw [expression, expressionAt, dif_pos h]
  exact ⟨rfl, rfl⟩

end Expr

end ExactCalc
