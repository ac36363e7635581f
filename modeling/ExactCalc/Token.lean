/-
Tokens: classified pieces of a line.

A token has a kind, the offset of its first byte and its text, so it covers exactly the bytes of its text. Three kinds
may stand as atoms in an expression: constants, operators and identifiers.
-/
import ExactCalc.Span
import ExactCalc.Text.Width

namespace ExactCalc

namespace Token

/-- what a piece of text is -/
inductive Kind where
  /-- integer literal with or without a sign -/
  | constant
  /-- one of the four arithmetic signs -/
  | operator
  /-- function name -/
  | identifier
  | openParen
  | closeParen
  /-- a run of blanks -/
  | whitespace
  /-- a single character that starts no token -/
  | invalid
  /-- the empty piece behind the last character -/
  | endOfInput
  deriving DecidableEq, Repr

/-- the kinds that may stand as atoms -/
def Kind.isAtomic : Kind → Bool
  | .constant | .operator | .identifier => true
  | _ => false

/-- the kind in words -/
def Kind.label : Kind → String
  | .constant => "constant"
  | .operator => "operator"
  | .identifier => "identifier"
  | .openParen => "'('"
  | .closeParen => "')'"
  | .whitespace => "whitespace"
  | .invalid => "invalid character"
  | .endOfInput => "end of input"

end Token

/-- a classified piece of a line -/
structure Token where
  kind : Token.Kind
  offset : Nat
  text : String
  deriving DecidableEq, Repr

namespace Token

/-- size of the text in bytes -/
def width (t : Token) : Nat :=
  Text.width t.text.toList

/-- the stretch that the token covers -/
def span (t : Token) : Span :=
  ⟨t.offset, t.width⟩

/-- the position behind the token -/
def stop (t : Token) : Nat :=
  t.offset + t.width

/-- whether the token may stand as an atom -/
def isAtomic (t : Token) : Bool :=
  t.kind.isAtomic

@[simp] theorem offset_span (t : Token) : t.span.offset = t.offset := rfl

@[simp] theorem stop_span (t : Token) : t.span.stop = t.stop := rfl

end Token

end ExactCalc
