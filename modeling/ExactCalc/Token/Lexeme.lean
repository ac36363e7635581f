/-
The lexical grammar: which token starts a text.

`Lexeme.first` takes the first piece off a text. Its first character decides the class:
  - a parenthesis stands alone;
  - an ASCII letter starts an identifier, which goes on with letters, digits, hyphens and apostrophes;
  - a digit, or a sign before a digit, starts a constant, which goes on with digits;
  - a blank starts a run of blanks;
  - any other `+`, `-`, `*` or `/` is an operator;
  - anything else is invalid, one character at a time.
An identifier or a constant must be followed by a blank, a parenthesis or the end; if it is glued to anything else, its
first character alone becomes invalid.

`text_append_rest`: the piece and the rest make up the text. `rest_length_lt`: on a text that is not empty the rest is
shorter. `kind_first_eq_endOfInput_iff`: only the empty text ends the input.
-/
import ExactCalc.Token
import ExactCalc.Text.Blank

namespace ExactCalc

/-- the first piece of a text, and what follows it -/
structure Lexeme where
  kind : Token.Kind
  text : List Char
  rest : List Char
  deriving DecidableEq, Repr

namespace Lexeme

/-! ## Character classes -/

/-- the two characters that are a sign when a digit follows -/
def isSign (c : Char) : Bool :=
  c == '+' || c == '-'

/-- the four operator characters -/
def isOperator (c : Char) : Bool :=
  isSign c || c == '*' || c == '/'

/-- the characters of an identifier behind its first one -/
def isNameChar (c : Char) : Bool :=
  c.isAlphanum || c == '-' || c == '\''

/-- the characters that may follow an identifier or a constant -/
def isDelimiter (c : Char) : Bool :=
  Text.isBlank c || c == '(' || c == ')'

/-- whether an identifier or a constant may end before this text -/
def delimits : List Char → Bool
  | [] => true
  | c :: _ => isDelimiter c

/-- whether a text starts with a digit -/
def startsWithDigit : List Char → Bool
  | [] => false
  | c :: _ => c.isDigit

/-! ## The first piece -/

/-- a piece of one character -/
def single (kind : Token.Kind) (c : Char) (cs : List Char) : Lexeme :=
  ⟨kind, [c], cs⟩

/-- a first character with all characters of a class that follow it -/
@[specialize] def run (kind : Token.Kind) (p : Char → Bool) (c : Char) (cs : List Char) : Lexeme :=
  ⟨kind, c :: cs.takeWhile p, cs.dropWhile p⟩

/-- a run that has to be delimited; otherwise its first character is invalid -/
@[specialize] def delimitedRun (kind : Token.Kind) (p : Char → Bool) (c : Char) (cs : List Char) : Lexeme :=
  if delimits (cs.dropWhile p) then run kind p c cs else single .invalid c cs

/-- the piece that a text starts with -/
def first : List Char → Lexeme
  | [] => ⟨.endOfInput, [], []⟩
  | c :: cs =>
    if c = '(' then single .openParen c cs
    else if c = ')' then single .closeParen c cs
    else if c.isAlpha then delimitedRun .identifier isNameChar c cs
    else if c.isDigit || (isSign c && startsWithDigit cs) then delimitedRun .constant Char.isDigit c cs
    else if Text.isBlank c then run .whitespace Text.isBlank c cs
    else if isOperator c then single .operator c cs
    else single .invalid c cs

example : (first "-12 x".toList).text = "-12".toList := by decide

example : (first "12x".toList) = single .invalid '1' "2x".toList := by decide

example : (first "-x".toList) = single .operator '-' "x".toList := by decide

example : (first "a-b')".toList) = ⟨.identifier, "a-b'".toList, ")".toList⟩ := by decide

/-! ## Nothing is lost, and something is taken -/

/-- a first character is cut off: the two parts make up the text, and the first part holds that character -/
def Cuts (c : Char) (cs : List Char) (l : Lexeme) : Prop :=
  l.text ++ l.rest = c :: cs ∧ (∃ taken, l.text = c :: taken) ∧ l.kind ≠ .endOfInput

theorem cuts_single (kind : Token.Kind) (h : kind ≠ .endOfInput) (c : Char) (cs : List Char) :
    Cuts c cs (single kind c cs) :=
  ⟨rfl, ⟨[], rfl⟩, h⟩

theorem cuts_run (kind : Token.Kind) (h : kind ≠ .endOfInput) (p : Char → Bool) (c : Char) (cs : List Char) :
    Cuts c cs (run kind p c cs) :=
  ⟨by simp [run, List.takeWhile_append_dropWhile], ⟨_, rfl⟩, h⟩

theorem cuts_delimitedRun (kind : Token.Kind) (h : kind ≠ .endOfInput) (p : Char → Bool) (c : Char)
    (cs : List Char) : Cuts c cs (delimitedRun kind p c cs) := by
  unfold delimitedRun
  split
  · exact cuts_run kind h p c cs
  · exact cuts_single .invalid nofun c cs

theorem cuts_first (c : Char) (cs : List Char) : Cuts c cs (first (c :: cs)) := by
  simp only [first]
  split
  · exact cuts_single .openParen nofun c cs
  split
  · exact cuts_single .closeParen nofun c cs
  split
  · exact cuts_delimitedRun .identifier nofun isNameChar c cs
  split
  · exact cuts_delimitedRun .constant nofun Char.isDigit c cs
  split
  · exact cuts_run .whitespace nofun Text.isBlank c cs
  split
  · exact cuts_single .operator nofun c cs
  · exact cuts_single .invalid nofun c cs

theorem text_append_rest (cs : List Char) : (first cs).text ++ (first cs).rest = cs := by
  cases cs with
  | nil => rfl
  | cons c cs => exact (cuts_first c cs).1

theorem kind_first_eq_endOfInput_iff {cs : List Char} : (first cs).kind = .endOfInput ↔ cs = [] := by
  cases cs with
  | nil => simp [first]
  | cons c cs => simpa using (cuts_first c cs).2.2

theorem text_first_ne_nil {cs : List Char} (h : cs ≠ []) : (first cs).text ≠ [] := by
  cases cs with
  | nil => exact absurd rfl h
  | cons c cs =>
    obtain ⟨taken, h⟩ := (cuts_first c cs).2.1
    simp [h]

theorem rest_length_lt {cs : List Char} (h : cs ≠ []) : (first cs).rest.length < cs.length := by
  have total := congrArg List.length (text_append_rest cs)
  have := List.length_pos_iff.2 (text_first_ne_nil h)
  simp only [List.length_append] at total
  omega

end Lexeme

end ExactCalc
