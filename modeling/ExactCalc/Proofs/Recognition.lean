/-
Tokens recognised by the grammar alone.

`Lexeme.Stands kind text rest`: by the grammar a piece of this kind and text stands before this rest. Constants and
names are whole texts of their languages with an end, a blank or a parenthesis behind them. Nothing is said of how far a
run is taken, of the order in which the kinds are asked for, or of giving up a run that is glued to something.

Results:
- `first_of_stands`: a piece that stands somewhere is found there. For constants and names this is where greed does no
  harm: no character that goes on with one of them may stand behind it.
- `stands_first`: a piece that is found stands there, unless it is an invalid character.
- `first_eq_iff`, `kind_first_eq_invalid_iff`: so the grammar decides what is found, and a character is invalid exactly
  if nothing stands at the start of the text.
- `token_recognised`: **the lexer recognises exactly the lexical grammar**.
-/
import ExactCalc.Cursor
import ExactCalc.Proofs.Lexical

namespace ExactCalc

namespace Lexeme

/-! ## What stands before a rest -/

/-- by the grammar a piece of this kind and text stands before this rest -/
def Stands : Token.Kind → List Char → List Char → Prop
  | .constant, text, rest => isConstant text = true ∧ delimits rest = true
  | .identifier, text, rest => isName text = true ∧ delimits rest = true
  | .operator, text, rest => ∃ c, text = [c] ∧ isOperator c = true ∧ ¬(isSign c = true ∧ startsWithDigit rest = true)
  | .openParen, text, _ => text = ['(']
  | .closeParen, text, _ => text = [')']
  | .whitespace, text, rest =>
    text ≠ [] ∧ (∀ x ∈ text, Text.isBlank x = true) ∧ ∀ x, rest.head? = some x → Text.isBlank x = false
  | .invalid, _, _ => False
  | .endOfInput, text, rest => text = [] ∧ rest = []

/-- what stands before a rest is found there -/
theorem first_of_stands {kind : Token.Kind} {text rest : List Char} (h : Stands kind text rest) :
    first (text ++ rest) = ⟨kind, text, rest⟩ := by
  cases kind with
  | constant => exact first_constant h.1 h.2
  | identifier => exact first_name h.1 h.2
  | operator =>
    obtain ⟨c, rfl, operator, unsigned⟩ := h
    exact first_of_isOperator operator (by simpa using unsigned)
  | openParen =>
    have : text = ['('] := h
    rw [this]
    exact first_openParen rest
  | closeParen =>
    have : text = [')'] := h
    rw [this]
    exact first_closeParen rest
  | whitespace =>
    obtain ⟨nonempty, blank, stop⟩ := h
    obtain ⟨c, cs, rfl⟩ := List.exists_cons_of_ne_nil nonempty
    rw [List.forall_mem_cons] at blank
    obtain ⟨taken, left⟩ := span_append blank.2 stop
    rw [List.cons_append, first_of_isBlank blank.1, run, taken, left]
  | invalid => exact h.elim
  | endOfInput =>
    obtain ⟨rfl, rfl⟩ := h
    rfl

/-- a run that has to be delimited is of its own kind or given up -/
theorem kind_delimitedRun (kind : Token.Kind) (p : Char → Bool) (c : Char) (cs : List Char) :
    (delimitedRun kind p c cs).kind = kind ∨ (delimitedRun kind p c cs).kind = .invalid := by
  unfold delimitedRun
  split
  · left
    rfl
  · right
    rfl

/-- a sign before a digit is never taken for an operator -/
theorem unsigned_of_operator {c : Char} {rest : List Char} (h : (first (c :: rest)).kind = .operator) :
    ¬(isSign c = true ∧ startsWithDigit rest = true) := by
  intro signed
  have numeral : (c.isDigit || isSign c && startsWithDigit rest) = true := by
    rw [signed.1, signed.2, Bool.and_self, Bool.or_true]
  rw [first_of_numeral numeral] at h
  rcases kind_delimitedRun .constant Char.isDigit c rest with constant | invalid
  · rw [constant] at h
    cases h
  · rw [invalid] at h
    cases h

/-- what is found stands there, unless it is an invalid character -/
theorem stands_first {cs : List Char} (h : (first cs).kind ≠ .invalid) :
    Stands (first cs).kind (first cs).text (first cs).rest := by
  have taken := taken_first cs
  generalize found : first cs = l at h taken
  cases taken with
  | ended => exact ⟨rfl, rfl⟩
  | openParen rest => exact rfl
  | closeParen rest => exact rfl
  | blanks c text rest blank stop => exact ⟨List.cons_ne_nil c text, blank, stop⟩
  | invalid c rest => exact absurd rfl h
  | atom kind text rest spelled delimited =>
    cases kind with
    | constant => exact ⟨spelled, delimited (by decide)⟩
    | identifier => exact ⟨spelled, delimited (by decide)⟩
    | operator =>
      obtain ⟨c, rfl, operator⟩ := isOperatorText_eq_true_iff.1 spelled
      exact ⟨c, rfl, operator, unsigned_of_operator (by rw [← List.singleton_append, found])⟩
    | _ => cases spelled

/-! ## The grammar decides -/

theorem first_eq_iff {cs text rest : List Char} {kind : Token.Kind} (valid : kind ≠ .invalid) :
    first cs = ⟨kind, text, rest⟩ ↔ cs = text ++ rest ∧ Stands kind text rest := by
  constructor
  · intro found
    have whole := text_append_rest cs
    have stands : (first cs).kind ≠ .invalid → Stands (first cs).kind (first cs).text (first cs).rest := stands_first
    rw [found] at whole stands
    exact ⟨whole.symm, stands valid⟩
  · intro h
    obtain ⟨rfl, stands⟩ := h
    exact first_of_stands stands

theorem kind_first_eq_invalid_iff {cs : List Char} :
    (first cs).kind = .invalid ↔ ∀ kind text rest, cs = text ++ rest → ¬Stands kind text rest := by
  constructor
  · rintro invalid kind text rest rfl stands
    rw [first_of_stands stands] at invalid
    subst invalid
    exact stands
  · intro nothing
    by_contra valid
    exact nothing _ _ _ (text_append_rest cs).symm (stands_first valid)

/-! ## Starts of a text -/

/-- the text starts with this one, and behind it come an end, a blank or a parenthesis -/
def StartsDelimited (cs text : List Char) : Prop :=
  ∃ rest, cs = text ++ rest ∧ delimits rest = true

/-- the text starts with this operator character, and it is no sign of a number -/
def StartsOperator (cs : List Char) (c : Char) : Prop :=
  ∃ rest, cs = c :: rest ∧ isOperator c = true ∧ ¬(isSign c = true ∧ startsWithDigit rest = true)

/-- nothing in the grammar starts the text, though there is a character -/
structure Unrecognised (cs : List Char) : Prop where
  more : cs ≠ []
  constant : ∀ text, isConstant text = true → ¬StartsDelimited cs text
  name : ∀ text, isName text = true → ¬StartsDelimited cs text
  operator : ∀ c, ¬StartsOperator cs c
  paren : cs.head? ≠ some '(' ∧ cs.head? ≠ some ')'
  blank : ∀ c, cs.head? = some c → Text.isBlank c = false

theorem exists_delimited_iff {cs text : List Char} (spelled : Prop) :
    (∃ rest, cs = text ++ rest ∧ spelled ∧ delimits rest = true) ↔ spelled ∧ StartsDelimited cs text := by
  constructor
  · rintro ⟨rest, whole, isWord, delimited⟩
    exact ⟨isWord, rest, whole, delimited⟩
  · rintro ⟨isWord, rest, whole, delimited⟩
    exact ⟨rest, whole, isWord, delimited⟩

theorem exists_stands_operator_iff {cs text : List Char} :
    (∃ rest, cs = text ++ rest ∧ Stands .operator text rest) ↔ ∃ c, text = [c] ∧ StartsOperator cs c := by
  constructor
  · rintro ⟨rest, whole, c, rfl, operator, unsigned⟩
    exact ⟨c, rfl, rest, whole, operator, unsigned⟩
  · rintro ⟨c, rfl, rest, whole, operator, unsigned⟩
    exact ⟨rest, whole, c, rfl, operator, unsigned⟩

theorem exists_append_singleton_iff {cs text : List Char} (c : Char) :
    (∃ rest, cs = text ++ rest ∧ text = [c]) ↔ text = [c] ∧ cs.head? = some c := by
  constructor
  · rintro ⟨rest, rfl, rfl⟩
    exact ⟨rfl, rfl⟩
  · rintro ⟨rfl, head⟩
    obtain ⟨rest, rfl⟩ := List.head?_eq_some_iff.1 head
    exact ⟨rest, rfl, rfl⟩

theorem exists_stands_whitespace_iff {cs text : List Char} :
    (∃ rest, cs = text ++ rest ∧ Stands .whitespace text rest) ↔ text ≠ [] ∧ text = cs.takeWhile Text.isBlank := by
  constructor
  · rintro ⟨rest, rfl, nonempty, blank, stop⟩
    exact ⟨nonempty, (span_append blank stop).1.symm⟩
  · rintro ⟨nonempty, rfl⟩
    refine ⟨cs.dropWhile Text.isBlank, List.takeWhile_append_dropWhile.symm, nonempty, ?_, ?_⟩
    · intro x hx
      exact List.mem_takeWhile_imp hx
    · intro x hx
      have stop := List.head?_dropWhile_not Text.isBlank cs
      rw [hx] at stop
      simpa using stop

/-- a blank at the start is there as a run of blanks -/
theorem exists_stands_of_isBlank {c : Char} (blank : Text.isBlank c = true) (rest : List Char) :
    ∃ text left, c :: rest = text ++ left ∧ Stands .whitespace text left := by
  have nonempty : (c :: rest).takeWhile Text.isBlank ≠ [] := by
    rw [List.takeWhile_cons_of_pos blank]
    exact List.cons_ne_nil c _
  exact ⟨_, exists_stands_whitespace_iff.2 ⟨nonempty, rfl⟩⟩

/-- where the grammar has nothing no piece stands -/
theorem Unrecognised.not_stands {kind : Token.Kind} {text rest : List Char} (h : Unrecognised (text ++ rest)) :
    ¬Stands kind text rest := by
  intro stands
  cases kind with
  | constant => exact h.constant text stands.1 ⟨rest, rfl, stands.2⟩
  | identifier => exact h.name text stands.1 ⟨rest, rfl, stands.2⟩
  | operator =>
    obtain ⟨c, rfl, operator, unsigned⟩ := stands
    exact h.operator c ⟨rest, rfl, operator, unsigned⟩
  | openParen =>
    have : text = ['('] := stands
    exact h.paren.1 (by rw [this]; rfl)
  | closeParen =>
    have : text = [')'] := stands
    exact h.paren.2 (by rw [this]; rfl)
  | whitespace =>
    obtain ⟨nonempty, blank, -⟩ := stands
    obtain ⟨c, cs, rfl⟩ := List.exists_cons_of_ne_nil nonempty
    have first := h.blank c rfl
    rw [blank c List.mem_cons_self] at first
    cases first
  | invalid => exact stands
  | endOfInput =>
    obtain ⟨rfl, rfl⟩ := stands
    exact h.more rfl

/-- an invalid character is found exactly where the grammar has nothing -/
theorem kind_first_eq_invalid_iff_unrecognised {cs : List Char} : (first cs).kind = .invalid ↔ Unrecognised cs := by
  rw [kind_first_eq_invalid_iff]
  constructor
  · intro nothing
    refine ⟨?more, ?constant, ?name, ?operator, ⟨?opens, ?closes⟩, ?blank⟩
    case more =>
      rintro rfl
      exact nothing .endOfInput [] [] rfl ⟨rfl, rfl⟩
    case constant =>
      rintro text spelled ⟨rest, whole, delimited⟩
      exact nothing .constant text rest whole ⟨spelled, delimited⟩
    case name =>
      rintro text spelled ⟨rest, whole, delimited⟩
      exact nothing .identifier text rest whole ⟨spelled, delimited⟩
    case operator =>
      rintro c ⟨rest, whole, operator, unsigned⟩
      exact nothing .operator [c] rest whole ⟨c, rfl, operator, unsigned⟩
    case opens =>
      intro head
      obtain ⟨rest, whole⟩ := List.head?_eq_some_iff.1 head
      exact nothing .openParen ['('] rest whole rfl
    case closes =>
      intro head
      obtain ⟨rest, whole⟩ := List.head?_eq_some_iff.1 head
      exact nothing .closeParen [')'] rest whole rfl
    case blank =>
      intro c head
      obtain ⟨rest, rfl⟩ := List.head?_eq_some_iff.1 head
      by_contra blank
      rw [Bool.not_eq_false] at blank
      obtain ⟨text, left, whole, stands⟩ := exists_stands_of_isBlank blank rest
      exact nothing .whitespace text left whole stands
  · intro unrecognised kind text rest whole
    rw [whole] at unrecognised
    exact unrecognised.not_stands

/-- an invalid character is the first one alone -/
theorem invalid_iff {cs text : List Char} :
    (first cs).kind = .invalid ∧ (first cs).text = text ↔ Unrecognised cs ∧ text = cs.take 1 := by
  rw [kind_first_eq_invalid_iff_unrecognised, and_congr_right_iff]
  intro unrecognised
  obtain ⟨c, single⟩ := text_first_of_invalid (kind_first_eq_invalid_iff_unrecognised.2 unrecognised)
  have whole := text_append_rest cs
  rw [single] at whole ⊢
  rw [← whole, List.singleton_append, List.take_succ_cons, List.take_zero, eq_comm]

end Lexeme

/-! ## Tokens -/

open Lexeme

theorem Cursor.peek_iff {c : Cursor} {kind : Token.Kind} (valid : kind ≠ .invalid) (text : List Char) :
    c.peek.kind = kind ∧ c.peek.text.toList = text ↔ ∃ rest, c.rest = text ++ rest ∧ Stands kind text rest := by
  have spelled : c.peek.text.toList = (first c.rest).text := String.toList_ofList
  have sort : c.peek.kind = (first c.rest).kind := rfl
  rw [spelled, sort]
  constructor
  · rintro ⟨rfl, rfl⟩
    exact ⟨(first c.rest).rest, (first_eq_iff valid).1 rfl⟩
  · rintro ⟨rest, found⟩
    rw [(first_eq_iff valid).2 found]
    exact ⟨rfl, rfl⟩

/-- **The lexer recognises exactly the lexical grammar.** Wherever the cursor lies, the next token is a constant (a
name) of some text exactly if the line goes on with that text of the language of constants (of names), and then with an
end, a blank or a parenthesis; there is one such text at most. It is an operator exactly if the line goes on with one of
the four characters, but not with a sign before a digit. A parenthesis is itself, and a blank starts the longest run of
blanks. In every other case before the end of the line, and only then, it is invalid, and the first character alone. -/
theorem token_recognised (c : Cursor) :
    (∀ text, c.peek.kind = .constant ∧ c.peek.text.toList = text ↔
      isConstant text = true ∧ StartsDelimited c.rest text) ∧
    (∀ text, c.peek.kind = .identifier ∧ c.peek.text.toList = text ↔
      isName text = true ∧ StartsDelimited c.rest text) ∧
    {text | (isConstant text = true ∨ isName text = true) ∧ StartsDelimited c.rest text}.Subsingleton ∧
    (∀ text, c.peek.kind = .operator ∧ c.peek.text.toList = text ↔ ∃ x, text = [x] ∧ StartsOperator c.rest x) ∧
    (∀ text, c.peek.kind = .openParen ∧ c.peek.text.toList = text ↔ text = ['('] ∧ c.rest.head? = some '(') ∧
    (∀ text, c.peek.kind = .closeParen ∧ c.peek.text.toList = text ↔ text = [')'] ∧ c.rest.head? = some ')') ∧
    (∀ text, c.peek.kind = .whitespace ∧ c.peek.text.toList = text ↔
      text ≠ [] ∧ text = c.rest.takeWhile Text.isBlank) ∧
    (∀ text, c.peek.kind = .invalid ∧ c.peek.text.toList = text ↔ Unrecognised c.rest ∧ text = c.rest.take 1) := by
  have constant : ∀ text, c.peek.kind = .constant ∧ c.peek.text.toList = text ↔
      isConstant text = true ∧ StartsDelimited c.rest text := by
    intro text
    rw [Cursor.peek_iff (by decide)]
    exact exists_delimited_iff _
  have name : ∀ text, c.peek.kind = .identifier ∧ c.peek.text.toList = text ↔
      isName text = true ∧ StartsDelimited c.rest text := by
    intro text
    rw [Cursor.peek_iff (by decide)]
    exact exists_delimited_iff _
  refine ⟨constant, name, ?unique, ?operator, ?opens, ?closes, ?blank, ?invalid⟩
  case unique =>
    have found : ∀ text, (isConstant text = true ∨ isName text = true) ∧ StartsDelimited c.rest text →
        c.peek.text.toList = text := by
      rintro text ⟨isWord | isWord, starts⟩
      · exact ((constant text).2 ⟨isWord, starts⟩).2
      · exact ((name text).2 ⟨isWord, starts⟩).2
    intro text ht other ho
    rw [← found text ht, found other ho]
  case operator =>
    intro text
    rw [Cursor.peek_iff (by decide), exists_stands_operator_iff]
  case opens =>
    intro text
    rw [Cursor.peek_iff (by decide)]
    exact exists_append_singleton_iff '('
  case closes =>
    intro text
    rw [Cursor.peek_iff (by decide)]
    exact exists_append_singleton_iff ')'
  case blank =>
    intro text
    rw [Cursor.peek_iff (by decide), exists_stands_whitespace_iff]
  case invalid =>
    intro text
    have spelled : c.peek.text.toList = (first c.rest).text := String.toList_ofList
    rw [spelled]
    exact invalid_iff

end ExactCalc
