/-
The lexical grammar, said without the way in which pieces are looked for.

`Token.Kind.spells kind text`: the whole text is a constant, an operator or a name. `Lexeme.Taken cs l`: the piece `l`
may be taken off the text `cs`. The first says nothing about what follows in a line, the second says what has to.

Results:
- `taken_first`: whatever the first piece of a text is, it is taken in one of these ways. Every fact about one step of
  the lexer is read off this one.
- `first_spelled`: a spelled text is taken whole wherever an end, a blank or a parenthesis follows, so signs are never
  torn off a constant and never glued to a digit that does not belong to it.
- `kind_first_of_delimits`: behind such a place comes a run of blanks, a parenthesis or the end.
-/
import Mathlib.Tactic
import Mathlib.Data.List.TakeWhile
import ExactCalc.Token.Lexeme

namespace ExactCalc

/-! ## Spelling -/

namespace Lexeme

/-- digits, one at least -/
def isDigits (cs : List Char) : Bool :=
  !cs.isEmpty && cs.all Char.isDigit

/-- digits behind an optional sign -/
def isConstant : List Char → Bool
  | [] => false
  | c :: cs => isDigits (c :: cs) || isSign c && isDigits cs

/-- a letter, and then letters, digits, hyphens and apostrophes -/
def isName : List Char → Bool
  | [] => false
  | c :: cs => c.isAlpha && cs.all isNameChar

/-- one of the four operator characters alone -/
def isOperatorText : List Char → Bool
  | [c] => isOperator c
  | _ => false

theorem isOperatorText_eq_true_iff {text : List Char} :
    isOperatorText text = true ↔ ∃ c, text = [c] ∧ isOperator c = true := by
  refine ⟨fun h => ?_, ?_⟩
  · unfold isOperatorText at h
    split at h
    · exact ⟨_, rfl, h⟩
    · cases h
  · intro single
    obtain ⟨c, rfl, operator⟩ := single
    exact operator

end Lexeme

/-- whether the whole text is an atom of this kind -/
def Token.Kind.spells : Token.Kind → List Char → Bool
  | .constant => Lexeme.isConstant
  | .identifier => Lexeme.isName
  | .operator => Lexeme.isOperatorText
  | _ => fun _ => false

/-- whether the token is an atom and its text is in the grammar of its kind -/
def Token.isSpelled (t : Token) : Bool :=
  t.kind.spells t.text.toList

theorem Token.isAtomic_of_isSpelled {t : Token} (h : t.isSpelled = true) : t.isAtomic = true := by
  obtain ⟨kind, offset, text⟩ := t
  cases kind <;> first | rfl | simp [Token.isSpelled, Token.Kind.spells] at h

namespace Lexeme

/-! ## Character classes are apart -/

theorem isDigit_bounds {c : Char} (h : c.isDigit = true) : 48 ≤ c.toNat ∧ c.toNat ≤ 57 := by
  simpa [Char.isDigit, UInt32.le_iff_toNat_le] using h

theorem isAlpha_bounds {c : Char} (h : c.isAlpha = true) :
    (65 ≤ c.toNat ∧ c.toNat ≤ 90) ∨ (97 ≤ c.toNat ∧ c.toNat ≤ 122) := by
  have ranges : (decide (65 ≤ c.val ∧ c.val ≤ 90) || decide (97 ≤ c.val) && decide (c.val ≤ 122)) = true := h
  simpa [UInt32.le_iff_toNat_le] using ranges

theorem isBlank_bounds {c : Char} (h : Text.isBlank c = true) : c.toNat ≤ 32 ∨ 133 ≤ c.toNat := by
  simp only [Text.isBlank, Text.blankRanges, List.any_cons, List.any_nil, Bool.or_eq_true, Bool.and_eq_true,
    decide_eq_true_eq, Bool.or_false] at h
  omega

theorem isOperator_cases {c : Char} (h : isOperator c = true) : c = '+' ∨ c = '-' ∨ c = '*' ∨ c = '/' := by
  simp only [isOperator, isSign, Bool.or_eq_true, beq_iff_eq] at h
  tauto

theorem isOperator_of_isSign {c : Char} (h : isSign c = true) : isOperator c = true := by
  simp [isOperator, h]

theorem isDelimiter_cases {c : Char} (h : isDelimiter c = true) : Text.isBlank c = true ∨ c = '(' ∨ c = ')' := by
  simp only [isDelimiter, Bool.or_eq_true, beq_iff_eq] at h
  tauto

theorem isAlpha_of_isDigit {c : Char} (h : c.isDigit = true) : c.isAlpha = false := by
  rw [Bool.eq_false_iff]
  intro alpha
  have := isDigit_bounds h
  have := isAlpha_bounds alpha
  omega

theorem isAlphanum_of_isBlank {c : Char} (h : Text.isBlank c = true) : c.isAlpha = false ∧ c.isDigit = false := by
  have := isBlank_bounds h
  constructor
  · rw [Bool.eq_false_iff]
    intro alpha
    have := isAlpha_bounds alpha
    omega
  · rw [Bool.eq_false_iff]
    intro digit
    have := isDigit_bounds digit
    omega

/-- an operator character is in none of the classes that are asked for before it -/
theorem classes_of_isOperator {c : Char} (h : isOperator c = true) :
    c.isAlpha = false ∧ c.isDigit = false ∧ Text.isBlank c = false := by
  rcases isOperator_cases h with rfl | rfl | rfl | rfl <;> decide

theorem isOperator_of_isBlank {c : Char} (h : Text.isBlank c = true) : isOperator c = false := by
  rw [Bool.eq_false_iff]
  intro operator
  rw [(classes_of_isOperator operator).2.2] at h
  cases h

/-- a delimiter goes on with neither a number nor a name -/
theorem classes_of_isDelimiter {c : Char} (h : isDelimiter c = true) : c.isDigit = false ∧ isNameChar c = false := by
  rcases isDelimiter_cases h with blank | rfl | rfl
  · obtain ⟨alpha, digit⟩ := isAlphanum_of_isBlank blank
    refine ⟨digit, ?_⟩
    have hyphen : c ≠ '-' := by
      rintro rfl
      exact absurd blank (by decide)
    have apostrophe : c ≠ '\'' := by
      rintro rfl
      exact absurd blank (by decide)
    simp [isNameChar, Char.isAlphanum, alpha, digit, hyphen, apostrophe]
  · decide
  · decide

/-! ## The first piece by its first character -/

theorem first_openParen (cs : List Char) : first ('(' :: cs) = ⟨.openParen, ['('], cs⟩ := rfl

theorem first_closeParen (cs : List Char) : first (')' :: cs) = ⟨.closeParen, [')'], cs⟩ := rfl

theorem first_of_isAlpha {c : Char} (h : c.isAlpha = true) (cs : List Char) :
    first (c :: cs) = delimitedRun .identifier isNameChar c cs := by
  have opens : c ≠ '(' := by rintro rfl; exact absurd h (by decide)
  have closes : c ≠ ')' := by rintro rfl; exact absurd h (by decide)
  rw [first, if_neg opens, if_neg closes, if_pos h]

theorem first_of_numeral {c : Char} {cs : List Char} (h : (c.isDigit || isSign c && startsWithDigit cs) = true) :
    first (c :: cs) = delimitedRun .constant Char.isDigit c cs := by
  have alpha : ¬c.isAlpha = true := by
    rw [Bool.not_eq_true]
    rcases Bool.or_eq_true_iff.1 h with digit | signed
    · exact isAlpha_of_isDigit digit
    · exact (classes_of_isOperator (isOperator_of_isSign (Bool.and_eq_true_iff.1 signed).1)).1
  have opens : c ≠ '(' := by rintro rfl; simp [isSign] at h
  have closes : c ≠ ')' := by rintro rfl; simp [isSign] at h
  rw [first, if_neg opens, if_neg closes, if_neg alpha, if_pos h]

theorem first_of_isBlank {c : Char} (h : Text.isBlank c = true) (cs : List Char) :
    first (c :: cs) = run .whitespace Text.isBlank c cs := by
  have opens : c ≠ '(' := by rintro rfl; exact absurd h (by decide)
  have closes : c ≠ ')' := by rintro rfl; exact absurd h (by decide)
  obtain ⟨alpha, digit⟩ := isAlphanum_of_isBlank h
  have sign : isSign c = false := by
    have := isOperator_of_isBlank h
    simp only [isOperator, Bool.or_eq_false_iff] at this
    exact this.1.1
  rw [first, if_neg opens, if_neg closes, if_neg (by simp [alpha]), if_neg (by simp [digit, sign]), if_pos h]

theorem first_of_isOperator {c : Char} {cs : List Char} (h : isOperator c = true)
    (hd : (isSign c && startsWithDigit cs) = false) : first (c :: cs) = ⟨.operator, [c], cs⟩ := by
  have opens : c ≠ '(' := by rintro rfl; exact absurd h (by decide)
  have closes : c ≠ ')' := by rintro rfl; exact absurd h (by decide)
  obtain ⟨alpha, digit, blank⟩ := classes_of_isOperator h
  rw [first, if_neg opens, if_neg closes, if_neg (by simp [alpha]), if_neg (by simp [digit, hd]),
    if_neg (by simp [blank]), if_pos h]
  rfl

/-! ## A spelled text is taken whole -/

/-- a run stops where the rest starts with a character outside its class, or is empty -/
theorem span_append {α : Type*} {p : α → Bool} {w rest : List α} (hw : ∀ x ∈ w, p x = true)
    (stop : ∀ x, rest.head? = some x → p x = false) :
    (w ++ rest).takeWhile p = w ∧ (w ++ rest).dropWhile p = rest := by
  rw [List.takeWhile_append_of_pos hw, List.dropWhile_append_of_pos hw]
  cases rest with
  | nil => simp
  | cons x rest => simp [stop x rfl]

theorem isDelimiter_of_delimits {rest : List Char} (h : delimits rest = true) {x : Char} (hx : rest.head? = some x) :
    isDelimiter x = true := by
  cases rest with
  | nil => cases hx
  | cons y rest =>
    cases hx
    exact h

theorem delimitedRun_append (kind : Token.Kind) {p : Char → Bool} (apart : ∀ x, isDelimiter x = true → p x = false)
    (c : Char) {w rest : List Char} (hw : ∀ x ∈ w, p x = true) (h : delimits rest = true) :
    delimitedRun kind p c (w ++ rest) = ⟨kind, c :: w, rest⟩ := by
  obtain ⟨taken, left⟩ := span_append hw fun x hx => apart x (isDelimiter_of_delimits h hx)
  rw [delimitedRun, left, if_pos h, run, taken, left]

theorem isDigits_iff {cs : List Char} : isDigits cs = true ↔ cs ≠ [] ∧ ∀ d ∈ cs, d.isDigit = true := by
  simp [isDigits]

theorem startsWithDigit_append {cs : List Char} (h : isDigits cs = true) (rest : List Char) :
    startsWithDigit (cs ++ rest) = true := by
  obtain ⟨ne, digits⟩ := isDigits_iff.1 h
  cases cs with
  | nil => exact absurd rfl ne
  | cons d cs => exact digits d List.mem_cons_self

theorem startsWithDigit_of_delimits {rest : List Char} (h : delimits rest = true) : startsWithDigit rest = false := by
  cases rest with
  | nil => rfl
  | cons x rest => exact (classes_of_isDelimiter h).1

theorem first_constant {text rest : List Char} (h : isConstant text = true) (hd : delimits rest = true) :
    first (text ++ rest) = ⟨.constant, text, rest⟩ := by
  cases text with
  | nil => cases h
  | cons c cs =>
    rw [isConstant, Bool.or_eq_true, Bool.and_eq_true] at h
    have apart : ∀ x, isDelimiter x = true → x.isDigit = false := fun x hx => (classes_of_isDelimiter hx).1
    rcases h with unsigned | ⟨sign, digits⟩
    · have hc := (isDigits_iff.1 unsigned).2
      rw [List.cons_append, first_of_numeral (by simp [hc c])]
      exact delimitedRun_append .constant apart c (fun x hx => hc x (List.mem_cons_of_mem c hx)) hd
    · rw [List.cons_append, first_of_numeral (by simp [sign, startsWithDigit_append digits])]
      exact delimitedRun_append .constant apart c (isDigits_iff.1 digits).2 hd

theorem first_name {text rest : List Char} (h : isName text = true) (hd : delimits rest = true) :
    first (text ++ rest) = ⟨.identifier, text, rest⟩ := by
  cases text with
  | nil => cases h
  | cons c cs =>
    rw [isName, Bool.and_eq_true, List.all_eq_true] at h
    rw [List.cons_append, first_of_isAlpha h.1]
    exact delimitedRun_append .identifier (fun x hx => (classes_of_isDelimiter hx).2) c h.2 hd

theorem first_operatorText {text rest : List Char} (h : isOperatorText text = true) (hd : delimits rest = true) :
    first (text ++ rest) = ⟨.operator, text, rest⟩ := by
  obtain ⟨c, rfl, operator⟩ := isOperatorText_eq_true_iff.1 h
  exact first_of_isOperator operator (by simp [startsWithDigit_of_delimits hd])

/-- **A spelled text is taken whole** where an end, a blank or a parenthesis follows. -/
theorem first_spelled {kind : Token.Kind} {text rest : List Char} (h : kind.spells text = true)
    (hd : delimits rest = true) : first (text ++ rest) = ⟨kind, text, rest⟩ := by
  cases kind with
  | constant => exact first_constant h hd
  | operator => exact first_operatorText h hd
  | identifier => exact first_name h hd
  | _ => cases h

/-! ## What can be taken -/

/-- the ways in which a piece is taken off a text -/
inductive Taken : List Char → Lexeme → Prop where
  | ended : Taken [] ⟨.endOfInput, [], []⟩
  | openParen (rest : List Char) : Taken ('(' :: rest) ⟨.openParen, ['('], rest⟩
  | closeParen (rest : List Char) : Taken (')' :: rest) ⟨.closeParen, [')'], rest⟩
  /-- only an operator may be followed by anything -/
  | atom (kind : Token.Kind) (text rest : List Char) (spelled : kind.spells text = true)
      (delimited : kind ≠ .operator → delimits rest = true) : Taken (text ++ rest) ⟨kind, text, rest⟩
  /-- all blanks that there are -/
  | blanks (c : Char) (text rest : List Char) (blank : ∀ x ∈ c :: text, Text.isBlank x = true)
      (stop : ∀ x, rest.head? = some x → Text.isBlank x = false) :
      Taken (c :: text ++ rest) ⟨.whitespace, c :: text, rest⟩
  | invalid (c : Char) (rest : List Char) : Taken (c :: rest) ⟨.invalid, [c], rest⟩

theorem taken_delimitedRun {kind : Token.Kind} {p : Char → Bool} {c : Char} {cs : List Char}
    (spelled : kind.spells (c :: cs.takeWhile p) = true) : Taken (c :: cs) (delimitedRun kind p c cs) := by
  unfold delimitedRun
  split
  · rename_i delimited
    have := Taken.atom kind (c :: cs.takeWhile p) (cs.dropWhile p) spelled fun _ => delimited
    rwa [List.cons_append, List.takeWhile_append_dropWhile] at this
  · exact Taken.invalid c cs

theorem taken_run_blank {c : Char} (h : Text.isBlank c = true) (cs : List Char) :
    Taken (c :: cs) (run .whitespace Text.isBlank c cs) := by
  have stop : ∀ x, (cs.dropWhile Text.isBlank).head? = some x → Text.isBlank x = false := by
    intro x hx
    have := List.head?_dropWhile_not Text.isBlank cs
    rw [hx] at this
    simpa using this
  have := Taken.blanks c (cs.takeWhile Text.isBlank) (cs.dropWhile Text.isBlank)
    (List.forall_mem_cons.2 ⟨h, fun _ => List.mem_takeWhile_imp⟩) stop
  rwa [List.cons_append, List.takeWhile_append_dropWhile] at this

theorem spells_numeral {c : Char} {cs : List Char} (h : (c.isDigit || isSign c && startsWithDigit cs) = true) :
    Token.Kind.spells .constant (c :: cs.takeWhile Char.isDigit) = true := by
  show isConstant (c :: cs.takeWhile Char.isDigit) = true
  rw [isConstant, Bool.or_eq_true, Bool.and_eq_true]
  rcases Bool.or_eq_true_iff.1 h with digit | signed
  · left
    exact isDigits_iff.2 ⟨nofun, List.forall_mem_cons.2 ⟨digit, fun _ => List.mem_takeWhile_imp⟩⟩
  · right
    obtain ⟨sign, digit⟩ := Bool.and_eq_true_iff.1 signed
    refine ⟨sign, isDigits_iff.2 ⟨?_, fun _ => List.mem_takeWhile_imp⟩⟩
    cases cs with
    | nil => cases digit
    | cons d cs =>
      have : d.isDigit = true := digit
      simp [this]

/-- **Whatever the first piece is, it is taken in one of the ways of the grammar.** -/
theorem taken_first (cs : List Char) : Taken cs (first cs) := by
  cases cs with
  | nil => exact Taken.ended
  | cons c cs =>
    simp only [first]
    split_ifs with opens closes alpha numeral blank operator
    · subst opens
      exact Taken.openParen cs
    · subst closes
      exact Taken.closeParen cs
    · apply taken_delimitedRun
      show isName (c :: cs.takeWhile isNameChar) = true
      rw [isName, alpha, Bool.true_and, List.all_eq_true]
      exact fun _ => List.mem_takeWhile_imp
    · exact taken_delimitedRun (spells_numeral numeral)
    · exact taken_run_blank blank cs
    · exact Taken.atom .operator [c] cs operator fun h => absurd rfl h
    · exact Taken.invalid c cs

/-! ## What each kind of piece says about the text -/

theorem spells_first {cs : List Char} (h : (first cs).kind.isAtomic = true) :
    (first cs).kind.spells (first cs).text = true := by
  have taken := taken_first cs
  generalize first cs = l at h taken
  cases taken with
  | atom kind text rest spelled _ => exact spelled
  | _ => cases h

theorem delimits_rest_first {cs : List Char} (h : (first cs).kind = .constant ∨ (first cs).kind = .identifier) :
    delimits (first cs).rest = true := by
  have taken := taken_first cs
  generalize first cs = l at h taken
  cases taken with
  | atom kind text rest _ delimited =>
    apply delimited
    rcases h with rfl | rfl <;> decide
  | _ => simp at h

theorem text_first_of_invalid {cs : List Char} (h : (first cs).kind = .invalid) : ∃ c, (first cs).text = [c] := by
  have taken := taken_first cs
  generalize first cs = l at h taken
  cases taken with
  | atom kind text rest spelled _ =>
    subst h
    cases spelled
  | invalid c rest => exact ⟨c, rfl⟩
  | _ => cases h

/-- a run of blanks starts with a blank and goes on up to the next character that is none -/
theorem blanks_first {cs : List Char} (h : (first cs).kind = .whitespace) :
    (∃ c, cs.head? = some c ∧ Text.isBlank c = true) ∧
      ∀ x, (first cs).rest.head? = some x → Text.isBlank x = false := by
  have taken := taken_first cs
  generalize first cs = l at h taken
  cases taken with
  | atom kind text rest spelled _ =>
    subst h
    cases spelled
  | blanks c text rest blank stop => exact ⟨⟨c, rfl, blank c List.mem_cons_self⟩, stop⟩
  | _ => cases h

/-- behind the end, a blank or a parenthesis no atom and no invalid character comes first -/
theorem kind_first_of_delimits {cs : List Char} (h : delimits cs = true) :
    (first cs).kind = .whitespace ∨ (first cs).kind = .openParen ∨ (first cs).kind = .closeParen ∨
      (first cs).kind = .endOfInput := by
  cases cs with
  | nil => simp [first]
  | cons c cs =>
    rcases isDelimiter_cases h with blank | rfl | rfl
    · left
      rw [first_of_isBlank blank, run]
    · right; left; rfl
    · right; right; left; rfl

end Lexeme

end ExactCalc
