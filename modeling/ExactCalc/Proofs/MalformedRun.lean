/-
Where an unexpected character is reported.

A name or a number that is glued to something is given up, and only its first character becomes an invalid token; the
characters behind it are looked at again one by one. What is reported is the first invalid token of a line, so it has to
be shown that all tokens before it end where a word may start. `Lexeme.BetweenWords passed rest`: what was passed ends
with a delimiter, or starts there, apart from operators behind it, and the last of these is no sign of a number.

Results:
- `restsOn_advance`: a token that is not invalid leaves the cursor between words, or in front of a delimiter.
- `not_insideWord`: between words there is no word around the position, wherever words are looked for.
- `find?_of_run`: the scan with a stack objects to a character only where the first invalid token stands.
- `unexpectedChar_first`: **an unexpected character is reported where the malformed run starts**.
-/
import ExactCalc.Proofs.Nesting
import ExactCalc.Proofs.Recognition

namespace ExactCalc

/-! ## Positions between words -/

namespace Lexeme

/-- a number or a name -/
def IsWord (word : List Char) : Prop :=
  isConstant word = true ∨ isName word = true

/-- behind the last delimiter, or from the start on, only operators were passed, and none is the sign of a number -/
structure BetweenWords (passed rest front operators : List Char) : Prop where
  whole : passed = front ++ operators
  delimited : ∀ x, front.getLast? = some x → isDelimiter x = true
  operator : ∀ x ∈ operators, isOperator x = true
  unsigned : ∀ x, operators.getLast? = some x → ¬(isSign x = true ∧ startsWithDigit rest = true)

theorem isDelimiter_of_isOperator {x : Char} (h : isOperator x = true) : isDelimiter x = false := by
  rcases isOperator_cases h with rfl | rfl | rfl | rfl <;> decide

/-- no character of a word is a delimiter -/
theorem isDelimiter_of_mem_word {word : List Char} (h : IsWord word) : ∀ x ∈ word, isDelimiter x = false := by
  intro x member
  by_contra delimiter
  rw [Bool.not_eq_false] at delimiter
  obtain ⟨digit, nameChar⟩ := classes_of_isDelimiter delimiter
  cases word with
  | nil => cases member
  | cons c cs =>
    rcases h with constant | name
    · rw [isConstant, Bool.or_eq_true, Bool.and_eq_true] at constant
      rcases constant with unsigned | ⟨sign, digits⟩
      · rw [(isDigits_iff.1 unsigned).2 x member] at digit
        cases digit
      · rcases List.mem_cons.1 member with rfl | behind
        · rw [isDelimiter_of_isOperator (isOperator_of_isSign sign)] at delimiter
          cases delimiter
        · rw [(isDigits_iff.1 digits).2 x behind] at digit
          cases digit
    · rw [isName, Bool.and_eq_true, List.all_eq_true] at name
      rcases List.mem_cons.1 member with rfl | behind
      · rw [isNameChar, Char.isAlphanum, name.1] at nameChar
        simp at nameChar
      · rw [name.2 x behind] at nameChar
        cases nameChar

/-- operators are part of a word only as the sign of a number, which stands alone before the digits -/
theorem eq_sign_of_word {inside outside : List Char} (h : IsWord (inside ++ outside)) (nonempty : inside ≠ [])
    (operator : ∀ x ∈ inside, isOperator x = true) :
    ∃ sign, inside = [sign] ∧ isSign sign = true ∧ isDigits outside = true := by
  obtain ⟨y, ys, rfl⟩ := List.exists_cons_of_ne_nil nonempty
  obtain ⟨alpha, digit, -⟩ := classes_of_isOperator (operator y List.mem_cons_self)
  rw [List.cons_append] at h
  rcases h with constant | name
  · rw [isConstant, Bool.or_eq_true, Bool.and_eq_true] at constant
    rcases constant with unsigned | ⟨sign, digits⟩
    · rw [(isDigits_iff.1 unsigned).2 y List.mem_cons_self] at digit
      cases digit
    · cases ys with
      | nil => exact ⟨y, rfl, sign, digits⟩
      | cons z zs =>
        have isDigit := (isDigits_iff.1 digits).2 z List.mem_cons_self
        obtain ⟨-, noDigit, -⟩ := classes_of_isOperator (operator z (by simp))
        rw [isDigit] at noDigit
        cases noDigit
  · rw [isName, alpha] at name
    cases name

section
variable {passed rest front operators : List Char} (h : BetweenWords passed rest front operators)
include h

theorem BetweenWords.getLast_cases {x : Char} (last : passed.getLast? = some x) :
    isDelimiter x = true ∨ isOperator x = true := by
  rw [h.whole, List.getLast?_append] at last
  cases behind : operators.getLast? with
  | some y =>
    rw [behind] at last
    cases last
    exact .inr (h.operator x (List.mem_of_getLast? behind))
  | none =>
    rw [behind] at last
    exact .inl (h.delimited x last)

/-- the end of what was passed, if it holds no delimiter, is made of operators -/
theorem BetweenWords.operators_of_suffix {before inside : List Char} (cut : passed = before ++ inside)
    (solid : ∀ x ∈ inside, isDelimiter x = false) : ∃ more, operators = more ++ inside := by
  have same : front ++ operators = before ++ inside := h.whole.symm.trans cut
  rcases List.append_eq_append_iff.1 same with ⟨more, -, split⟩ | ⟨more, split, rest⟩
  · exact ⟨more, split⟩
  · rcases List.eq_nil_or_concat' more with rfl | ⟨xs, x, rfl⟩
    · exact ⟨[], rest.symm⟩
    · have delimiter : isDelimiter x = true := h.delimited x (by rw [split, ← List.append_assoc, List.getLast?_concat])
      rw [solid x (by simp [rest])] at delimiter
      cases delimiter

/-- no word goes on from what was passed into what is left -/
theorem BetweenWords.not_isWord {before inside outside after : List Char} (cut : passed = before ++ inside)
    (left : rest = outside ++ after) (nonempty : inside ≠ []) : ¬IsWord (inside ++ outside) := by
  intro word
  have solid : ∀ x ∈ inside, isDelimiter x = false := fun x hx =>
    isDelimiter_of_mem_word word x (List.mem_append_left _ hx)
  obtain ⟨more, split⟩ := h.operators_of_suffix cut solid
  have operator : ∀ x ∈ inside, isOperator x = true := fun x hx => h.operator x (by simp [split, hx])
  obtain ⟨sign, rfl, isSign, digits⟩ := eq_sign_of_word word nonempty operator
  apply h.unsigned sign
  · rw [split, List.getLast?_concat]
  · rw [left]
    exact ⟨isSign, startsWithDigit_append digits after⟩

end

end Lexeme

open Lexeme

/-- a number or a name in the line starts before this position and ends behind it -/
def Text.InsideWord (line : String) (offset : ℕ) : Prop :=
  ∃ before word after, line.toList = before ++ word ++ after ∧ IsWord word ∧
    Text.width before < offset ∧ offset < Text.width (before ++ word)

theorem not_insideWord {line : String} {passed rest front operators : List Char} (whole : line.toList = passed ++ rest)
    (h : BetweenWords passed rest front operators) : ¬Text.InsideWord line (Text.width passed) := by
  intro ⟨before, word, after, split, isWord, starts, ends⟩
  have same : passed ++ rest = before ++ (word ++ after) := by rw [← whole, split, List.append_assoc]
  rcases List.append_eq_append_iff.1 same with ⟨more, cut, -⟩ | ⟨inside, cut, left⟩
  · rw [cut, Text.width_append] at starts
    omega
  · rcases List.append_eq_append_iff.1 left with ⟨more, longer, -⟩ | ⟨outside, straddles, left⟩
    · rw [cut, longer] at ends
      simp only [Text.width_append] at ends
      omega
    · have nonempty : inside ≠ [] := by
        intro nothing
        rw [cut, nothing, List.append_nil] at starts
        omega
      rw [straddles] at isWord
      exact h.not_isWord cut left nonempty isWord

/-! ## The way to the first invalid token -/

namespace Cursor

/-- the cursor lies on the line, between words or in front of a delimiter -/
def RestsOn (line : String) (c : Cursor) : Prop :=
  ∃ passed, line.toList = passed ++ c.rest ∧ c.offset = Text.width passed ∧
    (delimits c.rest = true ∨ ∃ front operators, BetweenWords passed c.rest front operators)

variable {line : String} {c : Cursor}

theorem restsOn_start (line : String) : RestsOn line (start line) := by
  refine ⟨[], rfl, rfl, .inr ⟨[], [], rfl, ?_, ?_, ?_⟩⟩
  · simp
  · simp
  · simp

/-- a delimiter at the end of what was passed separates words by itself -/
theorem betweenWords_of_delimiter {passed text : List Char} (rest : List Char) (nonempty : text ≠ [])
    (delimiter : ∀ x ∈ text, isDelimiter x = true) : BetweenWords (passed ++ text) rest (passed ++ text) [] where
  whole := (List.append_nil _).symm
  delimited := by
    intro x last
    rw [List.getLast?_append_of_ne_nil _ nonempty] at last
    exact delimiter x (List.mem_of_getLast? last)
  operator := by simp
  unsigned := by simp

/-- a token that is not invalid ends in front of a delimiter, or where a word may start -/
theorem restsOn_advance (h : RestsOn line c) (valid : c.peek.kind ≠ .invalid) : RestsOn line c.advance := by
  obtain ⟨passed, whole, offset, place⟩ := h
  have stands : Stands c.peek.kind (first c.rest).text c.advance.rest := stands_first valid
  have text : c.peek.text.toList = (first c.rest).text := String.toList_ofList
  have taken := text_peek_append_rest c
  rw [text] at taken
  refine ⟨passed ++ (first c.rest).text, ?_, ?_, ?_⟩
  · rw [whole, List.append_assoc, taken]
  · rw [offset_advance, Token.stop, Token.width, text, offset_peek, offset, Text.width_append]
  generalize (first c.rest).text = text at stands taken
  cases kind : c.peek.kind with
  | constant =>
    rw [kind] at stands
    exact .inl stands.2
  | identifier =>
    rw [kind] at stands
    exact .inl stands.2
  | operator =>
    rw [kind] at stands
    obtain ⟨x, rfl, operator, unsigned⟩ := stands
    rcases place with delimited | ⟨front, operators, between⟩
    · have delimiter : isDelimiter x = true := by
        rw [← taken] at delimited
        exact delimited
      rw [isDelimiter_of_isOperator operator] at delimiter
      cases delimiter
    · right
      refine ⟨front, operators ++ [x], ?_, between.delimited, ?_, ?_⟩
      · rw [between.whole, List.append_assoc]
      · intro y member
        rcases List.mem_append.1 member with earlier | here
        · exact between.operator y earlier
        · rw [List.mem_singleton.1 here]
          exact operator
      · intro y last
        rw [List.getLast?_concat, Option.some.injEq] at last
        rw [← last]
        exact unsigned
  | openParen =>
    rw [kind] at stands
    have single : text = ['('] := stands
    right
    exact ⟨_, _, betweenWords_of_delimiter _ (by simp [single]) (by simp [single, isDelimiter])⟩
  | closeParen =>
    rw [kind] at stands
    have single : text = [')'] := stands
    right
    exact ⟨_, _, betweenWords_of_delimiter _ (by simp [single]) (by simp [single, isDelimiter])⟩
  | whitespace =>
    rw [kind] at stands
    obtain ⟨nonempty, blank, -⟩ := stands
    right
    refine ⟨_, _, betweenWords_of_delimiter _ nonempty fun x hx => ?_⟩
    simp [isDelimiter, blank x hx]
  | invalid => exact absurd kind valid
  | endOfInput =>
    rw [kind] at stands
    left
    rw [stands.2]
    rfl

/-- an invalid token starts where a word may start -/
theorem RestsOn.betweenWords (h : RestsOn line c) (invalid : c.peek.kind = .invalid) :
    ∃ passed front operators, line.toList = passed ++ c.rest ∧ c.offset = Text.width passed ∧
      BetweenWords passed c.rest front operators := by
  obtain ⟨passed, whole, offset, delimited | ⟨front, operators, between⟩⟩ := h
  · have kinds := kind_first_of_delimits delimited
    have : (first c.rest).kind = .invalid := invalid
    rw [this] at kinds
    simp at kinds
  · exact ⟨passed, front, operators, whole, offset, between⟩

/-- what every other token keeps holds of the cursor at the first token of a kind -/
theorem exists_of_find?_tokens {Q : Cursor → Prop} {kind : Token.Kind}
    (advance : ∀ c, Q c → c.peek.kind ≠ kind → Q c.advance) {t : Token} (h : Q c)
    (found : c.tokens.find? (fun t => t.kind = kind) = some t) : ∃ d, Q d ∧ d.peek = t ∧ t.kind = kind := by
  induction c using along with
  | ended c ended =>
    rw [tokens_of_end ended] at found
    cases found
  | token c more ih =>
    rw [tokens_of_token more] at found
    by_cases here : c.peek.kind = kind
    · rw [List.find?_cons_of_pos (by simpa using here)] at found
      cases found
      exact ⟨c, h, rfl, here⟩
    · rw [List.find?_cons_of_neg (by simpa using here)] at found
      exact ih (advance c h here) found

end Cursor

/-! ## What the scan objects to -/

namespace Nesting

/-- want of room is another reason -/
theorem map_room_ne_unexpectedChar (opened : List Token) (g : Unit → Nesting) (s : Span) (x : Char) :
    (room opened).map g ≠ .error ⟨s, .unexpectedChar x⟩ := by
  intro failed
  cases opened with
  | nil => cases failed
  | cons innermost outer =>
    simp only [room] at failed
    split_ifs at failed
    · cases failed
    · cases failed

/-- a token that is not invalid is refused for other reasons -/
theorem step_ne_unexpectedChar {n : Nesting} {t : Token} (valid : t.kind ≠ .invalid) (s : Span) (x : Char) :
    step n t ≠ .error ⟨s, .unexpectedChar x⟩ := by
  intro failed
  obtain ⟨kind, offset, text⟩ := t
  cases n with
  | within opened =>
    cases kind with
    | invalid => exact absurd rfl valid
    | constant | operator | identifier | openParen => exact map_room_ne_unexpectedChar opened _ s x failed
    | whitespace => cases failed
    | closeParen | endOfInput =>
      cases opened with
      | nil => cases failed
      | cons innermost outer => cases failed
  | complete =>
    cases kind with
    | invalid => exact absurd rfl valid
    | _ => cases failed
  | ended =>
    cases kind with
    | invalid => exact absurd rfl valid
    | _ => cases failed

/-- the scan objects to a character where the first invalid token stands -/
theorem find?_of_run {n : Nesting} {ts : List Token} {s : Span} {x : Char}
    (h : run n ts = .error ⟨s, .unexpectedChar x⟩) :
    ∃ t, ts.find? (fun t => t.kind = .invalid) = some t ∧ s = t.span ∧ x = t.character := by
  induction ts generalizing n with
  | nil => cases h
  | cons t ts ih =>
    by_cases invalid : t.kind = .invalid
    · rw [run_cons_of_error (step_of_invalid n invalid)] at h
      cases h
      exact ⟨t, List.find?_cons_of_pos (by simpa using invalid), rfl, rfl⟩
    · rw [List.find?_cons_of_neg (by simpa using invalid)]
      cases first : step n t with
      | error blame =>
        rw [run_cons_of_error first] at h
        cases h
        exact absurd first (step_ne_unexpectedChar invalid s x)
      | ok n' =>
        rw [run_cons_of_ok first] at h
        exact ih h

/-- blanks and the end of the line are not invalid -/
theorem find?_visible (line : String) :
    (((Token.scan line).filter fun t => t.kind ≠ .whitespace) ++ [Token.ending line]).find?
      (fun t => t.kind = .invalid) = (Token.scan line).find? fun t => t.kind = .invalid := by
  have ending : [Token.ending line].find? (fun t => t.kind = .invalid) = none := by simp [Token.ending]
  rw [List.find?_append, ending, Option.or_none, List.find?_filter]
  congr 1
  funext t
  by_cases invalid : t.kind = .invalid <;> simp [invalid]

end Nesting

namespace Expr

open Nesting

/-- a line that is refused for a character is refused at its first invalid token -/
theorem find?_of_parse {line : String} {f : Failure} {x : Char} (refused : parse line = .error f)
    (reason : f.reason? = some (.unexpectedChar x)) :
    ∃ t, (Token.scan line).find? (fun t => t.kind = .invalid) = some t ∧ f.offset? = some t.offset ∧
      x = t.character := by
  have verdict := map_parse line
  rw [refused] at verdict
  cases found : Nesting.verdict line with
  | ok n =>
    rw [found] at verdict
    cases verdict
  | error blame =>
    rw [found] at verdict
    have same : f = failure blame := by
      simpa [Except.map, Except.mapError] using verdict
    subst same
    obtain ⟨s, r⟩ := blame
    have : r = .unexpectedChar x := Option.some.inj reason
    subst this
    obtain ⟨t, first, rfl, character⟩ := find?_of_run found
    rw [find?_visible] at first
    exact ⟨t, first, rfl, character⟩

/-- **An unexpected character is reported where the malformed run starts.** If a line is refused for a character, then
the offset reported is that of the first invalid token of the line. The character reported stands in the line at this
offset, and the one in front of it, if there is one, is a blank, a parenthesis or an operator. No number and no name
that could be found anywhere in the line starts before this offset and ends behind it. -/
theorem unexpectedChar_first {line : String} {f : Failure} {x : Char} (refused : parse line = .error f)
    (reason : f.reason? = some (.unexpectedChar x)) :
    ∃ t, (Token.scan line).find? (fun t => t.kind = .invalid) = some t ∧ f.offset? = some t.offset ∧
      (∃ passed rest, line.toList = passed ++ x :: rest ∧ Text.width passed = t.offset ∧
        ∀ y, passed.getLast? = some y → Text.isBlank y = true ∨ y ∈ ['(', ')', '+', '-', '*', '/']) ∧
      ¬Text.InsideWord line t.offset := by
  obtain ⟨t, first, offset, character⟩ := find?_of_parse refused reason
  obtain ⟨d, rests, rfl, invalid⟩ :=
    Cursor.exists_of_find?_tokens (fun c => Cursor.restsOn_advance) (Cursor.restsOn_start line) first
  obtain ⟨passed, front, operators, whole, width, between⟩ := rests.betweenWords invalid
  obtain ⟨y, taken⟩ := text_first_of_invalid invalid
  have text : d.peek.text.toList = [y] := String.toList_ofList.trans taken
  have here : y :: d.advance.rest = d.rest := by
    rw [← Cursor.text_peek_append_rest d, text]
    rfl
  have same : x = y := by
    rw [character, Token.character, text]
    rfl
  refine ⟨d.peek, first, offset, ⟨passed, d.advance.rest, ?_, width.symm, ?_⟩, ?_⟩
  · rw [same, here, whole]
  · intro z last
    rcases between.getLast_cases last with delimiter | operator
    · rcases isDelimiter_cases delimiter with blank | rfl | rfl
      · exact .inl blank
      · simp
      · simp
    · rcases isOperator_cases operator with rfl | rfl | rfl | rfl <;> simp
  · rw [Cursor.offset_peek, width]
    exact not_insideWord whole between

/-- a name that is glued to a character behind it and to an operator before it, behind a blank of three bytes -/
theorem unexpectedChar_first_glued :
    let line := "(*\u30002 +max_) 7x"
    let f := (Failure.of (.unexpectedChar 'm')).tag ⟨8, 1⟩ .parse
    parse line = .error f ∧ f.reason? = some (.unexpectedChar 'm') ∧
      (Token.scan line).find? (fun t => t.kind = .invalid) = some ⟨.invalid, 8, "m"⟩ ∧ f.offset? = some 8 ∧
      ¬Text.InsideWord line 8 := by
  intro line f
  have refused : parse line = .error f := by decide +kernel
  have invalid : (Token.scan line).find? (fun t => t.kind = .invalid) = some ⟨.invalid, 8, "m"⟩ := by decide +kernel
  obtain ⟨t, first, offset, -, outside⟩ := unexpectedChar_first refused rfl
  rw [invalid, Option.some.injEq] at first
  subst first
  exact ⟨refused, rfl, invalid, offset, outside⟩

end Expr

end ExactCalc
