/-
The stream of tokens: what a cursor meets on its way through a line.

`Cursor.stream` is the list of tokens with the end token behind it. `Cursor.On line c` is the invariant of every way
through a line: what was passed and what is left make up the line, and the offset counts the bytes that were passed.
`Token.Follows t u` says what a token and the next one have to do with each other.

Results:
- `follows_peek_advance`: one step, from which `isChain_stream` follows for all neighbours in a stream.
- `peek_iterate_advance`: taking one token after the other gives the stream, and behind it the end token for ever.
- `scan_lossless`: **lexing is total and lossless**. The tokens of a line are not empty, touch each other, lie on
  character boundaries and spell the line; the end token stands at its end; and the neighbours are as the lexical
  grammar has them.
- `solid_eq`: without its blanks a stream goes on from token to token as readers see them.
-/
import Mathlib.Data.List.Chain
import ExactCalc.Cursor
import ExactCalc.Proofs.Lexical

namespace ExactCalc

/-! ## Bytes and boundaries -/

namespace Text

theorem width_toList (s : String) : width s.toList = s.utf8ByteSize := by
  obtain ⟨cs, rfl⟩ : ∃ cs, s = String.ofList cs := ⟨s.toList, String.ofList_toList.symm⟩
  induction cs with
  | nil => rfl
  | cons c cs ih =>
    have : String.ofList (c :: cs) = String.singleton c ++ String.ofList cs := by
      simp
    rw [this, String.utf8ByteSize_append, String.utf8ByteSize_singleton, ← ih]
    simp

/-- a character boundary lies behind every initial part of a line -/
theorem isValid_width {line : String} {passed left : List Char} (h : line.toList = passed ++ left) :
    String.Pos.Raw.IsValid line ⟨width passed⟩ := by
  rw [String.Pos.Raw.isValid_iff_exists_append]
  refine ⟨String.ofList passed, String.ofList left, ?_, ?_⟩
  · rw [← String.ofList_append, ← h, String.ofList_toList]
  · rw [String.Pos.Raw.ext_iff, String.byteIdx_rawEndPos, ← width_toList, String.toList_ofList]

end Text

namespace Cursor

/-! ## One step -/

@[simp] theorem offset_peek (c : Cursor) : c.peek.offset = c.offset := rfl

theorem text_peek_ne_empty {c : Cursor} (h : c.peek.kind ≠ .endOfInput) : c.peek.text ≠ "" := by
  intro empty
  have := advance_rest_length_lt h
  have total := congrArg List.length (text_peek_append_rest c)
  simp only [empty, String.toList_empty, List.nil_append] at total
  omega

/-- at the end a cursor stays where it is -/
theorem advance_of_end {c : Cursor} (h : c.rest = []) : c.advance = c := by
  obtain ⟨offset, rest⟩ := c
  subst h
  rfl

end Cursor

/-- what a token and the next one have to do with each other -/
structure Token.Follows (t u : Token) : Prop where
  touches : u.offset = t.stop
  blanks : t.kind = .whitespace → u.kind ≠ .whitespace
  delimited : t.kind = .constant ∨ t.kind = .identifier →
    u.kind = .whitespace ∨ u.kind = .openParen ∨ u.kind = .closeParen ∨ u.kind = .endOfInput

/-- the empty token at the end of a line -/
def Token.ending (line : String) : Token :=
  ⟨.endOfInput, line.utf8ByteSize, ""⟩

namespace Cursor

/-- two tokens are met one after the other -/
theorem follows_peek_advance (c : Cursor) : c.peek.Follows c.advance.peek := by
  refine ⟨rfl, fun blank again => ?_, fun word => ?_⟩
  · obtain ⟨⟨x, first, isBlank⟩, -⟩ := Lexeme.blanks_first again
    have stop := (Lexeme.blanks_first blank).2 x first
    rw [isBlank] at stop
    cases stop
  · exact Lexeme.kind_first_of_delimits (Lexeme.delimits_rest_first word)

/-! ## The stream -/

/-- the token behind the last character of the line -/
def ending (c : Cursor) : Token :=
  ⟨.endOfInput, c.offset + Text.width c.rest, ""⟩

/-- the tokens from here to the end, the end token included -/
def stream (c : Cursor) : List Token :=
  c.tokens ++ [c.ending]

theorem ending_advance (c : Cursor) : c.advance.ending = c.ending := by
  have total := congrArg Text.width (text_peek_append_rest c)
  rw [Text.width_append] at total
  rw [ending, ending, offset_advance, Token.stop, Token.width, offset_peek, ← total, Nat.add_assoc]

theorem peek_of_end {c : Cursor} (h : c.peek.kind = .endOfInput) : c.peek = c.ending := by
  obtain ⟨offset, rest⟩ := c
  have : rest = [] := kind_peek_eq_endOfInput_iff.1 h
  subst this
  rfl

theorem tokens_of_end {c : Cursor} (h : c.peek.kind = .endOfInput) : c.tokens = [] := by
  rw [tokens_eq, if_pos h]

theorem tokens_of_token {c : Cursor} (h : c.peek.kind ≠ .endOfInput) : c.tokens = c.peek :: c.advance.tokens := by
  rw [tokens_eq, if_neg h]

theorem stream_of_end {c : Cursor} (h : c.peek.kind = .endOfInput) : c.stream = [c.ending] := by
  rw [stream, tokens_of_end h, List.nil_append]

theorem stream_of_token {c : Cursor} (h : c.peek.kind ≠ .endOfInput) : c.stream = c.peek :: c.advance.stream := by
  rw [stream, tokens_of_token h, List.cons_append, stream, ending_advance]

theorem head?_stream (c : Cursor) : c.stream.head? = some c.peek := by
  by_cases h : c.peek.kind = .endOfInput
  · rw [stream_of_end h, peek_of_end h, List.head?_cons]
  · rw [stream_of_token h, List.head?_cons]

/-- induction along the line, token by token up to its end -/
@[elab_as_elim]
theorem along {motive : Cursor → Prop} (ended : ∀ c, c.peek.kind = .endOfInput → motive c)
    (token : ∀ c, c.peek.kind ≠ .endOfInput → motive c.advance → motive c) (c : Cursor) : motive c := by
  induction c using tokens.induct with
  | case1 c step h => exact ended c h
  | case2 c step h ih => exact token c h ih

/-- what every step keeps holds of every cursor of the way through the line, and so of the tokens that are met -/
theorem forall_mem_stream {P : Token → Prop} {Q : Cursor → Prop} (peek : ∀ c, Q c → P c.peek)
    (advance : ∀ c, Q c → Q c.advance) {c : Cursor} (h : Q c) : ∀ t ∈ c.stream, P t := by
  induction c using along with
  | ended c ended =>
    rw [stream_of_end ended, ← peek_of_end ended]
    intro t ht
    rw [List.mem_singleton.1 ht]
    exact peek c h
  | token c more ih =>
    rw [stream_of_token more]
    exact List.forall_mem_cons.2 ⟨peek c h, ih (advance c h)⟩

/-- neighbours in a stream are a token and the one behind it -/
theorem isChain_stream (c : Cursor) : c.stream.IsChain Token.Follows := by
  induction c using along with
  | ended c ended =>
    rw [stream_of_end ended]
    exact List.isChain_singleton _
  | token c more ih =>
    rw [stream_of_token more, List.isChain_cons]
    refine ⟨fun u hu => ?_, ih⟩
    have : c.advance.peek = u := by
      rw [← Option.some.injEq, ← head?_stream]
      exact hu
    rw [← this]
    exact follows_peek_advance c

/-- taking one token after the other gives the stream, and at the end of the line the end token again and again -/
theorem peek_iterate_advance (c : Cursor) (n : ℕ) : (advance^[n] c).peek = c.tokens[n]?.getD c.ending := by
  induction n generalizing c with
  | zero =>
    by_cases ended : c.peek.kind = .endOfInput
    · rw [tokens_of_end ended]
      exact peek_of_end ended
    · rw [tokens_of_token ended]
      rfl
  | succ n ih =>
    rw [Function.iterate_succ_apply, ih, ending_advance]
    by_cases ended : c.peek.kind = .endOfInput
    · rw [advance_of_end (kind_peek_eq_endOfInput_iff.1 ended), tokens_of_end ended]
      rfl
    · rw [tokens_of_token ended, List.getElem?_cons_succ]

/-- the tokens spell the text that is left -/
theorem flatMap_text_tokens (c : Cursor) : c.tokens.flatMap (fun t => t.text.toList) = c.rest := by
  induction c using along with
  | ended c ended =>
    rw [tokens_of_end ended, kind_peek_eq_endOfInput_iff.1 ended, List.flatMap_nil]
  | token c more ih =>
    rw [tokens_of_token more, List.flatMap_cons, ih, text_peek_append_rest]

theorem forall_mem_tokens {P : Token → Prop} (peek : ∀ c : Cursor, c.peek.kind ≠ .endOfInput → P c.peek)
    (c : Cursor) : ∀ t ∈ c.tokens, P t := by
  induction c using along with
  | ended c ended =>
    rw [tokens_of_end ended]
    nofun
  | token c more ih =>
    rw [tokens_of_token more]
    exact List.forall_mem_cons.2 ⟨peek c more, ih⟩

/-! ## A cursor on a line -/

/-- the cursor lies on the line: it has passed some of its characters, and the others are left -/
def On (line : String) (c : Cursor) : Prop :=
  ∃ passed, line.toList = passed ++ c.rest ∧ c.offset = Text.width passed

theorem on_start (line : String) : On line (start line) :=
  ⟨[], rfl, rfl⟩

theorem On.advance {line : String} {c : Cursor} (h : On line c) : On line c.advance := by
  obtain ⟨passed, whole, offset⟩ := h
  refine ⟨passed ++ c.peek.text.toList, ?_, ?_⟩
  · rw [List.append_assoc, text_peek_append_rest, whole]
  · rw [offset_advance, Token.stop, Token.width, offset_peek, offset, Text.width_append]

theorem On.isValid {line : String} {c : Cursor} (h : On line c) : String.Pos.Raw.IsValid line ⟨c.offset⟩ := by
  obtain ⟨passed, whole, offset⟩ := h
  rw [offset]
  exact Text.isValid_width whole

theorem ending_start (line : String) : (start line).ending = Token.ending line := by
  rw [Token.ending, ← Text.width_toList, ending, start, Nat.zero_add]

/-! ## The stream without its blanks -/

/-- the tokens from here to the end that are not blank -/
def solid (c : Cursor) : List Token :=
  c.tokens.filter fun t => t.kind ≠ .whitespace

theorem solid_skipBlanks (c : Cursor) : c.skipBlanks.solid = c.solid := by
  fun_induction skipBlanks c with
  | case1 c blank ih =>
    have more : c.peek.kind ≠ .endOfInput := by simp [blank]
    rw [ih, solid, solid, tokens_of_token more, List.filter_cons_of_neg (by simp [blank])]
  | case2 c _ => rfl

theorem solid_of_end {c : Cursor} (h : c.token.kind = .endOfInput) : c.solid = [] := by
  rw [← solid_skipBlanks, solid, tokens_of_end h, List.filter_nil]

theorem solid_of_nil (offset : ℕ) : (⟨offset, []⟩ : Cursor).solid = [] := by
  rw [solid, tokens_of_end rfl, List.filter_nil]

/-- without its blanks a stream goes on from token to token as a reader sees them -/
theorem solid_of_token {c : Cursor} (h : c.token.kind ≠ .endOfInput) : c.solid = c.token :: c.afterToken.solid := by
  rw [← solid_skipBlanks, solid, tokens_of_token h, List.filter_cons_of_pos]
  · rfl
  · exact decide_eq_true c.token_kind_ne_whitespace

theorem solid_eq_nil_iff {c : Cursor} : c.solid = [] ↔ c.token.kind = .endOfInput := by
  refine ⟨fun h => ?_, solid_of_end⟩
  by_contra more
  rw [solid_of_token more] at h
  cases h

theorem of_solid_eq_cons {c : Cursor} {t : Token} {ts : List Token} (h : c.solid = t :: ts) :
    c.token = t ∧ c.afterToken.solid = ts := by
  have more : c.token.kind ≠ .endOfInput := by
    intro ended
    rw [solid_of_end ended] at h
    cases h
  rw [solid_of_token more] at h
  exact List.cons.inj h

theorem peek_of_first {cs text rest : List Char} {kind : Token.Kind} (h : Lexeme.first cs = ⟨kind, text, rest⟩)
    (offset : ℕ) : (⟨offset, cs⟩ : Cursor).peek = ⟨kind, offset, String.ofList text⟩ ∧
      (⟨offset, cs⟩ : Cursor).advance = ⟨offset + Text.width text, rest⟩ := by
  simp [peek, advance, next, h, Token.stop, Token.width]

/-- a piece that is no run of blanks is the first solid token -/
theorem solid_of_first {cs text rest : List Char} {kind : Token.Kind} (h : Lexeme.first cs = ⟨kind, text, rest⟩)
    (ended : kind ≠ .endOfInput) (blank : kind ≠ .whitespace) (offset : ℕ) : (⟨offset, cs⟩ : Cursor).solid =
      ⟨kind, offset, String.ofList text⟩ :: (⟨offset + Text.width text, rest⟩ : Cursor).solid := by
  obtain ⟨peek, advance⟩ := peek_of_first h offset
  rw [solid, tokens_of_token (by rw [peek]; exact ended), peek, advance, List.filter_cons_of_pos (by simpa using blank),
    solid]

/-- blanks at the start of a text do not show in its solid tokens -/
theorem solid_dropBlanks (offset : ℕ) (cs : List Char) : (⟨offset, cs⟩ : Cursor).solid =
    (⟨offset + Text.width (cs.takeWhile Text.isBlank), cs.dropWhile Text.isBlank⟩ : Cursor).solid := by
  cases cs with
  | nil => rfl
  | cons b cs =>
    by_cases blank : Text.isBlank b = true
    · rw [List.takeWhile_cons_of_pos blank, List.dropWhile_cons_of_pos blank]
      obtain ⟨peek, advance⟩ := peek_of_first (Lexeme.first_of_isBlank blank cs) offset
      rw [solid, tokens_of_token (by simp [peek]), peek, advance, List.filter_cons_of_neg (by simp), solid]
    · rw [List.takeWhile_cons_of_neg blank, List.dropWhile_cons_of_neg blank]
      rfl

theorem solid_blank {b : Char} (blank : Text.isBlank b = true) (offset : ℕ) (cs : List Char) :
    (⟨offset, b :: cs⟩ : Cursor).solid = (⟨offset + b.utf8Size, cs⟩ : Cursor).solid := by
  rw [solid_dropBlanks, List.takeWhile_cons_of_pos blank, List.dropWhile_cons_of_pos blank, Text.width_cons,
    ← Nat.add_assoc, ← solid_dropBlanks]

theorem isSpelled_peek {c : Cursor} (h : c.peek.isAtomic = true) : c.peek.isSpelled = true := by
  have : (Lexeme.first c.rest).kind.spells (Lexeme.first c.rest).text = true := Lexeme.spells_first h
  rw [Token.isSpelled, peek, next, String.toList_ofList]
  exact this

end Cursor

/-- atoms among the tokens of a line are in the grammar of their kinds -/
theorem Token.isSpelled_of_mem_scan {line : String} {t : Token} (member : t ∈ Token.scan line)
    (atomic : t.isAtomic = true) : t.isSpelled = true := by
  have spelled : ∀ t ∈ Token.scan line, t.isAtomic = true → t.isSpelled = true :=
    Cursor.forall_mem_tokens (fun _ _ => Cursor.isSpelled_peek) _
  exact spelled t member atomic

/-- the end token is none of the tokens of a line -/
theorem Token.kind_ne_endOfInput_of_mem_scan {line : String} {t : Token} (member : t ∈ Token.scan line) :
    t.kind ≠ .endOfInput :=
  Cursor.forall_mem_tokens (P := fun t => t.kind ≠ .endOfInput) (fun _ more => more) _ t member

/-! ## Lexing -/

/-- **Lexing is total and lossless.** Taking tokens off a line comes to an end, and from then on gives the empty end
token at the end of the line. The tokens before it are not empty, start at the first byte, touch each other, lie on
character boundaries and spell the line. No run of blanks follows another, behind a constant or a name comes a blank, a
parenthesis or the end, and an invalid token is a single character. -/
theorem scan_lossless (line : String) :
    (∀ n, (Cursor.advance^[n] (Cursor.start line)).peek = (Token.scan line)[n]?.getD (Token.ending line)) ∧
    (∀ t ∈ Token.scan line, t.kind ≠ .endOfInput ∧ t.text ≠ "") ∧
    (∀ t, (Token.scan line ++ [Token.ending line]).head? = some t → t.offset = 0) ∧
    (Token.scan line ++ [Token.ending line]).IsChain Token.Follows ∧
    (∀ t ∈ Token.scan line ++ [Token.ending line],
      String.Pos.Raw.IsValid line ⟨t.offset⟩ ∧ String.Pos.Raw.IsValid line ⟨t.stop⟩) ∧
    String.join ((Token.scan line).map Token.text) = line ∧
    (∀ t ∈ Token.scan line, t.kind = .invalid → ∃ c, t.text = String.singleton c) := by
  have hEnding : (Cursor.start line).ending = Token.ending line := Cursor.ending_start line
  have hStream : (Cursor.start line).stream = Token.scan line ++ [Token.ending line] := by
    rw [Cursor.stream, hEnding]
    rfl
  refine ⟨fun n => ?_, ?_, fun t ht => ?_, ?_, ?_, ?_, ?_⟩
  · rw [Cursor.peek_iterate_advance, hEnding]
    rfl
  · exact Cursor.forall_mem_tokens (fun c more => ⟨more, Cursor.text_peek_ne_empty more⟩) _
  · rw [← hStream, Cursor.head?_stream] at ht
    cases ht
    rfl
  · rw [← hStream]
    exact Cursor.isChain_stream _
  · rw [← hStream]
    exact Cursor.forall_mem_stream (fun c on => ⟨on.isValid, on.advance.isValid⟩) (fun c on => on.advance)
      (Cursor.on_start line)
  · rw [← String.toList_inj, String.toList_join, List.flatMap_map]
    exact Cursor.flatMap_text_tokens _
  · refine Cursor.forall_mem_tokens (fun c _ invalid => ?_) _
    obtain ⟨x, hx⟩ := Lexeme.text_first_of_invalid invalid
    exact ⟨x, by rw [← String.toList_inj, String.toList_singleton]; simpa [Cursor.peek, Cursor.next] using hx⟩

end ExactCalc
