/-
Reading a part of a line by itself.

What a token is depends on what follows it: a name or a number has to be delimited, and a sign is looked at together
with the next character. Blanks around an expression may be cut off nevertheless. `Text.Framed` splits a text into
blanks, a part that starts and ends with other characters, and blanks again; `Cursor.framed` puts more text behind one
and moves the cursor along.

Results:
- `first_append`: what is taken off a text that holds more than blanks does not depend on what is behind it, if this
  delimits names and numbers.
- `solid_framed`: so, by induction along the text, its tokens are the same, moved along.
- `framed_of_parse`: by induction on a derivation, the span of what is read starts at the first character of the line
  that is not blank, and ends behind the last one.
- `parse_excerpt`: **the part of a line that an expression covers is read as that expression**.
-/
import ExactCalc.Proofs.Levels

namespace ExactCalc

/-! ## Framed texts -/

namespace Text

/-- neither the first nor the last character is blank, and there is one -/
structure Solid (part : List Char) : Prop where
  first : ∃ c, part.head? = some c ∧ isBlank c = false
  last : ∃ c, part.getLast? = some c ∧ isBlank c = false

/-- the text is this part with blanks around it, and the part reaches from the first other character to the last -/
structure Framed (text before part after : List Char) : Prop where
  whole : text = before ++ part ++ after
  blankBefore : ∀ c ∈ before, isBlank c = true
  blankAfter : ∀ c ∈ after, isBlank c = true
  solid : Solid part

end Text

/-- the part of the line that the span covers, unless it cuts a character -/
def Span.excerpt? (line : String) (s : Span) : Option String :=
  match Text.charIndex? line.toList s.offset, Text.charIndex? line.toList s.stop with
  | some start, some stop => some (String.ofList ((line.toList.take stop).drop start))
  | _, _ => none

theorem Span.excerpt?_width {line : String} {before part after : List Char}
    (whole : line.toList = before ++ part ++ after) :
    (Span.mk (Text.width before) (Text.width part)).excerpt? line = some (String.ofList part) := by
  have start : Text.charIndex? (before ++ part ++ after) (Text.width before) = some before.length := by
    rw [List.append_assoc]
    exact Text.charIndex?_width before (part ++ after)
  have stop : Text.charIndex? (before ++ part ++ after) (Text.width before + Text.width part) =
      some (before ++ part).length := by
    rw [← Text.width_append]
    exact Text.charIndex?_width (before ++ part) after
  unfold Span.excerpt? Span.stop
  rw [whole, start, stop]
  dsimp only
  rw [List.take_left, List.drop_left]

namespace Text

/-- a text without blanks at its ends is framed by nothing -/
theorem Framed.eq_nil {text before part after : List Char} (h : Framed text before part after) (solid : Solid text) :
    before = [] ∧ after = [] := by
  obtain ⟨b, head, notBlank⟩ := solid.first
  obtain ⟨c, last, notBlank'⟩ := solid.last
  rw [h.whole] at head last
  constructor
  · cases before with
    | nil => rfl
    | cons x xs =>
      have blank := h.blankBefore x List.mem_cons_self
      rw [List.cons_append, List.cons_append, List.head?_cons, Option.some.injEq] at head
      rw [head, notBlank] at blank
      cases blank
  · rcases List.eq_nil_or_concat' after with nothing | ⟨xs, x, rfl⟩
    · exact nothing
    · have blank := h.blankAfter x List.mem_concat_self
      rw [← List.append_assoc, List.getLast?_concat, Option.some.injEq] at last
      rw [last, notBlank'] at blank
      cases blank

end Text

/-! ## More text behind a text -/

namespace Lexeme

/-- the piece in a text that goes on behind the one it was taken off -/
def followedBy (after : List Char) (l : Lexeme) : Lexeme :=
  { l with rest := l.rest ++ after }

section
variable {after : List Char}

/-- a run ends where it did, if it had to end there anyway or may not go on behind the text -/
theorem span_append_of_stop {p : Char → Bool} (cs : List Char)
    (stop : (∃ x ∈ cs, p x = false) ∨ ∀ x, after.head? = some x → p x = false) :
    (cs ++ after).takeWhile p = cs.takeWhile p ∧ (cs ++ after).dropWhile p = cs.dropWhile p ++ after := by
  induction cs with
  | nil =>
    rcases stop with ⟨x, mem, -⟩ | stop
    · cases mem
    · exact span_append (List.forall_mem_nil _) stop
  | cons c cs ih =>
    rw [List.cons_append]
    by_cases hc : p c = true
    · have stop' : (∃ x ∈ cs, p x = false) ∨ ∀ x, after.head? = some x → p x = false := by
        rcases stop with ⟨x, mem, hx⟩ | stop
        · rcases List.mem_cons.1 mem with rfl | mem
          · rw [hc] at hx
            cases hx
          · exact .inl ⟨x, mem, hx⟩
        · exact .inr stop
      obtain ⟨taken, left⟩ := ih stop'
      rw [List.takeWhile_cons_of_pos hc, List.takeWhile_cons_of_pos hc, List.dropWhile_cons_of_pos hc,
        List.dropWhile_cons_of_pos hc, taken, left]
      exact ⟨rfl, rfl⟩
    · rw [List.takeWhile_cons_of_neg hc, List.takeWhile_cons_of_neg hc, List.dropWhile_cons_of_neg hc,
        List.dropWhile_cons_of_neg hc]
      exact ⟨rfl, rfl⟩

section
variable (delimited : delimits after = true)
include delimited

theorem delimits_append (cs : List Char) : delimits (cs ++ after) = delimits cs := by
  cases cs with
  | nil => exact delimited
  | cons c cs => rfl

theorem startsWithDigit_append_of_delimits (cs : List Char) : startsWithDigit (cs ++ after) = startsWithDigit cs := by
  cases cs with
  | nil => exact startsWithDigit_of_delimits delimited
  | cons c cs => rfl

theorem delimitedRun_append_of_delimits (kind : Token.Kind) {p : Char → Bool}
    (apart : ∀ x, isDelimiter x = true → p x = false) (c : Char) (cs : List Char) :
    delimitedRun kind p c (cs ++ after) = (delimitedRun kind p c cs).followedBy after := by
  have stop : ∀ x, after.head? = some x → p x = false := fun x hx => apart x (isDelimiter_of_delimits delimited hx)
  obtain ⟨taken, left⟩ := span_append_of_stop cs (.inr stop)
  unfold delimitedRun
  rw [left, delimits_append delimited]
  split_ifs
  · unfold run
    rw [taken, left]
    rfl
  · rfl

/-- what is taken off a text that holds more than blanks does not depend on what is behind it -/
theorem first_append {cs : List Char} (solid : ∃ x ∈ cs, Text.isBlank x = false) :
    first (cs ++ after) = (first cs).followedBy after := by
  cases cs with
  | nil =>
    obtain ⟨x, member, -⟩ := solid
    cases member
  | cons c cs =>
    have apart : ∀ x, isDelimiter x = true → x.isDigit = false ∧ isNameChar x = false := fun x => classes_of_isDelimiter
    rw [List.cons_append]
    simp only [first, startsWithDigit_append_of_delimits delimited]
    split_ifs with opens closes alpha numeral blank operator
    · rfl
    · rfl
    · exact delimitedRun_append_of_delimits delimited .identifier (fun x hx => (apart x hx).2) c cs
    · exact delimitedRun_append_of_delimits delimited .constant (fun x hx => (apart x hx).1) c cs
    · have stop : ∃ x ∈ cs, Text.isBlank x = false := by
        rcases (List.exists_mem_cons_iff ..).1 solid with here | there
        · rw [blank] at here
          cases here
        · exact there
      obtain ⟨taken, left⟩ := span_append_of_stop cs (.inl stop)
      unfold run
      rw [taken, left]
      rfl
    · rfl
    · rfl

end

end

/-- a run of blanks holds nothing else -/
theorem isBlank_of_mem_first {cs : List Char} (h : (first cs).kind = .whitespace) :
    ∀ x ∈ (first cs).text, Text.isBlank x = true := by
  have taken := taken_first cs
  generalize first cs = l at h taken
  cases taken with
  | atom kind text rest spelled _ =>
    subst h
    cases spelled
  | blanks c text rest blank _ => exact blank
  | _ => cases h

theorem isBlank_of_isAtomChar {x : Char} (h : isAtomChar x = true) : Text.isBlank x = false := by
  by_contra blank
  rw [Bool.not_eq_false] at blank
  have delimiter : isDelimiter x = true := by simp [isDelimiter, blank]
  have name := (classes_of_isDelimiter delimiter).2
  rw [isAtomChar, isOperator_of_isBlank blank, name] at h
  cases h

/-- atoms and parentheses hold no blanks -/
theorem not_isBlank_of_mem_first {cs : List Char} (blank : (first cs).kind ≠ .whitespace)
    (invalid : (first cs).kind ≠ .invalid) : ∀ x ∈ (first cs).text, Text.isBlank x = false := by
  have taken := taken_first cs
  generalize first cs = l at blank invalid taken
  cases taken with
  | ended => exact List.forall_mem_nil _
  | openParen rest => exact List.forall_mem_singleton.2 (by decide)
  | closeParen rest => exact List.forall_mem_singleton.2 (by decide)
  | atom kind text rest spelled _ => exact fun x mem => isBlank_of_isAtomChar (isAtomChar_of_spells spelled x mem)
  | blanks c text rest _ _ => exact absurd rfl blank
  | invalid c rest => exact absurd rfl invalid

end Lexeme

namespace Token

/-- the token so many bytes further on -/
def moved (n : ℕ) (t : Token) : Token :=
  { t with offset := t.offset + n }

/-- the token so many bytes nearer to the start -/
def movedBack (n : ℕ) (t : Token) : Token :=
  { t with offset := t.offset - n }

theorem movedBack_moved (n : ℕ) (t : Token) : (t.moved n).movedBack n = t := by
  simp [moved, movedBack]

end Token

namespace Cursor

/-- the cursor so many bytes further on, with more text behind -/
def framed (n : ℕ) (after : List Char) (c : Cursor) : Cursor :=
  ⟨c.offset + n, c.rest ++ after⟩

section
variable {after : List Char}

/-- what is behind a text that holds more than blanks does not show in one step -/
theorem next_framed (delimited : Lexeme.delimits after = true) {c : Cursor} (n : ℕ)
    (solid : ∃ x ∈ c.rest, Text.isBlank x = false) :
    (c.framed n after).peek = c.peek.moved n ∧ (c.framed n after).advance = c.advance.framed n after := by
  have first := Lexeme.first_append delimited solid
  have peek : (c.framed n after).peek = c.peek.moved n := by
    unfold framed Cursor.peek next
    rw [first]
    rfl
  refine ⟨peek, ?_⟩
  unfold framed Cursor.advance next
  rw [first]
  simp only [Lexeme.followedBy, Token.stop, Token.width, mk.injEq, and_true]
  omega

theorem delimits_of_blank (blank : ∀ x ∈ after, Text.isBlank x = true) : Lexeme.delimits after = true := by
  cases after with
  | nil => rfl
  | cons x after =>
    have := blank x List.mem_cons_self
    simp [Lexeme.delimits, Lexeme.isDelimiter, this]

/-- blanks behind a text do not show in its tokens, wherever the text stands -/
theorem solid_framed (blank : ∀ x ∈ after, Text.isBlank x = true) (n : ℕ) (c : Cursor)
    (last : ∀ x, c.rest.getLast? = some x → Text.isBlank x = false) :
    (c.framed n after).solid = c.solid.map (Token.moved n) := by
  induction c using along with
  | ended c ended =>
    have nothing : after.dropWhile Text.isBlank = [] := List.dropWhile_eq_nil_iff.2 blank
    unfold framed
    rw [kind_peek_eq_endOfInput_iff.1 ended, List.nil_append, solid_dropBlanks, nothing, solid_of_nil, solid,
      tokens_of_end ended]
    rfl
  | token c more ih =>
    have ne : c.rest ≠ [] := mt kind_peek_eq_endOfInput_iff.2 more
    have last' : ∀ x, c.advance.rest.getLast? = some x → Text.isBlank x = false := by
      intro x hx
      apply last
      rw [← text_peek_append_rest]
      exact List.mem_getLast?_append_of_mem_getLast? hx
    obtain ⟨peek, advance⟩ := next_framed (delimits_of_blank blank) n
      ⟨_, List.getLast_mem ne, last _ (List.getLast?_eq_some_getLast ne)⟩
    have more' : (c.framed n after).peek.kind ≠ .endOfInput := by
      rw [peek]
      exact more
    have others := ih last'
    unfold solid at others ⊢
    rw [tokens_of_token more, tokens_of_token more', peek, advance]
    by_cases space : c.peek.kind = .whitespace
    · rw [List.filter_cons_of_neg (by simp [Token.moved, space]), List.filter_cons_of_neg (by simp [space]), others]
    · rw [List.filter_cons_of_pos (by simp [Token.moved, space]), List.filter_cons_of_pos (by simp [space]), others]
      rfl

end

end Cursor

/-! ## What a reader passes -/

namespace Cursor

/-- between the two cursors lies this text -/
def Passes (c : Cursor) (text : List Char) (d : Cursor) : Prop :=
  c.rest = text ++ d.rest ∧ d.offset = c.offset + Text.width text

theorem Passes.trans {c d e : Cursor} {text text' : List Char} (h : c.Passes text d) (h' : d.Passes text' e) :
    c.Passes (text ++ text') e := by
  refine ⟨?_, ?_⟩
  · rw [h.1, h'.1, List.append_assoc]
  · rw [h'.2, h.2, Text.width_append, Nat.add_assoc]

theorem passes_advance (c : Cursor) : c.Passes c.peek.text.toList c.advance :=
  ⟨(text_peek_append_rest c).symm, rfl⟩

theorem toList_text_peek (c : Cursor) : c.peek.text.toList = (Lexeme.first c.rest).text :=
  String.toList_ofList

/-- in front of the next token lie blanks -/
theorem passes_skipBlanks (c : Cursor) :
    ∃ blanks, c.Passes blanks c.skipBlanks ∧ ∀ x ∈ blanks, Text.isBlank x = true := by
  fun_induction skipBlanks c with
  | case1 c blank ih =>
    obtain ⟨blanks, passes, others⟩ := ih
    refine ⟨_, (passes_advance c).trans passes, ?_⟩
    rw [List.forall_mem_append, toList_text_peek]
    exact ⟨Lexeme.isBlank_of_mem_first blank, others⟩
  | case2 c _ => exact ⟨[], ⟨rfl, rfl⟩, List.forall_mem_nil _⟩

/-- an atom or a parenthesis neither starts nor ends with a blank -/
theorem solid_text_token {c : Cursor} (ended : c.token.kind ≠ .endOfInput) (invalid : c.token.kind ≠ .invalid) :
    Text.Solid c.token.text.toList := by
  have ne : c.token.text.toList ≠ [] := by
    intro nothing
    exact text_peek_ne_empty ended (String.toList_eq_nil_iff.1 nothing)
  have solid : ∀ x ∈ c.token.text.toList, Text.isBlank x = false := by
    rw [token, toList_text_peek]
    exact Lexeme.not_isBlank_of_mem_first c.token_kind_ne_whitespace invalid
  refine ⟨⟨_, List.head?_eq_some_head ne, solid _ (List.head_mem ne)⟩, ?_⟩
  exact ⟨_, List.getLast?_eq_some_getLast ne, solid _ (List.getLast_mem ne)⟩

end Cursor

namespace Expr

mutual

/-- what is read stands behind blanks, starts and ends with another character, and has its span from there to there -/
theorem Reads.passes {depth : ℕ} {c next : Cursor} {e : Located Expr} : Reads depth c e next →
    ∃ part, c.skipBlanks.Passes part next ∧ Text.Solid part ∧ e.span = ⟨c.token.offset, Text.width part⟩
  | .atom h => by
    have invalid : c.token.kind ≠ .invalid := by
      rcases kind_of_isAtomic h with h | h | h <;> simp [h]
    have solid := Cursor.solid_text_token (kind_ne_endOfInput_of_isAtomic h) invalid
    exact ⟨_, Cursor.passes_advance c.skipBlanks, solid, rfl⟩
  | .list h elements => by
    obtain ⟨part, passes, ⟨x, last, notBlank⟩, stop⟩ := elements.passes
    have solid : Text.Solid c.token.text.toList := Cursor.solid_text_token (by simp [h]) (by simp [h])
    obtain ⟨y, first, notBlank'⟩ := solid.first
    have whole := (Cursor.passes_advance c.skipBlanks).trans passes
    refine ⟨_, whole, ⟨⟨y, ?_, notBlank'⟩, x, ?_, notBlank⟩, ?_⟩
    · exact List.mem_head?_append_of_mem_head? first
    · exact List.mem_getLast?_append_of_mem_getLast? last
    · have offset : c.token.offset = c.skipBlanks.offset := rfl
      rw [stop, whole.2, Span.between, offset, Nat.add_sub_cancel_left]

/-- what is read of elements ends with another character than a blank, at the place that is noted -/
theorem ReadsElements.passes {depth : ℕ} {opening : Token} {c next : Cursor} {es : List Expr} {stop : ℕ} :
    ReadsElements depth opening c es stop next →
      ∃ part, c.Passes part next ∧ (∃ x, part.getLast? = some x ∧ Text.isBlank x = false) ∧ stop = next.offset
  | .close h => by
    obtain ⟨blanks, passes, -⟩ := Cursor.passes_skipBlanks c
    have solid : Text.Solid c.token.text.toList := Cursor.solid_text_token (by simp [h]) (by simp [h])
    obtain ⟨x, last, notBlank⟩ := solid.last
    exact ⟨_, passes.trans (Cursor.passes_advance c.skipBlanks),
      ⟨x, List.mem_getLast?_append_of_mem_getLast? last, notBlank⟩, rfl⟩
  | .cons _ _ first others => by
    obtain ⟨blanks, before, -⟩ := Cursor.passes_skipBlanks c
    obtain ⟨part, passes, -, -⟩ := first.passes
    obtain ⟨part', passes', ⟨x, last, notBlank⟩, stop⟩ := others.passes
    exact ⟨_, (before.trans passes).trans passes',
      ⟨x, List.mem_getLast?_append_of_mem_getLast? last, notBlank⟩, stop⟩

end

/-- the span of what is read starts at the first character of the line that is not blank, and ends behind the last -/
theorem framed_of_parse {line : String} {e : Located Expr} (h : parse line = .ok e) :
    ∃ before part after, Text.Framed line.toList before part after ∧
      e.span = ⟨Text.width before, Text.width part⟩ := by
  obtain ⟨next, read, ended⟩ := parse_eq_ok_iff_reads.1 h
  obtain ⟨before, toFirst, blankBefore⟩ := Cursor.passes_skipBlanks (Cursor.start line)
  obtain ⟨part, passes, solid, span⟩ := read.passes
  obtain ⟨after, toEnd, blankAfter⟩ := Cursor.passes_skipBlanks next
  have nothing : next.skipBlanks.rest = [] := Cursor.kind_peek_eq_endOfInput_iff.1 ended
  have whole : line.toList = before ++ part ++ after := by
    have := ((toFirst.trans passes).trans toEnd).1
    rwa [nothing, List.append_nil] at this
  have offset : (Cursor.start line).token.offset = Text.width before := by
    have := toFirst.2
    rwa [Cursor.start, Nat.zero_add] at this
  exact ⟨before, part, after, ⟨whole, blankBefore, blankAfter, solid⟩, by rw [span, offset]⟩

end Expr

/-! ## Trees further on -/

namespace Piece

/-- the piece with another token, if it is an atom -/
def mapToken (f : Token → Token) : Piece → Piece
  | .atom t => .atom (f t)
  | .opening => .opening
  | .closing => .closing

end Piece

theorem Piece.mapToken_inverse {f g : Token → Token} (inverse : ∀ t, g (f t) = t) (p : Piece) :
    (p.mapToken f).mapToken g = p := by
  cases p with
  | atom t => exact congrArg atom (inverse t)
  | opening => rfl
  | closing => rfl

theorem Token.piece_moved (n : ℕ) (t : Token) : (t.moved n).piece = t.piece.mapToken (moved n) := by
  obtain ⟨kind, offset, text⟩ := t
  cases kind <;> rfl

namespace Expr

/-- the tree with all its atoms so many bytes further on -/
def moved (n : ℕ) (e : Expr) : Expr :=
  e.mapTokens (Token.moved n)

section
variable {f g : Token → Token}

mutual

theorem flatten_mapTokens : (e : Expr) → (e.mapTokens f).flatten = e.flatten.map (Piece.mapToken f)
  | .atom _ => rfl
  | .nil => rfl
  | .list es => by
    rw [mapTokens, flatten, flatten, flattenList_mapTokensList es, List.map_cons, List.map_append]
    rfl

theorem flattenList_mapTokensList : (es : List Expr) →
    flattenList (mapTokensList f es) = (flattenList es).map (Piece.mapToken f)
  | [] => rfl
  | e :: es => by
    rw [mapTokensList, flattenList, flattenList, flatten_mapTokens e, flattenList_mapTokensList es, List.map_append]

end

mutual

/-- changing the atoms back gives the tree back -/
theorem mapTokens_mapTokens_of_inverse : (e : Expr) → (∀ t ∈ e.atoms, g (f t) = t) → (e.mapTokens f).mapTokens g = e
  | .atom t, inverse => congrArg atom (inverse t List.mem_cons_self)
  | .nil, _ => rfl
  | .list es, inverse => congrArg list (mapTokensList_mapTokensList_of_inverse es inverse)

theorem mapTokensList_mapTokensList_of_inverse : (es : List Expr) → (∀ t ∈ atomsList es, g (f t) = t) →
    mapTokensList g (mapTokensList f es) = es
  | [], _ => rfl
  | e :: es, inverse =>
    congrArg₂ List.cons (mapTokens_mapTokens_of_inverse e fun t ht => inverse t (List.mem_append_left _ ht))
      (mapTokensList_mapTokensList_of_inverse es fun t ht => inverse t (List.mem_append_right _ ht))

end

end

end Expr

/-! ## Parts of lines -/

/-- blanks in front of a text only move its tokens along -/
theorem Cursor.solid_blanks {blanks : List Char} (blank : ∀ x ∈ blanks, Text.isBlank x = true) (offset : ℕ)
    (cs : List Char) :
    (⟨offset, blanks ++ cs⟩ : Cursor).solid = (⟨offset + Text.width blanks, cs⟩ : Cursor).solid := by
  induction blanks generalizing offset with
  | nil => rfl
  | cons x blanks ih =>
    obtain ⟨first, others⟩ := List.forall_mem_cons.1 blank
    rw [List.cons_append, solid_blank first, ih others, Text.width_cons, Nat.add_assoc]

/-- the part of a framed line has the tokens of the line, moved back -/
theorem Cursor.solid_start_of_framed {line : String} {before part after : List Char}
    (h : Text.Framed line.toList before part after) :
    (start line).solid = (start (String.ofList part)).solid.map (Token.moved (Text.width before)) := by
  have last : ∀ x, part.getLast? = some x → Text.isBlank x = false := by
    intro x hx
    obtain ⟨y, hy, notBlank⟩ := h.solid.last
    rw [hx, Option.some.injEq] at hy
    rwa [hy]
  have framed := solid_framed h.blankAfter (Text.width before) ⟨0, part⟩ last
  calc (start line).solid
    _ = (⟨0, before ++ (part ++ after)⟩ : Cursor).solid := by rw [start, h.whole, List.append_assoc]
    _ = (⟨0 + Text.width before, part ++ after⟩ : Cursor).solid := solid_blanks h.blankBefore 0 _
    _ = (⟨0, part⟩ : Cursor).solid.map (Token.moved (Text.width before)) := framed
    _ = (start (String.ofList part)).solid.map (Token.moved (Text.width before)) := by
      rw [start, String.toList_ofList]

namespace Expr

/-- a tree whose pieces are moved is a moved tree -/
theorem exists_eq_moved {n : ℕ} {e : Expr} {ps : List Piece}
    (h : e.flatten = ps.map (Piece.mapToken (Token.moved n))) :
    ∃ e' : Expr, e = e'.moved n ∧ e'.flatten = ps := by
  have inverse : ∀ t ∈ e.atoms, (t.movedBack n).moved n = t := by
    intro t ht
    rw [mem_atoms_iff, h, List.mem_map] at ht
    obtain ⟨p, -, hp⟩ := ht
    cases p with
    | atom u =>
      have image : u.moved n = t := Piece.atom.inj hp
      rw [← image, Token.movedBack_moved]
    | _ => cases hp
  refine ⟨e.mapTokens (Token.movedBack n), (mapTokens_mapTokens_of_inverse e inverse).symm, ?_⟩
  rw [flatten_mapTokens, h, List.map_map]
  refine (List.map_congr_left fun p _ => ?_).trans (List.map_id ps)
  exact Piece.mapToken_inverse (Token.movedBack_moved n) p

/-- a line with the tokens of another one, moved back, is read as its tree, moved back -/
theorem parse_of_moved {line line' : String} {n : ℕ} {e : Expr}
    (same : (Cursor.start line).solid = (Cursor.start line').solid.map (Token.moved n))
    (h : (parse line).map Located.value = .ok e) :
    ∃ e', (parse line').map Located.value = .ok e' ∧ e = e'.moved n := by
  obtain ⟨pieces, wellFormed⟩ := flatten_of_parse h
  have flat : e.flatten = ((Cursor.start line').solid.map Token.piece).map (Piece.mapToken (Token.moved n)) := by
    rw [← pieces, same, List.map_map, List.map_map]
    exact List.map_congr_left fun t _ => Token.piece_moved n t
  obtain ⟨e', rfl, flat'⟩ := exists_eq_moved flat
  have proper : e'.Proper := (proper_mapTokens e').1 wellFormed.proper
  have atomic : ∀ t ∈ e'.atoms, t.isAtomic = true := by
    have spelled := wellFormed.spelled
    rw [moved, atoms_mapTokens, List.forall_mem_map] at spelled
    exact fun t ht => Token.isAtomic_of_isSpelled (spelled t ht)
  have shallow : e'.height ≤ maxDepth := by
    have := wellFormed.height_le
    rwa [moved, height_mapTokens] at this
  exact ⟨e', parse_of_flatten proper atomic shallow flat'.symm, rfl⟩

/-- **The part of a line that an expression covers is read as that expression.** Its span reaches from the first
character of the line that is not blank to the last. The part of the line in this span is read by itself, with a span
that covers all of it, and as the same tree, except that every atom stands nearer to the start by the offset of the
span. -/
theorem parse_excerpt {line : String} {e : Located Expr} (h : parse line = .ok e) :
    ∃ before part after, Text.Framed line.toList before part after ∧
      e.span = ⟨Text.width before, Text.width part⟩ ∧ e.span.excerpt? line = some (String.ofList part) ∧
      ∃ e', parse (String.ofList part) = .ok ⟨⟨0, e.span.length⟩, e'⟩ ∧ e.value = e'.moved e.span.offset := by
  obtain ⟨before, part, after, framed, span⟩ := framed_of_parse h
  refine ⟨before, part, after, framed, span, ?_, ?_⟩
  · rw [span]
    exact Span.excerpt?_width framed.whole
  · have value : (parse line).map Located.value = .ok e.value := map_value_eq_ok_iff.2 ⟨e.span, h⟩
    obtain ⟨e', read, moved⟩ := parse_of_moved (Cursor.solid_start_of_framed framed) value
    obtain ⟨span', read⟩ := map_value_eq_ok_iff.1 read
    obtain ⟨before', part', after', framed', whole⟩ := framed_of_parse read
    rw [String.toList_ofList] at framed'
    obtain ⟨rfl, rfl⟩ := framed'.eq_nil framed.solid
    have all : part = part' := by simpa using framed'.whole
    have covers : span' = ⟨0, Text.width part'⟩ := whole
    refine ⟨e', ?_, ?_⟩
    · rw [read, covers, span, all]
    · rw [span]
      exact moved

/-- a blank of three bytes and a tabulator are cut off, and two signs stay what they are -/
theorem parse_excerpt_signs :
    let line := "\u3000(- -1)\t"
    let e : Located Expr := ⟨⟨3, 6⟩, .list [.atom ⟨.operator, 4, "-"⟩, .atom ⟨.constant, 6, "-1"⟩]⟩
    parse line = .ok e ∧ e.span.excerpt? line = some "(- -1)" ∧
      ∃ e', parse "(- -1)" = .ok ⟨⟨0, 6⟩, e'⟩ ∧ e.value = e'.moved 3 := by
  intro line e
  have read : parse line = .ok e := by decide +kernel
  have text : e.span.excerpt? line = some "(- -1)" := by decide +kernel
  obtain ⟨before, part, after, -, -, excerpt, reread⟩ := parse_excerpt read
  rw [text, Option.some.injEq] at excerpt
  rw [← excerpt] at reread
  exact ⟨read, text, reread⟩

end Expr

end ExactCalc
