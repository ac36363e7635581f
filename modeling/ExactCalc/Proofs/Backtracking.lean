/-
Driving a cursor back and forth.

`Cursor.boundary line i` is the place behind the first `i` tokens of a line, which `Token.scan` lists, and `Token.nth`
is the token that comes there. `Bookmarked.Stands line i j b`: the cursor is at the place behind `i` tokens, and the
bookmark at the one behind `j`. `Bookmarked.Walks line i j b` says of every move what it shows from there and where it
leads.

Results:
- `boundary_eq`, `next_boundary`: the places between tokens are those where a cursor comes that takes one token after
  the other, and what is seen from there is the token of the line that comes there, neither cut nor read as another one.
- `between_iff`: they are the places that `Cursor.Between` speaks of, where the calls of a reader leave its cursor too.
- `skipBlanks_eq_ite`: as no run of blanks follows another, one step skips them all.
- `walks_of_stands`: what all moves do from such places.
- `between_move`: one move leads to such a place again, from which `between_after` follows for any number of them.
- `map_fst_history_iterate`: a cursor that is asked again and again for the next token shows the tokens of the line.
- `moves_walk_stream`: **however a cursor is driven, it walks one stream of tokens**.
-/
import Mathlib.Order.Interval.Set.Monotone
import ExactCalc.Cursor.Bookmark
import ExactCalc.Proofs.Progress

namespace ExactCalc

/-- the token of this number in the stream of a line, which is the end token behind all others -/
def Token.nth (line : String) (i : ℕ) : Token :=
  (Token.scan line)[i]?.getD (Token.ending line)

namespace Cursor

/-- the cursor behind so many tokens of a line: their texts are passed, and those of the others are left -/
def boundary (line : String) (i : ℕ) : Cursor :=
  ⟨Text.width (((Token.scan line).take i).flatMap fun t => t.text.toList),
    ((Token.scan line).drop i).flatMap fun t => t.text.toList⟩

/-! ## Places between tokens -/

/-- taking some tokens passes their texts, and leaves those of the others -/
theorem iterate_advance (c : Cursor) (i : ℕ) : advance^[i] c =
    ⟨c.offset + Text.width ((c.tokens.take i).flatMap fun t => t.text.toList),
      (c.tokens.drop i).flatMap fun t => t.text.toList⟩ := by
  induction i generalizing c with
  | zero =>
    rw [List.take_zero, List.drop_zero, flatMap_text_tokens]
    rfl
  | succ i ih =>
    rw [Function.iterate_succ_apply, ih]
    by_cases ended : c.peek.kind = .endOfInput
    · rw [advance_of_end (kind_peek_eq_endOfInput_iff.1 ended), tokens_of_end ended, List.take_nil, List.take_nil,
        List.drop_nil, List.drop_nil]
    · rw [tokens_of_token ended, List.take_succ_cons, List.drop_succ_cons, List.flatMap_cons, Text.width_append,
        ← Nat.add_assoc, offset_advance]
      rfl

section
variable (line : String) (i : ℕ)

theorem boundary_eq : boundary line i = advance^[i] (start line) := by
  rw [iterate_advance]
  exact congrArg (Cursor.mk · _) (Nat.zero_add _).symm

theorem peek_boundary : (boundary line i).peek = Token.nth line i := by
  rw [boundary_eq, peek_iterate_advance, ending_start]
  rfl

theorem advance_boundary : (boundary line i).advance = boundary line (i + 1) := by
  rw [boundary_eq, boundary_eq, Function.iterate_succ_apply']

/-- one step from there shows the token of the line that comes there, and leads to the next place -/
theorem next_boundary : (boundary line i).next = (Token.nth line i, boundary line (i + 1)) := by
  rw [← peek_boundary, ← advance_boundary]
  rfl

theorem offset_nth : (Token.nth line i).offset = (boundary line i).offset := by
  rw [← peek_boundary, offset_peek]

/-- behind the last token there is no further place -/
theorem boundary_min : boundary line (min i (Token.scan line).length) = boundary line i := by
  rcases le_total i (Token.scan line).length with inside | outside
  · rw [min_eq_left inside]
  · rw [min_eq_right outside, boundary, boundary, List.take_of_length_le outside, List.drop_of_length_le outside,
      List.take_of_length_le le_rfl, List.drop_of_length_le le_rfl]

/-- the end token is the only one that is not in the list of tokens -/
theorem getElem?_scan : (Token.scan line)[i]? =
    if (Token.nth line i).kind = .endOfInput then none else some (Token.nth line i) := by
  unfold Token.nth
  cases found : (Token.scan line)[i]? with
  | none => rfl
  | some t =>
    have more : t.kind ≠ .endOfInput := Token.kind_ne_endOfInput_of_mem_scan (List.mem_of_getElem? found)
    exact (if_neg more).symm

theorem kind_nth_eq_endOfInput_iff : (Token.nth line i).kind = .endOfInput ↔ (Token.scan line).length ≤ i := by
  rw [← List.getElem?_eq_none_iff, getElem?_scan, ite_eq_left_iff]
  tauto

end

/-- the places between tokens lie one behind the other -/
theorem strictMonoOn_offset_boundary (line : String) :
    StrictMonoOn (fun i => (boundary line i).offset) (Set.Iic (Token.scan line).length) := by
  apply strictMonoOn_Iic_of_lt_succ
  intro i inside
  have more : (boundary line i).peek.kind ≠ .endOfInput := by
    rw [peek_boundary, Ne, kind_nth_eq_endOfInput_iff]
    exact Nat.not_le.2 inside
  show (boundary line i).offset < (boundary line (i + 1)).offset
  rw [← advance_boundary]
  exact offset_lt_advance more

/-- a cursor stands between two tokens of a line exactly if it is behind so many of them -/
theorem between_iff {line : String} {c : Cursor} :
    c.Between line ↔ ∃ i ≤ (Token.scan line).length, c = boundary line i := by
  constructor
  · rintro ⟨passed, tokens, passes⟩
    refine ⟨passed.length, by simp [tokens], ?_⟩
    rw [boundary, tokens, List.take_left, List.drop_left, flatMap_text_tokens, ← Nat.zero_add (Text.width _)]
    exact congrArg (Cursor.mk · c.rest) passes.2
  · rintro ⟨i, -, rfl⟩
    have reaches : (start line).Reaches (boundary line i) := ⟨i, (boundary_eq line i).symm⟩
    exact reaches.keeps (fun _ => Between.advance) (between_start line)

/-- as no run of blanks follows another, one step skips them all -/
theorem skipBlanks_eq_ite (c : Cursor) : c.skipBlanks = if c.peek.kind = .whitespace then c.advance else c := by
  rw [skipBlanks]
  split_ifs with blank
  · rw [skipBlanks, if_neg (c.follows_peek_advance.blanks blank)]
  · rfl

namespace Bookmarked

/-! ## Moves from such places -/

variable {line : String} {i j : ℕ} {b : Bookmarked}

/-- the cursor is behind so many tokens of the line, and the bookmark behind so many -/
structure Stands (line : String) (i j : ℕ) (b : Bookmarked) : Prop where
  here : b.cursor = boundary line i
  inside : i ≤ (Token.scan line).length
  mark : b.mark = boundary line j
  marked : j ≤ (Token.scan line).length

/-- what every move shows and where it leads, with the cursor behind `i` tokens and the bookmark behind `j` -/
structure Walks (line : String) (i j : ℕ) (b : Bookmarked) : Prop extends Stands line i j b where
  /-- of all tokens one starts at the cursor -/
  starts : ∀ k ≤ (Token.scan line).length, (Token.nth line k).offset = b.cursor.offset ↔ k = i
  /-- this token is shown, whether it is looked at or taken -/
  peek : b.move .peek = (some (Token.nth line i), b)
  next : b.move .next =
    (some (Token.nth line i), { b with cursor := boundary line (min (i + 1) (Token.scan line).length) })
  iterate : b.move .iterate =
    ((Token.scan line)[i]?, { b with cursor := boundary line (min (i + 1) (Token.scan line).length) })
  /-- behind all others it is the end token, and the cursor stays there -/
  ended : i = (Token.scan line).length →
    Token.nth line i = Token.ending line ∧ (b.move .next).2 = b ∧ b.move .iterate = (none, b)
  /-- one token is passed at most, if it is blank, and then no blank one comes -/
  skipBlanks : ∃ k ≤ (Token.scan line).length, (k = i ∨ k = i + 1 ∧ (Token.nth line i).kind = .whitespace) ∧
    (Token.nth line k).kind ≠ .whitespace ∧ b.move .skipBlanks = (none, { b with cursor := boundary line k })
  save : b.move .save = (none, { b with mark := b.cursor })
  restore : b.move .restore = (none, { b with cursor := b.mark })

theorem Stands.starts (h : Stands line i j b) {k : ℕ} (among : k ≤ (Token.scan line).length) :
    (Token.nth line k).offset = b.cursor.offset ↔ k = i := by
  rw [h.here, offset_nth]
  exact (strictMonoOn_offset_boundary line).eq_iff_eq among h.inside

/-- one blank token is skipped at most -/
theorem Stands.skipBlanks (h : Stands line i j b) :
    ∃ k ≤ (Token.scan line).length, (k = i ∨ k = i + 1 ∧ (Token.nth line i).kind = .whitespace) ∧
      (Token.nth line k).kind ≠ .whitespace ∧ b.cursor.skipBlanks = boundary line k := by
  have solid : b.cursor.skipBlanks.peek.kind ≠ .whitespace := b.cursor.token_kind_ne_whitespace
  rw [skipBlanks_eq_ite, h.here, peek_boundary, advance_boundary] at solid ⊢
  split_ifs at solid ⊢ with blank
  · rw [peek_boundary] at solid
    -- a blank is not the end token, so there is a place behind it
    have inside : ¬(Token.scan line).length ≤ i := by
      rw [← kind_nth_eq_endOfInput_iff, blank]
      decide
    exact ⟨i + 1, Nat.not_le.1 inside, .inr ⟨rfl, blank⟩, solid, rfl⟩
  · exact ⟨i, h.inside, .inl rfl, blank, rfl⟩

/-- **What holds of all moves from a place between tokens.** -/
theorem walks_of_stands (h : Stands line i j b) : Walks line i j b := by
  have next : b.cursor.next = (Token.nth line i, boundary line (min (i + 1) (Token.scan line).length)) := by
    rw [boundary_min, h.here, next_boundary]
  have taken : b.move .next =
      (some (Token.nth line i), { b with cursor := boundary line (min (i + 1) (Token.scan line).length) }) := by
    rw [move, next]
  have iterated : b.move .iterate =
      ((Token.scan line)[i]?, { b with cursor := boundary line (min (i + 1) (Token.scan line).length) }) := by
    rw [move, next, getElem?_scan]
  refine ⟨h, fun k => h.starts, ?peek, taken, iterated, ?ended, ?skipBlanks, rfl, rfl⟩
  case peek =>
    rw [← peek_boundary, ← h.here]
    rfl
  case ended =>
    rintro rfl
    have stays : min ((Token.scan line).length + 1) (Token.scan line).length = (Token.scan line).length :=
      min_eq_right (Nat.le_succ _)
    have nothing : (Token.scan line)[(Token.scan line).length]? = none := List.getElem?_eq_none le_rfl
    rw [taken, iterated, stays, ← h.here, Token.nth, nothing]
    exact ⟨rfl, rfl, rfl⟩
  case skipBlanks =>
    obtain ⟨k, among, passed, solid, skipped⟩ := h.skipBlanks
    exact ⟨k, among, passed, solid, by rw [move, skipped]⟩

/-! ## Any number of moves -/

/-- where a sequence of moves leads -/
def after (b : Bookmarked) (ms : List Move) : Bookmarked :=
  ms.foldl (fun b m => (b.move m).2) b

theorem after_cons (b : Bookmarked) (m : Move) (ms : List Move) : b.after (m :: ms) = (b.move m).2.after ms := rfl

/-- one move leads from places between tokens to such places -/
theorem between_move (here : b.cursor.Between line) (mark : b.mark.Between line) (m : Move) :
    (b.move m).2.cursor.Between line ∧ (b.move m).2.mark.Between line := by
  cases m with
  | peek => exact ⟨here, mark⟩
  | next => exact ⟨here.advance, mark⟩
  | iterate => exact ⟨here.advance, mark⟩
  | skipBlanks => exact ⟨(reaches_skipBlanks b.cursor).keeps (fun _ => Between.advance) here, mark⟩
  | save => exact ⟨here, here⟩
  | restore => exact ⟨mark, mark⟩

/-- and so do any number of moves, wherever they return to -/
theorem between_after (here : b.cursor.Between line) (mark : b.mark.Between line) (ms : List Move) :
    (b.after ms).cursor.Between line ∧ (b.after ms).mark.Between line := by
  induction ms generalizing b with
  | nil => exact ⟨here, mark⟩
  | cons m ms ih =>
    obtain ⟨here', mark'⟩ := between_move here mark m
    rw [after_cons]
    exact ih here' mark'

/-- each move of a history is made where the moves before it have led -/
theorem getElem?_history (b : Bookmarked) (ms : List Move) (n : ℕ) :
    (b.history ms)[n]? = ms[n]?.map (b.after (ms.take n)).move := by
  induction ms generalizing b n with
  | nil => rfl
  | cons m ms ih =>
    cases n with
    | zero => rfl
    | succ n => exact ih (b.move m).2 n

/-- a cursor that is asked again and again for the next token shows the tokens of the line, and then nothing -/
theorem map_fst_history_iterate (line : String) (i : ℕ) (mark : Cursor) (n : ℕ) :
    ((Bookmarked.mk (boundary line i) mark).history (List.replicate n .iterate)).map Prod.fst =
      (List.range' i n).map fun k => (Token.scan line)[k]? := by
  induction n generalizing i with
  | zero => rfl
  | succ n ih =>
    have step : (Bookmarked.mk (boundary line i) mark).move .iterate =
        ((Token.scan line)[i]?, ⟨boundary line (i + 1), mark⟩) := by
      rw [move, next_boundary, getElem?_scan]
    rw [List.replicate_succ, history, step, List.map_cons, ih, List.range'_succ, List.map_cons]

/-- **However a cursor is driven, it walks one stream of tokens.** A fresh cursor that is asked again and again for the
next token shows the tokens of the line, and then nothing. Now let any moves be made: looks, steps, blanks skipped, the
bookmark set, and returns to it. Each of them starts where those before it have led, and this is always a place between
two tokens of that stream or at one of its ends. Whatever token is shown there is the one of the stream that starts
there; at the end it is the end token, and the cursor stays. To look and to set the bookmark do not move the cursor. To
skip blanks passes one token at most, and the token behind it is not blank. -/
theorem moves_walk_stream (line : String) :
    (∀ n, ((start line).history (List.replicate n .iterate)).map Prod.fst =
      (List.range n).map fun i => (Token.scan line)[i]?) ∧
    ∀ ms : List Move,
      (∀ n, ((start line).history ms)[n]? = ms[n]?.map ((start line).after (ms.take n)).move) ∧
      ∃ i j, Walks line i j ((start line).after ms) := by
  refine ⟨fun n => ?iterated, fun ms => ⟨getElem?_history _ ms, ?walks⟩⟩
  case iterated =>
    have fresh : start line = ⟨boundary line 0, Cursor.start line⟩ := by
      rw [boundary_eq]
      rfl
    rw [fresh, map_fst_history_iterate, List.range_eq_range']
  case walks =>
    have between : (start line).cursor.Between line := between_start line
    obtain ⟨here, mark⟩ := between_after between between ms
    obtain ⟨i, inside, cursor⟩ := between_iff.1 here
    obtain ⟨j, marked, bookmark⟩ := between_iff.1 mark
    exact ⟨i, j, walks_of_stands ⟨cursor, inside, bookmark, marked⟩⟩

/-- back in front of a blank of three bytes, with a sign and an invalid character behind it -/
theorem moves_walk_stream_blank :
    let line := "+1\u3000-é"
    let b := (start line).after [.next, .save, .skipBlanks, .next, .restore]
    let blank : Token := ⟨.whitespace, 2, "\u3000"⟩
    b.cursor.offset = 2 ∧ b.move .peek = (some blank, b) ∧
      b.move .next = (some blank, { b with cursor := ⟨5, "-é".toList⟩ }) ∧
      b.move .skipBlanks = (none, { b with cursor := ⟨5, "-é".toList⟩ }) := by
  intro line b blank
  have offset : b.cursor.offset = 2 := by decide +kernel
  have length : (Token.scan line).length = 4 := by decide +kernel
  have token : Token.nth line 1 = blank := by decide +kernel
  have behind : boundary line 2 = ⟨5, "-é".toList⟩ := by decide +kernel
  obtain ⟨-, driven⟩ := moves_walk_stream line
  obtain ⟨-, i, j, walks⟩ := driven [.next, .save, .skipBlanks, .next, .restore]
  have here : 1 = i := (walks.starts 1 (by rw [length]; decide)).1 (by rw [token, offset])
  subst here
  have next := walks.next
  obtain ⟨k, -, stays | ⟨passes, -⟩, solid, skipped⟩ := walks.skipBlanks
  · rw [stays, token] at solid
    exact absurd rfl solid
  · rw [length, token] at next
    rw [passes] at skipped
    rw [← behind]
    exact ⟨offset, token ▸ walks.peek, next, skipped⟩

end Bookmarked

end Cursor

end ExactCalc
