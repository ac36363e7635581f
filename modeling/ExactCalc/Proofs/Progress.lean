/-
Reading a line call by call: every call gets further.

`Expr.after c ss`: where the steps `ss` leave a cursor, whatever they gave. `Cursor.Between line c`: the cursor stands
between two tokens of the line, with all of those before it passed. `Expr.GoesOn line c` collects what holds of the next
call from there.

Results:
- `Reads.reaches_afterToken`, `Refuses.reaches_afterToken`: by induction on a derivation, a reader takes the next token
  and goes on from there, also where it fails inside of many lists.
- `reaches_step`, `reaches_after`: one step goes forward, and so do any number of them.
- `goesOn_of_reaches`: every cursor that the start of the line reaches can be gone on from.
- `rest_step`, `rest_after`: each call for an expression takes a character at least, until none is left.
- `calls_progress`: **a line can be driven through with any calls, and they always make progress**.
-/
import ExactCalc.Expr.Stepwise
import ExactCalc.Proofs.Excerpt
import ExactCalc.Proofs.Nesting

namespace ExactCalc

theorem Text.width_pos {cs : List Char} (h : cs ≠ []) : 0 < width cs := by
  obtain ⟨c, ds, rfl⟩ := List.exists_cons_of_ne_nil h
  exact Nat.add_pos_left c.utf8Size_pos _

namespace Cursor

/-! ## Blanks in front of the end -/

variable {c d : Cursor} {line : String}

@[simp] theorem skipBlanks_skipBlanks (c : Cursor) : c.skipBlanks.skipBlanks = c.skipBlanks := by
  have solid : ¬c.skipBlanks.peek.kind = .whitespace := c.token_kind_ne_whitespace
  rw [skipBlanks.eq_def c.skipBlanks, if_neg solid]

@[simp] theorem token_skipBlanks (c : Cursor) : c.skipBlanks.token = c.token := by
  rw [token, skipBlanks_skipBlanks, token]

/-- a blank that comes next would have been skipped -/
theorem not_isBlank_of_head?_skipBlanks {x : Char} (h : c.skipBlanks.rest.head? = some x) : Text.isBlank x = false := by
  by_contra blank
  obtain ⟨xs, left⟩ := List.head?_eq_some_iff.1 h
  have skipped : c.token.kind = .whitespace := by
    show (Lexeme.first c.skipBlanks.rest).kind = .whitespace
    rw [left, Lexeme.first_of_isBlank (Bool.not_eq_false _ ▸ blank)]
    rfl
  exact absurd skipped c.token_kind_ne_whitespace

/-- the end comes next exactly if nothing but blanks is left -/
theorem kind_token_eq_endOfInput_iff : c.token.kind = .endOfInput ↔ ∀ x ∈ c.rest, Text.isBlank x = true := by
  obtain ⟨blanks, ⟨whole, -⟩, blank⟩ := passes_skipBlanks c
  constructor
  · intro ended
    have nothing : c.skipBlanks.rest = [] := kind_peek_eq_endOfInput_iff.1 ended
    rw [whole, nothing, List.append_nil]
    exact blank
  · intro all
    cases left : c.skipBlanks.rest with
    | nil => exact kind_peek_eq_endOfInput_iff.2 left
    | cons x xs =>
      have blank' : Text.isBlank x = true := by
        apply all
        rw [whole, left]
        exact List.mem_append_right _ List.mem_cons_self
      rw [not_isBlank_of_head?_skipBlanks (congrArg List.head? left)] at blank'
      cases blank'

theorem afterToken_of_end (ended : c.token.kind = .endOfInput) : c.afterToken = ⟨c.ending.offset, []⟩ := by
  have nothing : c.skipBlanks.rest = [] := kind_peek_eq_endOfInput_iff.1 ended
  have offset : c.ending.offset = c.skipBlanks.offset := by
    rw [← token_of_end ended]
    rfl
  rw [afterToken, advance_of_end nothing, offset, ← nothing]

/-! ## Forward along the line -/

theorem offset_lt_advance (more : c.peek.kind ≠ .endOfInput) : c.offset < c.advance.offset := by
  have text : c.peek.text.toList ≠ [] := mt String.toList_eq_nil_iff.1 (text_peek_ne_empty more)
  exact Nat.lt_add_of_pos_right (Text.width_pos text)

theorem offset_lt_afterToken (more : c.token.kind ≠ .endOfInput) : c.offset < c.afterToken.offset := by
  calc c.offset
    _ ≤ c.skipBlanks.offset := (reaches_skipBlanks c).offset_le
    _ < c.afterToken.offset := offset_lt_advance more

theorem Reaches.rest_length_le (h : c.Reaches d) : d.rest.length ≤ c.rest.length := by
  apply h.keeps (P := fun d => d.rest.length ≤ c.rest.length) _ le_rfl
  intro d le
  have total := congrArg List.length (text_peek_append_rest d)
  rw [List.length_append] at total
  omega

theorem Reaches.ending_eq (h : (start line).Reaches c) : c.ending = Token.ending line :=
  h.keeps (P := fun c => c.ending = Token.ending line) (fun c same => (ending_advance c).trans same)
    (ending_start line)

theorem Reaches.eq_of_rest_eq_nil (h : (start line).Reaches c) (nothing : c.rest = []) :
    c = ⟨line.utf8ByteSize, []⟩ := by
  obtain ⟨offset, rest⟩ := c
  subst nothing
  have same : offset + 0 = line.utf8ByteSize := congrArg Token.offset h.ending_eq
  rw [← same, Nat.add_zero]

/-- the cursor stands between two tokens of the line: it has passed some of them, and the others are left -/
def Between (line : String) (c : Cursor) : Prop :=
  ∃ passed, Token.scan line = passed ++ c.tokens ∧ (start line).Passes (passed.flatMap fun t => t.text.toList) c

theorem between_start (line : String) : Between line (start line) :=
  ⟨[], rfl, rfl, rfl⟩

theorem Between.advance (h : Between line c) : Between line c.advance := by
  obtain ⟨passed, tokens, passes⟩ := h
  by_cases ended : c.peek.kind = .endOfInput
  · rw [advance_of_end (kind_peek_eq_endOfInput_iff.1 ended)]
    exact ⟨passed, tokens, passes⟩
  · refine ⟨passed ++ [c.peek], ?_, ?_⟩
    · rw [tokens, tokens_of_token ended, List.append_assoc, List.singleton_append]
    · rw [List.flatMap_append, List.flatMap_singleton]
      exact passes.trans (passes_advance c)

end Cursor

namespace Expr

/-! ## Forward in every call -/

theorem Reads.reaches_afterToken {depth : ℕ} {c next : Cursor} {e : Located Expr} (h : Reads depth c e next) :
    c.afterToken.Reaches next := by
  cases h with
  | atom _ => exact Cursor.reaches_refl _
  | list _ elements => exact elements.reaches

mutual

/-- where no expression is read the next token is taken all the same, and the reader stops there or further on -/
theorem Refuses.reaches_afterToken {depth : ℕ} {c next : Cursor} {f : Failure} :
    Refuses depth c f next → c.afterToken.Reaches next
  | .invalid _ => Cursor.reaches_refl _
  | .noEntry _ => Cursor.reaches_refl _
  | .list _ elements => elements.reaches

/-- what stops a list has only been looked at -/
theorem RefusesElements.reaches {depth : ℕ} {opening : Token} {c next : Cursor} {f : Failure} :
    RefusesElements depth opening c f next → c.Reaches next
  | .unterminated _ => Cursor.reaches_skipBlanks _
  | .invalid _ => Cursor.reaches_skipBlanks _
  | .tooDeep _ _ => Cursor.reaches_skipBlanks _
  | .first _ _ first => (Cursor.reaches_afterToken _).trans first.reaches_afterToken
  | .others _ _ first others => first.reaches.trans others.reaches

end

/-- the span of what is read ends where the reader stops -/
theorem Reads.stop_span {depth : ℕ} {c next : Cursor} {e : Located Expr} (h : Reads depth c e next) :
    next.offset = e.span.stop := by
  obtain ⟨part, passes, -, span⟩ := h.passes
  rw [passes.2, span]
  rfl

/-- an expression or a failure is had by taking the next token and going on from there -/
theorem reaches_expression (c : Cursor) : c.afterToken.Reaches (expression c).cursor := by
  cases result : (expression c).result with
  | ok e =>
    have read : Reads 0 c e (expression c).cursor := reads_iff.2 (Prod.ext result rfl)
    exact read.reaches_afterToken
  | error f =>
    have refused : Refuses 0 c f (expression c).cursor := refuses_iff.2 (Prod.ext result rfl)
    exact refused.reaches_afterToken

theorem cursor_finish (c : Cursor) : (finish c).2 = c.skipBlanks := by
  unfold finish
  split_ifs <;> rfl

theorem finish_skipBlanks (c : Cursor) : finish c.skipBlanks = finish c := by
  rw [finish, finish, Cursor.token_skipBlanks, Cursor.skipBlanks_skipBlanks]

/-- with nothing but blanks left there is no expression, and the cursor comes to the end -/
theorem expression_of_end {c : Cursor} (ended : c.token.kind = .endOfInput) :
    (expression c).result = .error (noEntry c.ending) ∧ (expression c).cursor = ⟨c.ending.offset, []⟩ := by
  have last : (expressionAt 0 c).outcome = (.error (noEntry c.token), c.afterToken) :=
    expressionAt_of_noEntry (.inr ended)
  obtain ⟨result, cursor⟩ := Prod.mk.inj last
  rw [Cursor.token_of_end ended] at result
  rw [Cursor.afterToken_of_end ended] at cursor
  exact ⟨result, cursor⟩

/-- one step goes forward -/
theorem reaches_step (c : Cursor) (s : Step) : c.Reaches (step c s).2 := by
  cases s with
  | expression => exact (Cursor.reaches_afterToken c).trans (reaches_expression c)
  | finish =>
    show c.Reaches (finish c).2
    rw [cursor_finish]
    exact Cursor.reaches_skipBlanks c

/-- one step takes a character at least if it is a call for an expression, or comes to the end -/
theorem rest_step (c : Cursor) (s : Step) :
    (step c s).2.rest = [] ∨ (step c s).2.rest.length + [s].count .expression ≤ c.rest.length := by
  cases s with
  | finish => exact .inr (reaches_step c .finish).rest_length_le
  | expression =>
    by_cases ended : c.token.kind = .endOfInput
    · exact .inl (congrArg Cursor.rest (expression_of_end ended).2)
    · have shorter : (expression c).cursor.rest.length < c.rest.length :=
        (reaches_expression c).rest_length_le.trans_lt (Cursor.afterToken_rest_length_lt ended)
      exact .inr shorter

/-! ## Any number of calls -/

/-- where a sequence of steps leaves the cursor, whatever they give -/
def after (c : Cursor) (ss : List Step) : Cursor :=
  ss.foldl (fun c s => (step c s).2) c

theorem after_cons (c : Cursor) (s : Step) (ss : List Step) : after c (s :: ss) = after (step c s).2 ss := rfl

theorem after_append (c : Cursor) (ss ss' : List Step) : after c (ss ++ ss') = after (after c ss) ss' :=
  List.foldl_append

/-- the next step starts where the steps before it have left the cursor -/
theorem stepwise_concat (c : Cursor) (ss : List Step) (s : Step) :
    stepwise c (ss ++ [s]) = stepwise c ss ++ [step (after c ss) s] := by
  induction ss generalizing c with
  | nil => rfl
  | cons s' ss ih => rw [List.cons_append, stepwise, stepwise, ih, List.cons_append, after_cons]

/-- any number of steps go forward -/
theorem reaches_after (c : Cursor) (ss : List Step) : c.Reaches (after c ss) := by
  induction ss generalizing c with
  | nil => exact Cursor.reaches_refl c
  | cons s ss ih => exact (reaches_step c s).trans (ih _)

/-- any number of steps take a character at least for each call for an expression among them, until none is left -/
theorem rest_after (c : Cursor) (ss : List Step) :
    (after c ss).rest = [] ∨ (after c ss).rest.length + ss.count .expression ≤ c.rest.length := by
  induction ss generalizing c with
  | nil => exact .inr le_rfl
  | cons s ss ih =>
    have later := (reaches_after (step c s).2 ss).rest_length_le
    have calls : (s :: ss).count .expression = [s].count .expression + ss.count .expression := by
      rw [← List.count_append, List.singleton_append]
    rw [after_cons, calls]
    rcases rest_step c s with nothing | fewer
    · -- from the end there is nowhere else to go
      rw [nothing, List.length_nil] at later
      exact .inl (List.length_eq_zero_iff.1 (Nat.le_zero.1 later))
    · rcases ih (step c s).2 with nothing | others
      · exact .inl nothing
      · exact .inr (by omega)

/-! ## Driving through a line -/

/-- what holds of the next call wherever on the line the cursor stands -/
structure GoesOn (line : String) (c : Cursor) : Prop where
  /-- the cursor cuts no token -/
  boundary : c.Between line
  /-- to ask whether the line is finished moves over blanks only -/
  blanks : ∃ blanks, c.Passes blanks (finish c).2 ∧ ∀ x ∈ blanks, Text.isBlank x = true
  /-- to ask again gives the same answer -/
  again : finish (finish c).2 = finish c
  /-- an expression ends where the reader stops -/
  stops : ∀ e, (expression c).result = .ok e → (expression c).cursor.offset = e.span.stop
  /-- while there is anything else than blanks some of it is taken, whether or not it can be read -/
  advances : (∃ x ∈ c.rest, Text.isBlank x = false) → c.offset < (expression c).cursor.offset
  /-- with nothing but blanks left this is what is reported, and the cursor comes to the end -/
  ends : (∀ x ∈ c.rest, Text.isBlank x = true) →
    (expression c).result =
        .error ((Failure.of (.invalidEntryPoint .endOfInput)).tag ⟨line.utf8ByteSize, 0⟩ .parse) ∧
      (expression c).cursor = ⟨line.utf8ByteSize, []⟩

/-- what holds of the next call holds wherever calls can have left the cursor -/
theorem goesOn_of_reaches {line : String} {c : Cursor} (h : (Cursor.start line).Reaches c) : GoesOn line c := by
  refine ⟨h.keeps (fun _ => Cursor.Between.advance) (Cursor.between_start line), ?blanks, ?again, ?stops, ?advances,
    ?ends⟩
  case blanks =>
    rw [cursor_finish]
    exact Cursor.passes_skipBlanks c
  case again =>
    rw [cursor_finish, finish_skipBlanks]
  case stops =>
    intro e result
    have read : Reads 0 c e (expression c).cursor := reads_iff.2 (Prod.ext result rfl)
    exact read.stop_span
  case advances =>
    rintro ⟨x, member, solid⟩
    have more : c.token.kind ≠ .endOfInput := by
      intro ended
      rw [Cursor.kind_token_eq_endOfInput_iff.1 ended x member] at solid
      cases solid
    exact (Cursor.offset_lt_afterToken more).trans_le (reaches_expression c).offset_le
  case ends =>
    intro all
    have last := expression_of_end (Cursor.kind_token_eq_endOfInput_iff.2 all)
    rw [h.ending_eq] at last
    exact last

/-- **A line can be driven through with any calls, and they always make progress.** Let any calls have been made, going
on after those that failed. The next call starts where they have left the cursor. This is between two tokens of the
line, and no further calls bring the cursor back behind it. To ask whether the line is finished passes blanks only, and
gives the same again. An expression that is read ends where the cursor is left. A call for an expression moves the
cursor on, unless nothing but blanks is left; then it fails as at the end of the line, where it leaves the cursor. So
the end is reached once there have been as many calls for an expression as the line has characters, or more. -/
theorem calls_progress (line : String) (ss : List Step) :
    (∀ s, stepwise (Cursor.start line) (ss ++ [s]) =
      stepwise (Cursor.start line) ss ++ [step (after (Cursor.start line) ss) s]) ∧
    GoesOn line (after (Cursor.start line) ss) ∧
    (∀ more, (after (Cursor.start line) ss).offset ≤ (after (Cursor.start line) (ss ++ more)).offset) ∧
    (line.length ≤ ss.count .expression → after (Cursor.start line) ss = ⟨line.utf8ByteSize, []⟩) := by
  have reaches := reaches_after (Cursor.start line) ss
  refine ⟨stepwise_concat _ ss, goesOn_of_reaches reaches, ?forward, ?ended⟩
  case forward =>
    intro more
    rw [after_append]
    exact (reaches_after _ more).offset_le
  case ended =>
    intro many
    have nothing : (after (Cursor.start line) ss).rest = [] := by
      rcases rest_after (Cursor.start line) ss with nothing | fewer
      · exact nothing
      · have characters : (Cursor.start line).rest.length = line.length := String.length_toList
        exact List.length_eq_zero_iff.1 (by omega)
    exact reaches.eq_of_rest_eq_nil nothing

/-- a list that stops at a character of two bytes, and calls that go on from there up to the end and behind it -/
theorem calls_progress_invalid :
    let line := "( é)"
    let ss : List Step := [.expression, .finish, .expression, .expression, .expression]
    ((stepwise (Cursor.start line) ss).map fun call => call.2.offset) = [2, 2, 4, 5, 5] ∧
      2 < (expression (after (Cursor.start line) [.expression])).cursor.offset ∧
      after (Cursor.start line) ss = ⟨5, []⟩ ∧
      (expression (after (Cursor.start line) ss)).result =
        .error ((Failure.of (.invalidEntryPoint .endOfInput)).tag ⟨5, 0⟩ .parse) := by
  intro line ss
  have offsets : ((stepwise (Cursor.start line) ss).map fun call => call.2.offset) = [2, 2, 4, 5, 5] := by
    decide +kernel
  have stopped : after (Cursor.start line) [.expression] = ⟨2, "é)".toList⟩ := by decide +kernel
  have invalid : Text.isBlank 'é' = false := by decide
  obtain ⟨-, first, -, -⟩ := calls_progress line [.expression]
  obtain ⟨-, last, -, ended⟩ := calls_progress line ss
  have reached : after (Cursor.start line) ss = ⟨5, []⟩ := ended (by decide)
  rw [stopped] at first ⊢
  rw [reached] at last ⊢
  exact ⟨offsets, first.advances ⟨'é', List.mem_cons_self, invalid⟩, rfl, (last.ends (List.forall_mem_nil _)).1⟩

end Expr

end ExactCalc
