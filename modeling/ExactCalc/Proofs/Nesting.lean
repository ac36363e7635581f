/-
Rejection as a scan with a stack.

A reader goes down into lists and comes back out of them. A scan does without: it takes the tokens that are not blank
one after the other and remembers only which parentheses are open. `Nesting` is what it remembers, `Nesting.step` what
one token does, and `verdict line` what becomes of a whole line with its end token: nothing to object to, or one reason
with one stretch of the line.

Results:
- `run_of_reads`, `run_of_refuses`: by induction on a derivation of the reader's rules, a reader and the scan get
  through the same tokens, and stop at the same one for the same reason. The stack is as high as the reader is deep.
- `noEntry_of_parse`: only the first token of a line can be no entry into an expression.
- `parse_eq_verdict`: **a line is rejected exactly as the scan rejects it**.
-/
import ExactCalc.Proofs.Grammar

namespace ExactCalc

/-- the first character of the text -/
def Token.character (t : Token) : Char :=
  t.text.toList.headD '\x00'

/-- how far a scan has got -/
inductive Nesting where
  /-- inside these open parentheses, the innermost one first; inside none nothing has been read yet -/
  | within (opened : List Token)
  /-- the expression is complete -/
  | complete
  /-- the line has ended behind the expression -/
  | ended
  deriving DecidableEq, Repr

namespace Nesting

/-! ## The scan -/

/-- where a complete expression leaves the scan -/
def leave : List Token → Nesting
  | [] => .complete
  | innermost :: outer => .within (innermost :: outer)

/-- whether an expression may start inside these parentheses; the innermost one is to blame if not -/
def room : List Token → Except (Located Reason) Unit
  | [] => .ok ()
  | innermost :: outer =>
    if (innermost :: outer).length ≤ 255 then .ok () else .error ⟨innermost.span, .tooDeep 255⟩

/-- take one more token into account -/
def step (n : Nesting) (t : Token) : Except (Located Reason) Nesting :=
  match t.kind, n with
  | .invalid, _ => .error ⟨t.span, .unexpectedChar t.character⟩
  | .whitespace, n => .ok n
  | .endOfInput, .within [] => .error ⟨t.span, .invalidEntryPoint .endOfInput⟩
  | .closeParen, .within [] => .error ⟨t.span, .invalidEntryPoint .closeParen⟩
  | .endOfInput, .within (innermost :: _) => .error ⟨.between innermost.offset t.offset, .unterminatedList⟩
  | .closeParen, .within (_ :: outer) => .ok (leave outer)
  | .openParen, .within opened => (room opened).map fun _ => .within (t :: opened)
  | _, .within opened => (room opened).map fun _ => leave opened
  | .endOfInput, .complete => .ok .ended
  | _, .complete => .error ⟨t.span, .trailingInput⟩
  | _, .ended => .ok .ended

/-- take tokens into account one after the other, up to the first one that is objected to -/
def run (n : Nesting) (ts : List Token) : Except (Located Reason) Nesting :=
  ts.foldlM step n

/-- what a scan finds in a line -/
def verdict (line : String) : Except (Located Reason) Nesting :=
  run (.within []) (((Token.scan line).filter fun t => t.kind ≠ .whitespace) ++ [Token.ending line])

/-- the failure for a reason with the one stretch that it belongs to -/
def failure (blame : Located Reason) : Failure :=
  (Failure.of blame.value).tag blame.span .parse

/-! ## One token -/

variable {t innermost : Token} {opened outer : List Token}

theorem room_of_le (h : opened.length ≤ 255) : room opened = .ok () := by
  cases opened with
  | nil => rfl
  | cons innermost outer => exact if_pos h

-- A token of a known kind decides between the cases of `step`, so each of these holds by computation.

theorem step_of_invalid (n : Nesting) (h : t.kind = .invalid) :
    step n t = .error ⟨t.span, .unexpectedChar t.character⟩ := by
  cases t
  cases h
  rfl

/-- inside a list, or before anything was read, room is needed for whatever starts an expression -/
theorem step_within_of_starts (h : t.Starts) :
    step (.within opened) t =
      (room opened).map fun _ => if t.isAtomic = true then leave opened else .within (t :: opened) := by
  cases t
  rcases h with h | h
  · rcases Expr.kind_of_isAtomic h with h | h | h <;> cases h <;> rfl
  · cases h
    rfl

theorem step_of_isAtomic (h : t.isAtomic = true) (shallow : opened.length ≤ 255) :
    step (.within opened) t = .ok (leave opened) := by
  rw [step_within_of_starts (.inl h), room_of_le shallow, if_pos h]
  rfl

theorem step_of_openParen (h : t.kind = .openParen) (shallow : opened.length ≤ 255) :
    step (.within opened) t = .ok (.within (t :: opened)) := by
  have opens : ¬t.isAtomic = true := by simp [Token.isAtomic, h, Token.Kind.isAtomic]
  rw [step_within_of_starts (.inr h), room_of_le shallow, if_neg opens]
  rfl

theorem step_of_tooDeep (h : t.Starts) (deep : 255 ≤ outer.length) :
    step (.within (innermost :: outer)) t = .error ⟨innermost.span, .tooDeep 255⟩ := by
  have full : room (innermost :: outer) = .error ⟨innermost.span, .tooDeep 255⟩ :=
    if_neg (by simp only [List.length_cons]; omega)
  rw [step_within_of_starts h, full]
  rfl

theorem step_of_closeParen (h : t.kind = .closeParen) :
    step (.within (innermost :: outer)) t = .ok (leave outer) := by
  cases t
  cases h
  rfl

theorem step_of_unterminated (h : t.kind = .endOfInput) :
    step (.within (innermost :: outer)) t = .error ⟨.between innermost.offset t.offset, .unterminatedList⟩ := by
  cases t
  cases h
  rfl

theorem step_of_noEntry (h : t.kind = .closeParen ∨ t.kind = .endOfInput) :
    step (.within []) t = .error ⟨t.span, .invalidEntryPoint t.kind⟩ := by
  cases t
  rcases h with h | h
  · cases h
    rfl
  · cases h
    rfl

theorem step_of_trailing (h : t.Starts ∨ t.kind = .closeParen) :
    step .complete t = .error ⟨t.span, .trailingInput⟩ := by
  cases t
  rcases h with (h | h) | h
  · rcases Expr.kind_of_isAtomic h with h | h | h <;> cases h <;> rfl
  · cases h
    rfl
  · cases h
    rfl

theorem step_of_ending (h : t.kind = .endOfInput) : step .complete t = .ok .ended := by
  cases t
  cases h
  rfl

end Nesting

/-! ## The tokens that the scan takes -/

namespace Cursor

/-- the tokens from here to the end that are not blank, the end token included -/
def visible (c : Cursor) : List Token :=
  c.solid ++ [c.ending]

theorem ending_skipBlanks (c : Cursor) : c.skipBlanks.ending = c.ending := by
  fun_induction skipBlanks c with
  | case1 c blank ih => rw [ih, ending_advance]
  | case2 c _ => rfl

theorem ending_afterToken (c : Cursor) : c.afterToken.ending = c.ending := by
  rw [afterToken, ending_advance, ending_skipBlanks]

theorem token_of_end {c : Cursor} (h : c.token.kind = .endOfInput) : c.token = c.ending := by
  rw [← ending_skipBlanks]
  exact peek_of_end h

theorem visible_of_end {c : Cursor} (h : c.token.kind = .endOfInput) : c.visible = [c.token] := by
  rw [visible, solid_of_end h, List.nil_append, token_of_end h]

theorem visible_of_token {c : Cursor} (h : c.token.kind ≠ .endOfInput) :
    c.visible = c.token :: c.afterToken.visible := by
  rw [visible, solid_of_token h, List.cons_append, visible, ending_afterToken]

end Cursor

namespace Nesting

theorem run_cons (n : Nesting) (t : Token) (ts : List Token) : run n (t :: ts) = step n t >>= fun n => run n ts :=
  List.foldlM_cons

theorem run_cons_of_ok {n n' : Nesting} {t : Token} (h : step n t = .ok n') (ts : List Token) :
    run n (t :: ts) = run n' ts := by
  rw [run_cons, h]
  rfl

theorem run_cons_of_error {n : Nesting} {t : Token} {blame : Located Reason} (h : step n t = .error blame)
    (ts : List Token) : run n (t :: ts) = .error blame := by
  rw [run_cons, h]
  rfl

section
variable {c : Cursor} {n n' : Nesting}

theorem run_visible_of_ok (more : c.token.kind ≠ .endOfInput) (h : step n c.token = .ok n') :
    run n c.visible = run n' c.afterToken.visible := by
  rw [Cursor.visible_of_token more, run_cons_of_ok h]

theorem run_visible_of_error {blame : Located Reason} (h : step n c.token = .error blame) :
    run n c.visible = .error blame := by
  by_cases ended : c.token.kind = .endOfInput
  · rw [Cursor.visible_of_end ended, run_cons_of_error h]
  · rw [Cursor.visible_of_token ended, run_cons_of_error h]

end

/-! ## The scan follows the reader -/

open ExactCalc.Expr

mutual

/-- the scan gets through an expression that is read -/
theorem run_of_reads {depth : ℕ} {c next : Cursor} {e : Located Expr} {opened : List Token}
    (level : opened.length = depth) (shallow : depth ≤ 255) :
    Reads depth c e next → run (.within opened) c.visible = run (leave opened) next.visible
  | .atom h => run_visible_of_ok (kind_ne_endOfInput_of_isAtomic h) (step_of_isAtomic h (level ▸ shallow))
  | .list h elements => by
    rw [run_visible_of_ok (by simp [h]) (step_of_openParen h (level ▸ shallow))]
    exact run_of_readsElements level elements

/-- the scan gets through the elements of a list that are read, and through its end -/
theorem run_of_readsElements {depth : ℕ} {opening : Token} {c next : Cursor} {es : List Expr} {stop : ℕ}
    {outer : List Token} (level : outer.length = depth) :
    ReadsElements depth opening c es stop next →
      run (.within (opening :: outer)) c.visible = run (leave outer) next.visible
  | .close h => run_visible_of_ok (by simp [h]) (step_of_closeParen h)
  | .cons _ room first others => by
    have inner : (opening :: outer).length = depth + 1 := by rw [List.length_cons, level]
    rw [run_of_reads inner room first, leave, run_of_readsElements level others]

end

mutual

/-- the scan stops where no expression is read, and for the same reason; inside a list something is there to be read -/
theorem run_of_refuses {depth : ℕ} {c next : Cursor} {f : Failure} {opened : List Token}
    (level : opened.length = depth) (shallow : depth ≤ 255) (entry : opened = [] ∨ c.token.Starts) :
    Refuses depth c f next → ∃ blame, run (.within opened) c.visible = .error blame ∧ f = failure blame
  | .invalid h => ⟨_, run_visible_of_error (step_of_invalid _ h), rfl⟩
  | .noEntry h => by
    rcases entry with rfl | starts
    · exact ⟨_, run_visible_of_error (step_of_noEntry h), rfl⟩
    · exact absurd starts (not_starts (by tauto))
  | .list h elements => by
    rw [run_visible_of_ok (by simp [h]) (step_of_openParen h (level ▸ shallow))]
    exact run_of_refusesElements level elements

/-- the scan stops where the elements of a list are not read to its end, and for the same reason -/
theorem run_of_refusesElements {depth : ℕ} {opening : Token} {c next : Cursor} {f : Failure} {outer : List Token}
    (level : outer.length = depth) :
    RefusesElements depth opening c f next →
      ∃ blame, run (.within (opening :: outer)) c.visible = .error blame ∧ f = failure blame
  | .unterminated h => ⟨_, run_visible_of_error (step_of_unterminated h), rfl⟩
  | .invalid h => ⟨_, run_visible_of_error (step_of_invalid _ h), rfl⟩
  | .tooDeep starts deep => ⟨_, run_visible_of_error (step_of_tooDeep starts (level ▸ deep)), rfl⟩
  | .first starts room first => by
    have inner : (opening :: outer).length = depth + 1 := by rw [List.length_cons, level]
    exact run_of_refuses inner room (.inr starts) first
  | .others _ room first others => by
    have inner : (opening :: outer).length = depth + 1 := by rw [List.length_cons, level]
    rw [run_of_reads inner room first, leave]
    exact run_of_refusesElements level others

end

/-- behind a complete expression the scan decides as the reader does -/
theorem run_complete (c : Cursor) :
    (run .complete c.visible).mapError failure = (finish c).1.map fun _ => Nesting.ended := by
  rw [finish]
  rcases sorts_of_token c with starts | closes | ended | invalid
  · have ended : ¬c.token.kind = .endOfInput := fun h => not_starts (.inr (.inl h)) starts
    have invalid : ¬c.token.kind = .invalid := fun h => not_starts (.inr (.inr h)) starts
    rw [run_visible_of_error (step_of_trailing (.inl starts)), if_neg ended, if_neg invalid]
    rfl
  · rw [run_visible_of_error (step_of_trailing (.inr closes)), if_neg (by simp [closes]), if_neg (by simp [closes])]
    rfl
  · rw [Cursor.visible_of_end ended, run_cons_of_ok (step_of_ending ended), if_pos ended]
    rfl
  · rw [run_visible_of_error (step_of_invalid _ invalid), if_neg (by simp [invalid]), if_pos invalid]
    rfl

/-! ## The entry -/

mutual

/-- what may start an expression is an entry into it -/
theorem reason?_ne_of_refuses {depth : ℕ} {c next : Cursor} {f : Failure} (kind : Token.Kind)
    (starts : c.token.Starts) : Refuses depth c f next → f.reason? ≠ some (.invalidEntryPoint kind)
  | .list _ elements => reason?_ne_of_refusesElements kind elements
  | .invalid _ => by simp [unexpected]
  | .noEntry h => absurd starts (not_starts (by tauto))

/-- inside a list something else is wrong -/
theorem reason?_ne_of_refusesElements {depth : ℕ} {opening : Token} {c next : Cursor} {f : Failure}
    (kind : Token.Kind) : RefusesElements depth opening c f next → f.reason? ≠ some (.invalidEntryPoint kind)
  | .unterminated _ => by simp [unterminated]
  | .invalid _ => by simp [unexpected]
  | .tooDeep _ _ => by simp
  | .first starts _ first => reason?_ne_of_refuses kind starts first
  | .others _ _ _ others => reason?_ne_of_refusesElements kind others

end

theorem reason?_ne_of_finish {c : Cursor} {f : Failure} (kind : Token.Kind) (h : (finish c).1 = .error f) :
    f.reason? ≠ some (.invalidEntryPoint kind) := by
  unfold finish at h
  split_ifs at h with ended invalid
  · cases h
    simp [unexpected]
  · cases h
    simp [trailing]

/-- only the first token of a line can be no entry -/
theorem noEntry_of_parse {line : String} {f : Failure} {kind : Token.Kind} (h : parse line = .error f)
    (reason : f.reason? = some (.invalidEntryPoint kind)) :
    (kind = .closeParen ∨ kind = .endOfInput) ∧ (Cursor.start line).token.kind = kind ∧
      f = noEntry (Cursor.start line).token := by
  rcases parse_eq_error_iff.1 h with ⟨next, refused⟩ | ⟨e, next, -, refused⟩
  · cases refused with
    | list _ elements => exact absurd reason (reason?_ne_of_refusesElements kind elements)
    | invalid _ => simp [unexpected] at reason
    | noEntry entry =>
      have same : (Cursor.start line).token.kind = kind := by simpa [noEntry] using reason
      exact ⟨same ▸ entry, same, rfl⟩
  · exact absurd reason (reason?_ne_of_finish kind refused)

/-! ## Lines -/

theorem verdict_eq (line : String) : verdict line = run (.within []) (Cursor.start line).visible := by
  rw [verdict, Cursor.visible, Cursor.ending_start]
  rfl

/-- the outcome of a line, its tree left out, is that of the scan -/
theorem map_parse (line : String) :
    (parse line).map (fun _ => Nesting.ended) = (verdict line).mapError failure := by
  rw [verdict_eq]
  cases h : parse line with
  | ok e =>
    obtain ⟨next, read, ended⟩ := parse_eq_ok_iff_reads.1 h
    rw [run_of_reads List.length_nil (Nat.zero_le _) read, leave, run_complete, finish_eq_ok_iff.2 ended]
    rfl
  | error f =>
    rcases parse_eq_error_iff.1 h with ⟨next, refused⟩ | ⟨e, next, read, refused⟩
    · obtain ⟨blame, stopped, rfl⟩ := run_of_refuses List.length_nil (Nat.zero_le _) (.inl rfl) refused
      rw [stopped]
      rfl
    · rw [run_of_reads List.length_nil (Nat.zero_le _) read, leave, run_complete, refused]
      rfl

theorem text_eq_character {line : String} :
    ∀ t ∈ Token.scan line, t.kind = .invalid → t.text = String.singleton t.character := by
  refine Cursor.forall_mem_tokens (fun c _ invalid => ?_) _
  obtain ⟨x, hx⟩ := Lexeme.text_first_of_invalid invalid
  have text : c.peek.text.toList = [x] := by simpa [Cursor.peek, Cursor.next] using hx
  rw [← String.toList_inj, Token.character, text]
  simp

/-- **Every rejected line is rejected for the right reason at the right place.** The outcome of a line is that of the
scan with a stack of open parentheses: both object to nothing, or both give the same reason and the same single place.
A token that starts no expression is only ever the first one that is not blank, so this is no reason inside a list. An
unexpected character is the whole of the invalid token. -/
theorem parse_eq_verdict (line : String) :
    (parse line).map (fun _ => Nesting.ended) = (verdict line).mapError failure ∧
    (∀ f kind, parse line = .error f → f.reason? = some (.invalidEntryPoint kind) →
      ∃ t, (((Token.scan line).filter fun t => t.kind ≠ .whitespace) ++ [Token.ending line]).head? = some t ∧
        t.kind = kind ∧ (kind = .closeParen ∨ kind = .endOfInput) ∧ f = failure ⟨t.span, .invalidEntryPoint kind⟩) ∧
    ∀ t ∈ Token.scan line, t.kind = .invalid → t.text = String.singleton t.character := by
  refine ⟨map_parse line, ?_, text_eq_character⟩
  intro f kind rejected reason
  obtain ⟨entry, same, rfl⟩ := noEntry_of_parse rejected reason
  refine ⟨(Cursor.start line).token, ?_, same, entry, ?_⟩
  · have visible : (Cursor.start line).visible.head? = some (Cursor.start line).token := by
      by_cases ended : (Cursor.start line).token.kind = .endOfInput
      · rw [Cursor.visible_of_end ended, List.head?_cons]
      · rw [Cursor.visible_of_token ended, List.head?_cons]
    rw [Cursor.visible, Cursor.ending_start] at visible
    exact visible
  · rw [noEntry, same]
    rfl

/-- a line that starts with a closing parenthesis, which counts before the invalid character behind it -/
theorem parse_eq_verdict_closing :
    let closing : Token := ⟨.closeParen, 1, ")"⟩
    let invalid : Token := ⟨.invalid, 2, "é"⟩
    parse " )é" = .error (failure ⟨closing.span, .invalidEntryPoint .closeParen⟩) ∧
      verdict " )é" = .error ⟨closing.span, .invalidEntryPoint .closeParen⟩ ∧
      (((Token.scan " )é").filter fun t => t.kind ≠ .whitespace) ++ [Token.ending " )é"]).head? = some closing ∧
      invalid ∈ Token.scan " )é" ∧ invalid.text = String.singleton invalid.character := by
  intro closing invalid
  have rejected : parse " )é" = .error (failure ⟨closing.span, .invalidEntryPoint .closeParen⟩) := by decide +kernel
  have found : verdict " )é" = .error ⟨closing.span, .invalidEntryPoint .closeParen⟩ := by decide +kernel
  have member : invalid ∈ Token.scan " )é" := by decide +kernel
  obtain ⟨-, entry, character⟩ := parse_eq_verdict " )é"
  obtain ⟨t, first, -, -, same⟩ := entry _ _ rejected rfl
  have : t = closing := by
    have start : (((Token.scan " )é").filter fun t => t.kind ≠ .whitespace) ++ [Token.ending " )é"]).head? =
      some closing := by decide +kernel
    rw [start] at first
    exact (Option.some.inj first).symm
  subst this
  exact ⟨rejected, found, first, member, character _ member rfl⟩

/-- of two parentheses that are not closed the inner one is to blame, and not the one that was closed -/
example : verdict "(1 (2) (3" = .error ⟨⟨7, 2⟩, .unterminatedList⟩ := by decide +kernel

end Nesting

end ExactCalc
