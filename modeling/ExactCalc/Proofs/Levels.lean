/-
The depth of an atom is the number of parentheses around it.

A walk counts the lists that it has gone into. A line has parentheses, of which `balance` counts the opening ones less
the closing ones. `levels n ps` is what both have in common: the atoms among some pieces, each with the number of lists
that are open where it stands, if `n` are open before the first piece.

Results:
- `levels_flatten`: by induction on the tree, a walk that is completed meets the atoms of the pieces at their levels.
- `balance_text_peek`: only the token of a parenthesis has parentheses in its text.
- `levels_solid`: so, by induction along the line, the level of a token is the balance of the text before it.
- `walk_levels`: **a walk through the tree of a line meets the atoms of the line, each at the level of its offset**.
-/
import ExactCalc.Proofs.DepthLimit
import ExactCalc.Proofs.Placement

namespace ExactCalc

/-! ## Parentheses of a text -/

namespace Text

/-- the opening parentheses less the closing ones -/
def balance (cs : List Char) : ℤ :=
  cs.count '(' - cs.count ')'

/-- the characters before a byte position, or all where the position cuts a character -/
def upTo (cs : List Char) (n : ℕ) : List Char :=
  cs.take ((charIndex? cs n).getD cs.length)

@[simp] theorem balance_nil : balance [] = 0 := rfl

theorem balance_append (cs ds : List Char) : balance (cs ++ ds) = balance cs + balance ds := by
  simp only [balance, List.count_append, Nat.cast_add]
  ring

/-- characters of a class without parentheses are balanced -/
theorem balance_eq_zero {p : Char → Bool} (hp : p '(' = false ∧ p ')' = false) {cs : List Char}
    (h : ∀ c ∈ cs, p c = true) : balance cs = 0 := by
  have absent {c : Char} (hc : p c = false) : cs.count c = 0 := by
    apply List.count_eq_zero.2
    intro mem
    rw [h c mem] at hc
    cases hc
  rw [balance, absent hp.1, absent hp.2]
  rfl

theorem upTo_width (cs ds : List Char) : upTo (cs ++ ds) (width cs) = cs := by
  rw [upTo, charIndex?_width, Option.getD_some, List.take_left]

end Text

/-- the parentheses open at a byte position of a line -/
def level (line : String) (n : ℕ) : ℤ :=
  Text.balance (Text.upTo line.toList n)

/-! ## Levels of pieces -/

/-- what a piece adds to the lists that are open -/
def Piece.turn : Piece → ℤ
  | .atom _ => 0
  | .opening => 1
  | .closing => -1

/-- the atoms among some pieces with the number of lists open where they stand, of which so many were open before -/
def levels (n : ℤ) : List Piece → List (Token × ℤ)
  | [] => []
  | p :: ps => p.atom?.toList.map (fun t => (t, n)) ++ levels (n + p.turn) ps

/-- the atom that a node is -/
def Expr.token? : Expr → Option Token
  | .atom t => some t
  | .list _ => none
  | .nil => none

/-- the atoms met with their depths -/
def Walk.atoms (w : Walk) : List (Token × ℕ) :=
  w.visited.filterMap fun (e, depth) => e.token?.map fun t => (t, depth)

/-- the atoms met with their depths as levels -/
def Walk.levels (w : Walk) : List (Token × ℤ) :=
  w.atoms.map fun (t, depth) => (t, (depth : ℤ))

theorem levels_opening (n : ℤ) (ps : List Piece) : levels n (.opening :: ps) = levels (n + 1) ps := rfl

theorem levels_closing (n : ℤ) (ps : List Piece) : levels (n + 1) (.closing :: ps) = levels n ps := by
  rw [levels, Piece.turn, Int.add_neg_cancel_right]
  rfl

theorem levels_atom (n : ℤ) (t : Token) (ps : List Piece) : levels n (.atom t :: ps) = (t, n) :: levels n ps := by
  rw [levels, Piece.turn, Int.add_zero]
  rfl

namespace Expr

mutual

/-- a walk that is completed meets the atoms of the tree at their levels -/
theorem levels_flatten : (e : Expr) → (depth : ℕ) → (ps : List Piece) → (walkAt depth e).failure? = none →
    levels depth (e.flatten ++ ps) = (walkAt depth e).levels ++ levels depth ps
  | .atom t, depth, ps, _ => by
    rw [flatten, List.singleton_append, levels_atom, walkAt]
    rfl
  | .nil, depth, ps, _ => by
    rw [flatten, List.cons_append, levels_opening, List.singleton_append, levels_closing, walkAt]
    rfl
  | .list es, depth, ps, completed => by
    have room : depth < maxDepth := by
      by_contra deep
      rw [walkAt_list_of_le (Nat.le_of_not_lt deep)] at completed
      cases completed
    rw [walkAt_list_of_lt room] at completed ⊢
    have inner := levels_flattenList es (depth + 1) (.closing :: ps) completed
    rw [Nat.cast_add, Nat.cast_one, levels_closing] at inner
    rw [flatten, List.cons_append, levels_opening, List.append_assoc, List.singleton_append, inner]
    rfl

theorem levels_flattenList : (es : List Expr) → (depth : ℕ) → (ps : List Piece) →
    (walkList depth es).failure? = none →
      levels depth (flattenList es ++ ps) = (walkList depth es).levels ++ levels depth ps
  | [], depth, ps, _ => by
    rw [flattenList, List.nil_append, walkList]
    rfl
  | e :: es, depth, ps, completed => by
    rw [walkList] at completed ⊢
    cases first : (walkAt depth e).failure? with
    | some f =>
      rw [Walk.andThen_of_failed first, first] at completed
      cases completed
    | none =>
      rw [Walk.andThen_of_finished first] at completed ⊢
      rw [flattenList, List.append_assoc, levels_flatten e depth _ first, levels_flattenList es depth ps completed]
      simp [Walk.levels, Walk.atoms]

end

end Expr

/-! ## Levels along a line -/

namespace Lexeme

/-- the characters of atoms -/
def isAtomChar (c : Char) : Bool :=
  isOperator c || isNameChar c

theorem isAtomChar_of_spells {kind : Token.Kind} {text : List Char} (h : kind.spells text = true) :
    ∀ c ∈ text, isAtomChar c = true := by
  have digit {c : Char} (h : c.isDigit = true) : isAtomChar c = true := by
    simp [isAtomChar, isNameChar, Char.isAlphanum, h]
  cases kind with
  | constant =>
    cases text with
    | nil => cases h
    | cons c cs =>
      rcases Bool.or_eq_true_iff.1 h with unsigned | signed
      · intro d hd
        exact digit ((isDigits_iff.1 unsigned).2 d hd)
      · obtain ⟨sign, digits⟩ := Bool.and_eq_true_iff.1 signed
        have first : isAtomChar c = true := by simp [isAtomChar, isOperator_of_isSign sign]
        exact List.forall_mem_cons.2 ⟨first, fun d hd => digit ((isDigits_iff.1 digits).2 d hd)⟩
  | identifier =>
    cases text with
    | nil => cases h
    | cons c cs =>
      obtain ⟨alpha, others⟩ := Bool.and_eq_true_iff.1 h
      have first : isAtomChar c = true := by simp [isAtomChar, isNameChar, Char.isAlphanum, alpha]
      refine List.forall_mem_cons.2 ⟨first, fun d hd => ?_⟩
      exact Bool.or_eq_true_iff.2 (.inr (List.all_eq_true.1 others d hd))
  | operator =>
    obtain ⟨c, rfl, operator⟩ := isOperatorText_eq_true_iff.1 h
    exact List.forall_mem_singleton.2 (Bool.or_eq_true_iff.2 (.inl operator))
  | _ => cases h

/-- no atom has a parenthesis in its text -/
theorem balance_of_spells {kind : Token.Kind} {text : List Char} (h : kind.spells text = true) :
    Text.balance text = 0 :=
  Text.balance_eq_zero (p := isAtomChar) (by decide) (isAtomChar_of_spells h)

end Lexeme

theorem Token.turn_piece (t : Token) :
    t.piece.turn = if t.kind = .openParen then 1 else if t.kind = .closeParen then -1 else 0 := by
  obtain ⟨kind, offset, text⟩ := t
  cases kind <;> rfl

namespace Cursor

/-- only a parenthesis has parentheses in its text -/
theorem balance_text_peek {c : Cursor} (valid : c.peek.kind ≠ .invalid) :
    Text.balance c.peek.text.toList = c.peek.piece.turn := by
  have text : c.peek.text.toList = (Lexeme.first c.rest).text := String.toList_ofList
  have kind : c.peek.kind = (Lexeme.first c.rest).kind := rfl
  have taken := Lexeme.taken_first c.rest
  rw [Token.turn_piece, text, kind]
  rw [kind] at valid
  generalize Lexeme.first c.rest = l at valid taken
  generalize c.rest = cs at taken
  cases taken with
  | ended => rfl
  | openParen rest => rfl
  | closeParen rest => rfl
  | atom kind text rest spelled _ =>
    rw [Lexeme.balance_of_spells spelled]
    cases kind <;> first | rfl | cases spelled
  | blanks b text rest blank _ =>
    rw [Text.balance_eq_zero (p := Text.isBlank) (by decide) blank]
    rfl
  | invalid b rest => exact absurd rfl valid

theorem level_width {line : String} {passed rest : List Char} (whole : line.toList = passed ++ rest) :
    level line (Text.width passed) = Text.balance passed := by
  rw [level, whole, Text.upTo_width]

/-- the pieces from here on have the levels that the line gives to their offsets, if the balance of the text that was
passed is where they start -/
theorem levels_solid {line : String} (c : Cursor) {passed : List Char} (whole : line.toList = passed ++ c.rest)
    (offset : c.offset = Text.width passed) (valid : ∀ t ∈ c.tokens, t.kind ≠ .invalid) :
    levels (Text.balance passed) (c.solid.map Token.piece) =
      (c.tokens.filter Token.isAtomic).map fun t => (t, level line t.offset) := by
  induction c using along generalizing passed with
  | ended c ended =>
    rw [solid, tokens_of_end ended]
    rfl
  | token c more ih =>
    rw [tokens_of_token more, List.forall_mem_cons] at valid
    have whole' : line.toList = (passed ++ c.peek.text.toList) ++ c.advance.rest := by
      rw [List.append_assoc, text_peek_append_rest, whole]
    have offset' : c.advance.offset = Text.width (passed ++ c.peek.text.toList) := by
      rw [offset_advance, Token.stop, Token.width, offset_peek, offset, Text.width_append]
    have others := ih whole' offset' valid.2
    rw [Text.balance_append, balance_text_peek valid.1] at others
    have here : level line c.peek.offset = Text.balance passed := by rw [offset_peek, offset, level_width whole]
    rw [solid, tokens_of_token more]
    by_cases blank : c.peek.kind = .whitespace
    · have turn : c.peek.piece.turn = 0 := by simp [Token.turn_piece, blank]
      have atomic : ¬c.peek.isAtomic = true := by simp [Token.isAtomic, Token.Kind.isAtomic, blank]
      rw [List.filter_cons_of_neg (by simp [blank]), List.filter_cons_of_neg atomic, ← others, turn, add_zero]
      rfl
    · rw [List.filter_cons_of_pos (by simp [blank]), List.map_cons, levels, ← solid, others,
        Expr.atom?_piece more valid.1 blank]
      by_cases atomic : c.peek.isAtomic = true
      · rw [List.filter_cons_of_pos atomic, List.map_cons, here]
        simp [Option.guard, atomic]
      · rw [List.filter_cons_of_neg atomic]
        simp [Option.guard, atomic]

end Cursor

namespace Expr

/-- the tree of a line is walked through completely -/
theorem failure?_walk {e : Expr} (h : WellFormed 0 e) : e.walk.failure? = none := by
  obtain ⟨u, completed⟩ := (limited_walk () h.proper).ok_iff.2 h.height_le
  rw [Walk.complete] at completed
  cases failed : e.walk.failure? with
  | none => rfl
  | some f =>
    rw [failed] at completed
    cases completed

/-- **A walk through the tree of a line meets the atoms of the line, each at the level of its offset.** It is completed,
and with their places and in their order it meets the constants, operators and names that the lexer finds. The depth of
each of them is the number of opening parentheses in the line before it, less that of the closing ones. -/
theorem walk_levels {line : String} {e : Expr} (h : (parse line).map Located.value = .ok e) :
    e.walk.failure? = none ∧
      e.walk.levels = ((Token.scan line).filter Token.isAtomic).map fun t => (t, level line t.offset) := by
  obtain ⟨pieces, wellFormed⟩ := flatten_of_parse h
  have completed : e.walk.failure? = none := failure?_walk wellFormed
  refine ⟨completed, ?_⟩
  calc e.walk.levels
    _ = e.walk.levels ++ levels 0 [] := (List.append_nil _).symm
    _ = levels 0 (e.flatten ++ []) := (levels_flatten e 0 [] completed).symm
    _ = levels 0 e.flatten := by rw [List.append_nil]
    _ = levels (Text.balance []) ((Cursor.start line).solid.map Token.piece) := by rw [pieces, Text.balance_nil]
    _ = ((Token.scan line).filter Token.isAtomic).map fun t => (t, level line t.offset) :=
      Cursor.levels_solid _ rfl rfl (kind_ne_invalid_of_parse h)

/-- an empty list before a list with atoms, and a blank of three bytes between them -/
theorem walk_levels_wide :
    let line := "(()\u3000(+ 1) x)"
    let plus : Token := ⟨.operator, 7, "+"⟩
    let one : Token := ⟨.constant, 9, "1"⟩
    let x : Token := ⟨.identifier, 12, "x"⟩
    let e : Expr := .list [.nil, .list [.atom plus, .atom one], .atom x]
    (parse line).map Located.value = .ok e ∧ e.walk.failure? = none ∧ e.walk.levels = [(plus, 2), (one, 2), (x, 1)] ∧
      level line plus.offset = 2 ∧ level line one.offset = 2 ∧ level line x.offset = 1 := by
  intro line plus one x e
  have read : (parse line).map Located.value = .ok e := by decide +kernel
  have met : e.walk.levels = [(plus, 2), (one, 2), (x, 1)] := by decide +kernel
  have atoms : (Token.scan line).filter Token.isAtomic = [plus, one, x] := by decide +kernel
  obtain ⟨completed, levels⟩ := walk_levels read
  rw [atoms, met] at levels
  simp only [List.map_cons, List.map_nil, List.cons.injEq, Prod.mk.injEq, true_and, and_true] at levels
  obtain ⟨first, second, third⟩ := levels
  exact ⟨read, completed, met, first.symm, second.symm, third.symm⟩

end Expr

end ExactCalc
