/-
The grammar of lines: which token streams are read, and as which trees.

A line is read as the tree `e` if its tokens, blanks left out, are the pieces of `e` one after the other. What else is
asked for concerns the tree alone: its lists are not empty, its atoms are constants, operators and names, and nothing
in it lies too deep.

Results:
- `Reads.solid_eq`, `Reads.wellFormed`: **soundness**, by induction on a derivation. What was read is taken off the
  stream as the pieces of the tree.
- `reads_of_flatten`: **completeness**, by induction on the tree, whatever follows its pieces in the stream.
- `parse_eq_ok_iff`: a line is read as a tree exactly if its tokens are the pieces of that tree.
-/
import ExactCalc.Proofs.Reading
import ExactCalc.Proofs.Stream
import ExactCalc.Proofs.Tree

namespace ExactCalc.Expr

/-! ## Soundness -/

theorem solid_of_isAtomic {c : Cursor} (h : c.token.isAtomic = true) : c.solid = c.token :: c.afterToken.solid :=
  Cursor.solid_of_token (kind_ne_endOfInput_of_isAtomic h)

mutual

/-- what is read is taken off the stream, and it is the tree written out -/
theorem Reads.solid_eq {depth : ℕ} {c next : Cursor} {e : Located Expr} :
    Reads depth c e next → ∃ ts, c.solid = ts ++ next.solid ∧ ts.map Token.piece = e.value.flatten
  | .atom h => by
    refine ⟨[c.token], solid_of_isAtomic h, ?_⟩
    rw [List.map_singleton, Token.piece_of_isAtomic h, flatten]
  | .list h elements => by
    obtain ⟨ts, solid, pieces⟩ := elements.solid_eq
    refine ⟨c.token :: ts, ?_, ?_⟩
    · rw [Cursor.solid_of_token (by simp [h]), solid, List.cons_append]
    · rw [List.map_cons, pieces, Token.piece_eq_opening_iff.2 h, flatten_ofList]

/-- what is read of elements is taken off the stream, and it is the elements written out with the end of the list -/
theorem ReadsElements.solid_eq {depth : ℕ} {opening : Token} {c next : Cursor} {es : List Expr} {stop : ℕ} :
    ReadsElements depth opening c es stop next →
      ∃ ts, c.solid = ts ++ next.solid ∧ ts.map Token.piece = flattenList es ++ [.closing]
  | .close h => by
    refine ⟨[c.token], Cursor.solid_of_token (by simp [h]), ?_⟩
    rw [List.map_singleton, Token.piece_eq_closing_iff.2 h, flattenList, List.nil_append]
  | .cons _ _ first others => by
    obtain ⟨ts, solid, pieces⟩ := first.solid_eq
    obtain ⟨us, solid', pieces'⟩ := others.solid_eq
    refine ⟨ts ++ us, ?_, ?_⟩
    · rw [solid, solid', List.append_assoc]
    · rw [List.map_append, pieces, pieces', flattenList, List.append_assoc]

end

mutual

/-- what is read is well-formed -/
theorem Reads.wellFormed {depth : ℕ} {c next : Cursor} {e : Located Expr} (allowed : depth ≤ maxDepth) :
    Reads depth c e next → WellFormed depth e.value
  | .atom h => by
    refine ⟨trivial, ?_, allowed⟩
    intro t ht
    rw [List.mem_singleton.1 ht]
    exact Cursor.isSpelled_peek h
  | .list _ elements => (elements.wellFormed allowed).ofList

theorem ReadsElements.wellFormed {depth : ℕ} {opening : Token} {c next : Cursor} {es : List Expr} {stop : ℕ}
    (allowed : depth ≤ maxDepth) :
    ReadsElements depth opening c es stop next → WellFormedList depth es
  | .close _ => .nil allowed
  | .cons _ room first others => .cons (first.wellFormed room) (others.wellFormed allowed)

end

/-! ## Completeness -/

/-- the first piece of a tree may start an expression -/
theorem starts_of_flatten {e : Expr} {c : Cursor} {rest : List Piece} (atomic : ∀ t ∈ e.atoms, t.isAtomic = true)
    (h : c.solid.map Token.piece = e.flatten ++ rest) : c.token.Starts := by
  cases e with
  | atom t =>
    obtain ⟨u, us, solid, piece, -⟩ := List.map_eq_cons_iff.1 h
    left
    rw [(Cursor.of_solid_eq_cons solid).1, Token.eq_of_piece_eq_atom piece]
    exact atomic t List.mem_cons_self
  | nil =>
    obtain ⟨u, us, solid, piece, -⟩ := List.map_eq_cons_iff.1 h
    right
    rw [(Cursor.of_solid_eq_cons solid).1]
    exact Token.piece_eq_opening_iff.1 piece
  | list es =>
    obtain ⟨u, us, solid, piece, -⟩ := List.map_eq_cons_iff.1 h
    right
    rw [(Cursor.of_solid_eq_cons solid).1]
    exact Token.piece_eq_opening_iff.1 piece

mutual

/-- a tree whose pieces come next is read, and its pieces are taken off the stream -/
theorem reads_of_flatten : (e : Expr) → (depth : ℕ) → {c : Cursor} → {rest : List Piece} → e.Proper →
    (∀ t ∈ e.atoms, t.isAtomic = true) → depth + e.height ≤ maxDepth →
    c.solid.map Token.piece = e.flatten ++ rest →
      ∃ span next, Reads depth c ⟨span, e⟩ next ∧ next.solid.map Token.piece = rest
  | .atom t, depth, c, rest, _, atomic, _, h => by
    obtain ⟨u, us, solid, piece, left⟩ := List.map_eq_cons_iff.1 h
    obtain ⟨rfl, rfl⟩ := Cursor.of_solid_eq_cons solid
    have := Token.eq_of_piece_eq_atom piece
    subst this
    exact ⟨_, _, .atom (atomic _ List.mem_cons_self), left⟩
  | .nil, depth, c, rest, _, _, _, h => by
    obtain ⟨u, us, solid, piece, left⟩ := List.map_eq_cons_iff.1 h
    obtain ⟨rfl, rfl⟩ := Cursor.of_solid_eq_cons solid
    obtain ⟨v, vs, solid', piece', left⟩ := List.map_eq_cons_iff.1 left
    obtain ⟨rfl, rfl⟩ := Cursor.of_solid_eq_cons solid'
    exact ⟨_, _, .list (Token.piece_eq_opening_iff.1 piece) (.close (Token.piece_eq_closing_iff.1 piece')), left⟩
  | .list es, depth, c, rest, proper, atomic, shallow, h => by
    obtain ⟨u, us, solid, piece, left⟩ := List.map_eq_cons_iff.1 h
    obtain ⟨rfl, rfl⟩ := Cursor.of_solid_eq_cons solid
    rw [List.append_eq, List.append_assoc] at left
    obtain ⟨stop, next, elements, left⟩ :=
      readsElements_of_flatten es depth c.token proper.2 atomic shallow left
    have whole : ofList es = list es := by
      cases es with
      | nil => exact absurd rfl proper.1
      | cons e es => rfl
    have read := Reads.list (Token.piece_eq_opening_iff.1 piece) elements
    rw [whole] at read
    exact ⟨_, next, read, left⟩

theorem readsElements_of_flatten : (es : List Expr) → (depth : ℕ) → (opening : Token) → {c : Cursor} →
    {rest : List Piece} → ProperList es → (∀ t ∈ atomsList es, t.isAtomic = true) →
    depth + heightList es ≤ maxDepth → c.solid.map Token.piece = flattenList es ++ .closing :: rest →
      ∃ stop next, ReadsElements depth opening c es stop next ∧ next.solid.map Token.piece = rest
  | [], depth, opening, c, rest, _, _, _, h => by
    obtain ⟨u, us, solid, piece, left⟩ := List.map_eq_cons_iff.1 h
    obtain ⟨rfl, rfl⟩ := Cursor.of_solid_eq_cons solid
    exact ⟨_, _, .close (Token.piece_eq_closing_iff.1 piece), left⟩
  | e :: es, depth, opening, c, rest, proper, atomic, shallow, h => by
    rw [flattenList, List.append_assoc] at h
    have here : ∀ t ∈ e.atoms, t.isAtomic = true := fun t ht => atomic t (List.mem_append_left _ ht)
    have others : ∀ t ∈ atomsList es, t.isAtomic = true := fun t ht => atomic t (List.mem_append_right _ ht)
    rw [heightList] at shallow
    have room : depth < maxDepth := by omega
    obtain ⟨span, next, first, left⟩ := reads_of_flatten e (depth + 1) proper.1 here (by omega) h
    obtain ⟨stop, last, elements, left⟩ :=
      readsElements_of_flatten es depth opening proper.2 others (by omega) left
    exact ⟨stop, last, .cons (starts_of_flatten here h) room first elements, left⟩

end

/-! ## Lines -/

theorem finish_eq_ok_iff {c : Cursor} : (finish c).1 = .ok () ↔ c.token.kind = .endOfInput := by
  unfold finish
  split_ifs with ended invalid
  · simp [ended]
  · simp [invalid]
  · simp [ended]

/-- a line is read as what its first expression is, if nothing but blanks follows -/
theorem parse_eq_ok_iff_reads {line : String} {e : Located Expr} :
    parse line = .ok e ↔ ∃ next, Reads 0 (Cursor.start line) e next ∧ next.token.kind = .endOfInput := by
  simp only [reads_iff, ← finish_eq_ok_iff, parse, expression]
  generalize expressionAt 0 (Cursor.start line) = reply
  cases reply with
  | refused f next => simp [Reply.outcome, Reply.result, bind, Except.bind]
  | read e' next shorter =>
    simp only [Reply.outcome, Reply.result, Reply.cursor, bind, Except.bind, Prod.mk.injEq, Except.ok.injEq]
    cases h : (finish next).1 with
    | error f => simp [h]
    | ok u => simp [h, pure, Except.pure]

/-- a line is refused because its first expression is, or because something is wrong behind that -/
theorem parse_eq_error_iff {line : String} {f : Failure} :
    parse line = .error f ↔ (∃ next, Refuses 0 (Cursor.start line) f next) ∨
      ∃ e next, Reads 0 (Cursor.start line) e next ∧ (finish next).1 = .error f := by
  simp only [reads_iff, refuses_iff, parse, expression]
  generalize expressionAt 0 (Cursor.start line) = reply
  cases reply with
  | refused f' next => simp [Reply.outcome, Reply.result, bind, Except.bind]
  | read e next shorter =>
    simp only [Reply.outcome, Reply.result, Reply.cursor, bind, Except.bind, Prod.mk.injEq, Except.ok.injEq]
    cases h : (finish next).1 with
    | error f' => simp [h]
    | ok u => simp [h, pure, Except.pure]

theorem map_value_eq_ok_iff {r : Except Failure (Located Expr)} {e : Expr} :
    r.map Located.value = .ok e ↔ ∃ span, r = .ok ⟨span, e⟩ := by
  cases r with
  | error f => simp [Except.map]
  | ok e' =>
    obtain ⟨span, value⟩ := e'
    simp [Except.map]

/-- a line that is read consists of the pieces of a well-formed tree -/
theorem flatten_of_parse {line : String} {e : Expr} (h : (parse line).map Located.value = .ok e) :
    (Cursor.start line).solid.map Token.piece = e.flatten ∧ WellFormed 0 e := by
  obtain ⟨span, h⟩ := map_value_eq_ok_iff.1 h
  obtain ⟨next, read, ended⟩ := parse_eq_ok_iff_reads.1 h
  obtain ⟨ts, solid, pieces⟩ := read.solid_eq
  rw [Cursor.solid_of_end ended, List.append_nil] at solid
  rw [solid]
  exact ⟨pieces, read.wellFormed (Nat.zero_le _)⟩

/-- a line that consists of the pieces of a tree is read as that tree -/
theorem parse_of_flatten {line : String} {e : Expr} (proper : e.Proper) (atomic : ∀ t ∈ e.atoms, t.isAtomic = true)
    (shallow : e.height ≤ maxDepth) (h : (Cursor.start line).solid.map Token.piece = e.flatten) :
    (parse line).map Located.value = .ok e := by
  rw [← Nat.zero_add e.height] at shallow
  rw [← List.append_nil e.flatten] at h
  obtain ⟨span, next, read, left⟩ := reads_of_flatten e 0 proper atomic shallow h
  have ended := Cursor.solid_eq_nil_iff.1 (List.map_eq_nil_iff.1 left)
  exact map_value_eq_ok_iff.2 ⟨span, parse_eq_ok_iff_reads.2 ⟨next, read, ended⟩⟩

/-- an invalid token is among the pieces, and is no piece of a tree with atoms of the right kinds -/
theorem kind_ne_invalid_of_flatten {e : Expr} (atomic : ∀ t ∈ e.atoms, t.isAtomic = true) {c : Cursor}
    (h : c.solid.map Token.piece = e.flatten) : ∀ t ∈ c.tokens, t.kind ≠ .invalid := by
  intro t ht invalid
  have solid : t ∈ c.solid := List.mem_filter.2 ⟨ht, by simp [invalid]⟩
  have piece : Piece.atom t ∈ e.flatten := by
    rw [← h, ← Token.piece_of_invalid invalid]
    exact List.mem_map_of_mem solid
  have := atomic t (mem_atoms_iff.2 piece)
  simp [Token.isAtomic, invalid, Token.Kind.isAtomic] at this

/-- a line that is read has no invalid character -/
theorem kind_ne_invalid_of_parse {line : String} {e : Expr} (h : (parse line).map Located.value = .ok e) :
    ∀ t ∈ Token.scan line, t.kind ≠ .invalid := by
  obtain ⟨pieces, wellFormed⟩ := flatten_of_parse h
  have atomic : ∀ t ∈ e.atoms, t.isAtomic = true := fun t ht =>
    Token.isAtomic_of_isSpelled (wellFormed.spelled t ht)
  exact kind_ne_invalid_of_flatten atomic pieces

/-- **The reader accepts exactly the grammar, and builds the tree that the grammar derives.** A line is read as `e` if
none of its tokens is invalid, its tokens are the pieces of `e` once the blanks are left out, the lists of `e` are not
empty, its atoms are constants, operators and names, and no node of it is deeper than 255. -/
theorem parse_eq_ok_iff (line : String) (e : Expr) :
    (parse line).map Located.value = .ok e ↔
      (∀ t ∈ Token.scan line, t.kind ≠ .invalid) ∧
      ((Token.scan line).filter fun t => t.kind ≠ .whitespace).map Token.piece = e.flatten ∧
      e.Proper ∧ (∀ t ∈ e.atoms, t.isAtomic = true) ∧ e.height ≤ 255 := by
  constructor
  · intro h
    obtain ⟨pieces, wellFormed⟩ := flatten_of_parse h
    have atomic : ∀ t ∈ e.atoms, t.isAtomic = true := fun t ht =>
      Token.isAtomic_of_isSpelled (wellFormed.spelled t ht)
    have shallow := wellFormed.shallow
    rw [Nat.zero_add] at shallow
    exact ⟨kind_ne_invalid_of_flatten atomic pieces, pieces, wellFormed.proper, atomic, shallow⟩
  · rintro ⟨-, pieces, proper, atomic, shallow⟩
    exact parse_of_flatten proper atomic shallow pieces

end ExactCalc.Expr
