/-
The stretches that the parts of an expression cover.

An expression covers the line from its first atom to its last. It does not know where it stands, so that this is a
stretch at all rests on the order in which the reader has met the atoms. `Expr.Nested e` collects what holds of an
expression and its elements; the tree of a line has it in all of its parts.

Results:
- `ends_of_extent?`: if the atoms ascend, the stretch of an expression starts with the first and stops with the last.
- `pairwise_extents`: so the stretches of elements follow each other if all their atoms do.
- `Reads.atoms_between`: by induction on a derivation, the atoms that are read stand between the cursor where the reader
  starts and the one where it stops, and those of a list stop before its closing parenthesis does.
- `extents_nested`: **the stretches in the tree of a line are faithful and nested**.
-/
import ExactCalc.Proofs.Progress

namespace ExactCalc

namespace Span

/-- the first stretch stops before the second one starts -/
def Ahead (s s' : Span) : Prop :=
  s.stop ≤ s'.offset

/-- the first stretch lies within the second one -/
def Within (s s' : Span) : Prop :=
  s'.offset ≤ s.offset ∧ s.stop ≤ s'.stop

/-- the first stretch lies within the second one, which goes on at both ends -/
def Inside (s s' : Span) : Prop :=
  s'.offset < s.offset ∧ s.stop < s'.stop

end Span

/-! ## Tokens in order -/

namespace Token

variable {ts : List Token} {t last : Token}

theorem stop_le_last (ordered : ts.Pairwise Before) (ht : t ∈ ts) (hl : ts.getLast? = some last) :
    t.stop ≤ last.stop := by
  obtain ⟨front, rfl⟩ := List.getLast?_eq_some_iff.1 hl
  rcases List.mem_append.1 ht with before | here
  · have : t.stop ≤ last.offset := (List.pairwise_append.1 ordered).2.2 t before last List.mem_cons_self
    exact this.trans last.offset_le_stop
  · rw [List.mem_singleton.1 here]

theorem offset_lt_stop (text : t.text ≠ "") : t.offset < t.stop :=
  Nat.lt_add_of_pos_right (Text.width_pos (mt String.toList_eq_nil_iff.1 text))

end Token

/-! ## Ends of a stretch -/

namespace Expr

/-- if the atoms ascend, the stretch of an expression starts with the first of them and stops with the last -/
theorem ends_of_extent? {e : Expr} {s : Span} (ascending : Token.Ascending e.atoms) (h : e.extent? = some s) :
    ∃ first last, e.atoms.head? = some first ∧ e.atoms.getLast? = some last ∧ first.offset ≤ last.stop ∧
      s.offset = first.offset ∧ s.stop = last.stop := by
  obtain ⟨first, last, hf, hl, rfl⟩ := extent?_eq_some_iff.1 h
  have start : first.offset ≤ last.offset := ascending.offset_le_last (List.mem_of_head? hf) hl
  have inOrder : first.offset ≤ last.stop := start.trans last.offset_le_stop
  exact ⟨first, last, hf, hl, inOrder, rfl, Span.stop_between inOrder⟩

/-- the stretches of elements follow each other if all their atoms do -/
theorem pairwise_extents {es : List Expr} (ordered : (atomsList es).Pairwise Token.Before) :
    (es.filterMap extent?).Pairwise Span.Ahead := by
  induction es with
  | nil => exact List.Pairwise.nil
  | cons e es ih =>
    obtain ⟨here, others, across⟩ := List.pairwise_append.1 ordered
    cases h : e.extent? with
    | none =>
      rw [List.filterMap_cons_none h]
      exact ih others
    | some s =>
      rw [List.filterMap_cons_some h]
      refine List.pairwise_cons.2 ⟨fun s' hs' => ?_, ih others⟩
      obtain ⟨d, hd, h'⟩ := List.mem_filterMap.1 hs'
      have sub : d.atoms.Sublist (atomsList es) := atoms_sublist_atomsList hd
      obtain ⟨-, last, -, hl, -, -, stop⟩ := ends_of_extent? (Token.ascending_of_ordered here) h
      obtain ⟨first, -, hf, -, -, start, -⟩ := ends_of_extent? (Token.ascending_of_ordered (others.sublist sub)) h'
      show s.stop ≤ s'.offset
      rw [stop, start]
      exact across last (List.mem_of_getLast? hl) first (sub.subset (List.mem_of_head? hf))

/-- the stretch of an element lies within that of the list -/
theorem within_list {es : List Expr} {d : Expr} {s : Span} (ordered : (atomsList es).Pairwise Token.Before)
    (hd : d ∈ es) (h : d.extent? = some s) : ∃ s', (list es).extent? = some s' ∧ s.Within s' := by
  have sub : d.atoms.Sublist (list es).atoms := atoms_sublist_atomsList hd
  have ascending : Token.Ascending (list es).atoms := Token.ascending_of_ordered ordered
  obtain ⟨first, last, hf, hl, -, start, stop⟩ := ends_of_extent? (ascending.sublist sub) h
  have some_atom : (list es).extent? ≠ none := by
    intro nothing
    rw [(extent?_eq_none_iff _).1 nothing] at sub
    rw [List.sublist_nil.1 sub] at hf
    cases hf
  obtain ⟨s', h'⟩ := Option.ne_none_iff_exists'.1 some_atom
  obtain ⟨first', last', hf', hl', -, start', stop'⟩ := ends_of_extent? ascending h'
  refine ⟨s', h', ?_, ?_⟩
  · rw [start, start']
    exact ascending.first_offset_le hf' (sub.subset (List.mem_of_head? hf))
  · rw [stop, stop']
    exact Token.stop_le_last ordered (sub.subset (List.mem_of_getLast? hl)) hl'

/-! ## Expressions and their elements -/

/-- what holds of the stretch of an expression, and of those of its elements -/
structure Nested (e : Expr) : Prop where
  /-- only an expression without atoms covers nothing -/
  none_iff : e.extent? = none ↔ e.atoms = []
  /-- the stretch goes from the first atom to the last, which stops behind the start of the first -/
  ends : ∀ s, e.extent? = some s → ∃ first last, e.atoms.head? = some first ∧ e.atoms.getLast? = some last ∧
    first.offset ≤ last.stop ∧ s.offset = first.offset ∧ s.stop = last.stop
  /-- the stretch is not empty -/
  proper : ∀ s, e.extent? = some s → s.offset < s.stop
  /-- the stretches of elements lie within that of the list -/
  within : ∀ es, e = list es → ∀ d ∈ es, ∀ s, d.extent? = some s → ∃ s', e.extent? = some s' ∧ s.Within s'
  /-- the stretches of elements follow each other -/
  apart : ∀ es, e = list es → (es.filterMap extent?).Pairwise Span.Ahead

theorem nested_of_ordered {e : Expr} (ordered : e.atoms.Pairwise Token.Before)
    (texts : ∀ t ∈ e.atoms, t.text ≠ "") : e.Nested where
  none_iff := extent?_eq_none_iff e
  ends _ h := ends_of_extent? (Token.ascending_of_ordered ordered) h
  proper s h := by
    have ascending := Token.ascending_of_ordered ordered
    obtain ⟨first, last, hf, hl, -, start, stop⟩ := ends_of_extent? ascending h
    have member : last ∈ e.atoms := List.mem_of_getLast? hl
    calc s.offset
      _ = first.offset := start
      _ ≤ last.offset := ascending.first_offset_le hf member
      _ < last.stop := Token.offset_lt_stop (texts last member)
      _ = s.stop := stop.symm
  within es whole d hd s h := by
    subst whole
    exact within_list ordered hd h
  apart es whole := by
    subst whole
    exact pairwise_extents ordered

end Expr

/-! ## Texts of atoms -/

theorem Cursor.On.excerpt?_peek {line : String} {c : Cursor} (on : On line c) :
    c.peek.span.excerpt? line = some c.peek.text := by
  obtain ⟨passed, whole, offset⟩ := on
  have parts : line.toList = passed ++ c.peek.text.toList ++ c.advance.rest := by
    rw [List.append_assoc, text_peek_append_rest, whole]
  have span : c.peek.span = ⟨Text.width passed, Text.width c.peek.text.toList⟩ := by
    rw [Token.span, offset_peek, offset, Token.width]
  rw [span, Span.excerpt?_width parts, String.ofList_toList]

/-- the line has the text of each of its tokens where the token stands -/
theorem Token.excerpt?_of_mem_scan {line : String} {t : Token} (ht : t ∈ scan line) :
    t.span.excerpt? line = some t.text := by
  refine Cursor.forall_mem_stream (P := fun t => t.span.excerpt? line = some t.text)
    (fun c on => on.excerpt?_peek) (fun c on => on.advance) (Cursor.on_start line) t ?_
  exact List.mem_append_left _ ht

theorem Token.text_ne_empty_of_mem_scan {line : String} {t : Token} (ht : t ∈ scan line) : t.text ≠ "" :=
  Cursor.forall_mem_tokens (P := fun t => t.text ≠ "") (fun _ => Cursor.text_peek_ne_empty) _ t ht

/-! ## Between the parentheses -/

theorem Cursor.offset_token_lt {c : Cursor} (more : c.token.kind ≠ .endOfInput) :
    c.token.offset < c.afterToken.offset :=
  offset_lt_advance more

theorem Cursor.offset_token_le (c : Cursor) : c.token.offset ≤ c.afterToken.offset :=
  c.token.offset_le_stop

namespace Expr

/-- a list stops where its closing parenthesis does, which is further on -/
theorem ReadsElements.lt_stop {depth : ℕ} {opening : Token} {c next : Cursor} {es : List Expr} {stop : ℕ}
    (h : ReadsElements depth opening c es stop next) : c.offset < stop := by
  obtain ⟨part, ⟨-, offset⟩, ⟨x, last, -⟩, rfl⟩ := h.passes
  have ne : part ≠ [] := by
    rintro rfl
    cases last
  rw [offset]
  exact Nat.lt_add_of_pos_right (Text.width_pos ne)

mutual

/-- the atoms of what is read stand between the cursor in front of it and the one behind it -/
theorem Reads.atoms_between {depth : ℕ} {c next : Cursor} {e : Located Expr} : Reads depth c e next →
    ∀ t ∈ e.value.atoms, c.offset ≤ t.offset ∧ t.stop ≤ next.offset
  | .atom _ => by
    intro t ht
    rw [List.mem_singleton.1 ht]
    exact ⟨(Cursor.reaches_skipBlanks c).offset_le, le_rfl⟩
  | .list _ elements => by
    intro t ht
    rw [atoms_ofList] at ht
    obtain ⟨start, stop⟩ := elements.atoms_between t ht
    obtain ⟨-, -, -, last⟩ := elements.passes
    rw [← last]
    exact ⟨(Cursor.reaches_afterToken c).offset_le.trans start, stop.le⟩

/-- the atoms of elements stand in front of the closing parenthesis -/
theorem ReadsElements.atoms_between {depth : ℕ} {opening : Token} {c next : Cursor} {es : List Expr} {stop : ℕ} :
    ReadsElements depth opening c es stop next → ∀ t ∈ atomsList es, c.offset ≤ t.offset ∧ t.stop < stop
  | .close _ => List.forall_mem_nil _
  | .cons _ _ first others => by
    intro t ht
    rcases List.mem_append.1 ht with here | later
    · obtain ⟨start, stop⟩ := first.atoms_between t here
      exact ⟨start, stop.trans_lt others.lt_stop⟩
    · obtain ⟨start, stop⟩ := others.atoms_between t later
      exact ⟨first.reaches.offset_le.trans start, stop⟩

end

/-- the atoms of a list that is read stand behind its opening parenthesis and in front of the closing one -/
theorem Reads.inside {depth : ℕ} {c next : Cursor} {e : Located Expr} {es : List Expr} (h : Reads depth c e next)
    (whole : e.value = .list es) : ∀ t ∈ e.value.atoms, e.span.offset < t.offset ∧ t.stop < e.span.stop := by
  cases h with
  | atom _ => cases whole
  | list opens elements =>
    intro t ht
    rw [atoms_ofList] at ht
    obtain ⟨start, stop⟩ := elements.atoms_between t ht
    have opening : c.token.offset < c.afterToken.offset := Cursor.offset_token_lt (by simp [opens])
    refine ⟨opening.trans_le start, ?_⟩
    rw [Span.stop_between (opening.trans elements.lt_stop).le]
    exact stop

/-! ## The tree of a line -/

theorem nested_of_part {line : String} {d e : Expr} (read : (parse line).map Located.value = .ok e) (part : Part d e) :
    d.Nested := by
  apply nested_of_ordered
  · exact (laid_atoms_of_parse read).ordered.sublist part.atoms_sublist
  · intro t ht
    have member : t ∈ e.atoms := part.atoms_sublist.subset ht
    rw [atoms_of_parse read] at member
    exact Token.text_ne_empty_of_mem_scan (List.mem_of_mem_filter member)

theorem ofList_ne_atom (es : List Expr) (t : Token) : ofList es ≠ atom t := by
  cases es <;> exact nofun

/-- the elements of a list stop behind the start of the token in front of them, whether or not that can be one -/
theorem offset_token_le_of_elementsAt {depth stop : ℕ} {c : Cursor} {es : List Expr}
    (h : (elementsAt depth c.token c.afterToken).result = .ok (es, stop)) : c.token.offset ≤ stop := by
  have derived := derived_both.2 depth c.token c.afterToken
  rw [Reply.outcome, h] at derived
  have elements : ReadsElements depth c.token c.afterToken es stop _ := derived
  exact c.offset_token_le.trans elements.lt_stop.le

/-- **The stretches in the tree of a line are faithful and nested.** The line has the text of each atom where the atom
stands. Of each part of the tree the stretch is missing exactly if there are no atoms in it, and otherwise goes from
the first of them to the last; the stretches of elements lie within that of their list, and follow each other. The
atoms of a list lie strictly between the ends of the span that was read, and a single atom has that very span. No
length is taken with its ends the wrong way round: neither that of a part of the tree, nor in the reader, where the
line may end or a list may be closed anywhere behind its opening parenthesis. -/
theorem extents_nested {line : String} {e : Located Expr} (h : parse line = .ok e) :
    (∀ t ∈ e.value.atoms, t.span.excerpt? line = some t.text) ∧
    (∀ d, Part d e.value → d.Nested) ∧
    (∀ es s, e.value = list es → e.value.extent? = some s → s.Inside e.span) ∧
    (∀ t, e.value = atom t → e.value.extent? = some e.span) ∧
    ∀ c : Cursor,
      (∀ depth es stop, (elementsAt depth c.token c.afterToken).result = .ok (es, stop) → c.token.offset ≤ stop) ∧
      ∀ d, c.afterToken.Reaches d → c.token.offset ≤ d.token.offset := by
  obtain ⟨next, read, -⟩ := parse_eq_ok_iff_reads.1 h
  have value : (parse line).map Located.value = .ok e.value := map_value_eq_ok_iff.2 ⟨e.span, h⟩
  refine ⟨?texts, fun d part => nested_of_part value part, ?inside, ?same, ?subtractions⟩
  case texts =>
    intro t ht
    rw [atoms_of_parse value] at ht
    exact Token.excerpt?_of_mem_scan (List.mem_of_mem_filter ht)
  case inside =>
    intro es s whole extent
    have laid := laid_atoms_of_parse value
    obtain ⟨first, last, hf, hl, -, start, stop⟩ :=
      ends_of_extent? (Token.ascending_of_ordered laid.ordered) extent
    refine ⟨?_, ?_⟩
    · rw [start]
      exact (read.inside whole first (List.mem_of_head? hf)).1
    · rw [stop]
      exact (read.inside whole last (List.mem_of_getLast? hl)).2
  case same =>
    intro t whole
    cases read with
    | atom _ => exact extent?_atom _
    | list _ _ => exact absurd whole (ofList_ne_atom _ t)
  case subtractions =>
    intro c
    refine ⟨fun depth es stop closed => offset_token_le_of_elementsAt closed, fun d later => ?_⟩
    calc c.token.offset
      _ ≤ c.afterToken.offset := c.offset_token_le
      _ ≤ d.offset := later.offset_le
      _ ≤ d.token.offset := (Cursor.reaches_skipBlanks d).offset_le

/-- blanks of three bytes, an empty list in front of the first atom and another behind the last -/
theorem extents_nested_blanks :
    let line := "\u3000( () (neg\u3000-1) x ( ) )"
    let call : Expr := .list [.atom ⟨.identifier, 9, "neg"⟩, .atom ⟨.constant, 15, "-1"⟩]
    let e : Located Expr := ⟨⟨3, 23⟩, .list [.nil, call, .atom ⟨.identifier, 19, "x"⟩, .nil]⟩
    parse line = .ok e ∧ e.value.extent? = some ⟨9, 11⟩ ∧ Span.Inside ⟨9, 11⟩ e.span ∧ call.extent? = some ⟨9, 8⟩ ∧
      Span.Within ⟨9, 8⟩ ⟨9, 11⟩ ∧ Span.Ahead ⟨9, 8⟩ ⟨19, 1⟩ := by
  intro line call e
  have read : parse line = .ok e := by decide +kernel
  have whole : e.value.extent? = some ⟨9, 11⟩ := by decide +kernel
  have inner : call.extent? = some ⟨9, 8⟩ := by decide +kernel
  obtain ⟨-, nested, inside, -, -⟩ := extents_nested read
  have root : e.value.Nested := nested e.value (.whole _)
  obtain ⟨s, extent, within⟩ := root.within _ rfl call (by simp) _ inner
  rw [whole, Option.some.injEq] at extent
  subst extent
  have apart : [Span.mk 9 8, Span.mk 19 1].Pairwise Span.Ahead := root.apart _ rfl
  exact ⟨read, whole, inside _ _ rfl whole, inner, within, List.rel_of_pairwise_cons apart List.mem_cons_self⟩

end Expr

end ExactCalc
