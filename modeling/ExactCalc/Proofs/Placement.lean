/-
Where tokens and expressions lie in a line.

`Cursor.Reaches c d`: the cursor `d` lies some tokens behind `c`; whatever a reader does, it goes on in this direction.
`Span.Fits line s`: the stretch lies in the line and cuts no character. `Token.Laid line ts`: the tokens fit the line
and follow each other. `Expr.Part d e`: the expression `d` stands somewhere in `e`. The atoms of an expression that was
not read from a line may stand anywhere. `Token.Ascending ts`: no token starts before the ones in front of it, which is
all that the end of a stretch depends on. `Token.Addressable ts`: moreover all of them stop at a word.

Results:
- `Reads.reaches`: by induction on a derivation, a reader ends behind the place where it started.
- `atoms_of_parse`: the atoms of a tree are the constants, operators and names of its line, in order, none left out and
  none added.
- `laid_atoms_of_parse`, `fits_of_extent?`: so they are laid out along the line, and so is the stretch of every part.
- `measured_of_addressable`: if the atoms of an expression are addressable, no stretch in it leaves the words.
-/
import ExactCalc.Proofs.Grammar

namespace ExactCalc

/-! ## Cursors further on -/

namespace Cursor

/-- the second cursor lies some tokens behind the first one -/
def Reaches (c d : Cursor) : Prop :=
  ∃ n, advance^[n] c = d

variable {c d e : Cursor}

theorem reaches_refl (c : Cursor) : c.Reaches c :=
  ⟨0, rfl⟩

theorem Reaches.trans (h : c.Reaches d) (h' : d.Reaches e) : c.Reaches e := by
  obtain ⟨m, rfl⟩ := h
  obtain ⟨n, rfl⟩ := h'
  exact ⟨n + m, Function.iterate_add_apply _ _ _ _⟩

theorem reaches_advance (c : Cursor) : c.Reaches c.advance :=
  ⟨1, rfl⟩

theorem reaches_skipBlanks (c : Cursor) : c.Reaches c.skipBlanks := by
  fun_induction skipBlanks c with
  | case1 c _ ih => exact (reaches_advance c).trans ih
  | case2 c _ => exact reaches_refl c

theorem reaches_afterToken (c : Cursor) : c.Reaches c.afterToken :=
  (reaches_skipBlanks c).trans (reaches_advance _)

/-- what every step keeps is kept on the way -/
theorem Reaches.keeps {P : Cursor → Prop} (step : ∀ c, P c → P c.advance) (h : c.Reaches d) (hc : P c) : P d := by
  obtain ⟨n, rfl⟩ := h
  exact Function.Iterate.rec P hc step n

theorem Reaches.on {line : String} (h : c.Reaches d) (on : On line c) : On line d :=
  h.keeps (fun _ => On.advance) on

theorem Reaches.offset_le (h : c.Reaches d) : c.offset ≤ d.offset :=
  h.keeps (P := fun d => c.offset ≤ d.offset) (fun _ le => Nat.le_add_right_of_le le) le_rfl

end Cursor

namespace Expr

mutual

/-- a reader ends behind the place where it started -/
theorem Reads.reaches {depth : ℕ} {c next : Cursor} {e : Located Expr} : Reads depth c e next → c.Reaches next
  | .atom _ => Cursor.reaches_afterToken _
  | .list _ elements => (Cursor.reaches_afterToken _).trans elements.reaches

theorem ReadsElements.reaches {depth : ℕ} {opening : Token} {c next : Cursor} {es : List Expr} {stop : ℕ} :
    ReadsElements depth opening c es stop next → c.Reaches next
  | .close _ => Cursor.reaches_afterToken _
  | .cons _ _ first others => first.reaches.trans others.reaches

end

end Expr

/-! ## Stretches of a line -/

/-- the stretch lies in the line, and starts and stops between two characters -/
structure Span.Fits (line : String) (s : Span) : Prop where
  start : String.Pos.Raw.IsValid line ⟨s.offset⟩
  stop : String.Pos.Raw.IsValid line ⟨s.stop⟩
  within : s.stop ≤ line.utf8ByteSize

theorem Span.fits_of_isValid {line : String} {s : Span} (start : String.Pos.Raw.IsValid line ⟨s.offset⟩)
    (stop : String.Pos.Raw.IsValid line ⟨s.stop⟩) : s.Fits line :=
  ⟨start, stop, stop.le_rawEndPos⟩

section
variable {line : String} {c : Cursor}

theorem Cursor.On.fits_peek (on : On line c) : c.peek.span.Fits line :=
  Span.fits_of_isValid on.isValid on.advance.isValid

theorem Cursor.On.fits_token (on : On line c) : c.token.span.Fits line :=
  Cursor.On.fits_peek ((reaches_skipBlanks c).on on)

end

/-! ## Tokens along a line -/

namespace Token

/-- the first token ends before the second one starts -/
def Before (t u : Token) : Prop :=
  t.stop ≤ u.offset

theorem offset_le_stop (t : Token) : t.offset ≤ t.stop :=
  Nat.le_add_right _ _

instance : Trans Before Before Before :=
  ⟨fun {_ u _} h h' => h.trans (u.offset_le_stop.trans h')⟩

/-- the tokens lie in the line one behind the other -/
structure Laid (line : String) (ts : List Token) : Prop where
  fits : ∀ t ∈ ts, t.span.Fits line
  ordered : ts.Pairwise Before

variable {line : String} {ts us : List Token}

theorem Laid.sublist (h : Laid line ts) (sub : us.Sublist ts) : Laid line us where
  fits := fun t ht => h.fits t (sub.subset ht)
  ordered := h.ordered.sublist sub

theorem laid_scan (line : String) : Laid line (scan line) := by
  constructor
  · intro t ht
    refine Cursor.forall_mem_stream (P := fun t => t.span.Fits line) (fun c on => on.fits_peek) (fun c on => on.advance)
      (Cursor.on_start line) t ?_
    exact List.mem_append_left _ ht
  · have neighbours : (Cursor.start line).stream.IsChain Before :=
      (Cursor.isChain_stream _).imp fun t u follows => follows.touches.ge
    exact neighbours.left_of_append.pairwise

end Token

/-! ## Tokens that stand anywhere -/

namespace Token

/-- no token starts before one in front of it -/
def Ascending (ts : List Token) : Prop :=
  ts.Pairwise fun t u => t.offset ≤ u.offset

/-- no token starts before one in front of it, and all of them stop at words -/
structure Addressable (ts : List Token) : Prop where
  ascending : Ascending ts
  bounded : ∀ t ∈ ts, t.span.Bounded

instance (ts : List Token) : Decidable (Ascending ts) :=
  inferInstanceAs (Decidable (ts.Pairwise _))

variable {ts us : List Token} {t first last : Token}

theorem ascending_of_ordered (ordered : ts.Pairwise Before) : Ascending ts :=
  ordered.imp fun {t _} before => t.offset_le_stop.trans before

theorem Ascending.offset_le_last (h : Ascending ts) (ht : t ∈ ts) (hl : ts.getLast? = some last) :
    t.offset ≤ last.offset := by
  obtain ⟨front, rfl⟩ := List.getLast?_eq_some_iff.1 hl
  rcases List.mem_append.1 ht with before | here
  · exact (List.pairwise_append.1 h).2.2 t before last List.mem_cons_self
  · rw [List.mem_singleton.1 here]

theorem Ascending.first_offset_le (h : Ascending ts) (hf : ts.head? = some first) (ht : t ∈ ts) :
    first.offset ≤ t.offset := by
  obtain ⟨others, rfl⟩ := List.head?_eq_some_iff.1 hf
  rcases List.mem_cons.1 ht with rfl | later
  · exact le_rfl
  · exact List.rel_of_pairwise_cons h later

/-- laid out along the line, the first of some tokens starts before the last one ends -/
theorem Laid.offset_le {line : String} (h : Laid line ts) (hf : ts.head? = some first) (hl : ts.getLast? = some last) :
    first.offset ≤ last.stop := by
  have ascending : Ascending ts := ascending_of_ordered h.ordered
  exact (ascending.offset_le_last (List.mem_of_head? hf) hl).trans last.offset_le_stop

theorem Addressable.sublist (h : Addressable ts) (sub : us.Sublist ts) : Addressable us where
  ascending := h.ascending.sublist sub
  bounded := fun t ht => h.bounded t (sub.subset ht)

end Token

/-! ## Parts of an expression -/

namespace Expr

/-- an expression stands somewhere in another one, or is all of it -/
inductive Part : Expr → Expr → Prop where
  | whole (e : Expr) : Part e e
  | element {d e : Expr} {es : List Expr} (he : e ∈ es) (part : Part d e) : Part d (list es)

theorem atoms_sublist_atomsList {e : Expr} {es : List Expr} (he : e ∈ es) : e.atoms.Sublist (atomsList es) := by
  induction es with
  | nil => cases he
  | cons e' es ih =>
    rw [atomsList]
    rcases List.mem_cons.1 he with rfl | he
    · exact List.sublist_append_left _ _
    · exact (ih he).trans (List.sublist_append_right _ _)

theorem Part.trans {c d e : Expr} (h : Part c d) (h' : Part d e) : Part c e := by
  induction h' with
  | whole => exact h
  | element he _ ih => exact .element he ih

theorem Part.atoms_sublist {d e : Expr} (h : Part d e) : d.atoms.Sublist e.atoms := by
  induction h with
  | whole => exact List.Sublist.refl _
  | element he _ ih => exact ih.trans (atoms_sublist_atomsList he)

/-- an expression with atoms covers the stretch from the first of them to the last -/
theorem extent?_eq_some_iff {e : Expr} {s : Span} : e.extent? = some s ↔
    ∃ first last, e.atoms.head? = some first ∧ e.atoms.getLast? = some last ∧ Span.cover first.span last.span = s := by
  rw [extent?, firstAtom?_eq, lastAtom?_eq]
  cases e.atoms.head? <;> cases e.atoms.getLast? <;> simp

/-- of atoms laid out along the line, those of an expression span a stretch of the line -/
theorem fits_of_extent? {line : String} {e : Expr} (laid : Token.Laid line e.atoms) {s : Span}
    (h : e.extent? = some s) : s.Fits line := by
  obtain ⟨first, last, hf, hl, rfl⟩ := extent?_eq_some_iff.1 h
  have stop : (Span.cover first.span last.span).stop = last.stop := Span.stop_between (laid.offset_le hf hl)
  apply Span.fits_of_isValid
  · exact (laid.fits first (List.mem_of_head? hf)).start
  · rw [stop]
    exact (laid.fits last (List.mem_of_getLast? hl)).stop

/-- all stretches in the expression come out exactly in words -/
def Measured (e : Expr) : Prop :=
  ∀ d, Part d e → ∀ overflow, d.measure? overflow = some d.extent?

theorem measure?_of_addressable {e : Expr} (h : Token.Addressable e.atoms) (overflow : Overflow) :
    e.measure? overflow = some e.extent? := by
  rw [measure?, extent?, firstAtom?_eq, lastAtom?_eq]
  cases hf : e.atoms.head? with
  | none => rfl
  | some first =>
    cases hl : e.atoms.getLast? with
    | none => rfl
    | some last =>
      have start : first.offset ≤ last.offset := h.ascending.offset_le_last (List.mem_of_head? hf) hl
      have bounded : last.span.Bounded := h.bounded last (List.mem_of_getLast? hl)
      show (Span.cover? overflow first.span last.span).map some = _
      rw [Span.cover?_of_le bounded (start.trans last.offset_le_stop), Option.map_some]

theorem measured_of_addressable {e : Expr} (h : Token.Addressable e.atoms) : e.Measured :=
  fun _ part overflow => measure?_of_addressable (h.sublist part.atoms_sublist) overflow

/-! ## Atoms of a line -/

theorem atom?_piece {t : Token} (ended : t.kind ≠ .endOfInput) (invalid : t.kind ≠ .invalid)
    (blank : t.kind ≠ .whitespace) : t.piece.atom? = Option.guard Token.isAtomic t := by
  obtain ⟨kind, offset, text⟩ := t
  cases kind <;> first | rfl | contradiction

/-- blanks are no atoms -/
theorem filter_isAtomic_solid (c : Cursor) : c.solid.filter Token.isAtomic = c.tokens.filter Token.isAtomic := by
  rw [Cursor.solid, List.filter_filter]
  refine List.filter_congr fun t _ => ?_
  obtain ⟨kind, offset, text⟩ := t
  cases kind <;> rfl

/-- the atoms of a tree are the constants, operators and names of its line, in order -/
theorem atoms_of_parse {line : String} {e : Expr} (h : (parse line).map Located.value = .ok e) :
    e.atoms = (Token.scan line).filter Token.isAtomic := by
  obtain ⟨pieces, -⟩ := flatten_of_parse h
  have valid : ∀ t ∈ Token.scan line, t.kind ≠ .invalid := kind_ne_invalid_of_parse h
  have solid : ∀ t ∈ (Cursor.start line).solid, t.piece.atom? = Option.guard Token.isAtomic t := by
    intro t ht
    obtain ⟨member, blank⟩ := List.mem_filter.1 ht
    have ended : t.kind ≠ .endOfInput := Token.kind_ne_endOfInput_of_mem_scan member
    exact atom?_piece ended (valid t member) (of_decide_eq_true blank)
  calc e.atoms
    _ = e.flatten.filterMap Piece.atom? := (atoms_flatten e).symm
    _ = (Cursor.start line).solid.filterMap fun t => t.piece.atom? := by rw [← pieces, List.filterMap_map]; rfl
    _ = (Cursor.start line).solid.filterMap (Option.guard Token.isAtomic) := List.filterMap_congr solid
    _ = (Cursor.start line).solid.filter Token.isAtomic := congrFun List.filterMap_eq_filter _
    _ = (Token.scan line).filter Token.isAtomic := filter_isAtomic_solid _

theorem laid_atoms_of_parse {line : String} {e : Expr} (h : (parse line).map Located.value = .ok e) :
    Token.Laid line e.atoms := by
  rw [atoms_of_parse h]
  exact (Token.laid_scan line).sublist List.filter_sublist

end Expr

end ExactCalc
