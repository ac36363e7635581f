/-
Where failures are placed.

A failure of reading is placed at a token as soon as it arises. A failure of evaluation may arise where there is no atom
to point at; it then goes out through the lists around it until one of them has atoms, and that one places it.
`Expr.Blames c f`: a reader that starts at `c` may fail with `f`, which says at which of its tokens. `Traced places x`:
if `x` is a failure, it has no place yet, or just one, and that is one of `places`.

Results:
- `blames_of_parse`: a line is refused at one or two of its tokens.
- `traced_evaluateAt`: by induction on the tree, the places that evaluation notes are stretches of parts of the tree,
  and no failure that has a place is given another one on its way out.
- `located_once`: **every failure of a line is located exactly once**, if the line has anything to point at.
-/
import ExactCalc.Session
import ExactCalc.Proofs.Checks
import ExactCalc.Proofs.Placement

namespace ExactCalc

namespace Failure

/-! ## Failures with one place -/

/-- the failure has exactly one place, and that fits the line -/
def LocatedIn (line : String) (f : Failure) : Prop :=
  ∃ l, f.trail = [l] ∧ l.span.Fits line

/-- the failure has no place, or just one, and that is one of these -/
def Placed (places : Span → Prop) (f : Failure) : Prop :=
  f.trail = [] ∨ ∃ l, f.trail = [l] ∧ places l.span

variable {places places' : Span → Prop} {f : Failure}

theorem placed_of (r : Reason) : (of r).Placed places :=
  .inl rfl

theorem placed_tag_of (r : Reason) {s : Span} (h : places s) (a : Activity) : ((of r).tag s a).Placed places :=
  .inr ⟨⟨s, a⟩, rfl, h⟩

theorem placed_tagOption_of (r : Reason) {s? : Option Span} (h : ∀ s, s? = some s → places s) (a : Activity) :
    ((of r).tagOption s? a).Placed places := by
  cases s? with
  | none => exact placed_of r
  | some s => exact placed_tag_of r (h s rfl) a

theorem Placed.mono (h : f.Placed places) (more : ∀ s, places s → places' s) : f.Placed places' := by
  rcases h with bare | ⟨l, located, here⟩
  · exact .inl bare
  · exact .inr ⟨l, located, more _ here⟩

theorem Placed.length_le (h : f.Placed places) : f.trail.length ≤ 1 := by
  rcases h with bare | ⟨l, located, -⟩
  · simp [bare]
  · simp [located]

/-- a place is noted only where there is none -/
theorem Placed.tagOptionIfBare (h : f.Placed places) {s? : Option Span} (here : ∀ s, s? = some s → places s)
    (a : Activity) : (f.tagOptionIfBare s? a).Placed places := by
  cases s? with
  | none => exact h
  | some s =>
    rcases h with bare | ⟨l, located, there⟩
    · right
      exact ⟨⟨s, a⟩, by simp [Failure.tagOptionIfBare, tagIfBare, bare], here s rfl⟩
    · right
      exact ⟨l, by simp [Failure.tagOptionIfBare, tagIfBare, located], there⟩

theorem trail_tagOptionIfBare_ne_nil {s : Span} {a : Activity} : (f.tagOptionIfBare (some s) a).trail ≠ [] := by
  rw [Failure.tagOptionIfBare, tagIfBare]
  split_ifs with bare
  · simp
  · exact bare

end Failure

namespace Expr

/-! ## Reading -/

/-- a reader that starts at this cursor may fail so, and these tokens are to blame -/
inductive Blames (c : Cursor) : Failure → Prop where
  | unexpected {d : Cursor} (behind : c.Reaches d) (h : d.token.kind = .invalid) : Blames c (unexpected d.token)
  | noEntry {d : Cursor} (behind : c.Reaches d) (h : d.token.kind = .closeParen ∨ d.token.kind = .endOfInput) :
      Blames c (noEntry d.token)
  | unterminated {o d : Cursor} (behind : c.Reaches o) (inside : o.afterToken.Reaches d)
      (h : d.token.kind = .endOfInput) : Blames c (unterminated o.token d.token)
  | tooDeep {o : Cursor} (behind : c.Reaches o) :
      Blames c ((Failure.of (.tooDeep maxDepth)).tag o.token.span .parse)
  | trailing {d : Cursor} (behind : c.Reaches d) : Blames c (trailing d.token)

mutual

theorem blames_of_refuses {depth : ℕ} {c d next : Cursor} {f : Failure} (behind : c.Reaches d) :
    Refuses depth d f next → Blames c f
  | .list _ elements => blames_of_refusesElements rfl behind (Cursor.reaches_refl _) elements
  | .invalid h => .unexpected behind h
  | .noEntry h => .noEntry behind h

/-- inside a list the parenthesis that opened it may be to blame, too -/
theorem blames_of_refusesElements {depth : ℕ} {opening : Token} {c o d next : Cursor} {f : Failure}
    (same : opening = o.token) (behind : c.Reaches o) (inside : o.afterToken.Reaches d) :
    RefusesElements depth opening d f next → Blames c f
  | .unterminated h => same ▸ .unterminated behind inside h
  | .invalid h => .unexpected (behind.trans ((Cursor.reaches_afterToken o).trans inside)) h
  | .tooDeep _ _ => same ▸ .tooDeep behind
  | .first _ _ first =>
    blames_of_refuses (behind.trans ((Cursor.reaches_afterToken o).trans inside)) first
  | .others _ _ first others => blames_of_refusesElements same behind (inside.trans first.reaches) others

end

/-- a line is refused at its tokens -/
theorem blames_of_parse {line : String} {f : Failure} (h : parse line = .error f) : Blames (Cursor.start line) f := by
  rcases parse_eq_error_iff.1 h with ⟨next, refused⟩ | ⟨e, next, read, refused⟩
  · exact blames_of_refuses (Cursor.reaches_refl _) refused
  · unfold finish at refused
    split_ifs at refused with ended invalid
    · cases refused
      exact .unexpected read.reaches invalid
    · cases refused
      exact .trailing read.reaches

theorem Blames.locatedIn {line : String} {c : Cursor} {f : Failure} (on : Cursor.On line c) :
    Blames c f → f.LocatedIn line
  | .unexpected behind _ => ⟨_, rfl, (behind.on on).fits_token⟩
  | .noEntry behind _ => ⟨_, rfl, (behind.on on).fits_token⟩
  | .tooDeep behind => ⟨_, rfl, (behind.on on).fits_token⟩
  | .trailing behind => ⟨_, rfl, (behind.on on).fits_token⟩
  | .unterminated (o := o) (d := d) behind inside _ => by
    have opening : o.token.span.Fits line := (behind.on on).fits_token
    have ending : d.token.span.Fits line :=
      (inside.on ((Cursor.reaches_afterToken o).on (behind.on on))).fits_token
    have ordered : o.token.offset ≤ d.token.offset :=
      o.token.offset_le_stop.trans (inside.trans (Cursor.reaches_skipBlanks d)).offset_le
    refine ⟨_, rfl, Span.fits_of_isValid opening.start ?_⟩
    rw [Span.stop_between ordered]
    exact ending.start

end Expr

/-! ## Evaluating -/

/-- a failure in this place of the work has no place of the line yet, or just one of these -/
def Traced {α : Type} (places : Span → Prop) (x : Except Failure α) : Prop :=
  ∀ f, x = .error f → f.Placed places

namespace Traced

variable {α β : Type} {places places' : Span → Prop} {x : Except Failure α}

theorem ok (a : α) : Traced places (.ok a : Except Failure α) :=
  nofun

theorem error {f : Failure} (h : f.Placed places) : Traced places (.error f : Except Failure α) := by
  intro g same
  cases same
  exact h

theorem bind {k : α → Except Failure β} (first : Traced places x) (second : ∀ a, x = .ok a → Traced places (k a)) :
    Traced places (x >>= k) := by
  cases x with
  | error f => exact error (first f rfl)
  | ok a => exact second a rfl

theorem map {k : α → β} (h : Traced places x) : Traced places (x.map k) := by
  cases x with
  | error f => exact error (h f rfl)
  | ok a => exact ok (k a)

theorem mapError {k : Failure → Failure} (h : Traced places x)
    (placed : ∀ f : Failure, f.Placed places → (k f).Placed places') : Traced places' (x.mapError k) := by
  cases x with
  | error f => exact error (placed f (h f rfl))
  | ok a => exact ok a

theorem mono (h : Traced places x) (more : ∀ s, places s → places' s) : Traced places' x :=
  fun f failed => (h f failed).mono more

end Traced

namespace Expr

/-- the stretch from the first to the last atom of a part of the expression -/
def Marks (e : Expr) (s : Span) : Prop :=
  ∃ d, Part d e ∧ d.extent? = some s

/-- the stretch from the first to the last atom of a part of one of these expressions -/
def MarksList (es : List Expr) (s : Span) : Prop :=
  ∃ e ∈ es, e.Marks s

theorem marks_extent {e : Expr} {s : Span} (h : e.extent? = some s) : e.Marks s :=
  ⟨e, .whole e, h⟩

theorem MarksList.marks {es : List Expr} {s : Span} (h : MarksList es s) : (list es).Marks s := by
  obtain ⟨e, he, d, part, extent⟩ := h
  exact ⟨d, .element he part, extent⟩

theorem traced_atomValue (t : Token) : Traced (atom t).Marks (atomValue t) := by
  have here : (atom t).Marks t.span := marks_extent (extent?_atom t)
  rw [atomValue]
  split_ifs with constant
  · cases Number.ofText t.text with
    | ok a => exact .ok a
    | error r => exact .error (Failure.placed_tag_of r here .evaluate)
  · exact .error (Failure.placed_tag_of _ here .evaluate)

theorem traced_callee (head : Expr) : Traced head.Marks (callee head) := by
  intro f failed
  rw [eq_undefinedHead_of_callee failed]
  exact Failure.placed_tagOption_of _ (fun s => marks_extent) .evaluate

theorem traced_checkOperand (e : Expr) : Traced e.Marks (checkOperand e) := by
  cases e with
  | list es => exact .ok ()
  | nil => exact .error (Failure.placed_of _)
  | atom t =>
    rw [checkOperand]
    split_ifs with operator
    · exact .error (Failure.placed_tag_of _ (marks_extent (extent?_atom t)) .evaluate)
    · exact .ok ()

theorem traced_deeper {places : Span → Prop} (depth : ℕ) : Traced places ((deeper depth).mapError Failure.of) := by
  cases deeper depth with
  | ok inner => exact .ok inner
  | error r => exact .error (Failure.placed_of r)

theorem traced_applyAt (t : Token) (f : Operation) (as : List Number) : Traced (atom t).Marks (applyAt t f as) := by
  rw [applyAt]
  cases f.apply as with
  | ok a => exact .ok a
  | error r => exact .error (Failure.placed_tag_of r (marks_extent (extent?_atom t)) .call)

mutual

/-- a failure of evaluation is placed at a part of the tree, once at most -/
theorem traced_evaluateAt (depth : ℕ) : (e : Expr) → Traced e.Marks (evaluateAt depth e)
  | .atom t => by
    rw [evaluateAt]
    exact (traced_atomValue t).map
  | .nil => by
    rw [evaluateAt]
    exact .ok none
  | .list es => by
    rw [evaluateAt]
    refine (traced_callAt depth es).map.mapError fun f placed => ?_
    exact (placed.mono fun s => MarksList.marks).tagOptionIfBare (fun s => marks_extent) .evaluate

theorem traced_callAt (depth : ℕ) : (es : List Expr) → Traced (MarksList es) (callAt depth es)
  | [] => by
    rw [callAt]
    exact .error (Failure.placed_of _)
  | head :: operands => by
    have first {s : Span} (h : head.Marks s) : MarksList (head :: operands) s := ⟨head, List.mem_cons_self, h⟩
    rw [callAt]
    refine ((traced_callee head).mono fun s => first).bind fun (t, f) named => ?_
    refine (traced_deeper depth).bind fun inner _ => ?_
    refine Traced.bind ((traced_operandsAt inner operands).mono ?_) fun as _ => ?_
    · rintro s ⟨e, he, marks⟩
      exact ⟨e, List.mem_cons_of_mem _ he, marks⟩
    · obtain ⟨rfl, -⟩ := callee_eq_ok_iff.1 named
      exact (traced_applyAt t f as).mono fun s => first

theorem traced_operandsAt (depth : ℕ) : (es : List Expr) → Traced (MarksList es) (operandsAt depth es)
  | [] => by
    rw [operandsAt]
    exact .ok []
  | e :: es => by
    have here {s : Span} (h : e.Marks s) : MarksList (e :: es) s := ⟨e, List.mem_cons_self, h⟩
    rw [operandsAt]
    refine ((traced_checkOperand e).mono fun s => here).bind fun _ _ => ?_
    refine ((traced_evaluateAt depth e).mono fun s => here).bind fun a? _ => ?_
    refine Traced.bind ((traced_operandsAt depth es).mono ?_) fun as _ => .ok _
    rintro s ⟨e', he', marks⟩
    exact ⟨e', List.mem_cons_of_mem _ he', marks⟩

end

/-- an expression with atoms does not let a failure out that has no place -/
theorem trail_ne_nil_of_atoms {depth : ℕ} {e : Expr} {f : Failure} (atoms : e.atoms ≠ [])
    (h : evaluateAt depth e = .error f) : f.trail ≠ [] := by
  cases e with
  | nil => exact absurd rfl atoms
  | atom t =>
    rw [evaluateAt, atomValue] at h
    split_ifs at h with constant
    · cases read : Number.ofText t.text with
      | ok a => rw [read] at h; cases h
      | error r => rw [read] at h; cases h; simp
    · cases h
      simp
  | list es =>
    obtain ⟨s, extent⟩ : ∃ s, (list es).extent? = some s :=
      Option.ne_none_iff_exists'.1 (mt (extent?_eq_none_iff _).1 atoms)
    rw [evaluateAt, extent] at h
    cases called : callAt depth es with
    | ok a => rw [called] at h; cases h
    | error g =>
      rw [called] at h
      cases h
      exact Failure.trail_tagOptionIfBare_ne_nil

/-- a list without atoms has no head to call, and nothing to point at -/
theorem evaluateAt_of_no_atoms (depth : ℕ) {head : Expr} {operands : List Expr}
    (h : (list (head :: operands)).atoms = []) :
    evaluateAt depth (list (head :: operands)) = .error (Failure.of (.undefinedFunction head.text)) := by
  have extent : (list (head :: operands)).extent? = none := (extent?_eq_none_iff _).2 h
  have atoms : head.atoms = [] := (List.append_eq_nil_iff.1 h).1
  have bare : undefinedHead head = Failure.of (.undefinedFunction head.text) := by
    rw [undefinedHead, (extent?_eq_none_iff _).2 atoms]
    rfl
  have unnamed : callee head = .error (undefinedHead head) := by
    cases head with
    | atom t => cases atoms
    | list es => rfl
    | nil => rfl
  rw [evaluateAt, callAt, unnamed, extent, bare]
  rfl

/-- a failure in a tree that is laid out along a line is located there -/
theorem locatedIn_of_evaluateAt {line : String} {depth : ℕ} {e : Expr} {f : Failure}
    (laid : Token.Laid line e.atoms) (atoms : e.atoms ≠ []) (h : evaluateAt depth e = .error f) :
    f.LocatedIn line := by
  rcases traced_evaluateAt depth e f h with bare | ⟨l, located, d, part, extent⟩
  · exact absurd bare (trail_ne_nil_of_atoms atoms h)
  · exact ⟨l, located, fits_of_extent? (laid.sublist part.atoms_sublist) extent⟩

end Expr

/-! ## Lines -/

/-- **Every failure of a line is located exactly once**, in the line and between its characters, unless the line is read
as a list that has elements and no atoms. What is wrong with such a list is that its head names no function, and this is
reported without a place. Evaluation never gives a failure a second place, at whatever depth it arises. -/
theorem located_once :
    (∀ (line : String) (f : Failure), evaluateLine line = .error f →
      f.LocatedIn line ∨
        ∃ head operands, (Expr.parse line).map Located.value = .ok (.list (head :: operands)) ∧
          (Expr.list (head :: operands)).atoms = []) ∧
    (∀ (line : String) (head : Expr) (operands : List Expr),
      (Expr.parse line).map Located.value = .ok (.list (head :: operands)) →
        (Expr.list (head :: operands)).atoms = [] →
          evaluateLine line = .error (Failure.of (.undefinedFunction head.text))) ∧
    ∀ (depth : ℕ) (e : Expr) (f : Failure), e.evaluateAt depth = .error f → f.trail.length ≤ 1 := by
  refine ⟨?_, ?_, fun depth e f h => (Expr.traced_evaluateAt depth e f h).length_le⟩
  · intro line f failed
    rcases read : Expr.parse line with g | ⟨span, e⟩
    · rw [evaluateLine_of_refused read] at failed
      cases failed
      exact .inl ((Expr.blames_of_parse read).locatedIn (Cursor.on_start line))
    · have tree : (Expr.parse line).map Located.value = .ok e := Expr.map_value_eq_ok_iff.2 ⟨span, read⟩
      rw [evaluateLine_of_read read] at failed
      by_cases atoms : e.atoms = []
      · right
        cases e with
        | atom t => cases atoms
        | nil => rw [Expr.evaluate_nil] at failed; cases failed
        | list es =>
          have proper := (Expr.flatten_of_parse tree).2.proper
          cases es with
          | nil => exact absurd rfl proper.1
          | cons head operands => exact ⟨head, operands, rfl, atoms⟩
      · exact .inl (Expr.locatedIn_of_evaluateAt (Expr.laid_atoms_of_parse tree) atoms failed)
  · intro line head operands tree atoms
    obtain ⟨span, read⟩ := Expr.map_value_eq_ok_iff.1 tree
    rw [evaluateLine_of_read read]
    exact Expr.evaluateAt_of_no_atoms 0 atoms

/-- `()` is placed by the list around it, and by nothing where no list has an atom -/
theorem located_once_nil :
    let line := "(+ 1 (neg ()))"
    let e : Expr :=
      .list [.atom ⟨.operator, 1, "+"⟩, .atom ⟨.constant, 3, "1"⟩, .list [.atom ⟨.identifier, 6, "neg"⟩, .nil]]
    let f := (Failure.of (.invalidOperand "()")).tag ⟨6, 3⟩ .evaluate
    evaluateLine line = .error f ∧ f.LocatedIn line ∧ e.evaluateAt 0 = .error f ∧ f.trail.length ≤ 1 ∧
      (Expr.parse "(())").map Located.value = .ok (.list [.nil]) ∧
      evaluateLine "(())" = .error (Failure.of (.undefinedFunction (Expr.nil).text)) := by
  intro line e f
  have failed : evaluateLine line = .error f := by decide +kernel
  have read : (Expr.parse line).map Located.value = .ok e := by decide +kernel
  have inner : e.evaluateAt 0 = .error f := by decide +kernel
  have empty : (Expr.parse "(())").map Located.value = .ok (.list [.nil]) := by decide +kernel
  have placed : f.LocatedIn line := by
    rcases located_once.1 line f failed with here | ⟨head, operands, read', none⟩
    · exact here
    · have same : e = .list (head :: operands) := Except.ok.inj (read.symm.trans read')
      rw [← same] at none
      cases none
  exact ⟨failed, placed, inner, located_once.2.2 0 e f inner, empty, located_once.2.1 _ _ _ empty rfl⟩

end ExactCalc
