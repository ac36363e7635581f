/-
Layout does not matter.

A reader sees where each token stands, the blanks around it decide that, and every tree and every failure keeps it. Two
runs are compared here that see the same tokens at different places. `Cursor.Alike c c'`: from these cursors on, the
tokens that are not blank say the same. `Agree R x y`: both results are there and related by `R`, or both are failures
that differ in their places at most.

Results:
- `reads_of_alike`, `refuses_of_alike`: by induction on a derivation of the reader's rules, a reader at the other cursor
  does the same, and is left at a cursor that is alike again.
- `agree_evaluateAt`: by induction on the tree, evaluation asks for places only to report them.
- `layout_irrelevant`: **layout never influences a result**.
-/
import ExactCalc.Session
import ExactCalc.Proofs.Denotation
import ExactCalc.Proofs.RoundTrip

namespace ExactCalc

/-! ## Places left out -/

/-- what a token is and what it says, but not where it stands -/
def Token.content (t : Token) : Token.Kind × String :=
  (t.kind, t.text)

/-- what the tokens of a line say, blanks left out -/
def contents (line : String) : List (Token.Kind × String) :=
  ((Token.scan line).filter fun t => t.kind ≠ .whitespace).map Token.content

/-- the same place in every line -/
def Span.origin : Span :=
  ⟨0, 0⟩

/-- the failure with all its places moved to the same one -/
def Failure.unplaced (f : Failure) : Failure :=
  { f with trail := f.trail.map fun l => { l with span := .origin } }

section
variable {t u : Token}

theorem Token.kind_eq_of_content (h : t.content = u.content) : t.kind = u.kind :=
  congrArg Prod.fst h

theorem Token.text_eq_of_content (h : t.content = u.content) : t.text = u.text :=
  congrArg Prod.snd h

theorem Token.isAtomic_eq_of_content (h : t.content = u.content) : t.isAtomic = u.isAtomic :=
  congrArg Kind.isAtomic (kind_eq_of_content h)

theorem Token.Starts.of_content (h : t.content = u.content) (starts : t.Starts) : u.Starts := by
  rwa [Starts, ← isAtomic_eq_of_content h, ← kind_eq_of_content h]

end

namespace Failure

variable {f g : Failure}

@[simp] theorem unplaced_of (r : Reason) : (of r).unplaced = of r := rfl

@[simp] theorem unplaced_tag (f : Failure) (s : Span) (a : Activity) :
    (f.tag s a).unplaced = f.unplaced.tag .origin a := by
  simp [unplaced, tag]

/-- whether a failure has a place does not depend on which one it is -/
theorem trail_unplaced_eq_nil_iff : f.unplaced.trail = [] ↔ f.trail = [] :=
  List.map_eq_nil_iff

@[simp] theorem unplaced_tagOption (f : Failure) (s? : Option Span) (a : Activity) :
    (f.tagOption s? a).unplaced = f.unplaced.tagOption (s?.map fun _ => .origin) a := by
  cases s? with
  | none => rfl
  | some s => exact unplaced_tag f s a

@[simp] theorem unplaced_tagOptionIfBare (f : Failure) (s? : Option Span) (a : Activity) :
    (f.tagOptionIfBare s? a).unplaced = f.unplaced.tagOptionIfBare (s?.map fun _ => .origin) a := by
  cases s? with
  | none => rfl
  | some s =>
    simp only [tagOptionIfBare, tagIfBare, Option.map_some, trail_unplaced_eq_nil_iff]
    split_ifs
    · exact unplaced_tag f s a
    · rfl

end Failure

/-! ## Results that agree -/

/-- both results are there and related, or both are failures that differ in their places at most -/
inductive Agree {α β : Type} (R : α → β → Prop) : Except Failure α → Except Failure β → Prop where
  | ok {a : α} {b : β} (related : R a b) : Agree R (.ok a) (.ok b)
  | error {f g : Failure} (same : f.unplaced = g.unplaced) : Agree R (.error f) (.error g)

namespace Agree

variable {α β γ δ : Type} {R : α → β → Prop} {S : γ → δ → Prop} {x : Except Failure α} {y : Except Failure β}

theorem bind {k : α → Except Failure γ} {l : β → Except Failure δ} (first : Agree R x y)
    (second : ∀ a b, R a b → Agree S (k a) (l b)) : Agree S (x >>= k) (y >>= l) := by
  cases first with
  | ok related => exact second _ _ related
  | error same => exact .error same

theorem map {k : α → γ} {l : β → δ} (h : Agree R x y) (related : ∀ a b, R a b → S (k a) (l b)) :
    Agree S (x.map k) (y.map l) := by
  cases h with
  | ok here => exact .ok (related _ _ here)
  | error same => exact .error same

theorem mapError {k l : Failure → Failure} (h : Agree R x y)
    (same : ∀ f g : Failure, f.unplaced = g.unplaced → (k f).unplaced = (l g).unplaced) :
    Agree R (x.mapError k) (y.mapError l) := by
  cases h with
  | ok related => exact .ok related
  | error here => exact .error (same _ _ here)

theorem symm {x y : Except Failure α} (h : Agree (· = ·) x y) : Agree (· = ·) y x := by
  cases h with
  | ok related => exact .ok related.symm
  | error same => exact .error same.symm

theorem trans {x y z : Except Failure α} (h : Agree (· = ·) x y) (h' : Agree (· = ·) y z) : Agree (· = ·) x z := by
  cases h with
  | ok related =>
    cases h' with
    | ok related' => exact .ok (related.trans related')
  | error same =>
    cases h' with
    | error same' => exact .error (same.trans same')

end Agree

/-! ## Cursors that are alike -/

namespace Cursor

/-- from here on the tokens that are not blank say the same -/
def Alike (c c' : Cursor) : Prop :=
  c.solid.map Token.content = c'.solid.map Token.content

variable {c c' : Cursor}

theorem content_of_end (h : c.token.kind = .endOfInput) : c.token.content = (.endOfInput, "") := by
  rw [token, peek_of_end h]
  rfl

theorem Alike.content_token (h : c.Alike c') : c.token.content = c'.token.content := by
  by_cases ended : c.token.kind = .endOfInput
  · have nothing : c'.solid = [] := by
      rwa [Alike, solid_of_end ended, List.map_nil, eq_comm, List.map_eq_nil_iff] at h
    rw [content_of_end ended, content_of_end (solid_eq_nil_iff.1 nothing)]
  · rw [Alike, solid_of_token ended, List.map_cons, eq_comm, List.map_eq_cons_iff] at h
    obtain ⟨t, ts, solid, same, -⟩ := h
    rw [(of_solid_eq_cons solid).1, same]

theorem Alike.afterToken (h : c.Alike c') (more : c.token.kind ≠ .endOfInput) : c.afterToken.Alike c'.afterToken := by
  rw [Alike, solid_of_token more, List.map_cons, eq_comm, List.map_eq_cons_iff] at h
  obtain ⟨t, ts, solid, -, others⟩ := h
  rw [Alike, (of_solid_eq_cons solid).2, others]

end Cursor

namespace Expr

/-! ## Two readers -/

theorem unplaced_ofList (es : List Expr) : (ofList es).unplaced = ofList (unplacedList es) :=
  mapTokens_ofList _ es

theorem unplaced_atom_of_content {t u : Token} (h : t.content = u.content) : (atom t).unplaced = (atom u).unplaced := by
  show atom ⟨t.kind, 0, t.text⟩ = atom ⟨u.kind, 0, u.text⟩
  rw [Token.kind_eq_of_content h, Token.text_eq_of_content h]

theorem unplaced_unexpected {t u : Token} (h : t.content = u.content) :
    (unexpected t).unplaced = (unexpected u).unplaced := by
  simp only [unexpected, Failure.unplaced_tag, Failure.unplaced_of, Token.text_eq_of_content h]

theorem unplaced_noEntry {t u : Token} (h : t.content = u.content) : (noEntry t).unplaced = (noEntry u).unplaced := by
  simp only [noEntry, Failure.unplaced_tag, Failure.unplaced_of, Token.kind_eq_of_content h]

mutual

/-- what is read at one cursor is read at the other, up to places -/
theorem reads_of_alike {depth : ℕ} {c c' next : Cursor} {e : Located Expr} (alike : c.Alike c') :
    Reads depth c e next →
      ∃ e' next', Reads depth c' e' next' ∧ e.value.unplaced = e'.value.unplaced ∧ next.Alike next'
  | .atom h => by
    have same := alike.content_token
    rw [Token.isAtomic_eq_of_content same] at h
    exact ⟨_, _, .atom h, unplaced_atom_of_content same,
      alike.afterToken (by rw [Token.kind_eq_of_content same]; exact kind_ne_endOfInput_of_isAtomic h)⟩
  | .list h elements => by
    have opens := Token.kind_eq_of_content alike.content_token ▸ h
    obtain ⟨es', stop', next', elements', same, alike'⟩ :=
      readsElements_of_alike (alike.afterToken (by simp [h])) c'.token elements
    refine ⟨_, next', .list opens elements', ?_, alike'⟩
    rw [unplaced_ofList, unplaced_ofList, same]

theorem readsElements_of_alike {depth : ℕ} {opening : Token} {c c' next : Cursor} {es : List Expr} {stop : ℕ}
    (alike : c.Alike c') (opening' : Token) :
    ReadsElements depth opening c es stop next →
      ∃ es' stop' next', ReadsElements depth opening' c' es' stop' next' ∧ unplacedList es = unplacedList es' ∧
        next.Alike next'
  | .close h =>
    ⟨_, _, _, .close (Token.kind_eq_of_content alike.content_token ▸ h), rfl, alike.afterToken (by simp [h])⟩
  | .cons starts room first others => by
    obtain ⟨e', middle', first', same, alike'⟩ := reads_of_alike alike first
    obtain ⟨es', stop', next', others', sames, alike''⟩ := readsElements_of_alike alike' opening' others
    exact ⟨_, _, next', .cons (starts.of_content alike.content_token) room first' others',
      congrArg₂ List.cons same sames, alike''⟩

end

mutual

/-- what is refused at one cursor is refused at the other, up to places -/
theorem refuses_of_alike {depth : ℕ} {c c' next : Cursor} {f : Failure} (alike : c.Alike c') :
    Refuses depth c f next → ∃ f' next', Refuses depth c' f' next' ∧ f.unplaced = f'.unplaced
  | .list h elements => by
    have opens := Token.kind_eq_of_content alike.content_token ▸ h
    obtain ⟨f', next', elements', same⟩ :=
      refusesElements_of_alike (alike.afterToken (by simp [h])) c'.token elements
    exact ⟨f', next', .list opens elements', same⟩
  | .invalid h =>
    ⟨_, _, .invalid (Token.kind_eq_of_content alike.content_token ▸ h), unplaced_unexpected alike.content_token⟩
  | .noEntry h =>
    ⟨_, _, .noEntry (Token.kind_eq_of_content alike.content_token ▸ h), unplaced_noEntry alike.content_token⟩

theorem refusesElements_of_alike {depth : ℕ} {opening : Token} {c c' next : Cursor} {f : Failure}
    (alike : c.Alike c') (opening' : Token) :
    RefusesElements depth opening c f next →
      ∃ f' next', RefusesElements depth opening' c' f' next' ∧ f.unplaced = f'.unplaced
  | .unterminated h => ⟨_, _, .unterminated (Token.kind_eq_of_content alike.content_token ▸ h), rfl⟩
  | .invalid h =>
    ⟨_, _, .invalid (Token.kind_eq_of_content alike.content_token ▸ h), unplaced_unexpected alike.content_token⟩
  | .tooDeep starts deep => ⟨_, _, .tooDeep (starts.of_content alike.content_token) deep, rfl⟩
  | .first starts room first => by
    obtain ⟨f', next', first', same⟩ := refuses_of_alike alike first
    exact ⟨f', next', .first (starts.of_content alike.content_token) room first', same⟩
  | .others starts room first others => by
    obtain ⟨e', middle', first', -, alike'⟩ := reads_of_alike alike first
    obtain ⟨f', next', others', same⟩ := refusesElements_of_alike alike' opening' others
    exact ⟨f', next', .others (starts.of_content alike.content_token) room first' others', same⟩

end

theorem agree_finish {c c' : Cursor} (alike : c.Alike c') : Agree (· = ·) (finish c).1 (finish c').1 := by
  have same := alike.content_token
  unfold finish
  rw [← Token.kind_eq_of_content same]
  split_ifs with ended invalid
  · exact .ok rfl
  · exact .error (unplaced_unexpected same)
  · exact .error rfl

/-- two lines that say the same are read as the same tree up to places, or refused alike -/
theorem agree_parse {line line' : String} (h : contents line = contents line') :
    Agree (fun e e' => e.value.unplaced = e'.value.unplaced) (parse line) (parse line') := by
  have alike : (Cursor.start line).Alike (Cursor.start line') := h
  cases read : parse line with
  | ok e =>
    obtain ⟨next, reads, ended⟩ := parse_eq_ok_iff_reads.1 read
    obtain ⟨e', next', reads', same, alike'⟩ := reads_of_alike alike reads
    have ended' : next'.token.kind = .endOfInput := by
      rwa [← Token.kind_eq_of_content alike'.content_token]
    rw [parse_eq_ok_iff_reads.2 ⟨next', reads', ended'⟩]
    exact .ok same
  | error f =>
    rcases parse_eq_error_iff.1 read with ⟨next, refused⟩ | ⟨e, next, reads, refused⟩
    · obtain ⟨f', next', refused', same⟩ := refuses_of_alike alike refused
      rw [parse_eq_error_iff.2 (.inl ⟨next', refused'⟩)]
      exact .error same
    · obtain ⟨e', next', reads', -, alike'⟩ := reads_of_alike alike reads
      have finished := agree_finish alike'
      rw [refused] at finished
      cases refused' : (finish next').1 with
      | ok u =>
        rw [refused'] at finished
        cases finished
      | error f' =>
        rw [refused'] at finished
        rw [parse_eq_error_iff.2 (.inr ⟨e', next', reads', refused'⟩)]
        cases finished with
        | error same => exact .error same

/-! ## Two evaluations -/

section
variable {f : Token → Token} (same : ∀ t, (f t).content = t.content)

theorem extent?_mapTokens (e : Expr) (s : Span) :
    ((e.mapTokens f).extent?.map fun _ => s) = e.extent?.map fun _ => s := by
  simp only [extent?, firstAtom?_eq, lastAtom?_eq, atoms_mapTokens, List.head?_map, List.getLast?_map]
  cases e.atoms.head? <;> cases e.atoms.getLast? <;> rfl

include same

theorem text_mapTokens_of_content (e : Expr) : (e.mapTokens f).text = e.text :=
  text_mapTokens (fun t => Token.text_eq_of_content (same t)) e

theorem agree_atomValue (t : Token) : Agree (· = ·) (atomValue (f t)) (atomValue t) := by
  rw [atomValue, atomValue, Token.kind_eq_of_content (same t), Token.text_eq_of_content (same t)]
  split_ifs with constant
  · cases Number.ofText t.text with
    | ok a => exact .ok rfl
    | error r => exact .error rfl
  · exact .error rfl

theorem agree_undefinedHead (head : Expr) :
    (undefinedHead (head.mapTokens f)).unplaced = (undefinedHead head).unplaced := by
  rw [undefinedHead, undefinedHead, Failure.unplaced_tagOption, Failure.unplaced_tagOption,
    text_mapTokens_of_content same, extent?_mapTokens]

/-- the head names the same operation, by an atom at another place -/
theorem agree_callee (head : Expr) :
    Agree (fun named named' => named.2 = named'.2) (callee (head.mapTokens f)) (callee head) := by
  have unnamed := agree_undefinedHead same head
  cases head with
  | list es => exact .error unnamed
  | nil => exact .error unnamed
  | atom t =>
    rw [mapTokens, callee, callee, Token.kind_eq_of_content (same t), Token.text_eq_of_content (same t)]
    split_ifs with kind
    · cases Operation.named? t.text with
      | some g => exact .ok rfl
      | none => exact .error unnamed
    · exact .error unnamed

theorem agree_checkOperand (e : Expr) : Agree (· = ·) (checkOperand (e.mapTokens f)) (checkOperand e) := by
  cases e with
  | list es => exact .ok rfl
  | nil => exact .error rfl
  | atom t =>
    rw [mapTokens, checkOperand, checkOperand, Token.kind_eq_of_content (same t), Token.text_eq_of_content (same t)]
    split_ifs with operator
    · exact .error rfl
    · exact .ok rfl

omit same in
theorem agree_applyAt (t u : Token) (g : Operation) (as : List Number) :
    Agree (· = ·) (applyAt t g as) (applyAt u g as) := by
  rw [applyAt, applyAt]
  cases g.apply as with
  | ok a => exact .ok rfl
  | error r => exact .error rfl

mutual

/-- evaluation asks for places only to report them -/
theorem agree_evaluateAt (depth : ℕ) : (e : Expr) →
    Agree (· = ·) (evaluateAt depth (e.mapTokens f)) (evaluateAt depth e)
  | .atom t => by
    rw [mapTokens, evaluateAt, evaluateAt]
    exact (agree_atomValue same t).map fun _ _ => congrArg some
  | .nil => by
    rw [mapTokens, evaluateAt]
    exact .ok rfl
  | .list es => by
    have call := (agree_callAt depth es).map (S := (· = ·)) fun _ _ => congrArg some
    rw [mapTokens, evaluateAt, evaluateAt]
    refine call.mapError fun g g' here => ?_
    rw [Failure.unplaced_tagOptionIfBare, Failure.unplaced_tagOptionIfBare, here, ← mapTokens, extent?_mapTokens]

theorem agree_callAt (depth : ℕ) : (es : List Expr) →
    Agree (· = ·) (callAt depth (mapTokensList f es)) (callAt depth es)
  | [] => by
    rw [mapTokensList, callAt]
    exact .error rfl
  | head :: operands => by
    rw [mapTokensList, callAt, callAt]
    refine (agree_callee same head).bind fun (t, g) (u, g') named => ?_
    obtain rfl : g = g' := named
    by_cases room : depth < maxDepth
    · rw [deeper_of_lt room]
      refine (agree_operandsAt (depth + 1) operands).bind fun as as' values => ?_
      rw [values]
      exact agree_applyAt t u g as'
    · rw [deeper_of_le (Nat.le_of_not_lt room)]
      exact .error rfl

theorem agree_operandsAt (depth : ℕ) : (es : List Expr) →
    Agree (· = ·) (operandsAt depth (mapTokensList f es)) (operandsAt depth es)
  | [] => by
    rw [mapTokensList, operandsAt]
    exact .ok rfl
  | e :: es => by
    rw [mapTokensList, operandsAt, operandsAt]
    refine (agree_checkOperand same e).bind fun _ _ _ => ?_
    refine (agree_evaluateAt depth e).bind fun a? a?' value => ?_
    refine (agree_operandsAt depth es).bind fun as as' values => ?_
    rw [value, values]
    exact .ok rfl

end

end

/-- trees that differ in places at most have the same value, or fail alike -/
theorem agree_evaluate {e e' : Expr} (h : e.unplaced = e'.unplaced) : Agree (· = ·) e.evaluate e'.evaluate := by
  have left : Agree (· = ·) e.unplaced.evaluate e.evaluate := by
    refine agree_evaluateAt (fun t => ?_) 0 e
    rfl
  have right : Agree (· = ·) e'.unplaced.evaluate e'.evaluate := by
    refine agree_evaluateAt (fun t => ?_) 0 e'
    rfl
  rw [h] at left
  exact left.symm.trans right

end Expr

/-! ## Lines -/

/-- **Layout never influences a result.** Two lines with the same tokens, blanks and places left out, have the same
value, or both have none, or they fail for the same reason, in the same activities, and at as many places. So it is
with a line that is read and the canonical text of its tree. -/
theorem layout_irrelevant :
    (∀ line line' : String, contents line = contents line' →
      Agree (· = ·) (evaluateLine line) (evaluateLine line')) ∧
    ∀ (line : String) (e : Expr), (Expr.parse line).map Located.value = .ok e →
      Agree (· = ·) (evaluateLine line) (evaluateLine e.text) := by
  constructor
  · intro line line' h
    have read : Agree _ (Expr.parse line) (Expr.parse line') := Expr.agree_parse h
    exact read.bind fun e e' same => Expr.agree_evaluate same
  · intro line e h
    have canonical := Expr.parse_text (Expr.flatten_of_parse h).2
    obtain ⟨span, read⟩ := Expr.map_value_eq_ok_iff.1 h
    obtain ⟨span', read'⟩ := Expr.map_value_eq_ok_iff.1 canonical
    rw [evaluateLine_of_read read, evaluateLine_of_read read']
    exact Expr.agree_evaluate (Expr.unplaced_placed 0 e).symm

/-- two lines with a list in the place of a name, which is reported by its canonical text and where it stands -/
theorem layout_irrelevant_head :
    let spread := "   ((+  1)2)"
    let e : Expr := .list [.list [.atom ⟨.operator, 5, "+"⟩, .atom ⟨.constant, 8, "1"⟩], .atom ⟨.constant, 10, "2"⟩]
    let f := (Failure.of (.undefinedFunction "(+ 1)")).tag ⟨5, 4⟩ .evaluate
    let f' := (Failure.of (.undefinedFunction "(+ 1)")).tag ⟨2, 3⟩ .evaluate
    contents spread = contents "((+ 1\t) 2)" ∧ evaluateLine spread = .error f ∧
      evaluateLine "((+ 1\t) 2)" = .error f' ∧ f.unplaced = f'.unplaced ∧
      (Expr.parse spread).map Located.value = .ok e ∧ Agree (· = ·) (evaluateLine spread) (evaluateLine e.text) := by
  intro spread e f f'
  have same : contents spread = contents "((+ 1\t) 2)" := by decide +kernel
  have here : evaluateLine spread = .error f := by decide +kernel
  have there : evaluateLine "((+ 1\t) 2)" = .error f' := by decide +kernel
  have read : (Expr.parse spread).map Located.value = .ok e := by decide +kernel
  have agree := layout_irrelevant.1 _ _ same
  rw [here, there] at agree
  cases agree with
  | error places => exact ⟨same, here, there, places, read, layout_irrelevant.2 _ _ read⟩

end ExactCalc
