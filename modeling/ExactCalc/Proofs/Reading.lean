/-
Reading as a system of rules.

`Expr.Reads depth c e next`: one expression is read at this depth from the cursor `c`, it is `e`, and the cursor behind
it is `next`. `Expr.Refuses depth c f next`: no expression can be read there, the failure is `f`, and the cursor is left
at `next`. `ReadsElements` and `RefusesElements` say the same of the elements of a list, up to the end of its closing
parenthesis. There is one rule for each thing that a reader can do.

Results:
- `reads_iff`, `refuses_iff`: the rules derive exactly what the reader gives. What holds of every reading is proved by
  induction on a derivation; that a line is read in some way is proved by giving the derivation.
-/
import Mathlib.Tactic
import ExactCalc.Expr.Reader

namespace ExactCalc

/-- the token may start an expression -/
def Token.Starts (t : Token) : Prop :=
  t.isAtomic = true ∨ t.kind = .openParen

/-- what reading gives, and where it leaves the cursor -/
def Reply.outcome {c : Cursor} {α : Type} (r : Reply c α) : Except Failure α × Cursor :=
  (r.result, r.cursor)

namespace Expr

/-! ## The rules -/

mutual

/-- an expression is read at a depth from a cursor, and the cursor behind it -/
inductive Reads : ℕ → Cursor → Located Expr → Cursor → Prop where
  | atom {depth : ℕ} {c : Cursor} (h : c.token.isAtomic = true) :
      Reads depth c ⟨c.token.span, .atom c.token⟩ c.afterToken
  | list {depth : ℕ} {c next : Cursor} {es : List Expr} {stop : ℕ} (h : c.token.kind = .openParen)
      (elements : ReadsElements depth c.token c.afterToken es stop next) :
      Reads depth c ⟨.between c.token.offset stop, ofList es⟩ next

/-- the elements of the list that `opening` starts are read, with the position where the list ends -/
inductive ReadsElements : ℕ → Token → Cursor → List Expr → ℕ → Cursor → Prop where
  | close {depth : ℕ} {opening : Token} {c : Cursor} (h : c.token.kind = .closeParen) :
      ReadsElements depth opening c [] c.token.stop c.afterToken
  | cons {depth : ℕ} {opening : Token} {c next last : Cursor} {e : Located Expr} {es : List Expr} {stop : ℕ}
      (starts : c.token.Starts) (room : depth < maxDepth) (first : Reads (depth + 1) c e next)
      (others : ReadsElements depth opening next es stop last) :
      ReadsElements depth opening c (e.value :: es) stop last

end

mutual

/-- no expression is read at a depth from a cursor: why, and where the cursor is left -/
inductive Refuses : ℕ → Cursor → Failure → Cursor → Prop where
  | list {depth : ℕ} {c next : Cursor} {f : Failure} (h : c.token.kind = .openParen)
      (elements : RefusesElements depth c.token c.afterToken f next) : Refuses depth c f next
  | invalid {depth : ℕ} {c : Cursor} (h : c.token.kind = .invalid) :
      Refuses depth c (unexpected c.token) c.afterToken
  | noEntry {depth : ℕ} {c : Cursor} (h : c.token.kind = .closeParen ∨ c.token.kind = .endOfInput) :
      Refuses depth c (noEntry c.token) c.afterToken

/-- the elements of the list that `opening` starts are not read up to its end: why, and where the cursor is left -/
inductive RefusesElements : ℕ → Token → Cursor → Failure → Cursor → Prop where
  | unterminated {depth : ℕ} {opening : Token} {c : Cursor} (h : c.token.kind = .endOfInput) :
      RefusesElements depth opening c (unterminated opening c.token) c.skipBlanks
  | invalid {depth : ℕ} {opening : Token} {c : Cursor} (h : c.token.kind = .invalid) :
      RefusesElements depth opening c (unexpected c.token) c.skipBlanks
  | tooDeep {depth : ℕ} {opening : Token} {c : Cursor} (starts : c.token.Starts) (deep : maxDepth ≤ depth) :
      RefusesElements depth opening c ((Failure.of (.tooDeep maxDepth)).tag opening.span .parse) c.skipBlanks
  | first {depth : ℕ} {opening : Token} {c next : Cursor} {f : Failure} (starts : c.token.Starts)
      (room : depth < maxDepth) (first : Refuses (depth + 1) c f next) : RefusesElements depth opening c f next
  | others {depth : ℕ} {opening : Token} {c next last : Cursor} {e : Located Expr} {f : Failure}
      (starts : c.token.Starts) (room : depth < maxDepth) (first : Reads (depth + 1) c e next)
      (others : RefusesElements depth opening next f last) : RefusesElements depth opening c f last

end

/-! ## The reader by the kind of the next token -/

theorem kind_of_isAtomic {t : Token} (h : t.isAtomic = true) :
    t.kind = .constant ∨ t.kind = .operator ∨ t.kind = .identifier := by
  rw [Token.isAtomic] at h
  cases hk : t.kind <;> simp_all [Token.Kind.isAtomic]

/-- the token behind skipped blanks starts an expression, or is of one of three other kinds -/
theorem sorts_of_token (c : Cursor) : c.token.Starts ∨ c.token.kind = .closeParen ∨ c.token.kind = .endOfInput ∨
    c.token.kind = .invalid := by
  have := c.token_kind_ne_whitespace
  rw [Token.Starts, Token.isAtomic]
  cases hk : c.token.kind <;> simp_all [Token.Kind.isAtomic]

variable {depth : ℕ} {c : Cursor} {opening : Token}

theorem starts_of_kind_ne (closes : ¬c.token.kind = .closeParen) (ended : ¬c.token.kind = .endOfInput)
    (invalid : ¬c.token.kind = .invalid) : c.token.Starts := by
  rcases sorts_of_token c with h | h | h | h
  · exact h
  · exact absurd h closes
  · exact absurd h ended
  · exact absurd h invalid

theorem ends_of_not_starts (starts : ¬c.token.Starts) (invalid : ¬c.token.kind = .invalid) :
    c.token.kind = .closeParen ∨ c.token.kind = .endOfInput := by
  rcases sorts_of_token c with h | h | h | h
  · exact absurd h starts
  · exact .inl h
  · exact .inr h
  · exact absurd h invalid

theorem expressionAt_of_isAtomic (h : c.token.isAtomic = true) :
    (expressionAt depth c).outcome = (.ok ⟨c.token.span, .atom c.token⟩, c.afterToken) := by
  rw [expressionAt, dif_pos h]
  rfl

theorem expressionAt_of_openParen (h : c.token.kind = .openParen) :
    (expressionAt depth c).outcome =
      ((elementsAt depth c.token c.afterToken).result.map fun r => ⟨.between c.token.offset r.2, ofList r.1⟩,
        (elementsAt depth c.token c.afterToken).cursor) := by
  have atomic : ¬c.token.isAtomic = true := by simp [Token.isAtomic, Token.Kind.isAtomic, h]
  rw [expressionAt, dif_neg atomic, dif_pos h]
  cases elementsAt depth c.token c.afterToken with
  | read r next shorter => rfl
  | refused f next => rfl

theorem expressionAt_of_invalid (h : c.token.kind = .invalid) :
    (expressionAt depth c).outcome = (.error (unexpected c.token), c.afterToken) := by
  rw [expressionAt, dif_neg (by simp [Token.isAtomic, Token.Kind.isAtomic, h]), dif_neg (by simp [h]), if_pos h]
  rfl

theorem expressionAt_of_noEntry (h : c.token.kind = .closeParen ∨ c.token.kind = .endOfInput) :
    (expressionAt depth c).outcome = (.error (noEntry c.token), c.afterToken) := by
  have atomic : ¬c.token.isAtomic = true := by
    rcases h with h | h <;> simp [Token.isAtomic, Token.Kind.isAtomic, h]
  have opens : ¬c.token.kind = .openParen := by rcases h with h | h <;> simp [h]
  have invalid : ¬c.token.kind = .invalid := by rcases h with h | h <;> simp [h]
  rw [expressionAt, dif_neg atomic, dif_neg opens, if_neg invalid]
  rfl

theorem elementsAt_of_closeParen (h : c.token.kind = .closeParen) :
    (elementsAt depth opening c).outcome = (.ok ([], c.token.stop), c.afterToken) := by
  rw [elementsAt, dif_pos h]
  rfl

theorem elementsAt_of_endOfInput (h : c.token.kind = .endOfInput) :
    (elementsAt depth opening c).outcome = (.error (unterminated opening c.token), c.skipBlanks) := by
  rw [elementsAt, dif_neg (by simp [h]), if_pos h]
  rfl

theorem elementsAt_of_invalid (h : c.token.kind = .invalid) :
    (elementsAt depth opening c).outcome = (.error (unexpected c.token), c.skipBlanks) := by
  rw [elementsAt, dif_neg (by simp [h]), if_neg (by simp [h]), if_pos h]
  rfl

theorem not_starts {t : Token} (h : t.kind = .closeParen ∨ t.kind = .endOfInput ∨ t.kind = .invalid) : ¬t.Starts := by
  rw [Token.Starts, Token.isAtomic]
  rcases h with h | h | h <;> simp [h, Token.Kind.isAtomic]

theorem elementsAt_of_tooDeep (starts : c.token.Starts) (deep : maxDepth ≤ depth) :
    (elementsAt depth opening c).outcome =
      (.error ((Failure.of (.tooDeep maxDepth)).tag opening.span .parse), c.skipBlanks) := by
  have closes : ¬c.token.kind = .closeParen := fun h => not_starts (.inl h) starts
  have ended : ¬c.token.kind = .endOfInput := fun h => not_starts (.inr (.inl h)) starts
  have invalid : ¬c.token.kind = .invalid := fun h => not_starts (.inr (.inr h)) starts
  rw [elementsAt, dif_neg closes, if_neg ended, if_neg invalid, deeper_of_le deep]
  rfl

theorem elementsAt_of_starts (starts : c.token.Starts) (room : depth < maxDepth) :
    (elementsAt depth opening c).outcome =
      match (expressionAt (depth + 1) c).outcome with
      | (.error f, next) => (.error f, next)
      | (.ok e, next) =>
        ((elementsAt depth opening next).result.map fun r => (e.value :: r.1, r.2),
          (elementsAt depth opening next).cursor) := by
  have closes : ¬c.token.kind = .closeParen := fun h => not_starts (.inl h) starts
  have ended : ¬c.token.kind = .endOfInput := fun h => not_starts (.inr (.inl h)) starts
  have invalid : ¬c.token.kind = .invalid := fun h => not_starts (.inr (.inr h)) starts
  rw [elementsAt, dif_neg closes, if_neg ended, if_neg invalid, deeper_of_lt room]
  dsimp only
  cases expressionAt (depth + 1) c with
  | refused f next => rfl
  | read e next shorter =>
    dsimp only [Reply.outcome, Reply.result, Reply.cursor]
    cases elementsAt depth opening next with
    | refused f last => rfl
    | read r last shorter => rfl

theorem deeper_eq_ok_iff {inner : ℕ} : deeper depth = .ok inner ↔ depth < maxDepth ∧ inner = depth + 1 := by
  by_cases room : depth < maxDepth
  · rw [deeper_of_lt room, Except.ok.injEq]
    simp [room, eq_comm]
  · rw [deeper_of_le (Nat.le_of_not_lt room)]
    simp [room]

theorem le_of_deeper_eq_error {r : Reason} (h : deeper depth = .error r) : maxDepth ≤ depth := by
  by_contra room
  rw [deeper_of_lt (Nat.lt_of_not_le room)] at h
  cases h

/-! ## The rules derive what the reader gives -/

/-- an outcome of reading an expression is derived by the rules -/
def Derived (depth : ℕ) (c : Cursor) : Except Failure (Located Expr) × Cursor → Prop
  | (.ok e, next) => Reads depth c e next
  | (.error f, next) => Refuses depth c f next

/-- an outcome of reading elements is derived by the rules -/
def DerivedElements (depth : ℕ) (opening : Token) (c : Cursor) : Except Failure (List Expr × ℕ) × Cursor → Prop
  | (.ok (es, stop), next) => ReadsElements depth opening c es stop next
  | (.error f, next) => RefusesElements depth opening c f next

/-- every reading has a derivation; the cases are those of the reader, in its order -/
theorem derived_both :
    (∀ depth c, Derived depth c (expressionAt depth c).outcome) ∧
      ∀ depth opening c, DerivedElements depth opening c (elementsAt depth opening c).outcome := by
  refine expressionAt.mutual_induct (fun depth c => Derived depth c (expressionAt depth c).outcome)
    (fun depth opening c => DerivedElements depth opening c (elementsAt depth opening c).outcome)
    ?atom ?list ?listRefused ?invalid ?noEntry ?close ?unterminated ?elementInvalid ?tooDeep ?firstRefused
    ?othersRefused ?cons
  case atom =>
    intro depth c atomic
    rw [expressionAt_of_isAtomic atomic]
    exact Reads.atom atomic
  case list =>
    intro depth c _ opens _ es stop next shorter read ih
    rw [read] at ih
    rw [expressionAt_of_openParen opens, read]
    exact Reads.list opens ih
  case listRefused =>
    intro depth c _ opens _ f next refused ih
    rw [refused] at ih
    rw [expressionAt_of_openParen opens, refused]
    exact Refuses.list opens ih
  case invalid =>
    intro depth c _ _ invalid
    rw [expressionAt_of_invalid invalid]
    exact Refuses.invalid invalid
  case noEntry =>
    intro depth c atomic opens invalid
    have ends := ends_of_not_starts (not_or.2 ⟨atomic, opens⟩) invalid
    rw [expressionAt_of_noEntry ends]
    exact Refuses.noEntry ends
  case close =>
    intro depth opening c closes
    rw [elementsAt_of_closeParen closes]
    exact ReadsElements.close closes
  case unterminated =>
    intro depth opening c _ ended
    rw [elementsAt_of_endOfInput ended]
    exact RefusesElements.unterminated ended
  case elementInvalid =>
    intro depth opening c _ _ invalid
    rw [elementsAt_of_invalid invalid]
    exact RefusesElements.invalid invalid
  case tooDeep =>
    intro depth opening c closes ended invalid r deep
    have starts := starts_of_kind_ne closes ended invalid
    rw [elementsAt_of_tooDeep starts (le_of_deeper_eq_error deep)]
    exact RefusesElements.tooDeep starts (le_of_deeper_eq_error deep)
  case firstRefused =>
    intro depth opening c closes ended invalid inner deepens f next refused ih
    have starts := starts_of_kind_ne closes ended invalid
    obtain ⟨room, rfl⟩ := deeper_eq_ok_iff.1 deepens
    rw [refused] at ih
    rw [elementsAt_of_starts starts room, refused]
    exact RefusesElements.first starts room ih
  case othersRefused =>
    intro depth opening c closes ended invalid inner deepens e next shorter read f last refused ih others
    have starts := starts_of_kind_ne closes ended invalid
    obtain ⟨room, rfl⟩ := deeper_eq_ok_iff.1 deepens
    rw [read] at ih
    rw [refused] at others
    rw [elementsAt_of_starts starts room, read]
    simp only [Reply.outcome, Reply.result, Reply.cursor, refused]
    exact RefusesElements.others starts room ih others
  case cons =>
    intro depth opening c closes ended invalid inner deepens e next shorter read es stop last shorter' rest ih others
    have starts := starts_of_kind_ne closes ended invalid
    obtain ⟨room, rfl⟩ := deeper_eq_ok_iff.1 deepens
    rw [read] at ih
    rw [rest] at others
    rw [elementsAt_of_starts starts room, read]
    simp only [Reply.outcome, Reply.result, Reply.cursor, rest]
    exact ReadsElements.cons starts room ih others

mutual

/-- what is read by the rules is read -/
theorem Reads.outcome_eq {depth : ℕ} {c next : Cursor} {e : Located Expr} :
    Reads depth c e next → (expressionAt depth c).outcome = (.ok e, next)
  | .atom h => expressionAt_of_isAtomic h
  | .list h elements => by
    obtain ⟨result, cursor⟩ := Prod.mk.inj elements.outcome_eq
    rw [expressionAt_of_openParen h, result, cursor]
    rfl

theorem ReadsElements.outcome_eq {depth : ℕ} {opening : Token} {c next : Cursor} {es : List Expr} {stop : ℕ} :
    ReadsElements depth opening c es stop next → (elementsAt depth opening c).outcome = (.ok (es, stop), next)
  | .close h => elementsAt_of_closeParen h
  | .cons starts room first others => by
    obtain ⟨result, cursor⟩ := Prod.mk.inj others.outcome_eq
    rw [elementsAt_of_starts starts room, first.outcome_eq]
    dsimp only
    rw [result, cursor]
    rfl

end

mutual

/-- what is refused by the rules is refused -/
theorem Refuses.outcome_eq {depth : ℕ} {c next : Cursor} {f : Failure} :
    Refuses depth c f next → (expressionAt depth c).outcome = (.error f, next)
  | .invalid h => expressionAt_of_invalid h
  | .noEntry h => expressionAt_of_noEntry h
  | .list h elements => by
    obtain ⟨result, cursor⟩ := Prod.mk.inj elements.outcome_eq
    rw [expressionAt_of_openParen h, result, cursor]
    rfl

theorem RefusesElements.outcome_eq {depth : ℕ} {opening : Token} {c next : Cursor} {f : Failure} :
    RefusesElements depth opening c f next → (elementsAt depth opening c).outcome = (.error f, next)
  | .unterminated h => elementsAt_of_endOfInput h
  | .invalid h => elementsAt_of_invalid h
  | .tooDeep starts deep => elementsAt_of_tooDeep starts deep
  | .first starts room first => by rw [elementsAt_of_starts starts room, first.outcome_eq]
  | .others starts room first others => by
    obtain ⟨result, cursor⟩ := Prod.mk.inj others.outcome_eq
    rw [elementsAt_of_starts starts room, first.outcome_eq]
    dsimp only
    rw [result, cursor]
    rfl

end

/-- **Rules and reader agree on what is read.** -/
theorem reads_iff {depth : ℕ} {c next : Cursor} {e : Located Expr} :
    Reads depth c e next ↔ (expressionAt depth c).outcome = (.ok e, next) := by
  refine ⟨Reads.outcome_eq, fun h => ?_⟩
  have := derived_both.1 depth c
  rwa [h] at this

/-- **Rules and reader agree on what is refused.** -/
theorem refuses_iff {depth : ℕ} {c next : Cursor} {f : Failure} :
    Refuses depth c f next ↔ (expressionAt depth c).outcome = (.error f, next) := by
  refine ⟨Refuses.outcome_eq, fun h => ?_⟩
  have := derived_both.1 depth c
  rwa [h] at this

end Expr

end ExactCalc
