/-
The value of an expression as mathematics has it.

`Denotes e v`: the expression stands for the rational `v`. A constant stands for the integer that it spells, and a list
for what the operation named by its head makes of the values of the other elements. Nothing is said of depth, of the
order of evaluation or of failures; an expression for which no rule fits stands for nothing.

Results:
- `operandsAt_eq_ok_iff`: an operation is given one number for each operand, in order. No operand without a value gets
  as far as that, so none is passed over.
- `evaluateAt_eq_ok_iff`: by induction on the tree, evaluation finds the value that the tree stands for.
- `evaluate_exact`: **evaluation is exact** on every line that is read.
-/
import ExactCalc.Expr.Value
import ExactCalc.Proofs.Exactness
import ExactCalc.Proofs.Grammar
import ExactCalc.Proofs.Numeral

namespace ExactCalc

/-! ## Results and failures -/

section
variable {ε ε' α β : Type}

theorem bind_eq_ok_iff {x : Except ε α} {k : α → Except ε β} {b : β} :
    (x >>= k) = .ok b ↔ ∃ a, x = .ok a ∧ k a = .ok b := by
  cases x with
  | error r => simp [bind, Except.bind]
  | ok a => simp [bind, Except.bind]

theorem mapError_eq_ok_iff {g : ε → ε'} {x : Except ε α} {a : α} : x.mapError g = .ok a ↔ x = .ok a := by
  cases x with
  | error r => simp [Except.mapError]
  | ok b => simp [Except.mapError]

theorem map_some_eq_ok_iff {x : Except ε α} {a : α} : x.map some = .ok (some a) ↔ x = .ok a := by
  cases x with
  | error r => simp [Except.map]
  | ok b => simp [Except.map]

theorem bind_eq_error_iff {x : Except ε α} {k : α → Except ε β} {r : ε} :
    (x >>= k) = .error r ↔ x = .error r ∨ ∃ a, x = .ok a ∧ k a = .error r := by
  cases x with
  | error r' => simp [bind, Except.bind]
  | ok a => simp [bind, Except.bind]

theorem mapError_eq_error_iff {g : ε → ε'} {x : Except ε α} {r' : ε'} :
    x.mapError g = .error r' ↔ ∃ r, x = .error r ∧ g r = r' := by
  cases x with
  | error r => simp [Except.mapError]
  | ok a => simp [Except.mapError]

theorem map_eq_error_iff {g : α → β} {x : Except ε α} {r : ε} : x.map g = .error r ↔ x = .error r := by
  cases x with
  | error r' => simp [Except.map]
  | ok a => simp [Except.map]

theorem map_some_ne_ok_none {x : Except ε α} : x.map some ≠ .ok none := by
  cases x with
  | error r => simp [Except.map]
  | ok b => simp [Except.map]

end

namespace Expr

/-! ## What an expression stands for -/

/-- neither an operator standing alone nor nil -/
def IsOperand : Expr → Prop
  | .atom t => t.kind ≠ .operator
  | .list _ => True
  | .nil => False

/-- the expression stands for this rational -/
inductive Denotes : Expr → ℚ → Prop where
  | constant {t : Token} (kind : t.kind = .constant) : Denotes (.atom t) (Number.signedValue t.text.toList)
  | call {head : Token} {f : Operation} {operands : List Expr} {vs : List ℚ} {v : ℚ}
      (kind : head.kind = .identifier ∨ head.kind = .operator) (name : f.name = head.text)
      (legal : ∀ e ∈ operands, e.IsOperand) (values : List.Forall₂ Denotes operands vs)
      (accepted : f.arity.accepts vs.length = true) (value : f.meaning vs = some v) :
      Denotes (.list (.atom head :: operands)) v

theorem denotes_atom_iff {t : Token} {v : ℚ} :
    Denotes (.atom t) v ↔ t.kind = .constant ∧ v = Number.signedValue t.text.toList := by
  constructor
  · rintro ⟨kind⟩
    exact ⟨kind, rfl⟩
  · rintro ⟨kind, rfl⟩
    exact .constant kind

theorem denotes_list_iff {head : Expr} {operands : List Expr} {v : ℚ} :
    Denotes (.list (head :: operands)) v ↔
      ∃ (t : Token) (f : Operation) (vs : List ℚ), head = .atom t ∧
        (t.kind = .identifier ∨ t.kind = .operator) ∧ f.name = t.text ∧ (∀ e ∈ operands, e.IsOperand) ∧
        List.Forall₂ Denotes operands vs ∧ f.arity.accepts vs.length = true ∧ f.meaning vs = some v := by
  constructor
  · intro h
    cases h with
    | call kind name legal values accepted value =>
      exact ⟨_, _, _, rfl, kind, name, legal, values, accepted, value⟩
  · rintro ⟨t, f, vs, rfl, kind, name, legal, values, accepted, value⟩
    exact .call kind name legal values accepted value

/-! ## One node of the evaluation -/

variable {depth : ℕ} {a : Number}

/-- nil, and only nil, has no value -/
theorem evaluateAt_eq_none_iff {e : Expr} : evaluateAt depth e = .ok none ↔ e = .nil := by
  cases e with
  | atom t => simp [evaluateAt, map_some_ne_ok_none]
  | nil => simp [evaluateAt]
  | list es => simp [evaluateAt, mapError_eq_ok_iff, map_some_ne_ok_none]

theorem evaluateAt_list_eq_ok_iff {es : List Expr} :
    evaluateAt depth (.list es) = .ok (some a) ↔ callAt depth es = .ok a := by
  rw [evaluateAt, mapError_eq_ok_iff, map_some_eq_ok_iff]

theorem callee_eq_ok_iff {head : Expr} {t : Token} {f : Operation} :
    callee head = .ok (t, f) ↔
      head = .atom t ∧ (t.kind = .identifier ∨ t.kind = .operator) ∧ f.name = t.text := by
  cases head with
  | list es => simp [callee]
  | nil => simp [callee]
  | atom u =>
    rw [callee]
    by_cases kind : u.kind = .identifier ∨ u.kind = .operator
    · rw [if_pos kind]
      constructor
      · intro h
        split at h
        · rename_i found
          cases h
          exact ⟨rfl, kind, Operation.name_of_named? found⟩
        · cases h
      · rintro ⟨same, -, name⟩
        cases same
        rw [Operation.named?_eq_some_iff.2 name]
    · rw [if_neg kind]
      constructor
      · intro h
        cases h
      · rintro ⟨same, kind', -⟩
        cases same
        exact absurd kind' kind

theorem checkOperand_eq_ok_iff {e : Expr} : checkOperand e = .ok () ↔ e.IsOperand := by
  cases e with
  | atom t => simp [checkOperand, IsOperand]
  | nil => simp [checkOperand, IsOperand]
  | list es => simp [checkOperand, IsOperand]

/-- a call comes down to its operation once nothing is wrong with the head, the depth and the operands -/
theorem callAt_eq_applyAt {head : Expr} {operands : List Expr} {t : Token} {f : Operation} {as : List Number}
    (named : callee head = .ok (t, f)) (room : depth < maxDepth) (values : operandsAt (depth + 1) operands = .ok as) :
    callAt depth (head :: operands) = applyAt t f as := by
  rw [callAt, named, deeper_of_lt room]
  show (operandsAt (depth + 1) operands >>= applyAt t f) = applyAt t f as
  rw [values]
  rfl

theorem callAt_eq_ok_iff {head : Expr} {operands : List Expr} :
    callAt depth (head :: operands) = .ok a ↔
      ∃ t f as, callee head = .ok (t, f) ∧ depth < maxDepth ∧ operandsAt (depth + 1) operands = .ok as ∧
        f.apply as = .ok a := by
  refine ⟨fun h => ?_, fun h => ?_⟩
  · simp only [callAt, applyAt, bind_eq_ok_iff, mapError_eq_ok_iff, deeper_eq_ok_iff] at h
    obtain ⟨⟨t, f⟩, named, inner, ⟨room, rfl⟩, as, values, result⟩ := h
    exact ⟨t, f, as, named, room, values, result⟩
  · obtain ⟨t, f, as, named, room, values, result⟩ := h
    rw [callAt_eq_applyAt named room values]
    exact mapError_eq_ok_iff.2 result

theorem operandsAt_cons_eq_ok_iff {e : Expr} {es : List Expr} {as : List Number} :
    operandsAt depth (e :: es) = .ok as ↔
      e.IsOperand ∧ ∃ b bs, evaluateAt depth e = .ok (some b) ∧ operandsAt depth es = .ok bs ∧ as = b :: bs := by
  simp only [operandsAt, bind_eq_ok_iff, ← checkOperand_eq_ok_iff]
  refine ⟨fun h => ?_, fun h => ?_⟩
  · obtain ⟨⟨⟩, legal, b?, value, bs, values, collected⟩ := h
    cases b? with
    | none =>
      -- only nil has no value, and nil is no operand
      rw [evaluateAt_eq_none_iff.1 value] at legal
      cases legal
    | some b => exact ⟨legal, b, bs, value, values, (Except.ok.inj collected).symm⟩
  · obtain ⟨legal, b, bs, value, values, rfl⟩ := h
    exact ⟨(), legal, some b, value, bs, values, rfl⟩

/-- an operation is given one number for each operand, in order -/
theorem operandsAt_eq_ok_iff {es : List Expr} {as : List Number} :
    operandsAt depth es = .ok as ↔
      (∀ e ∈ es, e.IsOperand) ∧ List.Forall₂ (fun e a => evaluateAt depth e = .ok (some a)) es as := by
  induction es generalizing as with
  | nil => simp [operandsAt, eq_comm]
  | cons e es ih =>
    rw [operandsAt_cons_eq_ok_iff, List.forall_mem_cons, List.forall₂_cons_left_iff]
    simp only [ih]
    tauto

/-! ## The whole tree -/

theorem atomValue_eq_ok_iff {t : Token} (spelled : t.isSpelled = true) :
    atomValue t = .ok a ↔ t.kind = .constant ∧ a = .integer (Number.signedValue t.text.toList) := by
  by_cases kind : t.kind = .constant
  · have constant : Lexeme.isConstant t.text.toList = true := by
      rwa [Token.isSpelled, kind] at spelled
    rw [atomValue, if_pos kind, Number.ofText_of_isConstant constant]
    simp [Except.mapError, kind, eq_comm]
  · rw [atomValue, if_neg kind]
    simp [kind]

mutual

/-- evaluation finds the value that the tree stands for, and no other -/
theorem evaluateAt_eq_ok_iff : (e : Expr) → {depth : ℕ} → WellFormed depth e → {a : Number} →
    (evaluateAt depth e = .ok (some a) ↔ ∃ v, Denotes e v ∧ a = Number.ofRat v)
  | .atom t, depth, h, a => by
    have spelled := h.spelled t List.mem_cons_self
    rw [evaluateAt, map_some_eq_ok_iff, atomValue_eq_ok_iff spelled]
    simp only [denotes_atom_iff]
    constructor
    · rintro ⟨kind, rfl⟩
      exact ⟨_, ⟨kind, rfl⟩, (Number.ofRat_intCast _).symm⟩
    · rintro ⟨v, ⟨kind, rfl⟩, rfl⟩
      exact ⟨kind, Number.ofRat_intCast _⟩
  | .nil, depth, h, a => by
    constructor
    · intro h
      rw [evaluateAt] at h
      cases h
    · rintro ⟨v, ⟨⟩, -⟩
  | .list [], depth, h, a => absurd rfl h.proper.1
  | .list (head :: operands), depth, h, a => by
    have inner : WellFormedList depth operands := h.elements.others
    have room : depth < maxDepth := h.elements.room
    simp only [evaluateAt_list_eq_ok_iff, callAt_eq_ok_iff, callee_eq_ok_iff, operandsAt_eq_ok_iff,
      denotes_list_iff, forall₂_evaluateAt_iff operands inner]
    refine ⟨fun h => ?_, fun h => ?_⟩
    · obtain ⟨t, f, _, ⟨rfl, kind, name⟩, -, ⟨legal, vs, values, rfl⟩, result⟩ := h
      obtain ⟨accepted, v, value, rfl⟩ := Operation.apply_eq_ok_iff.1 result
      exact ⟨v, ⟨t, f, vs, rfl, kind, name, legal, values, accepted, value⟩, rfl⟩
    · obtain ⟨v, ⟨t, f, vs, rfl, kind, name, legal, values, accepted, value⟩, rfl⟩ := h
      have result := Operation.apply_eq_ok_iff.2 ⟨accepted, v, value, rfl⟩
      exact ⟨t, f, _, ⟨rfl, kind, name⟩, room, ⟨legal, vs, values, rfl⟩, result⟩

/-- the operands have the values that they stand for -/
theorem forall₂_evaluateAt_iff : (es : List Expr) → {depth : ℕ} → WellFormedList depth es → {as : List Number} →
    (List.Forall₂ (fun e a => evaluateAt (depth + 1) e = .ok (some a)) es as ↔
      ∃ vs, List.Forall₂ Denotes es vs ∧ as = vs.map Number.ofRat)
  | [], depth, _, as => by
    simp
  | e :: es, depth, h, as => by
    simp only [List.forall₂_cons_left_iff, evaluateAt_eq_ok_iff e h.first, forall₂_evaluateAt_iff es h.others]
    refine ⟨fun h => ?_, fun h => ?_⟩
    · obtain ⟨_, _, ⟨v, value, rfl⟩, ⟨vs, values, rfl⟩, rfl⟩ := h
      exact ⟨v :: vs, ⟨v, vs, value, values, rfl⟩, rfl⟩
    · obtain ⟨_, ⟨v, vs, value, values, rfl⟩, rfl⟩ := h
      exact ⟨_, _, ⟨v, value, rfl⟩, ⟨vs, values, rfl⟩, rfl⟩

end

/-- **Evaluation is exact.** Of a line that is read as `e`, the value is none exactly if `e` is nil, and it is a number
exactly if `e` stands for the value of that number. In every call whose operands are evaluated, the operation is applied
to the value of each operand, in order: none is passed over. -/
theorem evaluate_exact (line : String) (e : Expr) (h : (parse line).map Located.value = .ok e) :
    (e.evaluate = .ok none ↔ e = .nil) ∧
    (∀ a, e.evaluate = .ok (some a) ↔ ∃ v, Denotes e v ∧ a = Number.ofRat v) ∧
    ∀ depth head operands t f as, callee head = .ok (t, f) → depth < maxDepth →
      operandsAt (depth + 1) operands = .ok as →
        callAt depth (head :: operands) = applyAt t f as ∧
          List.Forall₂ (fun operand a => evaluateAt (depth + 1) operand = .ok (some a)) operands as := by
  have wellFormed : WellFormed 0 e := (flatten_of_parse h).2
  refine ⟨evaluateAt_eq_none_iff, fun a => evaluateAt_eq_ok_iff e wellFormed, ?_⟩
  intro depth head operands t f as named room values
  exact ⟨callAt_eq_applyAt named room values, (operandsAt_eq_ok_iff.1 values).2⟩

/-- a line of nested calls with a value that is no integer -/
theorem evaluate_exact_quotient :
    let slash : Token := ⟨.operator, 1, "/"⟩
    let operands := [
      list [atom ⟨.operator, 4, "-"⟩, atom ⟨.constant, 6, "7"⟩, atom ⟨.constant, 8, "-2"⟩],
      list [atom ⟨.identifier, 13, "count"⟩, atom ⟨.constant, 19, "1"⟩, atom ⟨.constant, 21, "+1"⟩]]
    let e := list (atom slash :: operands)
    (parse "(/ (- 7 -2) (count 1 +1))").map Located.value = .ok e ∧
      e.evaluate = .ok (some (.fraction (9 / 2))) ∧ Denotes e (9 / 2) ∧
      callAt 0 (atom slash :: operands) = applyAt slash .div [.integer 9, .integer 2] := by
  intro slash operands e
  have read : (parse "(/ (- 7 -2) (count 1 +1))").map Located.value = .ok e := by decide +kernel
  have value : e.evaluate = .ok (some (.fraction (9 / 2))) := by decide +kernel
  have named : callee (atom slash) = .ok (slash, .div) := by decide +kernel
  have values : operandsAt 1 operands = .ok [.integer 9, .integer 2] := by decide +kernel
  obtain ⟨-, denoted, applied⟩ := evaluate_exact _ e read
  obtain ⟨v, denotes, same⟩ := (denoted _).1 value
  have : 9 / 2 = v := by simpa using congrArg Number.toRat same
  rw [← this] at denotes
  exact ⟨read, value, denotes, (applied 0 _ _ _ _ _ named (by decide) values).1⟩

end Expr

end ExactCalc
