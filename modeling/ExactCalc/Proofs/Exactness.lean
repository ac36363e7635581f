/-
The operations as functions of rationals.

A normalized number is `Number.ofRat` of its value, and arithmetic on such numbers is arithmetic on their values.
`Operation.meaning` says what an operation gives for rational operands, and for which operands it gives nothing; it
knows neither of integers that are kept apart nor of the order in which failures are found.

Results:
- `foldlM_div`: a quotient of several numbers is exact, and fails exactly if a divisor is zero.
- `apply_eq_ok_iff`: an operation is applied exactly where it has a meaning and to that effect.
- `compute_eq_error_iff`: where it has none, although the number of operands is right, it fails for its one fault.
-/
import Mathlib.Tactic
import ExactCalc.Operation

namespace ExactCalc

namespace Number

/-! ## Arithmetic on values -/

theorem eq_ofRat {a : Number} {v : ℚ} (normalized : a.Normalized) (value : a.toRat = v) : a = ofRat v := by
  rw [← value, ofRat_toRat normalized]

theorem ofRat_intCast (n : ℤ) : ofRat n = .integer n :=
  ofRat_toRat (normalized_integer n)

theorem ofRat_natCast (n : ℕ) : ofRat n = .integer n := by
  rw [← ofRat_intCast, Int.cast_natCast]

variable (v w : ℚ)

theorem add_ofRat : (ofRat v).add (ofRat w) = ofRat (v + w) :=
  eq_ofRat (normalized_combine _ _ _ _) (by simp)

theorem sub_ofRat : (ofRat v).sub (ofRat w) = ofRat (v - w) :=
  eq_ofRat (normalized_combine _ _ _ _) (by simp)

theorem mul_ofRat : (ofRat v).mul (ofRat w) = ofRat (v * w) :=
  eq_ofRat (normalized_combine _ _ _ _) (by simp)

theorem neg_ofRat : (ofRat v).neg = ofRat (-v) :=
  eq_ofRat (normalized_neg (normalized_ofRat v)) (by simp)

theorem abs_ofRat : (ofRat v).abs = ofRat |v| := by
  refine eq_ofRat (normalized_abs (normalized_ofRat v)) ?_
  rw [toRat_abs, toRat_ofRat]
  rcases le_total 0 v with h | h
  · rw [Rat.abs_of_nonneg h, abs_of_nonneg h]
  · rw [Rat.abs_of_nonpos h, abs_of_nonpos h]

theorem div_ofRat : (ofRat v).div (ofRat w) = if w = 0 then .error .divisionByZero else .ok (ofRat (v / w)) := by
  by_cases h : w = 0
  · rw [div, if_pos ((isZero_iff _).2 (by simp [h])), if_pos h]
  · rw [div, if_neg (by simp [isZero_iff, h]), if_neg h, toRat_ofRat, toRat_ofRat]

/-- numbers are ordered as their values, in whichever form they are kept -/
theorem compare_toRat (a b : Number) : a.compare b = Ord.compare a.toRat b.toRat := by
  rw [compare_eq, LinearOrder.compare_eq_compareOfLessAndEq]

end Number

namespace Operation

open Number

section
variable (v w : ℚ)

theorem lesser_ofRat : lesser (ofRat v) (ofRat w) = ofRat (Min.min v w) := by
  rw [lesser, compare_toRat, toRat_ofRat, toRat_ofRat]
  rcases lt_or_ge w v with h | h
  · rw [if_pos (compare_lt_iff_lt.2 h), min_eq_right h.le]
  · rw [if_neg (fun less => h.not_gt (compare_lt_iff_lt.1 less)), min_eq_left h]

theorem greater_ofRat : greater (ofRat v) (ofRat w) = ofRat (Max.max v w) := by
  rw [greater, compare_toRat, toRat_ofRat, toRat_ofRat]
  rcases lt_or_ge v w with h | h
  · rw [if_pos (compare_gt_iff_gt.2 h), max_eq_right h.le]
  · rw [if_neg (fun more => h.not_gt (compare_gt_iff_gt.1 more)), max_eq_left h]

end

/-! ## Operands taken together -/

/-- a step that never fails is folded as the function of values that it computes -/
theorem foldlM_ofRat {step : Number → Number → Number} {g : ℚ → ℚ → ℚ}
    (exact : ∀ v w, step (ofRat v) (ofRat w) = ofRat (g v w)) (v : ℚ) (vs : List ℚ) :
    (vs.map ofRat).foldlM (fun a b => (.ok (step a b) : Except Reason Number)) (ofRat v) =
      .ok (ofRat (vs.foldl g v)) := by
  induction vs generalizing v with
  | nil => rfl
  | cons w vs ih =>
    rw [List.map_cons, List.foldlM_cons, exact]
    exact ih (g v w)

/-- a quotient of several numbers is exact, if no divisor is zero -/
theorem foldlM_div (v : ℚ) (vs : List ℚ) :
    (vs.map ofRat).foldlM Number.div (ofRat v) =
      if 0 ∈ vs then .error .divisionByZero else .ok (ofRat (vs.foldl (· / ·) v)) := by
  induction vs generalizing v with
  | nil => rfl
  | cons w vs ih =>
    rw [List.map_cons, List.foldlM_cons, div_ofRat]
    by_cases zero : w = 0
    · rw [if_pos zero, if_pos (by simp [zero])]
      rfl
    · rw [if_neg zero]
      have same : 0 ∈ w :: vs ↔ 0 ∈ vs := by simp [Ne.symm zero]
      simp only [same]
      exact ih (v / w)

/-! ## Meaning -/

/-- what an operation gives for these values, where it is defined -/
def meaning : Operation → List ℚ → Option ℚ
  | .add, v :: vs => some (vs.foldl (· + ·) v)
  | .sub, v :: vs => some (vs.foldl (· - ·) v)
  | .mul, v :: vs => some (vs.foldl (· * ·) v)
  | .div, v :: vs => if 0 ∈ vs then none else some (vs.foldl (· / ·) v)
  | .min, v :: vs => some (vs.foldl Min.min v)
  | .max, v :: vs => some (vs.foldl Max.max v)
  | .neg, [v] => some (-v)
  | .abs, [v] => some |v|
  | .sqrt, [v] => if v < 0 then none else (Number.sqrt (ofRat v)).toOption.map toRat
  | .count, vs => some vs.length
  | _, _ => none

/-- the meaning of the square root -/
theorem sqrt_ofRat (v : ℚ) : (Number.sqrt (ofRat v)).toOption = (meaning .sqrt [v]).map ofRat := by
  rw [meaning]
  by_cases negative : v < 0
  · rw [if_pos negative, sqrt_of_neg (by rwa [toRat_ofRat])]
    rfl
  · rw [if_neg negative, sqrt_of_not_neg (by rwa [toRat_ofRat])]
    simp [Except.toOption]

/-- an operation with one operand treats it, and any other number of operands is not accepted -/
theorem unary_ofRat {name : String} (step : Number → Except Reason Number) {vs : List ℚ}
    (accepted : (Arity.exactly 1).accepts vs.length = true) :
    ∃ v, vs = [v] ∧ unary name step (vs.map ofRat) = step (ofRat v) := by
  obtain ⟨v, rfl⟩ := List.length_eq_one_iff.1 (Arity.accepts_exactly.1 accepted)
  exact ⟨v, rfl, rfl⟩

/-- with as many operands as it takes, an operation computes its meaning -/
theorem compute_ofRat {f : Operation} {vs : List ℚ} (accepted : f.arity.accepts vs.length = true) :
    (f.compute (vs.map ofRat)).toOption = (f.meaning vs).map ofRat := by
  cases vs with
  | nil => cases f <;> cases accepted
  | cons v vs =>
    cases f with
    | add => exact congrArg Except.toOption (foldlM_ofRat add_ofRat v vs)
    | sub => exact congrArg Except.toOption (foldlM_ofRat sub_ofRat v vs)
    | mul => exact congrArg Except.toOption (foldlM_ofRat mul_ofRat v vs)
    | min => exact congrArg Except.toOption (foldlM_ofRat lesser_ofRat v vs)
    | max => exact congrArg Except.toOption (foldlM_ofRat greater_ofRat v vs)
    | div =>
      refine (congrArg Except.toOption (foldlM_div v vs)).trans ?_
      rw [meaning]
      split_ifs
      · rfl
      · rfl
    | count =>
      rw [meaning, Option.map_some, ofRat_natCast, ← List.length_map]
      rfl
    | neg =>
      obtain ⟨w, single, result⟩ := unary_ofRat _ accepted
      rw [compute, result, single, neg_ofRat]
      rfl
    | abs =>
      obtain ⟨w, single, result⟩ := unary_ofRat _ accepted
      rw [compute, result, single, abs_ofRat]
      rfl
    | sqrt =>
      obtain ⟨w, single, result⟩ := unary_ofRat _ accepted
      rw [compute, result, single, sqrt_ofRat]

/-- an operation is applied exactly where it has a meaning, and to that effect -/
theorem apply_eq_ok_iff {f : Operation} {vs : List ℚ} {a : Number} :
    f.apply (vs.map ofRat) = .ok a ↔
      f.arity.accepts vs.length = true ∧ ∃ v, f.meaning vs = some v ∧ a = ofRat v := by
  by_cases accepted : f.arity.accepts vs.length = true
  · have := compute_ofRat accepted
    rw [apply_of_accepts (by rwa [List.length_map])]
    cases result : f.compute (vs.map ofRat) with
    | error r =>
      rw [result, eq_comm, Except.toOption, Option.map_eq_none_iff] at this
      simp [this]
    | ok b =>
      rw [result, eq_comm, Except.toOption, Option.map_eq_some_iff] at this
      obtain ⟨v, value, rfl⟩ := this
      simp [accepted, value, eq_comm]
  · rw [apply_of_rejects (by rwa [List.length_map])]
    simp [accepted]

/-! ## Faults -/

/-- why an operation gives nothing for these values, although it takes so many -/
def fault : Operation → List ℚ → Option Reason
  | .div, _ :: vs => if 0 ∈ vs then some .divisionByZero else none
  | .sqrt, [v] => if v < 0 then some .outOfRange else none
  | _, _ => none

/-- an operation with as many operands as it takes fails for its fault, or gives its meaning -/
theorem compute_eq_error_iff {f : Operation} {vs : List ℚ} (accepted : f.arity.accepts vs.length = true) {r : Reason} :
    f.compute (vs.map ofRat) = .error r ↔ f.fault vs = some r := by
  cases vs with
  | nil => cases f <;> cases accepted
  | cons v vs =>
    cases f with
    | add => simp [compute, reduce, foldlM_ofRat add_ofRat, fault]
    | sub => simp [compute, reduce, foldlM_ofRat sub_ofRat, fault]
    | mul => simp [compute, reduce, foldlM_ofRat mul_ofRat, fault]
    | min => simp [compute, reduce, foldlM_ofRat lesser_ofRat, fault]
    | max => simp [compute, reduce, foldlM_ofRat greater_ofRat, fault]
    | count => simp [compute, tally, fault]
    | div =>
      simp only [compute, reduce, List.map_cons, foldlM_div, fault]
      split_ifs <;> simp
    | neg =>
      obtain ⟨w, -, result⟩ := unary_ofRat _ accepted
      rw [compute, result]
      simp [fault]
    | abs =>
      obtain ⟨w, -, result⟩ := unary_ofRat _ accepted
      rw [compute, result]
      simp [fault]
    | sqrt =>
      obtain ⟨w, single, result⟩ := unary_ofRat _ accepted
      rw [compute, result, single, fault]
      by_cases negative : w < 0
      · rw [if_pos negative, sqrt_of_neg (by rwa [toRat_ofRat])]
        simp
      · rw [if_neg negative, sqrt_of_not_neg (by rwa [toRat_ofRat])]
        simp

end Operation

end ExactCalc
