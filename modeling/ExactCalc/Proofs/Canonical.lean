/-
Numbers as the one written form of each rational.

`Number.Represents a v`: the number `a` has the value `v` and is normalized. Arithmetic takes numbers in this form to
numbers in this form, whichever of them are kept as integers, so that the values may be forgotten in comparisons: equal
numbers are the same ones.

Results:
- `represents_iff`: there is exactly one such number for each rational, the one that `ofRat` builds.
- `normalized_apply`, `normalized_evaluateAt`: operations, and so evaluations, give no other numbers. The second is
  proved by induction on the tree, for trees of every shape and depth.
- `number_canonical`: **numbers are exact and canonical**.
-/
import ExactCalc.Proofs.Denotation

namespace ExactCalc

namespace Number

/-! ## Forms -/

/-- the number has this value, and is in the form that numbers are kept in -/
def Represents (a : Number) (v : ℚ) : Prop :=
  a.Normalized ∧ a.toRat = v

theorem represents_ofRat (v : ℚ) : (ofRat v).Represents v :=
  ⟨normalized_ofRat v, toRat_ofRat v⟩

/-- each rational has one form -/
theorem represents_iff {a : Number} {v : ℚ} : a.Represents v ↔ a = ofRat v := by
  constructor
  · rintro ⟨normalized, value⟩
    exact eq_ofRat normalized value
  · rintro rfl
    exact represents_ofRat v

/-- fractions are kept in lowest terms, and with a denominator that is needed -/
theorem normalized_fraction_iff (q : ℚ) : (fraction q).Normalized ↔ 2 ≤ q.den ∧ q.num.natAbs.Coprime q.den := by
  have positive := q.den_pos
  constructor
  · intro fractional
    have : q.den ≠ 1 := fractional
    exact ⟨by omega, q.reduced⟩
  · rintro ⟨large, -⟩ whole
    omega

/-- numbers are the forms of their values -/
theorem map_ofRat_map_toRat {as : List Number} (normalized : ∀ a ∈ as, a.Normalized) :
    (as.map toRat).map ofRat = as := by
  rw [List.map_map]
  exact (List.map_congr_left fun a ha => ofRat_toRat (normalized a ha)).trans (List.map_id as)

section
variable {a b : Number}

theorem toRat_eq_iff (ha : a.Normalized) (hb : b.Normalized) : a.toRat = b.toRat ↔ a = b :=
  ⟨toRat_injective ha hb, congrArg toRat⟩

/-! ## Arithmetic -/

theorem represents_combine {onInt : ℤ → ℤ → ℤ} {onRat : ℚ → ℚ → ℚ}
    (agree : ∀ m n : ℤ, ((onInt m n : ℤ) : ℚ) = onRat m n) (a b : Number) :
    (combine onInt onRat a b).Represents (onRat a.toRat b.toRat) :=
  ⟨normalized_combine onInt onRat a b, toRat_combine agree a b⟩

theorem represents_neg (ha : a.Normalized) : a.neg.Represents (-a.toRat) :=
  ⟨normalized_neg ha, toRat_neg a⟩

theorem represents_abs (ha : a.Normalized) : a.abs.Represents |a.toRat| := by
  rw [← ofRat_toRat ha, abs_ofRat, toRat_ofRat]
  exact represents_ofRat _

theorem div_eq_error_iff (a b : Number) : a.div b = .error .divisionByZero ↔ b.toRat = 0 := by
  rw [← isZero_iff, div]
  split_ifs with zero
  · simp [zero]
  · simp [zero]

theorem represents_div (a : Number) (nonzero : b.toRat ≠ 0) :
    ∃ c, a.div b = .ok c ∧ c.Represents (a.toRat / b.toRat) := by
  have divides : ¬b.isZero = true := mt (isZero_iff b).1 nonzero
  exact ⟨_, if_neg divides, represents_ofRat _⟩

theorem normalized_sqrt (nonnegative : 0 ≤ a.toRat) : ∃ c, a.sqrt = .ok c ∧ c.Normalized :=
  ⟨_, sqrt_of_not_neg nonnegative.not_gt, normalized_ofRat _⟩

end

end Number

/-! ## Operations and evaluations -/

open Number

theorem Operation.normalized_apply {f : Operation} {as : List Number} {b : Number} (forms : ∀ a ∈ as, a.Normalized)
    (h : f.apply as = .ok b) : b.Normalized := by
  rw [← map_ofRat_map_toRat forms] at h
  obtain ⟨-, v, -, rfl⟩ := Operation.apply_eq_ok_iff.1 h
  exact normalized_ofRat v

namespace Expr

theorem normalized_atomValue {t : Token} {a : Number} (h : atomValue t = .ok a) : a.Normalized := by
  unfold atomValue at h
  split_ifs at h
  exact normalized_of_ofText (mapError_eq_ok_iff.1 h)

mutual

/-- no evaluation gives a number in another form -/
theorem normalized_evaluateAt : (e : Expr) → {depth : ℕ} → {a : Number} → evaluateAt depth e = .ok (some a) →
    a.Normalized
  | .atom t, depth, a, h => by
    rw [evaluateAt, map_some_eq_ok_iff] at h
    exact normalized_atomValue h
  | .nil, depth, a, h => by
    rw [evaluateAt] at h
    cases h
  | .list [], depth, a, h => by
    rw [evaluateAt_list_eq_ok_iff, callAt] at h
    cases h
  | .list (head :: operands), depth, a, h => by
    rw [evaluateAt_list_eq_ok_iff, callAt_eq_ok_iff] at h
    obtain ⟨t, f, as, -, -, values, result⟩ := h
    exact Operation.normalized_apply (normalized_operandsAt operands values) result

/-- no operand is given to an operation in another form -/
theorem normalized_operandsAt : (es : List Expr) → {depth : ℕ} → {as : List Number} → operandsAt depth es = .ok as →
    ∀ a ∈ as, a.Normalized
  | [], depth, as, h => by
    rw [operandsAt] at h
    cases h
    nofun
  | e :: es, depth, as, h => by
    obtain ⟨-, b, bs, value, values, rfl⟩ := operandsAt_cons_eq_ok_iff.1 h
    exact List.forall_mem_cons.2 ⟨normalized_evaluateAt e value, normalized_operandsAt es values⟩

end

end Expr

/-! ## The representation -/

/-- **Numbers are exact and canonical.** A fraction is kept in lowest terms with a denominator of two or more, and
anything else as an integer. From numbers in this form every operation gives the number in this form that has the exact
value, in whichever forms its operands are kept; division fails exactly if the divisor is zero. Of two such numbers one
value makes one number. Rationals, literals and evaluations at any depth give numbers in this form and no others. -/
theorem Number.number_canonical :
    (∀ q : ℚ, (fraction q).Normalized ↔ 2 ≤ q.den ∧ q.num.natAbs.Coprime q.den) ∧
    (∀ a b : Number, a.Normalized → b.Normalized →
      (a.add b).Represents (a.toRat + b.toRat) ∧
      (a.sub b).Represents (a.toRat - b.toRat) ∧
      (a.mul b).Represents (a.toRat * b.toRat) ∧
      (a.div b = .error .divisionByZero ↔ b.toRat = 0) ∧
      (b.toRat ≠ 0 → ∃ c, a.div b = .ok c ∧ c.Represents (a.toRat / b.toRat)) ∧
      a.neg.Represents (-a.toRat) ∧
      a.abs.Represents |a.toRat| ∧
      (0 ≤ a.toRat → ∃ c, a.sqrt = .ok c ∧ c.Normalized) ∧
      (a.toRat < 0 → a.sqrt = .error .outOfRange) ∧
      (a.toRat = b.toRat ↔ a = b)) ∧
    (∀ q : ℚ, (ofRat q).Represents q) ∧
    (∀ s : String, (∀ a, ofText s = .ok a → a.Normalized) ∧
      (Token.Kind.constant.spells s.toList = true → ∃ a, ofText s = .ok a)) ∧
    ∀ (e : Expr) (a : Number), (e.evaluate = .ok (some a) → a.Normalized) ∧
      ∀ depth, Expr.evaluateAt depth e = .ok (some a) → a.Normalized := by
  refine ⟨normalized_fraction_iff, ?arithmetic, represents_ofRat, ?literals, ?evaluations⟩
  case arithmetic =>
    intro a b ha hb
    refine ⟨?_, ?_, ?_, div_eq_error_iff a b, represents_div a, represents_neg ha, represents_abs ha, normalized_sqrt,
      sqrt_of_neg, toRat_eq_iff ha hb⟩
    · exact represents_combine Rat.intCast_add a b
    · exact represents_combine Rat.intCast_sub a b
    · exact represents_combine Rat.intCast_mul a b
  case literals =>
    intro s
    exact ⟨fun a => normalized_of_ofText, fun spelled => ⟨_, ofText_of_isConstant spelled⟩⟩
  case evaluations =>
    intro e a
    exact ⟨Expr.normalized_evaluateAt e, fun depth => Expr.normalized_evaluateAt e⟩

/-- halves add up to an integer, and an evaluation that divides twice gives one -/
theorem Number.number_canonical_halves :
    let half : Number := .fraction (1 / 2)
    let e := Expr.list [.atom ⟨.operator, 1, "/"⟩, .atom ⟨.constant, 3, "6"⟩,
      .list [.atom ⟨.operator, 6, "/"⟩, .atom ⟨.constant, 8, "3"⟩, .atom ⟨.constant, 10, "2"⟩]]
    half.Normalized ∧ half.toRat ≠ 0 ∧ 0 ≤ half.toRat ∧ (half.neg).toRat < 0 ∧
      half.add half = .integer 1 ∧ (half.add half).Represents (half.toRat + half.toRat) ∧
      (∃ c, half.div half = .ok c ∧ c.Represents (half.toRat / half.toRat)) ∧
      (∃ c, half.sqrt = .ok c ∧ c.Normalized) ∧ half.neg.sqrt = .error .outOfRange ∧
      (∃ a, ofText "+007" = .ok a ∧ a.Normalized) ∧
      e.evaluate = .ok (some (.integer 4)) ∧ (integer 4).Normalized := by
  intro half e
  have normalized : half.Normalized := by decide +kernel
  have nonzero : half.toRat ≠ 0 := by decide +kernel
  have nonnegative : 0 ≤ half.toRat := by decide +kernel
  have negative : half.neg.toRat < 0 := by decide +kernel
  have sum : half.add half = .integer 1 := by decide +kernel
  have value : e.evaluate = .ok (some (.integer 4)) := by decide +kernel
  obtain ⟨-, arithmetic, -, literals, evaluations⟩ := number_canonical
  obtain ⟨added, -, -, -, divided, negated, -, root, -⟩ := arithmetic half half normalized normalized
  obtain ⟨-, -, -, -, -, -, -, -, noRoot, -⟩ := arithmetic half.neg half negated.1 normalized
  obtain ⟨a, read⟩ := (literals "+007").2 (by decide +kernel)
  exact ⟨normalized, nonzero, nonnegative, negative, sum, added, divided nonzero, root nonnegative, noRoot negative,
    ⟨a, read, (literals "+007").1 a read⟩, value, (evaluations e _).1 value⟩

end ExactCalc
