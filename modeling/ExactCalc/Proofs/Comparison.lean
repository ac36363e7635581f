/-
The order of numbers.

Two integers are compared as integers and all other pairs as rationals, while two numbers are the same only if they are
kept in the same form. Order and equality agree because normalized numbers have one form for each value; a fraction
that stands for an integer would be found equal to it and still be another number.

`Number.AtMost a b`: comparing finds `a` before `b` or in the same place.

Results:
- `compare_eq_eq_iff`: normalized numbers in the same place are the same number.
- `compare_add`, `compare_mul`: adding a number and multiplying by a positive one keep the order.
- `order_exact`: **comparison is the exact order of the rationals, and agrees with equality**.
-/
import ExactCalc.Proofs.Canonical

namespace ExactCalc.Number

/-! ## The order of the values -/

/-- the order of numbers is turned around and passed on as that of their values -/
instance : Std.TransCmp compare where
  eq_swap := by
    intro a b
    rw [compare_toRat, compare_toRat]
    exact Std.OrientedOrd.eq_swap
  isLE_trans := by
    intro a b c first second
    rw [compare_toRat] at first second ⊢
    exact Std.TransOrd.isLE_trans first second

/-- comparing finds the first number before the second one or in the same place -/
def AtMost (a b : Number) : Prop :=
  (a.compare b).isLE = true

section
variable {a b c : Number}

theorem compare_eq_lt_iff : a.compare b = .lt ↔ a.toRat < b.toRat := by
  rw [compare_toRat, compare_lt_iff_lt]

/-! ## Order and equality -/

/-- normalized numbers in the same place are the same number -/
theorem compare_eq_eq_iff (ha : a.Normalized) (hb : b.Normalized) : a.compare b = .eq ↔ a = b := by
  rw [compare_toRat, compare_eq_iff_eq, toRat_eq_iff ha hb]

/-- a fraction that is not normalized shares its place with another number -/
example : (fraction 2).compare (integer 2) = .eq ∧ fraction 2 ≠ integer 2 := by decide +kernel

theorem AtMost.trans (h : a.AtMost b) (h' : b.AtMost c) : a.AtMost c :=
  Std.TransCmp.isLE_trans h h'

theorem AtMost.antisymm (ha : a.Normalized) (hb : b.Normalized) (h : a.AtMost b) (h' : b.AtMost a) : a = b :=
  (compare_eq_eq_iff ha hb).1 (Std.OrientedCmp.isLE_antisymm h h')

theorem atMost_total (a b : Number) : a.AtMost b ∨ b.AtMost a := by
  have turned : b.compare a = (a.compare b).swap := Std.OrientedCmp.eq_swap
  rw [AtMost, AtMost, turned]
  cases a.compare b <;> decide

/-! ## Order and arithmetic -/

/-- what is strictly increasing on values keeps the order of numbers -/
theorem compare_of_strictMono {f : ℚ → ℚ} (increasing : StrictMono f) {g : Number → Number}
    (value : ∀ a, (g a).toRat = f a.toRat) (a b : Number) : (g a).compare (g b) = a.compare b := by
  calc (g a).compare (g b)
    _ = cmp (g a).toRat (g b).toRat := by rw [compare_toRat, cmp_eq_compare]
    _ = cmp (f a.toRat) (f b.toRat) := by rw [value, value]
    _ = cmp a.toRat b.toRat := increasing.cmp_map_eq a.toRat b.toRat
    _ = a.compare b := by rw [compare_toRat, cmp_eq_compare]

theorem compare_add (a b c : Number) :
    (a.add c).compare (b.add c) = a.compare b ∧ (c.add a).compare (c.add b) = a.compare b := by
  have behind : ∀ a : Number, (a.add c).toRat = a.toRat + c.toRat := fun a => toRat_add a c
  have before : ∀ a : Number, (c.add a).toRat = c.toRat + a.toRat := fun a => toRat_add c a
  exact ⟨compare_of_strictMono add_left_strictMono behind a b, compare_of_strictMono add_right_strictMono before a b⟩

theorem compare_mul (positive : 0 < c.toRat) (a b : Number) :
    (a.mul c).compare (b.mul c) = a.compare b ∧ (c.mul a).compare (c.mul b) = a.compare b := by
  have behind : ∀ a : Number, (a.mul c).toRat = a.toRat * c.toRat := fun a => toRat_mul a c
  have before : ∀ a : Number, (c.mul a).toRat = c.toRat * a.toRat := fun a => toRat_mul c a
  constructor
  · exact compare_of_strictMono (strictMono_mul_right_of_pos positive) behind a b
  · exact compare_of_strictMono (strictMono_mul_left_of_pos positive) before a b

end

/-- **Comparison is the exact order of the rationals, and agrees with equality.** Numbers are in the order of their
values, in whichever forms they are kept, and any two can be compared. Normalized numbers are found in the same place
exactly if they are the same. Comparing the other way round gives the opposite answer; the order is total, antisymmetric
and transitive; and adding a number to both sides or multiplying both by a positive one changes nothing in it. -/
theorem order_exact {a b : Number} (ha : a.Normalized) (hb : b.Normalized) (c : Number) :
    a.compare b = Ord.compare a.toRat b.toRat ∧
    a.compare? b = some (a.compare b) ∧
    (a.compare b = .eq ↔ a = b) ∧
    b.compare a = (a.compare b).swap ∧
    (a.AtMost b ∨ b.AtMost a) ∧
    (a.AtMost b → b.AtMost a → a = b) ∧
    (a.AtMost b → b.AtMost c → a.AtMost c) ∧
    ((a.add c).compare (b.add c) = a.compare b ∧ (c.add a).compare (c.add b) = a.compare b) ∧
    ((integer 0).compare c = .lt →
      (a.mul c).compare (b.mul c) = a.compare b ∧ (c.mul a).compare (c.mul b) = a.compare b) := by
  have turned : b.compare a = (a.compare b).swap := Std.OrientedCmp.eq_swap
  refine ⟨compare_toRat a b, rfl, compare_eq_eq_iff ha hb, turned, atMost_total a b, AtMost.antisymm ha hb,
    AtMost.trans, compare_add a b c, ?_⟩
  intro positive
  exact compare_mul (compare_eq_lt_iff.1 positive) a b

/-- a third, and the decimal that agrees with it in twenty places: their order is kept when both are tripled -/
theorem order_exact_third :
    let third : Number := .fraction (1 / 3)
    let decimal : Number := .fraction (33333333333333333333 / 100000000000000000000)
    third.Normalized ∧ decimal.Normalized ∧ (integer 0).compare (integer 3) = .lt ∧
      third.compare decimal = .gt ∧ third.compare? decimal = some .gt ∧ decimal.compare third = .lt ∧
      third.mul (integer 3) = integer 1 ∧ (third.mul (integer 3)).compare (decimal.mul (integer 3)) = .gt ∧
      decimal.AtMost third ∧ third ≠ decimal := by
  intro third decimal
  have ht : third.Normalized := by decide +kernel
  have hd : decimal.Normalized := by decide +kernel
  have positive : (integer 0).compare (integer 3) = .lt := by decide
  have greater : third.compare decimal = .gt := by decide +kernel
  have whole : third.mul (integer 3) = integer 1 := by decide +kernel
  obtain ⟨-, partialOrder, same, turned, -, -, -, -, scaled⟩ := order_exact ht hd (integer 3)
  rw [greater] at partialOrder same turned scaled
  have less : decimal.compare third = .lt := turned
  have atMost : decimal.AtMost third := by
    rw [AtMost, less]
    rfl
  have different : third ≠ decimal := by
    intro equal
    cases same.2 equal
  exact ⟨ht, hd, positive, greater, partialOrder, less, whole, (scaled positive).1, atMost, different⟩

end ExactCalc.Number
