/-
Operations on any number of operands.

Operands are taken together from the left, each result in the form that its value has. Read as rationals they are one
sum, one product or one extreme of a list, of which the order of the list is no part.

`Operation.Gives name as v`: the operation of that name is applied to these numbers, and gives the number whose value is
`v`.

Results:
- `meaning_add`, `meaning_sub`, `meaning_mul`, `meaning_div`, `meaning_min`, `meaning_max`: the meaning of an operation
  as a function of the whole list.
- `meaning_perm`: four of them mean the same in any order.
- `gives_iff`: on normalized operands an operation gives its meaning and no other value.
- `variadic_exact`: **operations on any number of operands compute their mathematical meaning**.
-/
import ExactCalc.Proofs.Canonical

namespace ExactCalc.Operation

open Number

/-! ## Meanings of whole lists -/

section
variable (v : ℚ) (vs : List ℚ)

theorem meaning_add : meaning .add (v :: vs) = some (v :: vs).sum := by
  rw [List.sum_eq_foldl, List.foldl_cons, zero_add]
  rfl

theorem meaning_mul : meaning .mul (v :: vs) = some (v :: vs).prod := by
  rw [List.prod_eq_foldl, List.foldl_cons, one_mul]
  rfl

theorem foldl_sub : vs.foldl (· - ·) v = v - vs.sum := by
  induction vs generalizing v with
  | nil => exact (sub_zero v).symm
  | cons w vs ih => rw [List.foldl_cons, ih, List.sum_cons, sub_sub]

theorem foldl_div : vs.foldl (· / ·) v = v / vs.prod := by
  induction vs generalizing v with
  | nil => exact (div_one v).symm
  | cons w vs ih => rw [List.foldl_cons, ih, List.prod_cons, div_div]

theorem meaning_sub : meaning .sub (v :: vs) = some (v - vs.sum) := by
  rw [meaning, foldl_sub]

theorem meaning_div (nonzero : 0 ∉ vs) : meaning .div (v :: vs) = some (v / vs.prod) := by
  rw [meaning, if_neg nonzero, foldl_div]

theorem meaning_min : meaning .min vs = vs.min? := by
  cases vs with
  | nil => rfl
  | cons v vs => exact List.min?_cons'.symm

theorem meaning_max : meaning .max vs = vs.max? := by
  cases vs with
  | nil => rfl
  | cons v vs => exact List.max?_cons'.symm

end

/-- the operations for which the order of the operands does not matter -/
def symmetric : List Operation :=
  [.add, .mul, .min, .max]

theorem forall_symmetric {P : Operation → Prop} : (∀ f ∈ symmetric, P f) ↔ P .add ∧ P .mul ∧ P .min ∧ P .max := by
  simp [symmetric]

section
variable {vs ws : List ℚ} (perm : vs.Perm ws)
include perm

theorem min?_perm : vs.min? = ws.min? := by
  ext v
  simp only [List.min?_eq_some_iff, perm.mem_iff]

theorem max?_perm : vs.max? = ws.max? := by
  ext v
  simp only [List.max?_eq_some_iff, perm.mem_iff]

theorem meaning_perm : ∀ f ∈ symmetric, f.meaning vs = f.meaning ws := by
  have least : meaning .min vs = meaning .min ws := by
    rw [meaning_min, meaning_min, min?_perm perm]
  have greatest : meaning .max vs = meaning .max ws := by
    rw [meaning_max, meaning_max, max?_perm perm]
  have folded : meaning .add vs = meaning .add ws ∧ meaning .mul vs = meaning .mul ws := by
    cases vs with
    | nil =>
      rw [← perm.nil_eq]
      exact ⟨rfl, rfl⟩
    | cons v vs =>
      have nonempty : ws ≠ [] := by
        rintro rfl
        exact List.cons_ne_nil v vs perm.eq_nil
      obtain ⟨w, ws, rfl⟩ := List.exists_cons_of_ne_nil nonempty
      rw [meaning_add, meaning_add, meaning_mul, meaning_mul, perm.sum_eq, perm.prod_eq]
      exact ⟨rfl, rfl⟩
  exact forall_symmetric.2 ⟨folded.1, folded.2, least, greatest⟩

end

/-! ## Results on numbers -/

/-- the operation of that name gives the number with this value for these operands -/
def Gives (name : String) (as : List Number) (v : ℚ) : Prop :=
  ∃ c, applyNamed name as = .ok c ∧ c.Represents v

theorem applyNamed_name (f : Operation) (as : List Number) : applyNamed f.name as = f.apply as := by
  rw [applyNamed, named?_name]

section
variable {f : Operation} {as bs : List Number} {v : ℚ}

theorem gives_iff_apply : Gives f.name as v ↔ f.apply as = .ok (ofRat v) := by
  simp only [Gives, represents_iff, exists_eq_right, applyNamed_name]

/-- on normalized operands an operation gives its meaning and no other value -/
theorem gives_iff (normalized : ∀ a ∈ as, a.Normalized) :
    Gives f.name as v ↔ f.arity.accepts as.length = true ∧ f.meaning (as.map toRat) = some v := by
  have values : as = (as.map toRat).map ofRat := (map_ofRat_map_toRat normalized).symm
  rw [gives_iff_apply, ← List.length_map (f := toRat)]
  nth_rewrite 1 [values]
  rw [apply_eq_ok_iff]
  constructor
  · rintro ⟨accepted, w, value, same⟩
    have equal : v = w := by simpa using congrArg toRat same
    rw [equal]
    exact ⟨accepted, value⟩
  · rintro ⟨accepted, value⟩
    exact ⟨accepted, v, value, rfl⟩

end

/-! ## Lists of operands -/

section
variable {a : Number} {as : List Number} (normalized : ∀ b ∈ a :: as, b.Normalized)
include normalized

/-- an operation that takes one operand or more gives its meaning -/
theorem gives_of_meaning {f : Operation} {v : ℚ} (arity : f.arity = .atLeast 1)
    (value : f.meaning ((a :: as).map toRat) = some v) : Gives f.name (a :: as) v := by
  rw [gives_iff normalized, arity, Arity.accepts_atLeast]
  exact ⟨Nat.succ_pos _, value⟩

theorem gives_add : Gives "+" (a :: as) ((a :: as).map toRat).sum :=
  gives_of_meaning (f := .add) normalized rfl (meaning_add _ _)

theorem gives_mul : Gives "*" (a :: as) ((a :: as).map toRat).prod :=
  gives_of_meaning (f := .mul) normalized rfl (meaning_mul _ _)

theorem gives_sub : Gives "-" (a :: as) (a.toRat - (as.map toRat).sum) :=
  gives_of_meaning (f := .sub) normalized rfl (meaning_sub _ _)

theorem gives_div (nonzero : ∀ b ∈ as, b.toRat ≠ 0) : Gives "/" (a :: as) (a.toRat / (as.map toRat).prod) := by
  refine gives_of_meaning (f := .div) normalized rfl (meaning_div _ _ ?_)
  rw [List.mem_map]
  rintro ⟨b, member, zero⟩
  exact nonzero b member zero

theorem div_eq_error : applyNamed "/" (a :: as) = .error .divisionByZero ↔ ∃ b ∈ as, b.toRat = 0 := by
  have accepted : div.arity.accepts ((a :: as).map toRat).length = true :=
    Arity.accepts_atLeast.2 (Nat.succ_pos _)
  have failed := compute_eq_error_iff accepted (r := .divisionByZero)
  rw [map_ofRat_map_toRat normalized, List.map_cons, fault] at failed
  calc applyNamed "/" (a :: as) = .error .divisionByZero
    _ ↔ div.compute (a :: as) = .error .divisionByZero := by
      rw [← apply_of_accepts (f := div) (by rwa [List.length_map] at accepted), ← applyNamed_name, name]
    _ ↔ 0 ∈ as.map toRat := by simp [failed]
    _ ↔ ∃ b ∈ as, b.toRat = 0 := List.mem_map

/-- where the value is that of one operand and related to that of each, so is the result, which is this operand -/
theorem exists_extreme {f : Operation} {v : ℚ} {R : ℚ → ℚ → Prop} (arity : f.arity = .atLeast 1)
    (value : f.meaning ((a :: as).map toRat) = some v)
    (extreme : v ∈ (a :: as).map toRat ∧ ∀ w ∈ (a :: as).map toRat, R v w) :
    ∃ c ∈ a :: as, applyNamed f.name (a :: as) = .ok c ∧ ∀ b ∈ a :: as, R c.toRat b.toRat := by
  obtain ⟨member, related⟩ := extreme
  obtain ⟨c, operand, rfl⟩ := List.mem_map.1 member
  have result : f.apply (a :: as) = .ok (ofRat c.toRat) := gives_iff_apply.1 (gives_of_meaning normalized arity value)
  rw [ofRat_toRat (normalized c operand), ← applyNamed_name] at result
  exact ⟨c, operand, result, fun b hb => related _ (List.mem_map_of_mem hb)⟩

theorem exists_min :
    ∃ c ∈ a :: as, applyNamed "min" (a :: as) = .ok c ∧ ∀ b ∈ a :: as, c.toRat ≤ b.toRat := by
  have least : ((a :: as).map toRat).min? = some ((as.map toRat).foldl Min.min a.toRat) := List.min?_cons'
  have value := (meaning_min _).trans least
  exact exists_extreme (f := .min) normalized rfl value (List.min?_eq_some_iff.1 least)

theorem exists_max :
    ∃ c ∈ a :: as, applyNamed "max" (a :: as) = .ok c ∧ ∀ b ∈ a :: as, b.toRat ≤ c.toRat := by
  have greatest : ((a :: as).map toRat).max? = some ((as.map toRat).foldl Max.max a.toRat) := List.max?_cons'
  have value := (meaning_max _).trans greatest
  exact exists_extreme (f := .max) (R := (· ≥ ·)) normalized rfl value (List.max?_eq_some_iff.1 greatest)

theorem exists_gives : ∀ f ∈ symmetric, ∃ v, Gives f.name (a :: as) v := by
  have least : Gives "min" (a :: as) _ := gives_of_meaning (f := .min) normalized rfl rfl
  have greatest : Gives "max" (a :: as) _ := gives_of_meaning (f := .max) normalized rfl rfl
  exact forall_symmetric.2 ⟨⟨_, gives_add normalized⟩, ⟨_, gives_mul normalized⟩, ⟨_, least⟩, ⟨_, greatest⟩⟩

/-- a symmetric operation gives the same number for the operands in any order -/
theorem applyNamed_perm : ∀ f ∈ symmetric, ∀ bs, bs.Perm (a :: as) →
    applyNamed f.name bs = applyNamed f.name (a :: as) := by
  intro f member bs perm
  have permuted : ∀ b ∈ bs, b.Normalized := fun b hb => normalized b (perm.subset hb)
  have same : f.meaning (bs.map toRat) = f.meaning ((a :: as).map toRat) := meaning_perm (perm.map toRat) f member
  obtain ⟨v, value⟩ := exists_gives normalized f member
  have other : Gives f.name bs v := by
    rw [gives_iff permuted, perm.length_eq, same]
    exact (gives_iff normalized).1 value
  rw [applyNamed_name, applyNamed_name, gives_iff_apply.1 value, gives_iff_apply.1 other]

end

/-- **Operations on any number of operands compute their mathematical meaning.** Let the operands be normalized numbers,
integers and fractions in any mixture, and at least one of them. A sum and a product are exact, and so are the
difference and the quotient of the first operand and all others; a quotient fails exactly if one of the others is zero.
The least and the greatest are themselves operands. Sum, product, least and greatest are the same number for the
operands in any order. -/
theorem variadic_exact {a : Number} {as : List Number} (normalized : ∀ b ∈ a :: as, b.Normalized) :
    Gives "+" (a :: as) ((a :: as).map toRat).sum ∧
    Gives "*" (a :: as) ((a :: as).map toRat).prod ∧
    Gives "-" (a :: as) (a.toRat - (as.map toRat).sum) ∧
    (applyNamed "/" (a :: as) = .error .divisionByZero ↔ ∃ b ∈ as, b.toRat = 0) ∧
    ((∀ b ∈ as, b.toRat ≠ 0) → Gives "/" (a :: as) (a.toRat / (as.map toRat).prod)) ∧
    (∃ c ∈ a :: as, applyNamed "min" (a :: as) = .ok c ∧ ∀ b ∈ a :: as, c.toRat ≤ b.toRat) ∧
    (∃ c ∈ a :: as, applyNamed "max" (a :: as) = .ok c ∧ ∀ b ∈ a :: as, b.toRat ≤ c.toRat) ∧
    (∀ name ∈ ["+", "*", "min", "max"], ∀ bs, bs.Perm (a :: as) → applyNamed name bs = applyNamed name (a :: as)) ∧
    applyNamed "count" (a :: as) = .ok (.integer (as.length + 1)) := by
  refine ⟨gives_add normalized, gives_mul normalized, gives_sub normalized, div_eq_error normalized,
    gives_div normalized, exists_min normalized, exists_max normalized, ?order, ?count⟩
  case order =>
    have names : ["+", "*", "min", "max"] = symmetric.map name := rfl
    rw [names, List.forall_mem_map]
    exact applyNamed_perm normalized
  case count => rfl

/-- two halves and an integer between them -/
theorem variadic_exact_halves :
    let half : Number := .fraction (1 / 2)
    let operands := [half, .integer 3, half]
    (∀ b ∈ operands, b.Normalized) ∧
      Gives "+" operands 4 ∧ Gives "-" operands (-3) ∧ Gives "/" operands (1 / 3) ∧
      [.integer 3, half, half].Perm operands ∧ applyNamed "*" [.integer 3, half, half] = applyNamed "*" operands ∧
      applyNamed "/" [half, .integer 3, .integer 0] = .error .divisionByZero := by
  intro half operands
  have normalized : ∀ b ∈ operands, b.Normalized := by decide +kernel
  have other : ∀ b ∈ [half, .integer 3, .integer 0], b.Normalized := by decide +kernel
  have nonzero : ∀ b ∈ [.integer 3, half], b.toRat ≠ 0 := by decide +kernel
  have perm : [.integer 3, half, half].Perm operands := List.Perm.swap _ _ _
  have sum : (operands.map toRat).sum = 4 := by decide +kernel
  have difference : half.toRat - ([.integer 3, half].map toRat).sum = -3 := by decide +kernel
  have quotient : half.toRat / ([.integer 3, half].map toRat).prod = 1 / 3 := by decide +kernel
  obtain ⟨added, -, subtracted, -, divided, -, -, reordered, -⟩ := variadic_exact normalized
  obtain ⟨-, -, -, failed, -⟩ := variadic_exact other
  rw [sum] at added
  rw [difference] at subtracted
  have result := divided nonzero
  rw [quotient] at result
  exact ⟨normalized, added, subtracted, result, perm, reordered "*" (by decide) _ perm,
    failed.2 ⟨.integer 0, by decide, rfl⟩⟩

end ExactCalc.Operation
