/-
Operations called with and without a look at the number of operands.

An operation states twice how many operands it takes: its arity says so, and what it computes refuses other numbers by
itself, under a name and with an arity of its own. `Operation.Guards name arity body`: the function `body` refuses
exactly the lists whose length the arity does not accept, and says so under this name.

Results:
- `guards_reduce`, `guards_unary`, `guards_tally`: each way of treating operands guards the arity that it states.
- `guards_compute`: the name and the arity stated there are those that the operation is registered with.
- `calls_agree`: **an operation gives the same however it is called**.
-/
import ExactCalc.Operation

namespace ExactCalc

namespace Operation

/-- whatever is wrong here, it is no number of operands -/
def Quiet (x : Except Reason Number) : Prop :=
  ∀ name arity received, x ≠ .error (.argumentCount name arity received)

/-- the function refuses the lengths that the arity does not accept, and complains of no other length -/
structure Guards (name : String) (arity : Arity) (body : List Number → Except Reason Number) : Prop where
  rejects : ∀ as, ¬arity.accepts as.length = true → body as = .error (.argumentCount name arity as.length)
  quiet : ∀ as, arity.accepts as.length = true → Quiet (body as)

/-! ## One step -/

theorem quiet_ok (a : Number) : Quiet (.ok a) := by
  intro name arity received failed
  cases failed

/-- nothing but a divisor stops a division -/
theorem quiet_div (a b : Number) : Quiet (a.div b) := by
  intro name arity received failed
  unfold Number.div at failed
  split at failed
  · cases failed
  · cases failed

theorem quiet_sqrt (a : Number) : Quiet a.sqrt := by
  intro name arity received failed
  by_cases negative : a.toRat < 0
  · rw [Number.sqrt_of_neg negative] at failed
    cases failed
  · rw [Number.sqrt_of_not_neg negative] at failed
    cases failed

/-! ## Ways of treating operands -/

/-- if no step complains of a count, then none of several steps does -/
theorem quiet_foldlM {step : Number → Number → Except Reason Number} (quiet : ∀ a b, Quiet (step a b)) (a : Number)
    (as : List Number) : Quiet (as.foldlM step a) := by
  induction as generalizing a with
  | nil => exact quiet_ok a
  | cons b as ih =>
    rw [List.foldlM_cons]
    cases first : step a b with
    | error r =>
      have here := quiet a b
      rw [first] at here
      exact here
    | ok c => exact ih c

theorem guards_reduce (name : String) {step : Number → Number → Except Reason Number}
    (quiet : ∀ a b, Quiet (step a b)) : Guards name (.atLeast 1) (reduce name step) where
  rejects := by
    intro as rejected
    cases as with
    | nil => rfl
    | cons a as => simp at rejected
  quiet := by
    intro as accepted
    cases as with
    | nil => simp at accepted
    | cons a as => exact quiet_foldlM quiet a as

theorem guards_unary (name : String) {step : Number → Except Reason Number} (quiet : ∀ a, Quiet (step a)) :
    Guards name (.exactly 1) (unary name step) where
  rejects := by
    intro as rejected
    rcases as with _ | ⟨a, _ | ⟨b, as⟩⟩
    · rfl
    · simp at rejected
    · rfl
  quiet := by
    intro as accepted
    obtain ⟨a, rfl⟩ := List.length_eq_one_iff.1 (Arity.accepts_exactly.1 accepted)
    exact quiet a

theorem guards_tally : Guards "count" (.atLeast 1) tally where
  rejects := by
    intro as rejected
    cases as with
    | nil => rfl
    | cons a as => simp at rejected
  quiet := by
    intro as accepted
    cases as with
    | nil => simp at accepted
    | cons a as => exact quiet_ok _

/-! ## Operations -/

/-- what an operation refuses by itself is what its arity does not accept, under its own name -/
theorem guards_compute (f : Operation) : Guards f.name f.arity f.compute := by
  cases f with
  | mul => exact guards_reduce "*" fun _ _ => quiet_ok _
  | add => exact guards_reduce "+" fun _ _ => quiet_ok _
  | sub => exact guards_reduce "-" fun _ _ => quiet_ok _
  | div => exact guards_reduce "/" quiet_div
  | abs => exact guards_unary "abs" fun _ => quiet_ok _
  | count => exact guards_tally
  | max => exact guards_reduce "max" fun _ _ => quiet_ok _
  | min => exact guards_reduce "min" fun _ _ => quiet_ok _
  | neg => exact guards_unary "neg" fun _ => quiet_ok _
  | sqrt => exact guards_unary "sqrt" quiet_sqrt

/-- looking at the number of operands first changes nothing -/
theorem apply_eq_compute (f : Operation) (as : List Number) : f.apply as = f.compute as := by
  by_cases accepted : f.arity.accepts as.length = true
  · exact apply_of_accepts accepted
  · rw [apply_of_rejects accepted, f.guards_compute.rejects as accepted, miscount]

theorem exists_named?_of_mem_names {name : String} (h : name ∈ names) : ∃ f, named? name = some f := by
  obtain ⟨f, -, rfl⟩ := List.mem_map.1 h
  exact ⟨f, named?_name f⟩

/-- **An operation gives the same however it is called.** For every name that is registered and all lists of operands,
the operation by itself, the operation behind a check of its arity, and what is called by that name give the same number
or fail for the same reason. By itself the operation refuses exactly the numbers of operands that its arity does not
accept, and says so with its registered name and arity and with the number of operands that it got. -/
theorem calls_agree {name : String} (registered : name ∈ names) :
    ∃ f, named? name = some f ∧ ∀ as,
      f.apply as = f.compute as ∧ applyNamed name as = f.compute as ∧
      (¬f.arity.accepts as.length = true ↔ f.compute as = .error (.argumentCount name f.arity as.length)) ∧
      ∀ named arity received, f.compute as = .error (.argumentCount named arity received) →
        named = name ∧ arity = f.arity ∧ received = as.length := by
  obtain ⟨f, found⟩ := exists_named?_of_mem_names registered
  have guards := f.guards_compute
  rw [name_of_named? found] at guards
  refine ⟨f, found, fun as => ?_⟩
  have onlyRejected : ∀ named arity received, f.compute as = .error (.argumentCount named arity received) →
      ¬f.arity.accepts as.length = true := by
    intro named arity received failed accepted
    exact guards.quiet as accepted named arity received failed
  refine ⟨apply_eq_compute f as, ?_, ⟨guards.rejects as, onlyRejected _ _ _⟩, ?_⟩
  · rw [applyNamed, found]
    exact apply_eq_compute f as
  · intro named arity received failed
    rw [guards.rejects as (onlyRejected named arity received failed)] at failed
    cases failed
    exact ⟨rfl, rfl, rfl⟩

/-- a root of two numbers, and one of a negative number -/
theorem calls_agree_sqrt :
    "sqrt" ∈ names ∧ named? "sqrt" = some sqrt ∧
      applyNamed "sqrt" [.integer 4, .integer 9] = sqrt.compute [.integer 4, .integer 9] ∧
      sqrt.compute [.integer 4, .integer 9] = .error (.argumentCount "sqrt" (.exactly 1) 2) ∧
      sqrt.apply [.integer (-4)] = .error .outOfRange := by
  have registered : "sqrt" ∈ names := by decide
  obtain ⟨f, found, agree⟩ := calls_agree registered
  have same : f = sqrt := by
    have : named? "sqrt" = some sqrt := by decide
    rw [found] at this
    exact Option.some.inj this
  subst same
  obtain ⟨-, byName, rejected, -⟩ := agree [.integer 4, .integer 9]
  obtain ⟨checked, -⟩ := agree [.integer (-4)]
  have negative : sqrt.compute [.integer (-4)] = .error .outOfRange := rfl
  exact ⟨registered, found, byName, rejected.1 (by decide), checked.trans negative⟩

end Operation

end ExactCalc
