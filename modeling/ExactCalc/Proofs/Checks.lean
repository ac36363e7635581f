/-
Which failure is reported, when several things are wrong.

Evaluation can be seen as a list of checks that are made one after the other. `Expr.checks` writes them down for a tree:
the head of a list, then for each operand whether it is one and all that belongs to it, then the number of operands, and
at last what the operation asks of their values. The list is made from the tree alone. `Check.Fails` says for which
reason a check fails, and speaks of the values that expressions stand for, not of how they are found.

Results:
- `Reports.bind`: two pieces of work done one after the other report the checks of the first, then those of the second.
- `reports_evaluateAt`: by induction on the tree, the value of an expression is there if all its checks pass, and
  otherwise the first one that fails gives the reason.
- `checks_surround`: what is checked before an expression deep inside a tree depends on nothing behind it.
- `first_failure_reported`: **the reported failure is the first one in the order of evaluation**.
-/
import ExactCalc.Proofs.Denotation
import ExactCalc.Proofs.Placement

namespace ExactCalc

/-! ## Checks -/

/-- what can be found wrong with an expression -/
inductive Check where
  /-- the head of a list names an operation -/
  | head (e : Expr)
  /-- an element of a list can be an operand -/
  | operand (e : Expr)
  /-- an atom has a value -/
  | value (t : Token)
  /-- an operation takes so many operands -/
  | count (f : Operation) (received : ℕ)
  /-- an operand can be divided by -/
  | divisor (e : Expr)
  /-- an operand has a square root -/
  | radicand (e : Expr)

/-- the expression is an atom that names an operation -/
def Expr.Names (e : Expr) (f : Operation) : Prop :=
  ∃ t, e = .atom t ∧ (t.kind = .identifier ∨ t.kind = .operator) ∧ f.name = t.text

namespace Check

open ExactCalc.Expr

/-- the check fails for this reason -/
inductive Fails : Check → Reason → Prop where
  | head {e : Expr} (unnamed : ∀ f, ¬e.Names f) : Fails (.head e) (.undefinedFunction e.text)
  | operand {e : Expr} (illegal : ¬e.IsOperand) : Fails (.operand e) (.invalidOperand e.text)
  | value {t : Token} (kind : t.kind ≠ .constant) : Fails (.value t) (.cannotEvaluate t.kind)
  | count {f : Operation} {received : ℕ} (rejected : ¬f.arity.accepts received = true) :
      Fails (.count f received) (.argumentCount f.name f.arity received)
  | divisor {e : Expr} (zero : Denotes e 0) : Fails (.divisor e) .divisionByZero
  | radicand {e : Expr} {v : ℚ} (value : Denotes e v) (negative : v < 0) : Fails (.radicand e) .outOfRange

/-- the check fails for no reason -/
def Passes (c : Check) : Prop :=
  ∀ r, ¬c.Fails r

/-- of checks made one after the other the first one that fails does so for this reason -/
inductive FirstFails : List Check → Reason → Prop where
  | here {c : Check} {cs : List Check} {r : Reason} (fails : c.Fails r) : FirstFails (c :: cs) r
  | later {c : Check} {cs : List Check} {r : Reason} (passes : c.Passes) (others : FirstFails cs r) :
      FirstFails (c :: cs) r

variable {c : Check} {cs ds : List Check} {r r' : Reason}

theorem Fails.unique (h : c.Fails r) (h' : c.Fails r') : r = r' := by
  cases h <;> cases h' <;> rfl

theorem FirstFails.unique (h : FirstFails cs r) (h' : FirstFails cs r') : r = r' := by
  induction h with
  | here fails =>
    cases h' with
    | here fails' => exact fails.unique fails'
    | later passes _ => exact absurd fails (passes _)
  | later passes _ ih =>
    cases h' with
    | here fails' => exact absurd fails' (passes _)
    | later _ others' => exact ih others'

/-- the check that fails first is one of them -/
theorem FirstFails.exists_mem (h : FirstFails cs r) : ∃ c ∈ cs, c.Fails r := by
  induction h with
  | here fails => exact ⟨_, List.mem_cons_self, fails⟩
  | later _ _ ih =>
    obtain ⟨c, hc, fails⟩ := ih
    exact ⟨c, List.mem_cons_of_mem _ hc, fails⟩

theorem not_firstFails_nil : ¬FirstFails [] r :=
  nofun

theorem firstFails_cons_iff : FirstFails (c :: cs) r ↔ c.Fails r ∨ c.Passes ∧ FirstFails cs r := by
  constructor
  · rintro (fails | ⟨passes, others⟩)
    · exact .inl fails
    · exact .inr ⟨passes, others⟩
  · rintro (fails | ⟨passes, others⟩)
    · exact .here fails
    · exact .later passes others

theorem firstFails_append_iff :
    FirstFails (cs ++ ds) r ↔ FirstFails cs r ∨ (∀ c ∈ cs, c.Passes) ∧ FirstFails ds r := by
  induction cs with
  | nil => simp [not_firstFails_nil]
  | cons c cs ih =>
    rw [List.cons_append, firstFails_cons_iff, firstFails_cons_iff, ih, List.forall_mem_cons]
    tauto

/-- if a check fails, there is one that fails first -/
theorem exists_firstFails (hc : c ∈ cs) (fails : c.Fails r) : ∃ r, FirstFails cs r := by
  induction cs with
  | nil => cases hc
  | cons d cs ih =>
    by_cases passes : d.Passes
    · rcases List.mem_cons.1 hc with rfl | hc
      · exact absurd fails (passes r)
      · obtain ⟨r', first⟩ := ih hc
        exact ⟨r', .later passes first⟩
    · obtain ⟨r', fails'⟩ : ∃ r', d.Fails r' := by simpa [Passes] using passes
      exact ⟨r', .here fails'⟩

/-- what comes behind a check that fails does not matter -/
theorem firstFails_append_iff_of_fails (hc : c ∈ cs) (fails : c.Fails r') :
    FirstFails (cs ++ ds) r ↔ FirstFails cs r := by
  rw [firstFails_append_iff, or_iff_left]
  rintro ⟨passed, -⟩
  exact passed c hc r' fails

/-- checks that can fail for one reason only -/
theorem firstFails_iff_of_reason {r₀ : Reason} (only : ∀ c ∈ cs, ∀ r, c.Fails r → r = r₀) :
    FirstFails cs r ↔ r = r₀ ∧ ¬∀ c ∈ cs, c.Passes := by
  constructor
  · intro first
    obtain ⟨c, hc, fails⟩ := first.exists_mem
    exact ⟨only c hc r fails, fun passes => passes c hc r fails⟩
  · rintro ⟨rfl, failing⟩
    obtain ⟨c, hc, r', fails⟩ : ∃ c ∈ cs, ∃ r', c.Fails r' := by simpa [Passes] using failing
    obtain ⟨r'', first⟩ := exists_firstFails hc fails
    obtain ⟨d, hd, fails'⟩ := first.exists_mem
    rwa [only d hd r'' fails'] at first

end Check

/-! ## The checks of a tree -/

namespace Expr

/-- the operation that the head of a list names, if it names one -/
def operation? : Expr → Option Operation
  | .atom t => Operation.named? t.text
  | .list _ => none
  | .nil => none

/-- what an operation asks of its operands beyond their number -/
def domainChecks : Operation → List Expr → List Check
  | .div, _ :: divisors => divisors.map .divisor
  | .sqrt, es => es.map .radicand
  | _, _ => []

/-- what is checked of a call when its operands have been evaluated -/
def callChecks (head : Expr) (operands : List Expr) : List Check :=
  match head.operation? with
  | some f => .count f operands.length :: domainChecks f operands
  | none => []

mutual

/-- the checks of an expression in the order in which they are made -/
def checks : Expr → List Check
  | .atom t => [.value t]
  | .nil => []
  | .list [] => []
  | .list (head :: operands) => .head head :: (operandChecks operands ++ callChecks head operands)

/-- the checks of operands, one operand after the other -/
def operandChecks : List Expr → List Check
  | [] => []
  | e :: es => .operand e :: (checks e ++ operandChecks es)

end

end Expr

/-! ## Reports -/

/-- it fails for this reason -/
def FailsFor {α : Type} (x : Except Failure α) (r : Reason) : Prop :=
  ∃ f, x = .error f ∧ f.reason? = some r

/-- the result is there if all these checks pass, and otherwise the first one that fails gives the reason -/
def Reports {α : Type} (x : Except Failure α) (cs : List Check) : Prop :=
  match x with
  | .ok _ => ∀ c ∈ cs, c.Passes
  | .error f => ∃ r, f.reason? = some r ∧ Check.FirstFails cs r

namespace Reports

variable {α β : Type} {x : Except Failure α} {cs ds : List Check}

/-- the checks of two pieces of work that are done one after the other -/
theorem bind {k : α → Except Failure β} (first : Reports x cs) (second : ∀ a, x = .ok a → Reports (k a) ds) :
    Reports (x >>= k) (cs ++ ds) := by
  cases x with
  | error f =>
    obtain ⟨r, reason, fails⟩ := first
    exact ⟨r, reason, Check.firstFails_append_iff.2 (.inl fails)⟩
  | ok a =>
    have rest : Reports (k a) ds := second a rfl
    show Reports (k a) (cs ++ ds)
    cases h : k a with
    | error f =>
      rw [h] at rest
      obtain ⟨r, reason, fails⟩ := rest
      exact ⟨r, reason, Check.firstFails_append_iff.2 (.inr ⟨first, fails⟩)⟩
    | ok b =>
      rw [h] at rest
      exact List.forall_mem_append.2 ⟨first, rest⟩

theorem map {k : α → β} (h : Reports x cs) : Reports (x.map k) cs := by
  cases x with
  | error f => exact h
  | ok a => exact h

/-- places that are noted later do not change the reason -/
theorem mapError {g : Failure → Failure} (same : ∀ f, (g f).reason? = f.reason?) (h : Reports x cs) :
    Reports (x.mapError g) cs := by
  cases x with
  | error f =>
    obtain ⟨r, reason, fails⟩ := h
    exact ⟨r, (same f).trans reason, fails⟩
  | ok a => exact h

theorem failsFor_iff (h : Reports x cs) (r : Reason) : FailsFor x r ↔ Check.FirstFails cs r := by
  cases x with
  | error f =>
    obtain ⟨r', reason, fails⟩ := h
    constructor
    · rintro ⟨f', same, reason'⟩
      cases same
      rw [reason, Option.some.injEq] at reason'
      exact reason' ▸ fails
    · intro fails'
      exact ⟨f, rfl, fails.unique fails' ▸ reason⟩
  | ok a =>
    constructor
    · rintro ⟨f', same, -⟩
      cases same
    · intro fails
      obtain ⟨c, hc, failed⟩ := fails.exists_mem
      exact absurd failed (h c hc r)

theorem ok_iff (h : Reports x cs) : (∃ a, x = .ok a) ↔ ∀ c ∈ cs, c.Passes := by
  cases x with
  | error f =>
    obtain ⟨r, -, fails⟩ := h
    obtain ⟨c, hc, failed⟩ := fails.exists_mem
    constructor
    · rintro ⟨a, same⟩
      cases same
    · intro passes
      exact absurd failed (passes c hc r)
  | ok a => exact ⟨fun _ => h, fun _ => ⟨a, rfl⟩⟩

end Reports

namespace Expr

/-! ## The pieces of an evaluation -/

theorem eq_undefinedHead_of_callee {head : Expr} {f : Failure} (h : callee head = .error f) :
    f = undefinedHead head := by
  unfold callee at h
  split at h
  · split_ifs at h
    · split at h
      · cases h
      · cases h
        rfl
    · cases h
      rfl
  · cases h
    rfl
  · cases h
    rfl

theorem reports_callee (head : Expr) : Reports (callee head) [.head head] := by
  cases h : callee head with
  | ok named =>
    obtain ⟨t, f⟩ := named
    refine List.forall_mem_singleton.2 fun r fails => ?_
    cases fails with
    | head unnamed => exact unnamed f ⟨t, callee_eq_ok_iff.1 h⟩
  | error f =>
    have unnamed : ∀ g, ¬head.Names g := by
      rintro g ⟨t, named⟩
      rw [callee_eq_ok_iff.2 named] at h
      cases h
    have same := eq_undefinedHead_of_callee h
    exact ⟨.undefinedFunction head.text, by simp [same, undefinedHead], .here (.head unnamed)⟩

theorem reports_checkOperand (e : Expr) : Reports (checkOperand e) [.operand e] := by
  cases h : checkOperand e with
  | ok u =>
    refine List.forall_mem_singleton.2 fun r fails => ?_
    cases fails with
    | operand illegal => exact illegal (checkOperand_eq_ok_iff.1 h)
  | error f =>
    have illegal : ¬e.IsOperand := by
      rw [← checkOperand_eq_ok_iff, h]
      simp
    have reason : f.reason? = some (.invalidOperand e.text) := by
      cases e with
      | list es => cases h
      | nil => cases h; rfl
      | atom t =>
        rw [checkOperand] at h
        split_ifs at h
        cases h
        simp
    exact ⟨_, reason, .here (.operand illegal)⟩

theorem reports_atomValue {t : Token} (spelled : t.isSpelled = true) : Reports (atomValue t) [.value t] := by
  by_cases kind : t.kind = .constant
  · rw [(atomValue_eq_ok_iff spelled).2 ⟨kind, rfl⟩]
    refine List.forall_mem_singleton.2 fun r fails => ?_
    cases fails with
    | value other => exact other kind
  · rw [atomValue, if_neg kind]
    exact ⟨.cannotEvaluate t.kind, rfl, .here (.value kind)⟩

/-- two values that one expression stands for are the same -/
theorem Denotes.unique {e : Expr} {depth : ℕ} (h : WellFormed depth e) {v w : ℚ} (hv : Denotes e v) (hw : Denotes e w) :
    v = w := by
  have value := (evaluateAt_eq_ok_iff e h).2 ⟨v, hv, rfl⟩
  have value' := (evaluateAt_eq_ok_iff e h).2 ⟨w, hw, rfl⟩
  rw [value, Except.ok.injEq, Option.some.injEq] at value'
  simpa using congrArg Number.toRat value'

theorem passes_divisor_iff {e : Expr} {depth : ℕ} (h : WellFormed depth e) {v : ℚ} (value : Denotes e v) :
    (Check.divisor e).Passes ↔ 0 ≠ v := by
  constructor
  · rintro passes rfl
    exact passes _ (.divisor value)
  · intro nonzero r fails
    cases fails with
    | divisor zero => exact nonzero (zero.unique h value)

theorem passes_radicand_iff {e : Expr} {depth : ℕ} (h : WellFormed depth e) {v : ℚ} (value : Denotes e v) :
    (Check.radicand e).Passes ↔ ¬v < 0 := by
  constructor
  · intro passes negative
    exact passes _ (.radicand value negative)
  · intro nonnegative r fails
    cases fails with
    | radicand value' negative => exact nonnegative (value'.unique h value ▸ negative)

theorem passes_divisors_iff {es : List Expr} {depth : ℕ} (h : WellFormedList depth es) {vs : List ℚ}
    (values : List.Forall₂ Denotes es vs) : (∀ c ∈ es.map Check.divisor, c.Passes) ↔ 0 ∉ vs := by
  induction values with
  | nil => simp
  | cons value values ih =>
    rw [List.map_cons, List.forall_mem_cons, passes_divisor_iff h.first value, ih h.others, List.mem_cons, not_or]

/-- the divisors are checked for zero, and for nothing else -/
theorem firstFails_divisors_iff {es : List Expr} {depth : ℕ} (h : WellFormedList depth es) {vs : List ℚ}
    (values : List.Forall₂ Denotes es vs) {r : Reason} :
    Check.FirstFails (es.map Check.divisor) r ↔ r = .divisionByZero ∧ 0 ∈ vs := by
  have only : ∀ c ∈ es.map Check.divisor, ∀ r, c.Fails r → r = .divisionByZero := by
    intro c hc r fails
    obtain ⟨e, -, rfl⟩ := List.mem_map.1 hc
    cases fails
    rfl
  rw [Check.firstFails_iff_of_reason only, passes_divisors_iff h values, not_not]

theorem firstFails_radicand_iff {e : Expr} {depth : ℕ} (h : WellFormed depth e) {v : ℚ} (value : Denotes e v)
    {r : Reason} : Check.FirstFails [Check.radicand e] r ↔ r = .outOfRange ∧ v < 0 := by
  have only : ∀ c ∈ [Check.radicand e], ∀ r, c.Fails r → r = .outOfRange := by
    intro c hc r fails
    rw [List.mem_singleton.1 hc] at fails
    cases fails
    rfl
  rw [Check.firstFails_iff_of_reason only, List.forall_mem_singleton, passes_radicand_iff h value, not_not]

/-- the checks of the operands' values find the fault of the operation -/
theorem firstFails_domainChecks_iff {f : Operation} {es : List Expr} {depth : ℕ} (h : WellFormedList depth es)
    {vs : List ℚ} (values : List.Forall₂ Denotes es vs) (accepted : f.arity.accepts vs.length = true) {r : Reason} :
    Check.FirstFails (domainChecks f es) r ↔ f.fault vs = some r := by
  cases values with
  | nil => cases f <;> cases accepted
  | @cons e v es vs value values =>
    cases f with
    | div =>
      rw [domainChecks, firstFails_divisors_iff h.others values, Operation.fault]
      split_ifs with zero
      · simp [zero, eq_comm]
      · simp [zero]
    | sqrt =>
      have single : vs = [] := by simpa using Arity.accepts_exactly.1 accepted
      subst single
      cases values
      rw [domainChecks, List.map_singleton, firstFails_radicand_iff h.first value, Operation.fault]
      split_ifs with negative
      · simp [negative, eq_comm]
      · simp [negative]
    | _ =>
      constructor
      · intro first
        cases first
      · intro fault
        cases fault

/-- a call whose operands have their values reports their number, and then what its operation asks of them -/
theorem reports_applyAt {t : Token} {f : Operation} {es : List Expr} {depth : ℕ} (h : WellFormedList depth es)
    {vs : List ℚ} (values : List.Forall₂ Denotes es vs) :
    Reports (applyAt t f (vs.map Number.ofRat)) (.count f es.length :: domainChecks f es) := by
  have length : es.length = vs.length := values.length_eq
  by_cases accepted : f.arity.accepts vs.length = true
  · have counted : (Check.count f es.length).Passes := by
      intro r fails
      cases fails with
      | count rejected => exact rejected (length ▸ accepted)
    rw [applyAt, Operation.apply_of_accepts (by rwa [List.length_map])]
    cases result : f.compute (vs.map Number.ofRat) with
    | error r =>
      have fault := (Operation.compute_eq_error_iff accepted).1 result
      exact ⟨r, rfl, .later counted ((firstFails_domainChecks_iff h values accepted).2 fault)⟩
    | ok a =>
      refine List.forall_mem_cons.2 ⟨counted, fun c hc r fails => ?_⟩
      obtain ⟨r', first⟩ := Check.exists_firstFails hc fails
      have fault := (firstFails_domainChecks_iff h values accepted).1 first
      rw [(Operation.compute_eq_error_iff accepted).2 fault] at result
      cases result
  · rw [applyAt, Operation.apply_of_rejects (by rwa [List.length_map]), List.length_map, ← length]
    exact ⟨_, rfl, .here (.count (length ▸ accepted))⟩

/-! ## The whole tree -/

theorem callChecks_of_names {t : Token} {f : Operation} (name : f.name = t.text) (operands : List Expr) :
    callChecks (.atom t) operands = .count f operands.length :: domainChecks f operands := by
  rw [callChecks, operation?, Operation.named?_eq_some_iff.2 name]

mutual

/-- the value of an expression reports its checks -/
theorem reports_evaluateAt : (e : Expr) → {depth : ℕ} → WellFormed depth e → Reports (evaluateAt depth e) e.checks
  | .atom t, depth, h => by
    rw [evaluateAt, checks]
    exact (reports_atomValue (h.spelled t List.mem_cons_self)).map
  | .nil, depth, h => by
    rw [evaluateAt, checks]
    exact nofun
  | .list [], depth, h => absurd rfl h.proper.1
  | .list (head :: operands), depth, h => by
    have inner : WellFormedList depth operands := h.elements.others
    rw [evaluateAt, checks]
    refine Reports.mapError (fun f => Failure.reason?_tagOptionIfBare f _ _) (Reports.map ?_)
    rw [callAt]
    refine (reports_callee head).bind fun ⟨t, f⟩ named => ?_
    obtain ⟨rfl, -, name⟩ := callee_eq_ok_iff.1 named
    rw [deeper_of_lt h.elements.room, callChecks_of_names name]
    refine (reports_operandsAt operands inner).bind fun as evaluated => ?_
    obtain ⟨-, found⟩ := operandsAt_eq_ok_iff.1 evaluated
    obtain ⟨vs, values, rfl⟩ := (forall₂_evaluateAt_iff operands inner).1 found
    exact reports_applyAt inner values

/-- the values of operands report their checks -/
theorem reports_operandsAt : (es : List Expr) → {depth : ℕ} → WellFormedList depth es →
    Reports (operandsAt (depth + 1) es) (operandChecks es)
  | [], depth, _ => by
    rw [operandsAt, operandChecks]
    exact nofun
  | e :: es, depth, h => by
    rw [operandsAt, operandChecks]
    refine (reports_checkOperand e).bind fun _ _ => ?_
    refine (reports_evaluateAt e h.first).bind fun a? _ => ?_
    rw [← List.append_nil (operandChecks es)]
    exact (reports_operandsAt es h.others).bind fun as _ => nofun

end

/-! ## Inside a tree -/

/-- a list around one of its operands -/
structure Frame where
  head : Expr
  before : List Expr
  after : List Expr

/-- two lists differ at most behind the operand -/
def Frame.AgreesBefore (k k' : Frame) : Prop :=
  k.head = k'.head ∧ k.before = k'.before

/-- an expression inside lists, the outermost one first -/
def surround : List Frame → Expr → Expr
  | [], e => e
  | k :: ks, e => .list (k.head :: (k.before ++ surround ks e :: k.after))

/-- what is checked before the checks of an expression inside these lists -/
def leading : List Frame → Expr → List Check
  | [], _ => []
  | k :: ks, e => .head k.head :: (operandChecks k.before ++ .operand (surround ks e) :: leading ks e)

/-- the expression is no operand, or its evaluation fails -/
def Blocks (e : Expr) : Prop :=
  (∃ f, checkOperand e = .error f) ∨ ∃ f, e.evaluate = .error f

theorem operandChecks_append (xs ys : List Expr) : operandChecks (xs ++ ys) = operandChecks xs ++ operandChecks ys := by
  induction xs with
  | nil => rfl
  | cons x xs ih => rw [List.cons_append, operandChecks, operandChecks, ih, List.cons_append, List.append_assoc]

theorem mem_operandChecks {e : Expr} {es : List Expr} (he : e ∈ es) {c : Check} (hc : c ∈ .operand e :: e.checks) :
    c ∈ operandChecks es := by
  obtain ⟨xs, ys, rfl⟩ := List.append_of_mem he
  rw [operandChecks_append, operandChecks, ← List.cons_append]
  exact List.mem_append_right _ (List.mem_append_left _ hc)

/-- the checks of an expression inside lists stand among those of the whole -/
theorem checks_surround (ks : List Frame) (e : Expr) :
    ∃ rest, (surround ks e).checks = leading ks e ++ (e.checks ++ rest) := by
  induction ks with
  | nil => exact ⟨[], by simp [surround, leading]⟩
  | cons k ks ih =>
    obtain ⟨rest, inner⟩ := ih
    refine ⟨rest ++ (operandChecks k.after ++ callChecks k.head (k.before ++ surround ks e :: k.after)), ?_⟩
    simp [surround, leading, checks, operandChecks_append, operandChecks, inner]

theorem wellFormed_append {depth : ℕ} {xs ys : List Expr} {e : Expr} (h : WellFormedList depth (xs ++ e :: ys)) :
    WellFormed (depth + 1) e := by
  induction xs with
  | nil => exact h.first
  | cons x xs ih => exact ih h.others

theorem wellFormed_of_surround {ks : List Frame} {e : Expr} {depth : ℕ} (h : WellFormed depth (surround ks e)) :
    WellFormed (depth + ks.length) e := by
  induction ks generalizing depth with
  | nil => exact h
  | cons k ks ih =>
    have inner := ih (wellFormed_append h.elements.others)
    rwa [Nat.add_right_comm] at inner

theorem WellFormed.atRoot {e : Expr} {depth : ℕ} (h : WellFormed depth e) : WellFormed 0 e where
  proper := h.proper
  spelled := h.spelled
  shallow := by
    have := h.shallow
    omega

/-- where evaluation cannot go on, a check fails -/
theorem exists_fails_of_blocks {e : Expr} (h : WellFormed 0 e) (blocks : e.Blocks) :
    ∃ c ∈ .operand e :: e.checks, ∃ r, c.Fails r := by
  rcases blocks with ⟨f, refused⟩ | ⟨f, failed⟩
  · have report := reports_checkOperand e
    rw [refused] at report
    obtain ⟨r, -, first⟩ := report
    obtain ⟨c, hc, fails⟩ := first.exists_mem
    rw [List.mem_singleton.1 hc] at fails
    exact ⟨_, List.mem_cons_self, r, fails⟩
  · have report := reports_evaluateAt e h
    rw [← evaluate, failed] at report
    obtain ⟨r, -, first⟩ := report
    obtain ⟨c, hc, fails⟩ := first.exists_mem
    exact ⟨c, List.mem_cons_of_mem _ hc, r, fails⟩

theorem fails_operand_surround {ks ks' : List Frame} (agree : List.Forall₂ Frame.AgreesBefore ks ks') (e : Expr)
    (r : Reason) : (Check.operand (surround ks e)).Fails r ↔ (Check.operand (surround ks' e)).Fails r := by
  cases agree with
  | nil => rfl
  | cons _ _ =>
    -- a list is an operand, whatever its elements are
    constructor
    · intro fails
      cases fails with
      | operand illegal => exact absurd trivial illegal
    · intro fails
      cases fails with
      | operand illegal => exact absurd trivial illegal

/-- what stands behind an expression does not affect the checks before it -/
theorem firstFails_leading_congr {ks ks' : List Frame} (agree : List.Forall₂ Frame.AgreesBefore ks ks') (e : Expr)
    (cs : List Check) (r : Reason) :
    Check.FirstFails (leading ks e ++ cs) r ↔ Check.FirstFails (leading ks' e ++ cs) r := by
  induction agree with
  | nil => rfl
  | cons here inner ih =>
    obtain ⟨head, before⟩ := here
    simp only [leading, List.cons_append, List.append_assoc, Check.firstFails_cons_iff, Check.firstFails_append_iff,
      Check.Passes, head, before, fails_operand_surround inner e, ih]

/-! ## The reported failure -/

theorem failsFor_evaluate_iff {e : Expr} (h : WellFormed 0 e) (r : Reason) :
    FailsFor e.evaluate r ↔ Check.FirstFails e.checks r :=
  (reports_evaluateAt e h).failsFor_iff r

theorem operand_mem_leading {ks : List Frame} (inside : ks ≠ []) (e : Expr) : .operand e ∈ leading ks e := by
  induction ks with
  | nil => exact absurd rfl inside
  | cons k ks ih =>
    refine List.mem_cons_of_mem _ (List.mem_append_right _ ?_)
    by_cases last : ks = []
    · subst last
      exact List.mem_cons_self
    · exact List.mem_cons_of_mem _ (ih last)

/-- an operand that blocks fails one of the checks up to it -/
theorem exists_fails_leading {ks : List Frame} (inside : ks ≠ []) {e : Expr} {depth : ℕ}
    (h : WellFormed depth (surround ks e)) (blocks : e.Blocks) :
    ∃ c ∈ leading ks e ++ e.checks, ∃ r, c.Fails r := by
  obtain ⟨c, hc, r, fails⟩ := exists_fails_of_blocks (wellFormed_of_surround h).atRoot blocks
  refine ⟨c, ?_, r, fails⟩
  rcases List.mem_cons.1 hc with rfl | hc
  · exact List.mem_append_left _ (operand_mem_leading inside e)
  · exact List.mem_append_right _ hc

/-- what stands behind an operand that blocks does not change the reason -/
theorem failsFor_surround_congr {ks ks' : List Frame} (agree : List.Forall₂ Frame.AgreesBefore ks ks') {e : Expr}
    (h : WellFormed 0 (surround ks e)) (h' : WellFormed 0 (surround ks' e)) (blocks : e.Blocks) (r : Reason) :
    FailsFor (surround ks e).evaluate r ↔ FailsFor (surround ks' e).evaluate r := by
  by_cases inside : ks = []
  · subst inside
    cases agree
    rfl
  have inside' : ks' ≠ [] := by
    rintro rfl
    cases agree
    exact inside rfl
  obtain ⟨rest, whole⟩ := checks_surround ks e
  obtain ⟨rest', whole'⟩ := checks_surround ks' e
  obtain ⟨c, hc, s, fails⟩ := exists_fails_leading inside h blocks
  obtain ⟨c', hc', s', fails'⟩ := exists_fails_leading inside' h' blocks
  rw [failsFor_evaluate_iff h, failsFor_evaluate_iff h', whole, whole', ← List.append_assoc, ← List.append_assoc,
    Check.firstFails_append_iff_of_fails hc fails, Check.firstFails_append_iff_of_fails hc' fails',
    firstFails_leading_congr agree]

/-- where an operand of a list blocks, the reason is found before the operands of that list are counted -/
theorem failsFor_surround_iff {ks : List Frame} {head e : Expr} {operands : List Expr}
    (h : WellFormed 0 (surround ks (list (head :: operands)))) (he : e ∈ operands) (blocks : e.Blocks) (r : Reason) :
    FailsFor (surround ks (list (head :: operands))).evaluate r ↔
      Check.FirstFails (leading ks (list (head :: operands)) ++ .head head :: operandChecks operands) r := by
  have inner : WellFormedList (0 + ks.length) operands := (wellFormed_of_surround h).elements.others
  obtain ⟨xs, ys, split⟩ := List.append_of_mem he
  rw [split] at inner
  obtain ⟨c, hc, s, fails⟩ := exists_fails_of_blocks (wellFormed_append inner).atRoot blocks
  have member : c ∈ leading ks (list (head :: operands)) ++ .head head :: operandChecks operands :=
    List.mem_append_right _ (List.mem_cons_of_mem _ (mem_operandChecks he hc))
  obtain ⟨rest, whole⟩ := checks_surround ks (list (head :: operands))
  rw [failsFor_evaluate_iff h, whole, checks, List.cons_append, List.append_assoc, ← List.cons_append,
    ← List.append_assoc, Check.firstFails_append_iff_of_fails member fails]

/-- **The reported failure is the first one in the order of evaluation.** The trees are well-formed, and their atoms
are addressable, so that no place that evaluation notes leaves the words. The reason for which the evaluation of such a
tree fails is that of the first check that fails, and it has a result if all checks pass. So if an operand blocks,
wherever in the tree, the reason stays the same whatever is put behind it; and it is found before the operands of that
list are counted. -/
theorem first_failure_reported :
    (∀ e : Expr, WellFormed 0 e → Token.Addressable e.atoms →
      e.Measured ∧
      (∀ f, e.evaluate = .error f → ∃ r, f.reason? = some r ∧ Check.FirstFails e.checks r) ∧
      (∀ r, Check.FirstFails e.checks r → FailsFor e.evaluate r) ∧
      ((∃ a?, e.evaluate = .ok a?) ↔ ∀ c ∈ e.checks, c.Passes)) ∧
    (∀ (ks ks' : List Frame) (e : Expr), List.Forall₂ Frame.AgreesBefore ks ks' →
      WellFormed 0 (surround ks e) → Token.Addressable (surround ks e).atoms →
      WellFormed 0 (surround ks' e) → Token.Addressable (surround ks' e).atoms → e.Blocks →
      ∀ r, FailsFor (surround ks e).evaluate r ↔ FailsFor (surround ks' e).evaluate r) ∧
    ∀ (ks : List Frame) (head e : Expr) (operands : List Expr), WellFormed 0 (surround ks (list (head :: operands))) →
      Token.Addressable (surround ks (list (head :: operands))).atoms → e ∈ operands → e.Blocks →
      ∀ r, FailsFor (surround ks (list (head :: operands))).evaluate r ↔
        Check.FirstFails (leading ks (list (head :: operands)) ++ .head head :: operandChecks operands) r := by
  refine ⟨fun e h addressable => ⟨measured_of_addressable addressable, ?_, ?_, ?_⟩, ?_, ?_⟩
  · intro f failed
    have report := reports_evaluateAt e h
    rw [← evaluate, failed] at report
    exact report
  · exact fun r first => (failsFor_evaluate_iff h r).2 first
  · exact (reports_evaluateAt e h).ok_iff
  · exact fun ks ks' e agree h _ h' _ blocks r => failsFor_surround_congr agree h h' blocks r
  · exact fun ks head e operands h _ he blocks r => failsFor_surround_iff h he blocks r

/-- a division by zero inside a call that has two operands too many, one of them no operand -/
theorem first_failure_reported_quotient :
    let quotient := list [atom ⟨.operator, 7, "/"⟩, atom ⟨.constant, 9, "1"⟩, atom ⟨.constant, 11, "0"⟩]
    let root := atom ⟨.identifier, 1, "sqrt"⟩
    let k : Frame := ⟨root, [], [atom ⟨.operator, 14, "+"⟩, atom ⟨.identifier, 16, "x"⟩]⟩
    let k' : Frame := ⟨root, [], []⟩
    WellFormed 0 (surround [k] quotient) ∧ Token.Addressable (surround [k] quotient).atoms ∧
      WellFormed 0 (surround [k'] quotient) ∧ Token.Addressable (surround [k'] quotient).atoms ∧ quotient.Blocks ∧
      FailsFor (surround [k] quotient).evaluate .divisionByZero ∧
      FailsFor (surround [k'] quotient).evaluate .divisionByZero ∧
      Check.FirstFails (surround [k] quotient).checks .divisionByZero ∧
      Check.FirstFails (.head root :: operandChecks (quotient :: k.after)) .divisionByZero := by
  intro quotient root k k'
  have h : WellFormed 0 (surround [k] quotient) :=
    ⟨by simp [surround, k, root, quotient, Proper, ProperList], by decide +kernel, by decide⟩
  have h' : WellFormed 0 (surround [k'] quotient) :=
    ⟨by simp [surround, k', root, quotient, Proper, ProperList], by decide +kernel, by decide⟩
  have addressable : Token.Addressable (surround [k] quotient).atoms := ⟨by decide +kernel, by decide +kernel⟩
  have addressable' : Token.Addressable (surround [k'] quotient).atoms := ⟨by decide +kernel, by decide +kernel⟩
  have failed : quotient.evaluate = .error ((Failure.of .divisionByZero).tag ⟨7, 1⟩ .call) := by decide +kernel
  have blocks : quotient.Blocks := .inr ⟨_, failed⟩
  have whole : (surround [k] quotient).evaluate = .error ((Failure.of .divisionByZero).tag ⟨7, 1⟩ .call) := by
    decide +kernel
  have agree : List.Forall₂ Frame.AgreesBefore [k] [k'] := .cons ⟨rfl, rfl⟩ .nil
  obtain ⟨ordered, replaced, counted⟩ := first_failure_reported
  obtain ⟨-, reported, complete, -⟩ := ordered _ h addressable
  obtain ⟨r, reason, first⟩ := reported _ whole
  cases reason
  have fails : FailsFor (surround [k] quotient).evaluate .divisionByZero := complete _ first
  have fails' := (replaced [k] [k'] quotient agree h addressable h' addressable' blocks _).1 fails
  have early := (counted [] root quotient _ h addressable List.mem_cons_self blocks _).1 fails
  exact ⟨h, addressable, h', addressable', blocks, fails, fails', first, early⟩

end Expr

end ExactCalc
