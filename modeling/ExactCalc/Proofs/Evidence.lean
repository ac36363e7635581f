/-
What stands behind the reason of a failure.

A reason names what is wrong: a character, a kind of atom, a function, a number of operands. `Evidence line f r` says
what of this is found in the line when it fails with `f` for the reason `r`. Each reason has its own evidence, and for
an invalid literal there is none, since the lexer and the reading of numbers have the same constants.
`Check.Concerns e c`: the check `c` of the expression `e` is made of one of its parts.

Results:
- `concerns_of_mem_checks`: by induction on the tree, all its checks are made of its parts.
- `names_of_text`: in a tree with spelled atoms, what has the name of an operation as its text names this operation.
- `eq_atom_of_firstFails`: in a list an operator is refused as an operand before its value is asked for.
- `failure_evident`: **there is evidence for every failure**.
-/
import ExactCalc.Proofs.Blame

namespace ExactCalc

open Cursor

/-! ## Texts that were read -/

/-- the texts of the four operators -/
theorem Token.text_of_isSpelled_operator {t : Token} (spelled : t.isSpelled = true) (kind : t.kind = .operator) :
    t.text = "+" ∨ t.text = "-" ∨ t.text = "*" ∨ t.text = "/" := by
  rw [isSpelled, kind] at spelled
  obtain ⟨c, text, operator⟩ := Lexeme.isOperatorText_eq_true_iff.1 spelled
  simp only [← String.toList_inj, text]
  rcases Lexeme.isOperator_cases operator with rfl | rfl | rfl | rfl <;> decide

/-- no operation has the text of a constant for its name -/
theorem Operation.not_isConstant_name (f : Operation) : ¬Lexeme.isConstant f.name.toList = true := by
  cases f <;> decide

theorem Operation.head?_name_ne (f : Operation) : f.name.toList.head? ≠ some '(' := by
  cases f <;> decide

namespace Expr

variable {e : Expr} {f : Operation}

theorem head?_text_list (es : List Expr) : (list es).text.toList.head? = some '(' := by
  rw [text_list, String.append_assoc, String.toList_append]
  rfl

theorem text_ne_empty (spelled : ∀ t ∈ e.atoms, t.isSpelled = true) : e.text ≠ "" := by
  intro empty
  cases e with
  | atom t =>
    have here : t.isSpelled = true := spelled t List.mem_cons_self
    have atomic : t.isAtomic = true := Token.isAtomic_of_isSpelled here
    rw [text_atom] at empty
    rw [Token.isSpelled, empty] at here
    -- the empty text is spelled by no kind
    rcases kind_of_isAtomic atomic with kind | kind | kind
    all_goals
      rw [kind] at here
      cases here
  | list es =>
    have first := head?_text_list es
    rw [empty] at first
    cases first
  | nil =>
    rw [text_nil] at empty
    exact absurd empty (by decide)

/-- only an atom that names an operation has the name of this operation for its text -/
theorem names_of_text (spelled : ∀ t ∈ e.atoms, t.isSpelled = true) (h : f.name = e.text) : e.Names f := by
  cases e with
  | atom t =>
    have here : t.isSpelled = true := spelled t List.mem_cons_self
    rw [text_atom] at h
    rcases kind_of_isAtomic (Token.isAtomic_of_isSpelled here) with constant | operator | identifier
    · rw [Token.isSpelled, constant, ← h] at here
      exact absurd here f.not_isConstant_name
    · exact ⟨t, rfl, .inr operator, h⟩
    · exact ⟨t, rfl, .inl identifier, h⟩
  | list es =>
    have first := head?_text_list es
    rw [← h] at first
    exact absurd first f.head?_name_ne
  | nil =>
    have first : f.name.toList.head? = some '(' := by rw [h, text_nil]; rfl
    exact absurd first f.head?_name_ne

/-- what is no operand is an operator or nil -/
theorem text_of_not_isOperand (spelled : ∀ t ∈ e.atoms, t.isSpelled = true) (illegal : ¬e.IsOperand) :
    e.text ∈ ["+", "-", "*", "/", "()"] := by
  cases e with
  | atom t =>
    have operator : t.kind = .operator := not_not.1 illegal
    rw [text_atom]
    have texts := Token.text_of_isSpelled_operator (spelled t List.mem_cons_self) operator
    simp only [List.mem_cons]
    tauto
  | list es => exact absurd trivial illegal
  | nil =>
    rw [text_nil]
    decide

theorem Part.isSpelled {d : Expr} (h : Part d e) (spelled : ∀ t ∈ e.atoms, t.isSpelled = true) :
    ∀ t ∈ d.atoms, t.isSpelled = true :=
  fun t ht => spelled t (h.atoms_sublist.subset ht)

end Expr

/-! ## What is checked -/

namespace Check

open ExactCalc.Expr

/-- the check is made of a part of the expression -/
inductive Concerns (e : Expr) : Check → Prop where
  | head {d : Expr} (part : Part d e) : Concerns e (.head d)
  | operand {d : Expr} (part : Part d e) : Concerns e (.operand d)
  | value {t : Token} (part : Part (.atom t) e) : Concerns e (.value t)
  | count {head : Expr} {operands : List Expr} {f : Operation} (part : Part (.list (head :: operands)) e)
      (called : head.operation? = some f) : Concerns e (.count f operands.length)
  | divisor (d : Expr) : Concerns e (.divisor d)
  | radicand (d : Expr) : Concerns e (.radicand d)

theorem Concerns.element {d : Expr} {es : List Expr} {c : Check} (hd : d ∈ es) (h : Concerns d c) :
    Concerns (.list es) c := by
  cases h with
  | head part => exact .head (.element hd part)
  | operand part => exact .operand (.element hd part)
  | value part => exact .value (.element hd part)
  | count part called => exact .count (.element hd part) called
  | divisor d => exact .divisor d
  | radicand d => exact .radicand d

/-- only a check for a value fails for want of one -/
theorem eq_value_of_fails {c : Check} {kind : Token.Kind} (h : c.Fails (.cannotEvaluate kind)) :
    ∃ t, c = .value t ∧ t.kind = kind := by
  generalize reason : Reason.cannotEvaluate kind = r at h
  cases h with
  | value _ =>
    cases reason
    exact ⟨_, rfl, rfl⟩
  | _ => cases reason

end Check

namespace Expr

open Check (Concerns FirstFails eq_value_of_fails firstFails_cons_iff firstFails_append_iff)

/-- at last the operands are counted, and some are asked for what the operation needs -/
theorem mem_callChecks {head : Expr} {operands : List Expr} {c : Check} (h : c ∈ callChecks head operands) :
    (∃ f, head.operation? = some f ∧ c = .count f operands.length) ∨ ∃ d, c = .divisor d ∨ c = .radicand d := by
  rw [callChecks] at h
  split at h
  · rename_i f called
    rcases List.mem_cons.1 h with counted | asked
    · exact .inl ⟨f, called, counted⟩
    · right
      unfold domainChecks at asked
      split at asked
      · obtain ⟨d, -, rfl⟩ := List.mem_map.1 asked
        exact ⟨d, .inl rfl⟩
      · obtain ⟨d, -, rfl⟩ := List.mem_map.1 asked
        exact ⟨d, .inr rfl⟩
      · cases asked
  · cases h

mutual

/-- all checks of a tree are made of its parts -/
theorem concerns_of_mem_checks : (e : Expr) → {c : Check} → c ∈ e.checks → Concerns e c
  | .atom t, c, h => by
    rw [checks, List.mem_singleton] at h
    exact h ▸ .value (.whole _)
  | .nil, c, h => nomatch h
  | .list [], c, h => nomatch h
  | .list (head :: operands), c, h => by
    rw [checks, List.mem_cons, List.mem_append] at h
    rcases h with rfl | inside | called
    · exact .head (.element List.mem_cons_self (.whole head))
    · obtain ⟨d, hd, rfl | concerns⟩ := exists_of_mem_operandChecks operands inside
      · exact .operand (.element (List.mem_cons_of_mem _ hd) (.whole d))
      · exact concerns.element (List.mem_cons_of_mem _ hd)
    · rcases mem_callChecks called with ⟨f, operation, rfl⟩ | ⟨d, rfl | rfl⟩
      · exact .count (.whole _) operation
      · exact .divisor d
      · exact .radicand d

/-- the checks of operands belong to one of them -/
theorem exists_of_mem_operandChecks : (es : List Expr) → {c : Check} → c ∈ operandChecks es →
    ∃ d ∈ es, c = .operand d ∨ Concerns d c
  | [], c, h => nomatch h
  | e :: es, c, h => by
    rw [operandChecks, List.mem_cons, List.mem_append] at h
    rcases h with rfl | here | there
    · exact ⟨e, List.mem_cons_self, .inl rfl⟩
    · exact ⟨e, List.mem_cons_self, .inr (concerns_of_mem_checks e here)⟩
    · obtain ⟨d, hd, found⟩ := exists_of_mem_operandChecks es there
      exact ⟨d, List.mem_cons_of_mem _ hd, found⟩

end

mutual

/-- an operator whose value is missed is the whole expression -/
theorem eq_atom_of_firstFails : (e : Expr) → FirstFails e.checks (.cannotEvaluate .operator) →
    ∃ t, e = .atom t ∧ t.kind = .operator
  | .atom t, h => by
    obtain ⟨c, hc, fails⟩ := h.exists_mem
    rw [checks, List.mem_singleton] at hc
    obtain ⟨t', same, kind⟩ := eq_value_of_fails fails
    rw [hc, Check.value.injEq] at same
    exact ⟨t, rfl, same ▸ kind⟩
  | .nil, h => nomatch h
  | .list [], h => nomatch h
  | .list (head :: operands), h => by
    rw [checks, firstFails_cons_iff, firstFails_append_iff] at h
    rcases h with fails | ⟨-, inside | ⟨-, called⟩⟩
    · obtain ⟨t, same, -⟩ := eq_value_of_fails fails
      cases same
    · exact absurd inside (not_firstFails_operandChecks operands)
    · obtain ⟨c, hc, fails⟩ := called.exists_mem
      obtain ⟨t, rfl, -⟩ := eq_value_of_fails fails
      rcases mem_callChecks hc with ⟨f, -, same⟩ | ⟨d, same | same⟩ <;> cases same

/-- operands are refused before a value is missed that an operator should have -/
theorem not_firstFails_operandChecks : (es : List Expr) → ¬FirstFails (operandChecks es) (.cannotEvaluate .operator)
  | [], h => nomatch h
  | e :: es, h => by
    rw [operandChecks, firstFails_cons_iff, firstFails_append_iff] at h
    rcases h with fails | ⟨passes, here | ⟨-, there⟩⟩
    · obtain ⟨t, same, -⟩ := eq_value_of_fails fails
      cases same
    · obtain ⟨t, rfl, kind⟩ := eq_atom_of_firstFails e here
      exact passes _ (.operand fun legal => legal kind)
    · exact not_firstFails_operandChecks es there

end

end Expr

/-! ## Evidence -/

/-- what is found in a line that fails for this reason -/
inductive Evidence (line : String) (f : Failure) : Reason → Prop where
  /-- the character stands in the line where the failure is placed -/
  | unexpectedChar {passed rest : List Char} {c : Char} (refused : Expr.parse line = .error f)
      (here : line.toList = passed ++ c :: rest) (placed : f.offset? = some (Text.width passed)) :
      Evidence line f (.unexpectedChar c)
  | unterminatedList (refused : Expr.parse line = .error f) : Evidence line f .unterminatedList
  | invalidEntryPoint {kind : Token.Kind} (refused : Expr.parse line = .error f) :
      Evidence line f (.invalidEntryPoint kind)
  | trailingInput (refused : Expr.parse line = .error f) : Evidence line f .trailingInput
  | identifier : Evidence line f (.cannotEvaluate .identifier)
  /-- the operator is all there is in the line -/
  | operator {t : Token} (kind : t.kind = .operator)
      (alone : ((Token.scan line).filter fun t => t.kind ≠ .whitespace) = [t]) :
      Evidence line f (.cannotEvaluate .operator)
  | undefinedFunction {name : String} (proper : name ≠ "") (unknown : name ∉ Operation.names) :
      Evidence line f (.undefinedFunction name)
  /-- somewhere in the line the operation is called with this number of operands, which it does not take -/
  | argumentCount {e head : Expr} {operands : List Expr} {g : Operation}
      (read : (Expr.parse line).map Located.value = .ok e) (called : Expr.Part (.list (head :: operands)) e)
      (named : head.Names g) (rejected : ¬g.arity.accepts operands.length = true) :
      Evidence line f (.argumentCount g.name g.arity operands.length)
  | invalidOperand {text : String} (known : text ∈ ["+", "-", "*", "/", "()"]) : Evidence line f (.invalidOperand text)
  | divisionByZero : Evidence line f .divisionByZero
  | outOfRange : Evidence line f .outOfRange
  /-- only a reader finds a line too deep -/
  | tooDeep {limit : ℕ} (refused : Expr.parse line = .error f) : Evidence line f (.tooDeep limit)

namespace Expr

open Check (Concerns FirstFails)

variable {line : String} {f : Failure}

/-- the failure at an invalid token has its character and stands where the token does -/
theorem evidence_of_unexpected {d : Cursor} (on : On line d) (invalid : d.token.kind = .invalid)
    (refused : parse line = .error (unexpected d.token)) :
    ∃ r, (unexpected d.token).reason? = some r ∧ Evidence line (unexpected d.token) r := by
  obtain ⟨passed, whole, offset⟩ := (reaches_skipBlanks d).on on
  obtain ⟨x, taken⟩ := Lexeme.text_first_of_invalid invalid
  have text : d.token.text.toList = [x] := by simpa [token, next, peek] using taken
  have rest : x :: d.skipBlanks.advance.rest = d.skipBlanks.rest := by
    rw [← text_peek_append_rest d.skipBlanks]
    exact congrArg (· ++ _) text.symm
  refine ⟨.unexpectedChar x, ?_, .unexpectedChar refused (rest ▸ whole) (congrArg some offset)⟩
  rw [unexpected, text]
  rfl

theorem evidence_of_blames {c : Cursor} (on : On line c) (refused : parse line = .error f) :
    Blames c f → ∃ r, f.reason? = some r ∧ Evidence line f r
  | .unexpected behind invalid => evidence_of_unexpected (behind.on on) invalid refused
  | .noEntry _ _ => ⟨_, rfl, .invalidEntryPoint refused⟩
  | .unterminated _ _ _ => ⟨_, rfl, .unterminatedList refused⟩
  | .tooDeep _ => ⟨_, rfl, .tooDeep refused⟩
  | .trailing _ => ⟨_, rfl, .trailingInput refused⟩

/-- a tree that is an operator was read from nothing else -/
theorem solid_of_parse_atom {t : Token} (h : (parse line).map Located.value = .ok (.atom t)) :
    ((Token.scan line).filter fun t => t.kind ≠ .whitespace) = [t] := by
  have pieces : (Cursor.start line).solid.map Token.piece = [.atom t] := (flatten_of_parse h).1
  obtain ⟨t', solid, piece⟩ := List.map_eq_singleton_iff.1 pieces
  rw [← Token.eq_of_piece_eq_atom piece]
  exact solid

/-- what the first check that fails finds in the tree is found in the line -/
theorem evidence_of_firstFails {e : Expr} (read : (parse line).map Located.value = .ok e) {r : Reason}
    (first : FirstFails e.checks r) : Evidence line f r := by
  have spelled : ∀ t ∈ e.atoms, t.isSpelled = true := (flatten_of_parse read).2.spelled
  obtain ⟨c, hc, fails⟩ := first.exists_mem
  have concerns : Concerns e c := concerns_of_mem_checks e hc
  cases fails with
  | head unnamed =>
    cases concerns with
    | head part =>
      refine .undefinedFunction (text_ne_empty (part.isSpelled spelled)) fun known => ?_
      obtain ⟨g, -, name⟩ := List.mem_map.1 known
      exact unnamed g (names_of_text (part.isSpelled spelled) name)
  | operand illegal =>
    cases concerns with
    | operand part => exact .invalidOperand (text_of_not_isOperand (part.isSpelled spelled) illegal)
  | @value t valueless =>
    cases concerns with
    | value part =>
      have here : t.isSpelled = true := part.isSpelled spelled t List.mem_cons_self
      rcases kind_of_isAtomic (Token.isAtomic_of_isSpelled here) with constant | operator | identifier
      · exact absurd constant valueless
      · rw [operator] at first ⊢
        obtain ⟨t', rfl, kind⟩ := eq_atom_of_firstFails e first
        exact .operator kind (solid_of_parse_atom read)
      · rw [identifier]
        exact .identifier
  | @count g _ rejected =>
    cases concerns with
    | @count head operands _ part called =>
      have name : g.name = head.text := by
        cases head with
        | atom t => rw [text_atom]; exact Operation.name_of_named? called
        | list es => cases called
        | nil => cases called
      have element : Part head e := (Part.element List.mem_cons_self (.whole head)).trans part
      exact .argumentCount read part (names_of_text (element.isSpelled spelled) name) rejected
  | divisor zero => exact .divisionByZero
  | radicand value negative => exact .outOfRange

end Expr

/-- **There is evidence for every failure of a line.** It has a reason. An unexpected character stands in the line where
the failure is placed. Only names are found to have no value, and operators that are all there is in the line. A
function that is not defined has a name, and none of an operation. Only the four operators and nil are refused as
operands. A wrong number of operands is that of a call in the line, with the name and the arity of the operation called,
which does not accept it. Only a reader finds lists too deep, and no literal is found invalid. -/
theorem failure_evident {line : String} {f : Failure} (h : evaluateLine line = .error f) :
    ∃ r, f.reason? = some r ∧ Evidence line f r := by
  rcases read : Expr.parse line with g | e
  · rw [evaluateLine_of_refused read] at h
    cases h
    exact Expr.evidence_of_blames (on_start line) read (Expr.blames_of_parse read)
  · have tree : (Expr.parse line).map Located.value = .ok e.value := by rw [read]; rfl
    rw [evaluateLine_of_read read] at h
    have report := Expr.reports_evaluateAt e.value (Expr.flatten_of_parse tree).2
    rw [← Expr.evaluate, h] at report
    obtain ⟨r, reason, first⟩ := report
    exact ⟨r, reason, Expr.evidence_of_firstFails tree first⟩

/-- a root of two numbers, and an operator alone between blanks -/
theorem failure_evident_sqrt :
    let count : Reason := .argumentCount "sqrt" (.exactly 1) 2
    let f := (Failure.of count).tag ⟨6, 4⟩ .call
    let g := (Failure.of (.cannotEvaluate .operator)).tag ⟨1, 1⟩ .evaluate
    evaluateLine "(+ 1 (sqrt 4 9))" = .error f ∧ Evidence "(+ 1 (sqrt 4 9))" f count ∧
      evaluateLine " * " = .error g ∧ Evidence " * " g (.cannotEvaluate .operator) := by
  intro count f g
  have failed : evaluateLine "(+ 1 (sqrt 4 9))" = .error f := by decide +kernel
  have failed' : evaluateLine " * " = .error g := by decide +kernel
  obtain ⟨r, reason, evidence⟩ := failure_evident failed
  obtain ⟨r', reason', evidence'⟩ := failure_evident failed'
  cases reason
  cases reason'
  exact ⟨failed, evidence, failed', evidence'⟩

end ExactCalc
