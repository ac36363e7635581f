/-
How deep an expression may reach.

Reader, walk and evaluator each keep their own count of the depth, and each looks at it at another moment: the reader
before an element, the walk between a list and its elements, the evaluator once the head of a list has been found to
name an operation. They stop at the same depth nevertheless.

`Limited p x`: the result `x` is there if `p` holds, and otherwise the reason is that something lies too deep.

Results:
- `limited_walkAt`: by induction on the tree, a walk is stopped by depth and by nothing else.
- `refuses_of_flatten`: a tree that is too deep is refused where its pieces come next, and for that reason. Together
  with `reads_of_flatten` this decides what becomes of a line that consists of the pieces of a tree, `limited_parse`.
- `shallow_of_evaluateAt`: whatever has a result was evaluated within the limit, for trees of every shape.
- `depth_limits_agree`: **the limits on depth agree**.
-/
import ExactCalc.Expr.Outline
import ExactCalc.Proofs.Checks
import ExactCalc.Proofs.RoundTrip

namespace ExactCalc

/-! ## Limited results -/

/-- the result is there exactly if this holds, and otherwise something lies deeper than 255 -/
structure Limited {α : Type} (p : Prop) (x : Except Failure α) : Prop where
  ok_iff : (∃ a, x = .ok a) ↔ p
  tooDeep : ¬p → FailsFor x (.tooDeep 255)

namespace Limited

variable {α β : Type} {p q : Prop} {x : Except Failure α}

theorem ok {a : α} (h : p) : Limited p (.ok a : Except Failure α) :=
  ⟨⟨fun _ => h, fun _ => ⟨a, rfl⟩⟩, absurd h⟩

theorem error {f : Failure} (h : ¬p) (reason : f.reason? = some (.tooDeep 255)) :
    Limited p (.error f : Except Failure α) :=
  ⟨⟨nofun, fun hp => absurd hp h⟩, fun _ => ⟨f, rfl, reason⟩⟩

theorem congr (h : Limited p x) (same : p ↔ q) : Limited q x :=
  ⟨h.ok_iff.trans same, fun hq => h.tooDeep (mt same.1 hq)⟩

theorem bind {k : α → Except Failure β} (first : Limited p x) (second : ∀ a, Limited q (k a)) :
    Limited (p ∧ q) (x >>= k) := by
  cases x with
  | error f =>
    have failed : ¬p := fun hp => nomatch first.ok_iff.2 hp
    obtain ⟨f', same, reason⟩ := first.tooDeep failed
    cases same
    exact error (fun h => failed h.1) reason
  | ok a =>
    have hp : p := first.ok_iff.1 ⟨a, rfl⟩
    exact (second a).congr (and_iff_right hp).symm

end Limited

/-! ## Walks -/

theorem Walk.complete_andThen {α : Type} (w next : Walk) (a : α) :
    (w.andThen next).complete a = w.complete a >>= fun _ => next.complete a := by
  cases h : w.failure? with
  | some f =>
    rw [Walk.andThen_of_failed h, Walk.complete, h]
    rfl
  | none =>
    rw [Walk.andThen_of_finished h]
    simp only [Walk.complete, h]
    rfl

namespace Expr

theorem walkAt_list_of_lt {depth : ℕ} (room : depth < maxDepth) (es : List Expr) :
    walkAt depth (list es) =
      ⟨(list es, depth) :: (walkList (depth + 1) es).visited, (walkList (depth + 1) es).failure?⟩ := by
  rw [walkAt, deeper_of_lt room]

theorem walkAt_list_of_le {depth : ℕ} (deep : maxDepth ≤ depth) (es : List Expr) :
    walkAt depth (list es) =
      ⟨[(list es, depth)], some ((Failure.of (.tooDeep maxDepth)).tagOption (extent? (list es)) .visit)⟩ := by
  rw [walkAt, deeper_of_le deep]

/-- a list that is not empty reaches below itself -/
theorem height_list_pos {es : List Expr} (h : es ≠ []) : 0 < (list es).height := by
  cases es with
  | nil => exact absurd rfl h
  | cons e es =>
    rw [height, heightList]
    omega

mutual

/-- a walk from an allowed depth is completed if no node is deeper than allowed -/
theorem limited_walkAt {α : Type} (a : α) : (e : Expr) → (depth : ℕ) → e.Proper → depth ≤ maxDepth →
    Limited (depth + e.height ≤ maxDepth) ((walkAt depth e).complete a)
  | .atom t, depth, _, allowed => by
    rw [walkAt]
    exact .ok allowed
  | .nil, depth, _, allowed => by
    rw [walkAt]
    exact .ok allowed
  | .list es, depth, proper, allowed => by
    by_cases room : depth < maxDepth
    · rw [walkAt_list_of_lt room]
      exact limited_walkList a es depth proper.2 room
    · have inner := height_list_pos proper.1
      rw [walkAt_list_of_le (Nat.le_of_not_lt room)]
      exact .error (by omega) (Failure.reason?_tagOption _ _ _)

theorem limited_walkList {α : Type} (a : α) : (es : List Expr) → (depth : ℕ) → ProperList es → depth < maxDepth →
    Limited (depth + heightList es ≤ maxDepth) ((walkList (depth + 1) es).complete a)
  | [], depth, _, room => by
    rw [walkList]
    exact .ok room.le
  | e :: es, depth, proper, room => by
    have first := limited_walkAt a e (depth + 1) proper.1 room
    have others := limited_walkList a es depth proper.2 room
    rw [walkList, Walk.complete_andThen, heightList]
    exact (first.bind fun _ => others).congr (by omega)

end

theorem limited_walk {α : Type} (a : α) {e : Expr} (proper : e.Proper) :
    Limited (e.height ≤ 255) (e.walk.complete a) :=
  (limited_walkAt a e 0 proper (Nat.zero_le _)).congr (by rw [Nat.zero_add, maxDepth])

/-! ## Reading -/

mutual

/-- a tree that is too deep is refused where its pieces come next -/
theorem refuses_of_flatten : (e : Expr) → (depth : ℕ) → {c : Cursor} → {rest : List Piece} → e.Proper →
    (∀ t ∈ e.atoms, t.isAtomic = true) → depth ≤ maxDepth → maxDepth < depth + e.height →
    c.solid.map Token.piece = e.flatten ++ rest →
      ∃ f next, Refuses depth c f next ∧ f.reason? = some (.tooDeep maxDepth)
  | .atom t, depth, c, rest, _, _, allowed, deep, _ => absurd allowed (Nat.not_le.2 deep)
  | .nil, depth, c, rest, _, _, allowed, deep, _ => absurd allowed (Nat.not_le.2 deep)
  | .list es, depth, c, rest, proper, atomic, allowed, deep, h => by
    obtain ⟨u, us, solid, piece, left⟩ := List.map_eq_cons_iff.1 h
    obtain ⟨rfl, rfl⟩ := Cursor.of_solid_eq_cons solid
    rw [List.append_eq, List.append_assoc] at left
    obtain ⟨f, next, elements, reason⟩ :=
      refusesElements_of_flatten es depth c.token proper.2 atomic allowed deep left
    exact ⟨f, next, .list (Token.piece_eq_opening_iff.1 piece) elements, reason⟩

theorem refusesElements_of_flatten : (es : List Expr) → (depth : ℕ) → (opening : Token) → {c : Cursor} →
    {rest : List Piece} → ProperList es → (∀ t ∈ atomsList es, t.isAtomic = true) → depth ≤ maxDepth →
    maxDepth < depth + heightList es → c.solid.map Token.piece = flattenList es ++ .closing :: rest →
      ∃ f next, RefusesElements depth opening c f next ∧ f.reason? = some (.tooDeep maxDepth)
  | [], depth, opening, c, rest, _, _, allowed, deep, _ => absurd allowed (Nat.not_le.2 deep)
  | e :: es, depth, opening, c, rest, proper, atomic, allowed, deep, h => by
    rw [flattenList, List.append_assoc] at h
    obtain ⟨here, others⟩ := List.forall_mem_append.1 atomic
    have starts := starts_of_flatten here h
    rw [heightList] at deep
    by_cases room : depth < maxDepth
    · by_cases shallow : depth + 1 + e.height ≤ maxDepth
      · obtain ⟨span, next, first, left⟩ := reads_of_flatten e (depth + 1) proper.1 here shallow h
        obtain ⟨f, last, refused, reason⟩ :=
          refusesElements_of_flatten es depth opening proper.2 others allowed (by omega) left
        exact ⟨f, last, .others starts room first refused, reason⟩
      · obtain ⟨f, next, refused, reason⟩ :=
          refuses_of_flatten e (depth + 1) proper.1 here room (Nat.lt_of_not_le shallow) h
        exact ⟨f, next, .first starts room refused, reason⟩
    · exact ⟨_, _, .tooDeep starts (Nat.le_of_not_lt room), rfl⟩

end

/-- a line that consists of the pieces of a tree is read if the tree is not too deep -/
theorem limited_parse {line : String} {e : Expr} (proper : e.Proper) (atomic : ∀ t ∈ e.atoms, t.isAtomic = true)
    (h : (Cursor.start line).solid.map Token.piece = e.flatten) : Limited (e.height ≤ 255) (parse line) := by
  by_cases shallow : e.height ≤ maxDepth
  · obtain ⟨span, read⟩ := map_value_eq_ok_iff.1 (parse_of_flatten proper atomic shallow h)
    rw [read]
    exact .ok shallow
  · rw [← List.append_nil e.flatten] at h
    have deep : maxDepth < 0 + e.height := by omega
    obtain ⟨f, next, refused, reason⟩ := refuses_of_flatten e 0 proper atomic (Nat.zero_le _) deep h
    rw [parse_eq_error_iff.2 (.inl ⟨next, refused⟩)]
    exact .error shallow reason

theorem limited_parse_text {e : Expr} (proper : e.Proper) (spelled : ∀ t ∈ e.atoms, t.isSpelled = true) :
    Limited (e.height ≤ 255) (parse e.text) := by
  have same : (e.placed 0).unplaced = e.unplaced := unplaced_placed 0 e
  have atomic : ∀ t ∈ (e.placed 0).atoms, t.isAtomic = true := fun t ht =>
    Token.isAtomic_of_isSpelled ((isSpelled_congr same).2 spelled t ht)
  rw [← height_congr same]
  exact limited_parse ((proper_congr same).2 proper) atomic (solid_start_text spelled)

/-! ## Evaluation -/

mutual

/-- an expression with a result does not reach too deep -/
theorem shallow_of_evaluateAt : (e : Expr) → {depth : ℕ} → {a? : Option Number} → depth ≤ maxDepth →
    evaluateAt depth e = .ok a? → depth + e.height ≤ maxDepth
  | .atom t, depth, a?, allowed, _ => allowed
  | .nil, depth, a?, allowed, _ => allowed
  | .list [], depth, a?, allowed, _ => allowed
  | .list (head :: operands), depth, none, _, h => nomatch evaluateAt_eq_none_iff.1 h
  | .list (head :: operands), depth, some a, _, h => by
    obtain ⟨t, f, as, named, room, values, -⟩ := callAt_eq_ok_iff.1 (evaluateAt_list_eq_ok_iff.1 h)
    have leaf : head.height = 0 := by
      rw [(callee_eq_ok_iff.1 named).1]
      rfl
    have inner := shallow_of_operandsAt operands room values
    rw [height, heightList, leaf]
    omega

theorem shallow_of_operandsAt : (es : List Expr) → {depth : ℕ} → {as : List Number} → depth < maxDepth →
    operandsAt (depth + 1) es = .ok as → depth + heightList es ≤ maxDepth
  | [], depth, as, room, _ => room.le
  | e :: es, depth, as, room, h => by
    obtain ⟨-, a, bs, value, values, -⟩ := operandsAt_cons_eq_ok_iff.1 h
    have first := shallow_of_evaluateAt e room value
    have others := shallow_of_operandsAt es room values
    rw [heightList]
    omega

end

/-- no check is about depth, so within the limit evaluation does not meet it -/
theorem not_failsFor_tooDeep {e : Expr} (h : WellFormed 0 e) (n : ℕ) : ¬FailsFor e.evaluate (.tooDeep n) := by
  rw [failsFor_evaluate_iff h]
  intro first
  obtain ⟨c, -, fails⟩ := first.exists_mem
  cases fails

/-! ## A tree of every depth -/

/-- one, negated so many times -/
def negations : ℕ → Expr
  | 0 => .atom ⟨.constant, 0, "1"⟩
  | n + 1 => .list [.atom ⟨.identifier, 0, "neg"⟩, negations n]

theorem proper_negations (n : ℕ) : (negations n).Proper := by
  induction n with
  | zero => trivial
  | succ n ih => exact ⟨List.cons_ne_nil _ _, trivial, ih, trivial⟩

theorem atoms_negations_succ (n : ℕ) :
    (negations (n + 1)).atoms = ⟨.identifier, 0, "neg"⟩ :: (negations n).atoms := by
  rw [negations, atoms, atomsList, atomsList, atomsList, atoms, List.append_nil, List.singleton_append]

theorem isSpelled_negations (n : ℕ) : ∀ t ∈ (negations n).atoms, t.isSpelled = true := by
  induction n with
  | zero => decide +kernel
  | succ n ih =>
    intro t ht
    rw [atoms_negations_succ, List.mem_cons] at ht
    rcases ht with rfl | ht
    · decide +kernel
    · exact ih t ht

theorem addressable_negations (n : ℕ) : Token.Addressable (negations n).atoms := by
  have same : ∀ t ∈ (negations n).atoms, t.offset = 0 ∧ t.span.Bounded := by
    induction n with
    | zero => decide +kernel
    | succ n ih =>
      intro t ht
      rw [atoms_negations_succ, List.mem_cons] at ht
      rcases ht with rfl | ht
      · decide +kernel
      · exact ih t ht
  refine ⟨List.pairwise_of_forall_mem_list fun t ht u _ => ?_, fun t ht => (same t ht).2⟩
  rw [(same t ht).1]
  exact Nat.zero_le _

/-! ## The limits -/

/-- **The limits on depth agree.** Of a tree without empty lists and with spelled atoms, which are addressable, so that
no stretch leaves the words, the walk is completed, the depth and the outline are there and the canonical text is read
exactly if no node is deeper than 255, and all of them fail for that reason otherwise; a tree with a result of
evaluation has no deeper node. So the tree of a line that is read is walked through, has a depth and an outline, and is
not evaluated too deep. -/
theorem depth_limits_agree :
    (∀ e : Expr, e.Proper → (∀ t ∈ e.atoms, t.isSpelled = true) → Token.Addressable e.atoms →
      e.Measured ∧ Limited (e.height ≤ 255) (e.walk.complete ()) ∧ Limited (e.height ≤ 255) e.depth ∧
      (∀ indent, Limited (e.height ≤ 255) (e.outline indent)) ∧ Limited (e.height ≤ 255) (parse e.text) ∧
      ∀ a?, e.evaluate = .ok a? → e.height ≤ 255) ∧
    ∀ (line : String) (e : Expr), (parse line).map Located.value = .ok e →
      e.walk.complete () = .ok () ∧ (∃ n, e.depth = .ok n) ∧ (∀ indent, ∃ text, e.outline indent = .ok text) ∧
      ∀ n, ¬FailsFor e.evaluate (.tooDeep n) := by
  constructor
  · intro e proper spelled addressable
    refine ⟨measured_of_addressable addressable, limited_walk () proper, limited_walk _ proper,
      fun indent => limited_walk _ proper, limited_parse_text proper spelled, fun a? value => ?_⟩
    have shallow := shallow_of_evaluateAt e (Nat.zero_le _) value
    rwa [Nat.zero_add] at shallow
  · intro line e read
    have wellFormed : WellFormed 0 e := (flatten_of_parse read).2
    have completed {α : Type} (a : α) : ∃ b, e.walk.complete a = .ok b :=
      (limited_walk a wellFormed.proper).ok_iff.2 wellFormed.height_le
    exact ⟨(completed ()).choose_spec, completed _, fun indent => completed _, not_failsFor_tooDeep wellFormed⟩

/-- at the limit everything is there, and one list more is too deep for everything -/
theorem depth_limits_agree_negations :
    let twice := list [atom ⟨.identifier, 1, "neg"⟩, list [atom ⟨.identifier, 6, "neg"⟩, atom ⟨.constant, 10, "1"⟩]]
    ((negations 255).evaluate = .ok (some (.integer (-1))) ∧ (negations 255).height ≤ 255 ∧
      (∃ n, (negations 255).depth = .ok n) ∧ ∃ e, parse (negations 255).text = .ok e) ∧
    ((negations 256).Proper ∧ (∀ t ∈ (negations 256).atoms, t.isSpelled = true) ∧
      Token.Addressable (negations 256).atoms ∧ ¬(negations 256).height ≤ 255 ∧
      FailsFor (negations 256).depth (.tooDeep 255) ∧ FailsFor ((negations 256).outline 2) (.tooDeep 255) ∧
      FailsFor (parse (negations 256).text) (.tooDeep 255)) ∧
    (parse "(neg (neg 1))").map Located.value = .ok twice ∧ ∀ n, ¬FailsFor twice.evaluate (.tooDeep n) := by
  intro twice
  have proper : (negations 256).Proper := proper_negations 256
  have spelled : ∀ t ∈ (negations 256).atoms, t.isSpelled = true := isSpelled_negations 256
  have value : (negations 255).evaluate = .ok (some (.integer (-1))) := by decide +kernel
  have deep : ¬(negations 256).height ≤ 255 := by decide +kernel
  have read : (parse "(neg (neg 1))").map Located.value = .ok twice := by decide +kernel
  obtain ⟨trees, lines⟩ := depth_limits_agree
  have addressable : Token.Addressable (negations 256).atoms := addressable_negations 256
  obtain ⟨-, -, depth, -, text, evaluated⟩ :=
    trees _ (proper_negations 255) (isSpelled_negations 255) (addressable_negations 255)
  obtain ⟨-, -, depth', outline', text', -⟩ := trees _ proper spelled addressable
  obtain ⟨-, -, -, never⟩ := lines _ _ read
  have shallow := evaluated _ value
  refine ⟨⟨value, shallow, depth.ok_iff.2 shallow, text.ok_iff.2 shallow⟩, ⟨proper, spelled, addressable, deep,
    ?_, ?_, ?_⟩, read, never⟩
  · exact depth'.tooDeep deep
  · exact (outline' 2).tooDeep deep
  · exact text'.tooDeep deep

end Expr

end ExactCalc
