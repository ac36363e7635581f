/-
Outlines are read back.

An outline has a line for every node, which shows how deep the node lies and what it is, but not where its elements
end. `Expr.regrow` rebuilds the expression from what the lines show, the last one first: behind the line of a list
stand its elements, each of them rebuilt already, and they are the trees one level deeper than the list, up to the
first that is not. Where atoms stand in the line is not shown, so it is `Expr.unplaced` that comes back.

Results:
- `ofDescription?_describe`, `readRow?_row`: the description of a node, and so its line, can be read.
- `lines_flatMap`: the lines of an outline can be told apart.
- `regrow_nodes`: by induction on the tree, it grows again from its nodes and their depths, in front of any trees that
  stand no deeper.
- `outline_determines`: **an outline determines the tree**.
-/
import ExactCalc.Proofs.Traversal

namespace ExactCalc.Expr

/-! ## One line -/

/-- a node on its own: a list without its elements, and an atom without its place -/
def bare : Expr → Expr
  | .atom t => .atom { t with offset := 0 }
  | .nil => .nil
  | .list _ => .list []

/-- what an outline shows of a node at a depth -/
def shown (x : Expr × ℕ) : Expr × ℕ :=
  (x.1.bare, x.2)

/-- what stands in front of the text in the description of an atom -/
def kindWords (kind : Token.Kind) : List Char :=
  ("atom " ++ kind.label ++ " ").toList

/-- the node that is described in these words -/
def ofDescription? (words : List Char) : Option Expr :=
  if words = "list".toList then some (.list [])
  else if words = "nil".toList then some .nil
  else [Token.Kind.constant, .operator, .identifier].findSome? fun kind =>
    ((kindWords kind).isPrefixOf? words).map fun text => .atom ⟨kind, 0, String.ofList text⟩

/-- the line about a node at this depth, without the line break -/
def row (indent : ℕ) (x : Expr × ℕ) : List Char :=
  List.replicate (indent * x.2) ' ' ++ x.1.describe.toList

/-- the node and the depth that a line is about -/
def readRow? (indent : ℕ) (line : List Char) : Option (Expr × ℕ) :=
  (ofDescription? (line.dropWhile (· == ' '))).map fun e => (e, (line.takeWhile (· == ' ')).length / indent)

theorem ofDescription?_atom {kind : Token.Kind} (atomic : kind.isAtomic = true) (text : List Char) :
    ofDescription? (kindWords kind ++ text) = some (.atom ⟨kind, 0, String.ofList text⟩) := by
  cases kind <;> simp [ofDescription?, kindWords, Token.Kind.label, List.isPrefixOf?, Token.Kind.isAtomic] at atomic ⊢

theorem toList_describe_atom (t : Token) : (atom t).describe.toList = kindWords t.kind ++ t.text.toList := by
  rw [describe, String.toList_append, kindWords]

/-- no description starts with a blank, so that it can be told from the indentation -/
theorem head?_describe (e : Expr) (x : Char) (h : e.describe.toList.head? = some x) : (x == ' ') = false := by
  cases e <;> simp [describe] at h <;> subst h <;> rfl

section
variable {e : Expr} (spelled : ∀ t ∈ e.atoms, t.isSpelled = true)
include spelled

theorem ofDescription?_describe : ofDescription? e.describe.toList = some e.bare := by
  cases e with
  | list es =>
    rw [describe, bare]
    decide
  | nil => decide
  | atom t =>
    have atomic : t.kind.isAtomic = true := Token.isAtomic_of_isSpelled (spelled t List.mem_cons_self)
    rw [toList_describe_atom, ofDescription?_atom atomic, String.ofList_toList]
    rfl

/-- no description is broken into lines -/
theorem newline_notMem_describe : '\n' ∉ e.describe.toList := by
  cases e with
  | list es =>
    rw [describe]
    decide
  | nil => decide
  | atom t =>
    have words : '\n' ∉ kindWords t.kind := by
      cases t.kind <;> decide
    rw [toList_describe_atom, List.mem_append]
    rintro (label | text)
    · exact words label
    · exact absurd (Lexeme.isAtomChar_of_spells (spelled t List.mem_cons_self) _ text) (by decide)

theorem readRow?_row {indent : ℕ} (positive : 0 < indent) (depth : ℕ) :
    readRow? indent (row indent (e, depth)) = some (shown (e, depth)) := by
  have blanks : ∀ x ∈ List.replicate (indent * depth) ' ', (x == ' ') = true := by
    intro x member
    rw [List.eq_of_mem_replicate member]
    rfl
  obtain ⟨taken, left⟩ := Lexeme.span_append blanks (head?_describe e)
  rw [readRow?, row, left, taken, ofDescription?_describe spelled, List.length_replicate, Option.map_some,
    Nat.mul_div_cancel_left depth positive]
  rfl

theorem newline_notMem_row (indent depth : ℕ) : '\n' ∉ row indent (e, depth) := by
  rw [row, List.mem_append]
  rintro (blank | word)
  · exact absurd (List.eq_of_mem_replicate blank) (by decide)
  · exact newline_notMem_describe spelled word

end

theorem toList_outlineRow (indent : ℕ) (x : Expr × ℕ) : (outlineRow indent x).toList = row indent x ++ ['\n'] := by
  simp [outlineRow, row]

/-! ## All lines -/

/-- the lines of a text, each of which ends with a line break -/
def lines (text : List Char) : List (List Char) :=
  (text.splitOn '\n').dropLast

theorem splitOn_flatMap {rows : List (List Char)} (whole : ∀ r ∈ rows, '\n' ∉ r) :
    (rows.flatMap (· ++ ['\n'])).splitOn '\n' = rows ++ [[]] := by
  induction rows with
  | nil => rfl
  | cons r rows ih =>
    obtain ⟨first, others⟩ := List.forall_mem_cons.1 whole
    have unbroken : ∀ x ∈ r, (x == '\n') = false := by
      intro x member
      exact beq_false_of_ne fun same => first (same ▸ member)
    rw [List.flatMap_cons, List.append_assoc, List.singleton_append, List.splitOn,
      List.splitOnP_append_cons_of_forall_mem unbroken '\n' rfl, ← List.splitOn, ih others, List.cons_append]

/-- lines that are not broken themselves can be told apart -/
theorem lines_flatMap {rows : List (List Char)} (whole : ∀ r ∈ rows, '\n' ∉ r) :
    lines (rows.flatMap (· ++ ['\n'])) = rows := by
  rw [lines, splitOn_flatMap whole, List.dropLast_concat]

/-- every line can be read -/
theorem mapM_readRow? {indent : ℕ} (positive : 0 < indent) {xs : List (Expr × ℕ)}
    (spelled : ∀ x ∈ xs, ∀ t ∈ x.1.atoms, t.isSpelled = true) :
    (xs.map (row indent)).mapM (readRow? indent) = some (xs.map shown) := by
  induction xs with
  | nil => rfl
  | cons x xs ih =>
    obtain ⟨first, others⟩ := List.forall_mem_cons.1 spelled
    rw [List.map_cons, List.mapM_cons, readRow?_row first positive, ih others]
    rfl

/-! ## The tree -/

/-- one node in front of trees with their depths: a list takes those that may be its elements -/
def plant (x : Expr × ℕ) (forest : List (Expr × ℕ)) : List (Expr × ℕ) :=
  if x.1.isList then
    (.list ((forest.takeWhile (·.2 == x.2 + 1)).map Prod.fst), x.2) :: forest.dropWhile (·.2 == x.2 + 1)
  else x :: forest

/-- the trees that consist of these nodes, each node with its depth and in front of what stands below it -/
def regrow (xs forest : List (Expr × ℕ)) : List (Expr × ℕ) :=
  xs.foldr plant forest

/-- the first of these trees, if there is one, is no deeper than this -/
def Shallow (depth : ℕ) (forest : List (Expr × ℕ)) : Prop :=
  ∀ x, forest.head? = some x → x.2 ≤ depth

theorem Shallow.append {depth : ℕ} {forest : List (Expr × ℕ)} (h : Shallow depth forest) (es : List Expr) :
    Shallow (depth + 1) (es.map (·, depth + 1) ++ forest) := by
  intro x hx
  cases es with
  | nil => exact (h x hx).trans (Nat.le_succ depth)
  | cons e es =>
    cases hx
    rfl

/-- a list takes the trees one level below it, as far as they go -/
theorem plant_list {es : List Expr} {depth : ℕ} {forest : List (Expr × ℕ)} (shallow : Shallow depth forest) :
    plant (list [], depth) (es.map (·, depth + 1) ++ forest) = (list es, depth) :: forest := by
  have below : ∀ x ∈ es.map (·, depth + 1), (x.2 == depth + 1) = true :=
    List.forall_mem_map.2 fun e _ => beq_self_eq_true _
  have above : ∀ x, forest.head? = some x → (x.2 == depth + 1) = false := by
    intro x hx
    exact beq_false_of_ne (Nat.lt_succ_of_le (shallow x hx)).ne
  obtain ⟨taken, left⟩ := Lexeme.span_append below above
  have elements : (es.map (·, depth + 1)).map Prod.fst = es := List.map_map.trans (List.map_id es)
  rw [plant, isList, if_pos rfl, taken, left, elements]

mutual

/-- a tree grows again from its nodes, whatever stands behind them, as long as it is no deeper -/
theorem regrow_nodes : (e : Expr) → (depth : ℕ) → (forest : List (Expr × ℕ)) → Shallow depth forest →
    regrow ((e.nodes.map (Node.met depth)).map shown) forest = (e.unplaced, depth) :: forest
  | .atom _, _, _, _ => rfl
  | .nil, _, _, _ => rfl
  | .list es, depth, forest, shallow => by
    rw [nodes, List.map_cons, List.map_cons, regrow, List.foldr_cons, ← regrow,
      regrow_nodesList es depth 0 forest shallow]
    exact plant_list shallow

theorem regrow_nodesList : (es : List Expr) → (depth i : ℕ) → (forest : List (Expr × ℕ)) → Shallow depth forest →
    regrow (((nodesList i es).map (Node.met depth)).map shown) forest =
      (unplacedList es).map (·, depth + 1) ++ forest
  | [], _, _, _, _ => rfl
  | e :: es, depth, i, forest, shallow => by
    -- the other elements have grown already, and stand behind this one at its own depth
    have others := regrow_nodesList es depth (i + 1) forest shallow
    have first := regrow_nodes e (depth + 1) _ (shallow.append (unplacedList es))
    rw [nodesList, List.map_append, map_met_under, List.map_append, regrow, List.foldr_append, ← regrow, ← regrow,
      others, first]
    rfl

end

/-- the tree that an outline is of, with all its atoms at offset zero -/
def ofOutline? (indent : ℕ) (text : String) : Option Expr :=
  ((lines text.toList).mapM (readRow? indent)).bind fun xs => (regrow xs []).head?.map Prod.fst

theorem lines_join {indent : ℕ} {xs : List (Expr × ℕ)} (spelled : ∀ x ∈ xs, ∀ t ∈ x.1.atoms, t.isSpelled = true) :
    lines (String.join (xs.map (outlineRow indent))).toList = xs.map (row indent) := by
  have rows : (String.join (xs.map (outlineRow indent))).toList = (xs.map (row indent)).flatMap (· ++ ['\n']) := by
    rw [String.toList_join, List.flatMap_map, List.flatMap_map]
    exact List.flatMap_congr fun x _ => toList_outlineRow indent x
  rw [rows, lines_flatMap]
  exact List.forall_mem_map.2 fun x member => newline_notMem_row (spelled x member) indent x.2

/-- a tree grows again from its outline -/
theorem ofOutline?_join {indent : ℕ} (positive : 0 < indent) {e : Expr} (h : ∀ t ∈ e.atoms, t.isSpelled = true) :
    ofOutline? indent (String.join ((e.nodes.map (Node.met 0)).map (outlineRow indent))) = some e.unplaced := by
  have spelled : ∀ x ∈ e.nodes.map (Node.met 0), ∀ t ∈ x.1.atoms, t.isSpelled = true := by
    refine List.forall_mem_map.2 fun n member t inner => h t ?_
    exact (part_of_mem_nodes member).atoms_sublist.subset inner
  have grown := regrow_nodes e 0 [] fun x none => by cases none
  rw [ofOutline?, lines_join spelled, mapM_readRow? positive spelled, Option.bind_some, grown]
  rfl

/-- **An outline determines the tree.** Of a tree that is not too deep, has no empty list and only spelled atoms, there
is an outline: for every node, in the order of a walk, a line with its description behind so many blanks per level of
depth. If there is a blank per level at least the tree can be read back from it, but for where its atoms stand, so two
trees with the same outline are the same in this respect. -/
theorem outline_determines {indent : ℕ} (positive : 0 < indent) :
    (∀ e, WellFormed 0 e → ∃ text, e.outline indent = .ok text ∧
      text = String.join (e.nodes.map fun n =>
        String.ofList (List.replicate (indent * n.depth) ' ') ++ n.expr.describe ++ "\n") ∧
      ofOutline? indent text = some e.unplaced) ∧
    ∀ e e', WellFormed 0 e → WellFormed 0 e' → e.outline indent = e'.outline indent → e.unplaced = e'.unplaced := by
  have read (e : Expr) (h : WellFormed 0 e) : ∃ text, e.outline indent = .ok text ∧
      text = String.join (e.nodes.map fun n => outlineRow indent (n.expr, n.depth)) ∧
      ofOutline? indent text = some e.unplaced := by
    refine ⟨_, (completes_of_wellFormed h).outline indent, rfl, ?_⟩
    rw [← ofOutline?_join positive h.spelled, List.map_map, met_zero]
    rfl
  refine ⟨read, fun e e' h h' same => ?_⟩
  obtain ⟨text, outline, -, back⟩ := read e h
  obtain ⟨text', outline', -, back'⟩ := read e' h'
  cases (outline.symm.trans same).trans outline'
  exact Option.some.inj (back.symm.trans back')

/-- a list that ends where an element of its list follows, and the same tree from another line -/
theorem outline_determines_neighbours :
    let e : Expr := list [atom ⟨.operator, 1, "+"⟩, list [.nil], atom ⟨.constant, 8, "-1"⟩]
    let e' : Expr := list [atom ⟨.operator, 3, "+"⟩, list [.nil], atom ⟨.constant, 13, "-1"⟩]
    (0 < 2 ∧ WellFormed 0 e ∧ WellFormed 0 e' ∧ e.outline 2 = e'.outline 2) ∧ e.unplaced = e'.unplaced ∧
      ∃ text, e.outline 2 = .ok text ∧
        text = "list\n  atom operator +\n  list\n    nil\n  atom constant -1\n" ∧
        ofOutline? 2 text = some e.unplaced := by
  intro e e'
  have h : WellFormed 0 e := ⟨by simp [e, Proper, ProperList], by decide +kernel, by decide⟩
  have h' : WellFormed 0 e' := ⟨by simp [e', Proper, ProperList], by decide +kernel, by decide⟩
  have same : e.outline 2 = e'.outline 2 := by decide +kernel
  obtain ⟨read, injective⟩ := outline_determines Nat.two_pos
  obtain ⟨text, outline, lines, back⟩ := read e h
  exact ⟨⟨Nat.two_pos, h, h', same⟩, injective e e' h h' same, text, outline, lines.trans (by decide +kernel), back⟩

end ExactCalc.Expr
