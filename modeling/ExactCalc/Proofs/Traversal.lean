/-
The nodes of an expression, and the walk through them.

A node is known by its path: which element to go to, from the root on. `Expr.nodes` lists the nodes with their paths,
and the depth of a node is the length of its path. `Walk.along xs` is the walk that meets `xs` one after the other and
stops at the first list that lies as deep as a node may, so it knows nothing of trees.

Results:
- `mem_nodes_iff`, `pairwise_nodes`: every node is listed, in the lexicographic order of paths, so none is listed twice
  and each comes before everything below it.
- `along_append`: a walk along two sequences is a walk along the first and then, unless it was stopped, the second.
- `walkAt_eq_along`: so, by induction on the tree, a walk through an expression is one along its nodes.
- `walk_fails_closed`: **a walk fails closed at a well-defined place**.
-/
import ExactCalc.Proofs.Extent

namespace ExactCalc

namespace Expr

/-! ## Nodes and their paths -/

/-- the expression at the end of a path, if the path does not leave the tree -/
def get? (e : Expr) : List ℕ → Option Expr
  | [] => some e
  | i :: path =>
    match e with
    | .list es => es[i]?.bind fun d => d.get? path
    | .atom _ => none
    | .nil => none

/-- an expression that stands in another one, and how to get there -/
structure Node where
  path : List ℕ
  expr : Expr
  deriving DecidableEq, Repr

namespace Node

/-- how many lists the node stands in -/
def depth (n : Node) : ℕ :=
  n.path.length

/-- the node as one of the tree in which its root is the element at this index -/
def under (i : ℕ) (n : Node) : Node :=
  ⟨i :: n.path, n.expr⟩

/-- the first node stands above the second one or to the left of it -/
def Before (m n : Node) : Prop :=
  m.path < n.path

/-- the node as a walk meets it that starts at this depth -/
def met (depth : ℕ) (n : Node) : Expr × ℕ :=
  (n.expr, depth + n.depth)

end Node

mutual

/-- the nodes of an expression, every node in front of its elements -/
def nodes : Expr → List Node
  | .atom t => [⟨[], .atom t⟩]
  | .nil => [⟨[], .nil⟩]
  | .list es => ⟨[], .list es⟩ :: nodesList 0 es

/-- the nodes of elements, the first of which has this index -/
def nodesList (i : ℕ) : List Expr → List Node
  | [] => []
  | e :: es => e.nodes.map (Node.under i) ++ nodesList (i + 1) es

end

theorem mem_nodesList_iff {es : List Expr} {i : ℕ} {n : Node} : n ∈ nodesList i es ↔
    ∃ j d path, es[j]? = some d ∧ n.path = (i + j) :: path ∧ ⟨path, n.expr⟩ ∈ d.nodes := by
  induction es generalizing i with
  | nil => simp [nodesList]
  | cons e es ih =>
    rw [nodesList, List.mem_append, ih]
    constructor
    · rintro (here | ⟨j, d, path, element, whole, member⟩)
      · obtain ⟨m, member, rfl⟩ := List.mem_map.1 here
        exact ⟨0, e, m.path, rfl, rfl, member⟩
      · exact ⟨j + 1, d, path, element, by rw [whole, Nat.add_right_comm, Nat.add_assoc], member⟩
    · rintro ⟨j, d, path, element, whole, member⟩
      cases j with
      | zero =>
        cases element
        refine .inl (List.mem_map.2 ⟨⟨path, n.expr⟩, member, ?_⟩)
        rw [Node.under, ← Nat.add_zero i, ← whole]
      | succ j =>
        exact .inr ⟨j, d, path, element, by rw [whole, Nat.add_right_comm, Nat.add_assoc], member⟩

theorem path_ne_nil_of_mem_nodesList {es : List Expr} {i : ℕ} {n : Node} (h : n ∈ nodesList i es) : n.path ≠ [] := by
  obtain ⟨j, d, path, -, whole, -⟩ := mem_nodesList_iff.1 h
  rw [whole]
  exact List.cons_ne_nil _ _

/-- the root is the node that no path is needed for -/
theorem mem_nodes_root_iff {e d : Expr} : ⟨[], d⟩ ∈ e.nodes ↔ e = d := by
  cases e with
  | atom t => simp [nodes, eq_comm]
  | nil => simp [nodes, eq_comm]
  | list es =>
    rw [nodes, List.mem_cons]
    refine ⟨?_, ?_⟩
    · rintro (root | below)
      · exact (Node.mk.inj root).2.symm
      · exact absurd rfl (path_ne_nil_of_mem_nodesList below)
    · rintro rfl
      exact .inl rfl

/-- the nodes that are listed are those that paths lead to -/
theorem mem_nodes_iff {e : Expr} {n : Node} : n ∈ e.nodes ↔ e.get? n.path = some n.expr := by
  obtain ⟨path, d⟩ := n
  induction path generalizing e with
  | nil => rw [mem_nodes_root_iff, get?, Option.some.injEq]
  | cons i path ih =>
    cases e with
    | atom t => simp [nodes, get?]
    | nil => simp [nodes, get?]
    | list es =>
      have root : (⟨i :: path, d⟩ : Node) ≠ ⟨[], list es⟩ := by simp
      rw [nodes, List.mem_cons, or_iff_right root, mem_nodesList_iff, get?, Option.bind_eq_some_iff]
      constructor
      · rintro ⟨j, d', path', element, whole, member⟩
        rw [Nat.zero_add] at whole
        cases whole
        exact ⟨d', element, ih.1 member⟩
      · rintro ⟨d', element, below⟩
        exact ⟨i, d', path, element, by rw [Nat.zero_add], ih.2 below⟩

mutual

/-- the nodes are listed in the order of their paths -/
theorem pairwise_nodes : (e : Expr) → e.nodes.Pairwise Node.Before
  | .atom _ => List.pairwise_singleton _ _
  | .nil => List.pairwise_singleton _ _
  | .list es => by
    refine List.pairwise_cons.2 ⟨fun n below => ?_, pairwise_nodesList 0 es⟩
    obtain ⟨j, d, path, -, whole, -⟩ := mem_nodesList_iff.1 below
    rw [Node.Before, whole]
    exact List.nil_lt_cons _ _

theorem pairwise_nodesList : (i : ℕ) → (es : List Expr) → (nodesList i es).Pairwise Node.Before
  | _, [] => List.Pairwise.nil
  | i, e :: es => by
    refine List.pairwise_append.2 ⟨?_, pairwise_nodesList (i + 1) es, fun m first n later => ?_⟩
    · refine (pairwise_nodes e).map _ fun m n before => ?_
      exact List.cons_lt_cons_iff.2 (.inr ⟨rfl, before⟩)
    · obtain ⟨m, -, rfl⟩ := List.mem_map.1 first
      obtain ⟨j, d, path, -, whole, -⟩ := mem_nodesList_iff.1 later
      rw [Node.Before, whole]
      exact List.cons_lt_cons_iff.2 (.inl (by omega))

end

theorem part_of_get? {e d : Expr} {path : List ℕ} (h : e.get? path = some d) : Part d e := by
  induction path generalizing e with
  | nil =>
    cases h
    exact .whole _
  | cons i path ih =>
    cases e with
    | list es =>
      obtain ⟨d', element, below⟩ := Option.bind_eq_some_iff.1 h
      exact .element (List.mem_of_getElem? element) (ih below)
    | _ => cases h

theorem part_of_mem_nodes {e : Expr} {n : Node} (h : n ∈ e.nodes) : Part n.expr e :=
  part_of_get? (mem_nodes_iff.1 h)

end Expr

/-! ## Walks along nodes -/

/-- whether an expression is a list -/
def Expr.isList : Expr → Bool
  | .list _ => true
  | .atom _ => false
  | .nil => false

/-- the failure of a walk at a list that lies as deep as a node may -/
def Walk.blocked (e : Expr) : Failure :=
  (Failure.of (.tooDeep Expr.maxDepth)).tagOption e.extent? .visit

namespace Walk

/-- whether a walk goes no further than here: the elements of this list would lie too deep -/
def stops (x : Expr × ℕ) : Bool :=
  x.1.isList && x.2 == Expr.maxDepth

/-- the walk that meets these nodes, as far as the first one that it cannot go on from -/
def along : List (Expr × ℕ) → Walk
  | [] => ⟨[], none⟩
  | x :: xs => if stops x then ⟨[x], some (blocked x.1)⟩ else ⟨x :: (along xs).visited, (along xs).failure?⟩

theorem along_cons_of_stops {x : Expr × ℕ} (h : stops x = true) (xs : List (Expr × ℕ)) :
    along (x :: xs) = ⟨[x], some (blocked x.1)⟩ :=
  if_pos h

theorem along_cons_of_not_stops {x : Expr × ℕ} (h : stops x = false) (xs : List (Expr × ℕ)) :
    along (x :: xs) = ⟨x :: (along xs).visited, (along xs).failure?⟩ :=
  if_neg (by simp [h])

/-- a walk along two sequences is one along the first and then, unless it was stopped there, along the second -/
theorem along_append (xs ys : List (Expr × ℕ)) : along (xs ++ ys) = (along xs).andThen (along ys) := by
  induction xs with
  | nil => rfl
  | cons x xs ih =>
    cases h : stops x with
    | true => rw [List.cons_append, along_cons_of_stops h, along_cons_of_stops h, andThen_of_failed rfl]
    | false =>
      rw [List.cons_append, along_cons_of_not_stops h, along_cons_of_not_stops h, ih]
      cases failed : (along xs).failure? with
      | some f => rw [andThen_of_failed failed, andThen_of_failed rfl, failed]
      | none => rw [andThen_of_finished failed, andThen_of_finished rfl, List.cons_append]

theorem along_of_not_stops {xs : List (Expr × ℕ)} (h : ∀ x ∈ xs, stops x = false) : along xs = ⟨xs, none⟩ := by
  induction xs with
  | nil => rfl
  | cons x xs ih =>
    obtain ⟨first, others⟩ := List.forall_mem_cons.1 h
    rw [along_cons_of_not_stops first, ih others]

theorem along_of_stops {before after : List (Expr × ℕ)} {x : Expr × ℕ} (free : ∀ y ∈ before, stops y = false)
    (here : stops x = true) : along (before ++ x :: after) = ⟨before ++ [x], some (blocked x.1)⟩ := by
  rw [along_append, along_of_not_stops free, andThen_of_finished rfl, along_cons_of_stops here]

/-- the greatest depth met is that of a node that was met, or zero, and no node lies deeper -/
theorem deepest_cases (visited : List (Expr × ℕ)) (deepest : ℕ) :
    let result := visited.foldl (fun depth x => max depth x.2) deepest
    deepest ≤ result ∧ (∀ x ∈ visited, x.2 ≤ result) ∧ (result = deepest ∨ ∃ x ∈ visited, x.2 = result) := by
  induction visited generalizing deepest with
  | nil => simp
  | cons x xs ih =>
    obtain ⟨lower, upper, attained⟩ := ih (max deepest x.2)
    simp only [List.foldl_cons, List.forall_mem_cons, List.exists_mem_cons_iff]
    refine ⟨by omega, ⟨by omega, upper⟩, ?_⟩
    rcases attained with same | later
    · omega
    · exact .inr (.inr later)

end Walk

namespace Expr

theorem met_under (depth i : ℕ) (n : Node) : (n.under i).met depth = n.met (depth + 1) := by
  simp only [Node.met, Node.under, Node.depth, List.length_cons, Prod.mk.injEq, true_and]
  omega

/-- the nodes of an element are met one level deeper -/
theorem map_met_under (depth i : ℕ) (ns : List Node) :
    (ns.map (Node.under i)).map (Node.met depth) = ns.map (Node.met (depth + 1)) := by
  rw [List.map_map]
  exact List.map_congr_left fun n _ => met_under depth i n

theorem stops_list {depth : ℕ} (room : depth < maxDepth) (es : List Expr) : Walk.stops (list es, depth) = false := by
  simp [Walk.stops, isList, room.ne]

mutual

/-- **A walk through an expression is one along its nodes.** -/
theorem walkAt_eq_along : (e : Expr) → (depth : ℕ) → depth ≤ maxDepth →
    walkAt depth e = Walk.along (e.nodes.map (Node.met depth))
  | .atom _, _, _ => by
    rw [walkAt, nodes]
    rfl
  | .nil, _, _ => by
    rw [walkAt, nodes]
    rfl
  | .list es, depth, allowed => by
    have root : (⟨[], .list es⟩ : Node).met depth = (.list es, depth) := rfl
    rw [nodes, List.map_cons, root]
    rcases Nat.lt_or_ge depth maxDepth with room | deep
    · rw [walkAt_list_of_lt room, Walk.along_cons_of_not_stops (stops_list room es), walkList_eq_along es depth 0 room]
    · have last : depth = maxDepth := Nat.le_antisymm allowed deep
      rw [walkAt_list_of_le deep, Walk.along_cons_of_stops (by simp [Walk.stops, isList, last])]
      rfl

theorem walkList_eq_along : (es : List Expr) → (depth i : ℕ) → depth < maxDepth →
    walkList (depth + 1) es = Walk.along ((nodesList i es).map (Node.met depth))
  | [], _, _, _ => by
    rw [walkList, nodesList]
    rfl
  | e :: es, depth, i, room => by
    rw [walkList, nodesList, List.map_append, Walk.along_append, map_met_under, walkAt_eq_along e (depth + 1) room,
      walkList_eq_along es depth (i + 1) room]

end

/-! ## Nothing lies too deep -/

theorem mem_visited_andThen {w next : Walk} {x : Expr × ℕ} (h : x ∈ (w.andThen next).visited) :
    x ∈ w.visited ∨ x ∈ next.visited := by
  cases failed : w.failure? with
  | some f =>
    rw [Walk.andThen_of_failed failed] at h
    exact .inl h
  | none =>
    rw [Walk.andThen_of_finished failed] at h
    exact List.mem_append.1 h

mutual

/-- a walk from an allowed depth meets no node deeper than allowed -/
theorem depth_le_of_visited : (e : Expr) → (depth : ℕ) → depth ≤ maxDepth →
    ∀ x ∈ (walkAt depth e).visited, x.2 ≤ maxDepth
  | .atom _, _, allowed => by
    rw [walkAt]
    exact List.forall_mem_singleton.2 allowed
  | .nil, _, allowed => by
    rw [walkAt]
    exact List.forall_mem_singleton.2 allowed
  | .list es, depth, allowed => by
    rcases Nat.lt_or_ge depth maxDepth with room | deep
    · rw [walkAt_list_of_lt room]
      exact List.forall_mem_cons.2 ⟨allowed, depth_le_of_visitedList es (depth + 1) room⟩
    · rw [walkAt_list_of_le deep]
      exact List.forall_mem_singleton.2 allowed

theorem depth_le_of_visitedList : (es : List Expr) → (depth : ℕ) → depth ≤ maxDepth →
    ∀ x ∈ (walkList depth es).visited, x.2 ≤ maxDepth
  | [], _, _ => by
    rw [walkList]
    exact List.forall_mem_nil _
  | e :: es, depth, allowed => by
    rw [walkList]
    intro x met
    rcases mem_visited_andThen met with here | later
    · exact depth_le_of_visited e depth allowed x here
    · exact depth_le_of_visitedList es depth allowed x later

end

/-! ## Where a walk stops -/

/-- the node is a list at the greatest depth that is allowed, so that its elements would lie too deep -/
def Node.Blocks (n : Node) : Prop :=
  n.expr.isList = true ∧ n.depth = 255

instance (n : Node) : Decidable n.Blocks :=
  inferInstanceAs (Decidable (_ ∧ _))

theorem stops_met_iff {n : Node} : Walk.stops (n.met 0) = true ↔ n.Blocks := by
  simp [Walk.stops, Node.met, Node.Blocks, maxDepth]

theorem stops_met_eq_false_iff {n : Node} : Walk.stops (n.met 0) = false ↔ ¬n.Blocks := by
  rw [← stops_met_iff, Bool.not_eq_true]

theorem met_zero : Node.met 0 = fun n => (n.expr, n.depth) := by
  funext n
  rw [Node.met, Nat.zero_add]

theorem walk_eq_along (e : Expr) : e.walk = Walk.along (e.nodes.map (Node.met 0)) :=
  walkAt_eq_along e 0 (Nat.zero_le _)

/-- what comes of a walk that nothing stops: it meets every node, and what is asked of it is there -/
structure Completes (e : Expr) : Prop where
  visited : e.walk.visited = e.nodes.map fun n => (n.expr, n.depth)
  finished : e.walk.failure? = none
  /-- the depth is that of some node, and no node lies deeper -/
  depth : ∃ d, e.depth = .ok d ∧ (∃ n ∈ e.nodes, n.depth = d) ∧ ∀ n ∈ e.nodes, n.depth ≤ d
  outline : ∀ indent, e.outline indent = .ok (String.join (e.nodes.map fun n => outlineRow indent (n.expr, n.depth)))

/-- one location, the stretch from the first atom of an expression to the last, or none where there are no atoms -/
def Locates (trail : List Location) (e : Expr) : Prop :=
  (e.atoms = [] → trail = []) ∧
  ∀ first last, e.atoms.head? = some first → e.atoms.getLast? = some last →
    ∃ s, trail = [⟨s, .visit⟩] ∧ e.extent? = some s ∧ s.offset = first.offset ∧ s.stop = last.stop

/-- what comes of a walk that is stopped at a node, with others before it -/
structure StopsAt (e : Expr) (before : List Node) (n : Node) : Prop where
  /-- the walk meets the nodes before this one, then this one, and no more -/
  visited : e.walk.visited = (before ++ [n]).map fun m => (m.expr, m.depth)
  /-- nothing else than the failure is handed on -/
  failed : ∃ f, e.walk.failure? = some f ∧ f.reason? = some (.tooDeep 255) ∧ Locates f.trail n.expr ∧
    e.depth = .error f ∧ ∀ indent, e.outline indent = .error f

theorem depth_of_visited {e : Expr} (visited : e.walk.visited = e.nodes.map (Node.met 0))
    (finished : e.walk.failure? = none) :
    ∃ d, e.depth = .ok d ∧ (∃ n ∈ e.nodes, n.depth = d) ∧ ∀ n ∈ e.nodes, n.depth ≤ d := by
  obtain ⟨-, upper, attained⟩ := Walk.deepest_cases (e.nodes.map (Node.met 0)) 0
  rw [← visited] at upper attained
  refine ⟨e.walk.deepest, by rw [depth, Walk.complete, finished], ?_, fun n member => ?_⟩
  · rcases attained with root | ⟨x, met, same⟩
    · exact ⟨⟨[], e⟩, mem_nodes_root_iff.2 rfl, root.symm⟩
    · rw [visited] at met
      obtain ⟨n, member, rfl⟩ := List.mem_map.1 met
      exact ⟨n, member, (Nat.zero_add _).symm.trans same⟩
  · have met : n.met 0 ∈ e.walk.visited := by
      rw [visited]
      exact List.mem_map_of_mem member
    exact (Nat.zero_add _).symm.trans_le (upper _ met)

theorem completes_of_not_blocks {e : Expr} (free : ∀ n ∈ e.nodes, ¬n.Blocks) : e.Completes := by
  have whole : e.walk = ⟨e.nodes.map (Node.met 0), none⟩ := by
    rw [walk_eq_along]
    refine Walk.along_of_not_stops (List.forall_mem_map.2 fun n member => ?_)
    exact stops_met_eq_false_iff.2 (free n member)
  have visited : e.walk.visited = e.nodes.map (Node.met 0) := congrArg Walk.visited whole
  have finished : e.walk.failure? = none := congrArg Walk.failure? whole
  refine ⟨met_zero ▸ visited, finished, depth_of_visited visited finished, fun indent => ?_⟩
  rw [outline, Walk.complete, finished, visited, List.map_map, met_zero]
  rfl

theorem locates_blocked {e : Expr} (ascending : Token.Ascending e.atoms) : Locates (Walk.blocked e).trail e := by
  refine ⟨fun nothing => ?_, fun first last hf hl => ?_⟩
  · rw [Walk.blocked, (extent?_eq_none_iff e).2 nothing]
    rfl
  · have extent := extent?_eq_some_iff.2 ⟨first, last, hf, hl, rfl⟩
    obtain ⟨first', last', hf', hl', -, start, stop⟩ := ends_of_extent? ascending extent
    cases hf.symm.trans hf'
    cases hl.symm.trans hl'
    refine ⟨_, ?_, extent, start, stop⟩
    rw [Walk.blocked, extent]
    rfl

theorem walk_of_blocks {e : Expr} {before after : List Node} {n : Node} (nodes : e.nodes = before ++ n :: after)
    (free : ∀ m ∈ before, ¬m.Blocks) (blocks : n.Blocks) :
    e.walk = ⟨(before ++ [n]).map (Node.met 0), some (Walk.blocked n.expr)⟩ := by
  have free' : ∀ x ∈ before.map (Node.met 0), Walk.stops x = false :=
    List.forall_mem_map.2 fun m member => stops_met_eq_false_iff.2 (free m member)
  rw [walk_eq_along, nodes, List.map_append, List.map_cons, Walk.along_of_stops free' (stops_met_iff.2 blocks),
    List.map_append]
  rfl

theorem stopsAt_of_blocks {e : Expr} (ascending : Token.Ascending e.atoms) {before after : List Node} {n : Node}
    (nodes : e.nodes = before ++ n :: after) (free : ∀ m ∈ before, ¬m.Blocks) (blocks : n.Blocks) :
    StopsAt e before n := by
  have whole := walk_of_blocks nodes free blocks
  have failed : e.walk.failure? = some (Walk.blocked n.expr) := congrArg Walk.failure? whole
  have member : n ∈ e.nodes := by
    rw [nodes]
    exact List.mem_append_right _ List.mem_cons_self
  have inner : n.expr.atoms.Sublist e.atoms := (part_of_mem_nodes member).atoms_sublist
  refine ⟨met_zero ▸ congrArg Walk.visited whole, _, failed, Failure.reason?_tagOption _ _ _,
    locates_blocked (ascending.sublist inner), ?_, fun indent => ?_⟩
  · rw [depth, Walk.complete, failed]
  · rw [outline, Walk.complete, failed]

theorem exists_first_blocks {ns : List Node} (blocked : ∃ n ∈ ns, n.Blocks) :
    ∃ before n after, ns = before ++ n :: after ∧ (∀ m ∈ before, ¬m.Blocks) ∧ n.Blocks := by
  have found : (ns.find? fun n => decide n.Blocks).isSome = true := by
    simpa [List.find?_isSome] using blocked
  obtain ⟨n, first⟩ := Option.isSome_iff_exists.1 found
  obtain ⟨blocks, before, after, whole, free⟩ := List.find?_eq_some_iff_append.1 first
  exact ⟨before, n, after, whole, fun m member => by simpa using free m member, of_decide_eq_true blocks⟩

/-- nothing stops a walk through a tree that is not too deep -/
theorem completes_of_wellFormed {e : Expr} (h : WellFormed 0 e) : e.Completes := by
  apply completes_of_not_blocks
  by_contra blocked
  push Not at blocked
  obtain ⟨before, n, after, nodes, free, blocks⟩ := exists_first_blocks blocked
  have finished := failure?_walk h
  rw [walk_of_blocks nodes free blocks] at finished
  cases finished

/-- **A walk fails closed at a well-defined place.** The nodes of an expression are those that a path leads to, and
they are listed in the order of their paths, so each of them once and in front of what stands below it. Its atoms are
addressable, so that no stretch leaves the words. A walk meets no node that is deeper than 255. If there is no list at
this depth it meets all nodes with their depths, and depth and outline are there. Otherwise it meets the nodes up to the
first such list, which it is stopped at; walk, depth and outline fail alike, with the atoms of that list as the only
location, or with none where it has no atoms. -/
theorem walk_fails_closed (e : Expr) (addressable : Token.Addressable e.atoms) :
    e.Measured ∧ (∀ n : Node, n ∈ e.nodes ↔ e.get? n.path = some n.expr) ∧ e.nodes.Pairwise Node.Before ∧
    (∀ x ∈ e.walk.visited, x.2 ≤ 255) ∧
    ((∀ n ∈ e.nodes, ¬n.Blocks) → e.Completes) ∧
    ((∃ n ∈ e.nodes, n.Blocks) → ∃ before n after, e.nodes = before ++ n :: after ∧ (∀ m ∈ before, ¬m.Blocks) ∧
      n.Blocks ∧ StopsAt e before n) := by
  refine ⟨measured_of_addressable addressable, fun n => mem_nodes_iff, pairwise_nodes e,
    depth_le_of_visited e 0 (Nat.zero_le _), completes_of_not_blocks, fun blocked => ?_⟩
  obtain ⟨before, n, after, nodes, free, blocks⟩ := exists_first_blocks blocked
  exact ⟨before, n, after, nodes, free, blocks, stopsAt_of_blocks addressable.ascending nodes free blocks⟩

/-- a tree that is walked through, and one that is too deep in its first element, so that the second is not met -/
theorem walk_fails_closed_branch :
    let small : Expr := list [.nil, list [atom ⟨.identifier, 4, "neg"⟩, atom ⟨.constant, 8, "1"⟩]]
    let deep : Expr := list [(fun e => list [e])^[256] (atom ⟨.constant, 0, "1"⟩), atom ⟨.identifier, 3, "x"⟩]
    (Token.Addressable small.atoms ∧ (∀ n ∈ small.nodes, ¬n.Blocks) ∧ small.Completes) ∧
      Token.Addressable deep.atoms ∧ (∃ n ∈ deep.nodes, n.Blocks) ∧
      ∃ before n after, deep.nodes = before ++ n :: after ∧ n.Blocks ∧ StopsAt deep before n := by
  intro small deep
  have addressable : Token.Addressable small.atoms := ⟨by decide, by decide⟩
  have free : ∀ n ∈ small.nodes, ¬n.Blocks := by decide
  have addressable' : Token.Addressable deep.atoms := ⟨by decide +kernel, by decide +kernel⟩
  have blocked : ∃ n ∈ deep.nodes, n.Blocks := by
    refine ⟨⟨List.replicate 255 0, list [list [atom ⟨.constant, 0, "1"⟩]]⟩, mem_nodes_iff.2 ?_, rfl, ?_⟩
    · decide +kernel
    · exact List.length_replicate
  obtain ⟨-, -, -, -, completes, -⟩ := walk_fails_closed small addressable
  obtain ⟨-, -, -, -, -, stops⟩ := walk_fails_closed deep addressable'
  obtain ⟨before, n, after, nodes, -, blocks, result⟩ := stops blocked
  exact ⟨⟨addressable, free, completes free⟩, addressable', blocked, before, n, after, nodes, blocks, result⟩

end Expr

end ExactCalc
