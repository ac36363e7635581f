/-
Expressions as trees: which ones can be read, and which tokens they are made of.

`Expr.Proper`: no list is empty. `Expr.height`: the depth of the deepest node. `Expr.WellFormed`: what is asked of a
tree at some depth. `Expr.flatten`: the tree written out as a sequence of pieces, which are atoms and parentheses
without their places. `Expr.unplaced`: the tree with all its atoms at offset zero, so that two trees are the same up to
offsets if their `unplaced` forms are equal.

Results:
- `atoms_flatten`: the atoms of a tree are the atoms among its pieces, in order.
- `text_congr`, `WellFormed.congr`: offsets matter neither for the canonical text nor for being well-formed.
-/
import Mathlib.Tactic
import ExactCalc.Expr
import ExactCalc.Proofs.Lexical

namespace ExactCalc

namespace Expr

/-! ## Shape -/

mutual

/-- no list is empty -/
def Proper : Expr → Prop
  | .atom _ => True
  | .nil => True
  | .list es => es ≠ [] ∧ ProperList es

/-- no list in the sequence is empty -/
def ProperList : List Expr → Prop
  | [] => True
  | e :: es => Proper e ∧ ProperList es

end

mutual

/-- the depth of the deepest node -/
def height : Expr → ℕ
  | .atom _ => 0
  | .nil => 0
  | .list es => heightList es

/-- how deep the elements of a list reach below the list itself -/
def heightList : List Expr → ℕ
  | [] => 0
  | e :: es => max (height e + 1) (heightList es)

end

theorem proper_ofList {es : List Expr} (h : ProperList es) : (ofList es).Proper := by
  cases es with
  | nil => trivial
  | cons e es => exact ⟨List.cons_ne_nil e es, h⟩

theorem height_ofList (es : List Expr) : (ofList es).height = heightList es := by
  cases es with
  | nil => rfl
  | cons e es => rfl

theorem atoms_ofList (es : List Expr) : (ofList es).atoms = atomsList es := by
  cases es with
  | nil => rfl
  | cons e es => rfl

/-! ## Well-formed trees -/

/-- what is asked of a tree at this depth: no empty list, only spelled atoms, and nothing too deep -/
structure WellFormed (depth : ℕ) (e : Expr) : Prop where
  proper : e.Proper
  spelled : ∀ t ∈ e.atoms, t.isSpelled = true
  shallow : depth + e.height ≤ maxDepth

/-- what is asked of the elements of a list at this depth -/
structure WellFormedList (depth : ℕ) (es : List Expr) : Prop where
  proper : ProperList es
  spelled : ∀ t ∈ atomsList es, t.isSpelled = true
  shallow : depth + heightList es ≤ maxDepth

theorem WellFormed.height_le {e : Expr} (h : WellFormed 0 e) : e.height ≤ maxDepth := by
  have := h.shallow
  omega

theorem WellFormedList.ofList {depth : ℕ} {es : List Expr} (h : WellFormedList depth es) :
    WellFormed depth (ofList es) where
  proper := proper_ofList h.proper
  spelled := atoms_ofList es ▸ h.spelled
  shallow := height_ofList es ▸ h.shallow

theorem WellFormedList.nil {depth : ℕ} (h : depth ≤ maxDepth) : WellFormedList depth [] where
  proper := trivial
  spelled := nofun
  shallow := h

theorem WellFormedList.cons {depth : ℕ} {e : Expr} {es : List Expr} (first : WellFormed (depth + 1) e)
    (others : WellFormedList depth es) : WellFormedList depth (e :: es) where
  proper := ⟨first.proper, others.proper⟩
  spelled := by
    intro t ht
    rcases List.mem_append.1 ht with ht | ht
    · exact first.spelled t ht
    · exact others.spelled t ht
  shallow := by
    have := first.shallow
    have := others.shallow
    rw [heightList]
    omega

section
variable {depth : ℕ} {e : Expr} {es : List Expr}

theorem WellFormed.elements (h : WellFormed depth (list es)) : WellFormedList depth es where
  proper := h.proper.2
  spelled := h.spelled
  shallow := h.shallow

theorem WellFormedList.room (h : WellFormedList depth (e :: es)) : depth < maxDepth := by
  have := h.shallow
  rw [heightList] at this
  omega

theorem WellFormedList.first (h : WellFormedList depth (e :: es)) : WellFormed (depth + 1) e where
  proper := h.proper.1
  spelled := fun t ht => h.spelled t (List.mem_append_left _ ht)
  shallow := by
    have := h.shallow
    rw [heightList] at this
    omega

theorem WellFormedList.others (h : WellFormedList depth (e :: es)) : WellFormedList depth es where
  proper := h.proper.2
  spelled := fun t ht => h.spelled t (List.mem_append_right _ ht)
  shallow := by
    have := h.shallow
    rw [heightList] at this
    omega

end

end Expr

/-! ## Pieces -/

/-- an atom, or a parenthesis wherever it stands -/
inductive Piece where
  | atom (token : Token)
  | opening
  | closing
  deriving DecidableEq, Repr

/-- a token as a piece -/
def Token.piece (t : Token) : Piece :=
  match t.kind with
  | .openParen => .opening
  | .closeParen => .closing
  | _ => .atom t

/-- the token of a piece that is an atom -/
def Piece.atom? : Piece → Option Token
  | .atom t => some t
  | .opening => none
  | .closing => none

theorem Token.piece_of_isAtomic {t : Token} (h : t.isAtomic = true) : t.piece = .atom t := by
  rw [Token.isAtomic] at h
  cases hk : t.kind <;> simp_all [Token.Kind.isAtomic, Token.piece]

theorem Token.piece_of_invalid {t : Token} (h : t.kind = .invalid) : t.piece = .atom t := by
  rw [Token.piece, h]

theorem Token.piece_eq_opening_iff {t : Token} : t.piece = .opening ↔ t.kind = .openParen := by
  cases hk : t.kind <;> simp [Token.piece, hk]

theorem Token.piece_eq_closing_iff {t : Token} : t.piece = .closing ↔ t.kind = .closeParen := by
  cases hk : t.kind <;> simp [Token.piece, hk]

theorem Token.eq_of_piece_eq_atom {t u : Token} (h : t.piece = .atom u) : t = u := by
  cases hk : t.kind <;> simp_all [Token.piece]

namespace Expr

mutual

/-- the pieces of a tree from left to right -/
def flatten : Expr → List Piece
  | .atom t => [.atom t]
  | .nil => [.opening, .closing]
  | .list es => .opening :: (flattenList es ++ [.closing])

/-- the pieces of a sequence from left to right -/
def flattenList : List Expr → List Piece
  | [] => []
  | e :: es => flatten e ++ flattenList es

end

theorem flatten_ofList (es : List Expr) : (ofList es).flatten = .opening :: (flattenList es ++ [.closing]) := by
  cases es with
  | nil => rfl
  | cons e es => rfl

mutual

/-- the atoms of a tree are the atoms among its pieces -/
theorem atoms_flatten : (e : Expr) → e.flatten.filterMap Piece.atom? = e.atoms
  | .atom _ => rfl
  | .nil => rfl
  | .list es => by
    rw [flatten, List.filterMap_cons_none rfl, List.filterMap_append, atomsList_flattenList es, atoms]
    exact List.append_nil _

theorem atomsList_flattenList : (es : List Expr) → (flattenList es).filterMap Piece.atom? = atomsList es
  | [] => rfl
  | e :: es => by
    rw [flattenList, List.filterMap_append, atoms_flatten e, atomsList_flattenList es, atomsList]

end

theorem mem_atoms_iff {e : Expr} {t : Token} : t ∈ e.atoms ↔ Piece.atom t ∈ e.flatten := by
  rw [← atoms_flatten, List.mem_filterMap]
  constructor
  · rintro ⟨p, hp, ht⟩
    cases p with
    | atom u =>
      cases ht
      exact hp
    | _ => cases ht
  · exact fun h => ⟨_, h, rfl⟩

/-! ## Trees with other tokens -/

mutual

/-- the tree of the same shape with its atoms changed one by one -/
def mapTokens (f : Token → Token) : Expr → Expr
  | .atom t => .atom (f t)
  | .nil => .nil
  | .list es => .list (mapTokensList f es)

/-- the sequence of the same shapes with its atoms changed one by one -/
def mapTokensList (f : Token → Token) : List Expr → List Expr
  | [] => []
  | e :: es => mapTokens f e :: mapTokensList f es

end

section
variable {f : Token → Token}

theorem mapTokensList_eq_nil_iff {es : List Expr} : mapTokensList f es = [] ↔ es = [] := by
  cases es with
  | nil => simp [mapTokensList]
  | cons e es => simp [mapTokensList]

theorem mapTokens_ofList (f : Token → Token) (es : List Expr) :
    (ofList es).mapTokens f = ofList (mapTokensList f es) := by
  cases es with
  | nil => rfl
  | cons e es => rfl

mutual

theorem proper_mapTokens : (e : Expr) → ((e.mapTokens f).Proper ↔ e.Proper)
  | .atom _ => Iff.rfl
  | .nil => Iff.rfl
  | .list es => and_congr (not_congr mapTokensList_eq_nil_iff) (properList_mapTokensList es)

theorem properList_mapTokensList : (es : List Expr) → (ProperList (mapTokensList f es) ↔ ProperList es)
  | [] => Iff.rfl
  | e :: es => and_congr (proper_mapTokens e) (properList_mapTokensList es)

end

mutual

theorem height_mapTokens : (e : Expr) → (e.mapTokens f).height = e.height
  | .atom _ => rfl
  | .nil => rfl
  | .list es => heightList_mapTokensList es

theorem heightList_mapTokensList : (es : List Expr) → heightList (mapTokensList f es) = heightList es
  | [] => rfl
  | e :: es => by rw [mapTokensList, heightList, heightList, height_mapTokens e, heightList_mapTokensList es]

end

mutual

theorem atoms_mapTokens : (e : Expr) → (e.mapTokens f).atoms = e.atoms.map f
  | .atom _ => rfl
  | .nil => rfl
  | .list es => atomsList_mapTokensList es

theorem atomsList_mapTokensList : (es : List Expr) → atomsList (mapTokensList f es) = (atomsList es).map f
  | [] => rfl
  | e :: es => by
    rw [mapTokensList, atomsList, atomsList, List.map_append, atoms_mapTokens e, atomsList_mapTokensList es]

end

mutual

/-- the canonical text shows the texts of the atoms and nothing else of them -/
theorem text_mapTokens (same : ∀ t, (f t).text = t.text) : (e : Expr) → (e.mapTokens f).text = e.text
  | .atom t => by rw [mapTokens, text_atom, text_atom, same]
  | .nil => rfl
  | .list es => by rw [mapTokens, text_list, text_list, textList_mapTokensList same es]

theorem textList_mapTokensList (same : ∀ t, (f t).text = t.text) :
    (es : List Expr) → textList (mapTokensList f es) = textList es
  | [] => rfl
  | [e] => by
    rw [mapTokensList, mapTokensList, textList_singleton, textList_singleton, text_mapTokens same e]
  | e :: e' :: es => by
    have others := textList_mapTokensList same (e' :: es)
    rw [mapTokensList] at others
    rw [mapTokensList, mapTokensList, textList_cons_cons, textList_cons_cons, text_mapTokens same e, others]

end

end

/-- the tree with all its atoms at offset zero; two trees with one such form differ in offsets at most -/
def unplaced (e : Expr) : Expr :=
  e.mapTokens fun t => { t with offset := 0 }

/-- the elements with all their atoms at offset zero -/
def unplacedList (es : List Expr) : List Expr :=
  mapTokensList (fun t => { t with offset := 0 }) es

theorem text_unplaced (e : Expr) : e.unplaced.text = e.text := by
  rw [unplaced, text_mapTokens]
  exact fun _ => rfl

theorem isSpelled_unplaced {e : Expr} :
    (∀ t ∈ e.unplaced.atoms, t.isSpelled = true) ↔ ∀ t ∈ e.atoms, t.isSpelled = true := by
  rw [unplaced, atoms_mapTokens, List.forall_mem_map]
  exact Iff.rfl

theorem text_congr {e e' : Expr} (h : e.unplaced = e'.unplaced) : e.text = e'.text := by
  rw [← text_unplaced, h, text_unplaced]

section
variable {e e' : Expr} (h : e.unplaced = e'.unplaced)
include h

theorem proper_congr : e.Proper ↔ e'.Proper := by
  have shape : e.unplaced.Proper ↔ e.Proper := proper_mapTokens e
  rw [← shape, h]
  exact proper_mapTokens e'

theorem isSpelled_congr : (∀ t ∈ e.atoms, t.isSpelled = true) ↔ ∀ t ∈ e'.atoms, t.isSpelled = true := by
  rw [← isSpelled_unplaced, h, isSpelled_unplaced]

theorem height_congr : e.height = e'.height := by
  have shape : e.unplaced.height = e.height := height_mapTokens e
  rw [← shape, h]
  exact height_mapTokens e'

/-- whether a tree is well-formed does not depend on offsets -/
theorem WellFormed.congr {depth : ℕ} (wellFormed : WellFormed depth e) : WellFormed depth e' where
  proper := (proper_congr h).1 wellFormed.proper
  spelled := (isSpelled_congr h).1 wellFormed.spelled
  shallow := height_congr h ▸ wellFormed.shallow

end

end Expr

end ExactCalc
