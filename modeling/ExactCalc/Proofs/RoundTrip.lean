/-
Canonical texts are read back.

The canonical text of a tree puts one blank between elements and none elsewhere. Behind every atom in it stands a blank,
a parenthesis or the end, so every atom is taken off whole again, whatever stood next to it in the line that the tree
was read from. `Expr.placed` is the tree with its atoms where the canonical text has them.

Results:
- `solid_text`: the solid tokens of a canonical text are the pieces of the tree, whatever follows behind a delimiter.
- `parse_text`: the canonical text of a well-formed tree is read as that tree.
- `text_roundTrip`: **canonical printing round-trips**, for trees and for the trees of lines.
-/
import ExactCalc.Proofs.Grammar

namespace ExactCalc.Expr

/-! ## Places in the canonical text -/

mutual

/-- the tree with its atoms where the canonical text has them, when that starts at this offset -/
def placed (offset : ℕ) : Expr → Expr
  | .atom t => .atom { t with offset := offset }
  | .nil => .nil
  | .list es => .list (placedList (offset + 1) es)

/-- the elements with their atoms where the canonical text has them -/
def placedList (offset : ℕ) : List Expr → List Expr
  | [] => []
  | e :: es => placed offset e :: placedList (offset + Text.width e.text.toList + 1) es

end

mutual

theorem unplaced_placed (offset : ℕ) : (e : Expr) → (e.placed offset).unplaced = e.unplaced
  | .atom _ => rfl
  | .nil => rfl
  | .list es => congrArg list (unplacedList_placedList (offset + 1) es)

theorem unplacedList_placedList (offset : ℕ) : (es : List Expr) →
    mapTokensList (fun t => { t with offset := 0 }) (placedList offset es) =
      mapTokensList (fun t => { t with offset := 0 }) es
  | [] => rfl
  | e :: es => congrArg₂ List.cons (unplaced_placed offset e) (unplacedList_placedList _ es)

end

/-! ## The tokens of a canonical text -/

theorem solid_openParen (offset : ℕ) (cs : List Char) : (⟨offset, '(' :: cs⟩ : Cursor).solid.map Token.piece =
    .opening :: (⟨offset + 1, cs⟩ : Cursor).solid.map Token.piece := by
  rw [Cursor.solid_of_first (Lexeme.first_openParen cs) (by decide) (by decide)]
  rfl

theorem solid_closeParen (offset : ℕ) (cs : List Char) : (⟨offset, ')' :: cs⟩ : Cursor).solid.map Token.piece =
    .closing :: (⟨offset + 1, cs⟩ : Cursor).solid.map Token.piece := by
  rw [Cursor.solid_of_first (Lexeme.first_closeParen cs) (by decide) (by decide)]
  rfl

theorem solid_space (offset : ℕ) (cs : List Char) : (⟨offset, ' ' :: cs⟩ : Cursor).solid.map Token.piece =
    (⟨offset + 1, cs⟩ : Cursor).solid.map Token.piece := by
  rw [Cursor.solid_blank (by decide)]
  rfl

mutual

/-- the canonical text of a tree shows its pieces, and what follows it shows what it shows anyway -/
theorem solid_text : (e : Expr) → (offset : ℕ) → (rest : List Char) → (∀ t ∈ e.atoms, t.isSpelled = true) →
    Lexeme.delimits rest = true →
      (⟨offset, e.text.toList ++ rest⟩ : Cursor).solid.map Token.piece =
        (e.placed offset).flatten ++
          (⟨offset + Text.width e.text.toList, rest⟩ : Cursor).solid.map Token.piece
  | .atom t, offset, rest, spelled, delimited => by
    have spelled : t.isSpelled = true := spelled t List.mem_cons_self
    have atomic := Token.isAtomic_of_isSpelled spelled
    have ended : t.kind ≠ .endOfInput := kind_ne_endOfInput_of_isAtomic atomic
    have blank : t.kind ≠ .whitespace := by
      rcases kind_of_isAtomic atomic with h | h | h <;> simp [h]
    have piece : Token.piece ⟨t.kind, offset, t.text⟩ = .atom ⟨t.kind, offset, t.text⟩ :=
      Token.piece_of_isAtomic atomic
    rw [text_atom, Cursor.solid_of_first (Lexeme.first_spelled spelled delimited) ended blank, List.map_cons,
      String.ofList_toList, piece]
    rfl
  | .nil, offset, rest, _, _ => by
    rw [text_nil]
    show (⟨offset, '(' :: ')' :: rest⟩ : Cursor).solid.map Token.piece = _
    rw [solid_openParen, solid_closeParen]
    rfl
  | .list es, offset, rest, spelled, _ => by
    have whole : (list es).text.toList ++ rest = '(' :: ((textList es).toList ++ ')' :: rest) := by
      rw [text_list, String.toList_append, String.toList_append]
      simp
    have width : Text.width (list es).text.toList = 1 + Text.width (textList es).toList + 1 := by
      rw [text_list, String.toList_append, String.toList_append, Text.width_append, Text.width_append]
      rfl
    rw [whole, solid_openParen, solid_textList es (offset + 1) (')' :: rest) spelled rfl, solid_closeParen, placed,
      flatten, width, List.cons_append, List.append_assoc, List.singleton_append]
    simp only [Nat.add_assoc]

theorem solid_textList : (es : List Expr) → (offset : ℕ) → (rest : List Char) →
    (∀ t ∈ atomsList es, t.isSpelled = true) → Lexeme.delimits rest = true →
      (⟨offset, (textList es).toList ++ rest⟩ : Cursor).solid.map Token.piece =
        flattenList (placedList offset es) ++
          (⟨offset + Text.width (textList es).toList, rest⟩ : Cursor).solid.map Token.piece
  | [], offset, rest, _, _ => by
    rw [textList_nil]
    rfl
  | [e], offset, rest, spelled, delimited => by
    have here : ∀ t ∈ e.atoms, t.isSpelled = true := fun t ht => spelled t (List.mem_append_left _ ht)
    rw [textList_singleton, solid_text e offset rest here delimited, placedList, placedList, flattenList, flattenList,
      List.append_nil]
  | e :: e' :: es, offset, rest, spelled, delimited => by
    have here : ∀ t ∈ e.atoms, t.isSpelled = true := fun t ht => spelled t (List.mem_append_left _ ht)
    have others : ∀ t ∈ atomsList (e' :: es), t.isSpelled = true := fun t ht =>
      spelled t (List.mem_append_right _ ht)
    have whole : (textList (e :: e' :: es)).toList ++ rest =
        e.text.toList ++ ' ' :: ((textList (e' :: es)).toList ++ rest) := by
      rw [textList_cons_cons, String.toList_append, String.toList_append]
      simp
    have width : Text.width (textList (e :: e' :: es)).toList =
        Text.width e.text.toList + 1 + Text.width (textList (e' :: es)).toList := by
      rw [textList_cons_cons, String.toList_append, String.toList_append, Text.width_append, Text.width_append]
      rfl
    have split : placedList offset (e :: e' :: es) =
        e.placed offset :: placedList (offset + Text.width e.text.toList + 1) (e' :: es) := rfl
    rw [whole, solid_text e offset _ here rfl, solid_space, solid_textList (e' :: es) _ rest others delimited, split,
      flattenList, width, List.append_assoc]
    simp only [Nat.add_assoc]

end

/-! ## Reading canonical texts -/

/-- a line that is a canonical text consists of the pieces of the tree -/
theorem solid_start_text {e : Expr} (spelled : ∀ t ∈ e.atoms, t.isSpelled = true) :
    (Cursor.start e.text).solid.map Token.piece = (e.placed 0).flatten := by
  have solid := solid_text e 0 [] spelled rfl
  rwa [List.append_nil, Cursor.solid_of_nil, List.map_nil, List.append_nil] at solid

/-- the canonical text of a well-formed tree is read as that tree, with the atoms where the text has them -/
theorem parse_text {e : Expr} (h : WellFormed 0 e) : (parse e.text).map Located.value = .ok (e.placed 0) := by
  have placed : WellFormed 0 (e.placed 0) := h.congr (unplaced_placed 0 e).symm
  have atomic : ∀ t ∈ (e.placed 0).atoms, t.isAtomic = true := fun t ht =>
    Token.isAtomic_of_isSpelled (placed.spelled t ht)
  exact parse_of_flatten placed.proper atomic placed.height_le (solid_start_text h.spelled)

/-- what a well-formed tree and the tree read from its canonical text have in common -/
theorem roundTrip_of_wellFormed {e : Expr} (h : WellFormed 0 e) :
    ∃ e', (parse e.text).map Located.value = .ok e' ∧ e'.unplaced = e.unplaced ∧ e'.text = e.text :=
  ⟨e.placed 0, parse_text h, unplaced_placed 0 e, text_congr (unplaced_placed 0 e)⟩

/-- **Canonical printing round-trips.** The canonical text of a tree without empty lists, with spelled atoms and with
no node deeper than 255 is read as the same tree up to offsets, and that tree has the same canonical text. So it is
with the tree of every line that is read, whatever stood between its tokens. -/
theorem text_roundTrip :
    (∀ e : Expr, e.Proper → (∀ t ∈ e.atoms, t.isSpelled = true) → e.height ≤ 255 →
      ∃ e', (parse e.text).map Located.value = .ok e' ∧ e'.unplaced = e.unplaced ∧ e'.text = e.text) ∧
    ∀ (line : String) (e : Expr), (parse line).map Located.value = .ok e →
      ∃ e', (parse e.text).map Located.value = .ok e' ∧ e'.unplaced = e.unplaced ∧ e'.text = e.text := by
  constructor
  · intro e proper spelled shallow
    exact roundTrip_of_wellFormed ⟨proper, spelled, by rwa [Nat.zero_add]⟩
  · intro line e h
    exact roundTrip_of_wellFormed (flatten_of_parse h).2

/-- a tree whose offsets fit no line, and the tree of a line in which tokens are glued together -/
theorem text_roundTrip_glued :
    let e := list [atom ⟨.operator, 9, "+"⟩, atom ⟨.constant, 0, "-1"⟩, nil, list [atom ⟨.identifier, 4, "a-'"⟩]]
    let glued := list [atom ⟨.operator, 1, "*"⟩, list [atom ⟨.identifier, 3, "max"⟩], nil, atom ⟨.operator, 9, "-"⟩]
    (e.Proper ∧ (∀ t ∈ e.atoms, t.isSpelled = true) ∧ e.height ≤ 255 ∧
      ∃ e', (parse e.text).map Located.value = .ok e' ∧ e'.unplaced = e.unplaced ∧ e'.text = e.text) ∧
    (parse "(*(max)()-)").map Located.value = .ok glued ∧
      ∃ e', (parse glued.text).map Located.value = .ok e' ∧ e'.unplaced = glued.unplaced ∧ e'.text = glued.text := by
  intro e glued
  have proper : e.Proper := by simp [e, Proper, ProperList]
  have spelled : ∀ t ∈ e.atoms, t.isSpelled = true := by decide +kernel
  have shallow : e.height ≤ 255 := by decide
  have read : (parse "(*(max)()-)").map Located.value = .ok glued := by decide +kernel
  exact ⟨⟨proper, spelled, shallow, text_roundTrip.1 e proper spelled shallow⟩, read, text_roundTrip.2 _ glued read⟩

end ExactCalc.Expr
