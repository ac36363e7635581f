/-
Expressions.

An expression is an atom, a list of expressions, or nil, the list of nothing. `ofList` builds lists, and a list of
nothing becomes nil. Depth is counted from the root and may not exceed `maxDepth`.

`text` is the canonical form: single blanks between elements and no others. `extent?` is the stretch from the first to
the last atom, so an expression without atoms has none. Both take time in proportion to the expression, also where it
is nested deeper than may be read. `measure?` is what comes of the stretch in words, where an expression that was not
read from a line may have atoms anywhere.

`text_list`, `textList_cons_cons`: the text of a list is put together from those of its elements. `firstAtom?_eq`,
`lastAtom?_eq`: the atoms at the two ends are the ends of the list of atoms.
-/
import ExactCalc.Failure

namespace ExactCalc

/-- an expression; lists that are read or built by `ofList` are not empty -/
inductive Expr where
  | atom (token : Token)
  | list (elements : List Expr)
  | nil
  deriving Repr

namespace Expr

/-- the list of these elements -/
def ofList : List Expr → Expr
  | [] => nil
  | es => list es

/-! ## Equality -/

mutual

/-- whether two expressions are the same -/
def decEq : (a b : Expr) → Decidable (a = b)
  | .atom s, .atom t =>
    if h : s = t then .isTrue (congrArg atom h) else .isFalse fun e => h (atom.inj e)
  | .list xs, .list ys =>
    match decEqList xs ys with
    | .isTrue h => .isTrue (congrArg list h)
    | .isFalse h => .isFalse fun e => h (list.inj e)
  | .nil, .nil => .isTrue rfl
  | .atom _, .list _ | .atom _, .nil | .list _, .atom _ | .list _, .nil | .nil, .atom _ | .nil, .list _ =>
    .isFalse nofun

/-- whether two sequences of expressions are the same -/
def decEqList : (xs ys : List Expr) → Decidable (xs = ys)
  | [], [] => .isTrue rfl
  | [], _ :: _ | _ :: _, [] => .isFalse nofun
  | x :: xs, y :: ys =>
    match decEq x y with
    | .isFalse h => .isFalse fun e => h (List.cons.inj e).1
    | .isTrue hx =>
      match decEqList xs ys with
      | .isFalse h => .isFalse fun e => h (List.cons.inj e).2
      | .isTrue hs => .isTrue (by rw [hx, hs])

end

instance : DecidableEq Expr := decEq

/-! ## Text -/

mutual

/-- the canonical text, written behind what is written already -/
def write (out : String) : Expr → String
  | .atom t => out ++ t.text
  | .list es => writeList (out ++ "(") es ++ ")"
  | .nil => out ++ "()"

/-- the texts of the elements with blanks between them, written behind what is written already -/
def writeList (out : String) : List Expr → String
  | [] => out
  | [e] => write out e
  | e :: es => writeList (write out e ++ " ") es

end

/-- the canonical text -/
def text (e : Expr) : String :=
  write "" e

/-- the texts of the elements with blanks between them -/
def textList (es : List Expr) : String :=
  writeList "" es

mutual

theorem write_eq (out : String) : (e : Expr) → write out e = out ++ text e
  | .atom t => by simp [text, write]
  | .nil => by simp [text, write]
  | .list es => by
    simp only [text, write]
    rw [writeList_eq (out ++ "(") es, writeList_eq ("" ++ "(") es]
    simp [String.append_assoc]

theorem writeList_eq (out : String) : (es : List Expr) → writeList out es = out ++ textList es
  | [] => by simp [textList, writeList]
  | [e] => by
    simp only [textList, writeList]
    rw [write_eq out e, write_eq "" e]
    simp
  | e :: e' :: es => by
    simp only [textList, writeList]
    rw [writeList_eq (write out e ++ " ") (e' :: es), writeList_eq (write "" e ++ " ") (e' :: es), write_eq out e,
      write_eq "" e]
    simp [String.append_assoc]

end

@[simp] theorem text_atom (t : Token) : (atom t).text = t.text := by
  simp [text, write]

@[simp] theorem text_nil : nil.text = "()" := by
  simp [text, write]

@[simp] theorem text_list (es : List Expr) : (list es).text = "(" ++ textList es ++ ")" := by
  simp [text, write, writeList_eq]

@[simp] theorem textList_nil : textList [] = "" := by
  simp [textList, writeList]

@[simp] theorem textList_singleton (e : Expr) : textList [e] = e.text := by
  simp [textList, writeList, text]

@[simp] theorem textList_cons_cons (e e' : Expr) (es : List Expr) :
    textList (e :: e' :: es) = e.text ++ " " ++ textList (e' :: es) := by
  rw [textList, writeList, writeList_eq, write_eq]
  · simp
  · simp

/-- the expression without its elements, in words -/
def describe : Expr → String
  | .atom t => "atom " ++ t.kind.label ++ " " ++ t.text
  | .list _ => "list"
  | .nil => "nil"

/-! ## Atoms -/

mutual

/-- the atoms from left to right -/
def atoms : Expr → List Token
  | .atom t => [t]
  | .list es => atomsList es
  | .nil => []

/-- the atoms of a sequence -/
def atomsList : List Expr → List Token
  | [] => []
  | e :: es => atoms e ++ atomsList es

end

mutual

/-- the first atom -/
def firstAtom? : Expr → Option Token
  | .atom t => some t
  | .list es => firstAtomList? es
  | .nil => none

/-- the first atom of a sequence -/
def firstAtomList? : List Expr → Option Token
  | [] => none
  | e :: es => (firstAtom? e).orElse fun _ => firstAtomList? es

end

mutual

/-- the last atom -/
def lastAtom? : Expr → Option Token
  | .atom t => some t
  | .list es => lastAtomList? es
  | .nil => none

/-- the last atom of a sequence -/
def lastAtomList? : List Expr → Option Token
  | [] => none
  | e :: es => (lastAtomList? es).orElse fun _ => lastAtom? e

end

/-- the stretch from the first to the last atom -/
def extent? (e : Expr) : Option Span :=
  match e.firstAtom?, e.lastAtom? with
  | some first, some last => some (Span.cover first.span last.span)
  | _, _ => none

/-- the stretch from the first to the last atom, in words -/
def measure? (overflow : Overflow) (e : Expr) : Option (Option Span) :=
  match e.firstAtom?, e.lastAtom? with
  | some first, some last => (Span.cover? overflow first.span last.span).map some
  | _, _ => some none

mutual

theorem firstAtom?_eq : (e : Expr) → e.firstAtom? = e.atoms.head?
  | .atom _ => rfl
  | .list es => firstAtomList?_eq es
  | .nil => rfl

theorem firstAtomList?_eq : (es : List Expr) → firstAtomList? es = (atomsList es).head?
  | [] => rfl
  | e :: es => by
    rw [firstAtomList?, atomsList, List.head?_append, firstAtom?_eq e, firstAtomList?_eq es]
    cases (atoms e).head? <;> rfl

end

mutual

theorem lastAtom?_eq : (e : Expr) → e.lastAtom? = e.atoms.getLast?
  | .atom _ => rfl
  | .list es => lastAtomList?_eq es
  | .nil => rfl

theorem lastAtomList?_eq : (es : List Expr) → lastAtomList? es = (atomsList es).getLast?
  | [] => rfl
  | e :: es => by
    rw [lastAtomList?, atomsList, List.getLast?_append, lastAtom?_eq e, lastAtomList?_eq es]
    cases (atomsList es).getLast? <;> rfl

end

@[simp] theorem extent?_atom (t : Token) : (atom t).extent? = some t.span := by
  simp [extent?, firstAtom?, lastAtom?]

@[simp] theorem extent?_nil : nil.extent? = none := rfl

theorem extent?_eq_none_iff (e : Expr) : e.extent? = none ↔ e.atoms = [] := by
  rw [extent?, firstAtom?_eq, lastAtom?_eq]
  cases h : e.atoms with
  | nil => simp
  | cons t ts => simp [List.getLast?_cons]

/-! ## Depth -/

/-- the greatest depth of a node; the root is at depth zero -/
def maxDepth : Nat := 255

/-- the depth of the elements of a list at this depth -/
def deeper (depth : Nat) : Except Reason Nat :=
  if depth < maxDepth then .ok (depth + 1) else .error (.tooDeep maxDepth)

theorem deeper_of_lt {depth : Nat} (h : depth < maxDepth) : deeper depth = .ok (depth + 1) :=
  if_pos h

theorem deeper_of_le {depth : Nat} (h : maxDepth ≤ depth) : deeper depth = .error (.tooDeep maxDepth) :=
  if_neg (Nat.not_lt.2 h)

end Expr

end ExactCalc
