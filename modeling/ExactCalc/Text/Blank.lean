/-
Blank characters and trimming.

`isBlank` is the Unicode property White_Space: twenty-five code points in ten ranges. A blank separates tokens and is
never part of one that carries meaning; `trim` removes the blanks at both ends of a text.

`trim_eq_self`: a text that neither starts nor ends with a blank is left as it is.
-/

namespace ExactCalc.Text

/-! ## The property -/

/-- the code points with the property White_Space, as closed ranges in ascending order -/
def blankRanges : List (Nat × Nat) :=
  [(0x0009, 0x000D), (0x0020, 0x0020), (0x0085, 0x0085), (0x00A0, 0x00A0), (0x1680, 0x1680),
    (0x2000, 0x200A), (0x2028, 0x2029), (0x202F, 0x202F), (0x205F, 0x205F), (0x3000, 0x3000)]

/-- a character is blank if its code point lies in one of the ranges -/
def isBlank (c : Char) : Bool :=
  blankRanges.any fun (first, last) => first ≤ c.toNat && c.toNat ≤ last

example : (blankRanges.map fun (first, last) => last + 1 - first).sum = 25 := by decide

/-! ## Trimming -/

/-- the text without the blanks at its two ends -/
def trim (cs : List Char) : List Char :=
  ((cs.dropWhile isBlank).reverse.dropWhile isBlank).reverse

/-- the string without the blanks at its two ends -/
def trimmed (s : String) : String :=
  String.ofList (trim s.toList)

theorem dropWhile_isBlank_eq_self {cs : List Char} (h : ∀ c, cs.head? = some c → isBlank c = false) :
    cs.dropWhile isBlank = cs := by
  cases cs with
  | nil => rfl
  | cons c cs => simp [h c rfl]

theorem trim_eq_self {cs : List Char} (first : ∀ c, cs.head? = some c → isBlank c = false)
    (last : ∀ c, cs.getLast? = some c → isBlank c = false) : trim cs = cs := by
  unfold trim
  rw [dropWhile_isBlank_eq_self first, dropWhile_isBlank_eq_self (by simpa using last), List.reverse_reverse]

end ExactCalc.Text
