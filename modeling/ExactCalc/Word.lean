/-
Machine words.

Positions and lengths are kept in words of 64 bits, and a sum or a difference of words may be none. What happens then
was settled when the program was built: it stops there, or the result wraps around. `Word.sum?` and `Word.difference?`
are what comes of it, and nothing where the program stops.

`sum?_of_lt`, `difference?_of_le`: a result that is a word is exact, however the program was built.
`sum?_eq_none_iff`, `difference?_eq_none_iff`: a program that wraps around never stops. `sum?_wraps_of_le`,
`difference?_wraps_of_lt`: it is off by the number of words.
-/

namespace ExactCalc

/-- what happens where a result is no word -/
inductive Overflow where
  | stops
  | wraps
  deriving DecidableEq, Repr

/-- what comes of a result that is no word and would wrap around to this -/
def Overflow.result? (overflow : Overflow) (wrapped : Nat) : Option Nat :=
  match overflow with
  | .stops => none
  | .wraps => some wrapped

/-- what can only be stopped is there in a program that wraps around -/
theorem Overflow.exists_of_wraps {α : Type} {x : Option α} {p : Prop}
    (h : x = none ↔ wraps = stops ∧ p) : ∃ a, x = some a :=
  Option.ne_none_iff_exists'.1 fun none => nomatch (h.1 none).1

namespace Word

/-- the number of words -/
def count : Nat :=
  Nat.pow 2 64

/-- the sum of two words -/
def sum? (overflow : Overflow) (a b : Nat) : Option Nat :=
  if a + b < count then some (a + b) else overflow.result? ((a + b) % count)

/-- the difference of two words -/
def difference? (overflow : Overflow) (a b : Nat) : Option Nat :=
  if b ≤ a then some (a - b) else overflow.result? (count - (b - a))

example : sum? .wraps 3 18446744073709551615 = some 2 := by decide

theorem sum?_of_lt {a b : Nat} (h : a + b < count) (overflow : Overflow) : sum? overflow a b = some (a + b) :=
  if_pos h

theorem difference?_of_le {a b : Nat} (h : b ≤ a) (overflow : Overflow) : difference? overflow a b = some (a - b) :=
  if_pos h

theorem sum?_eq_none_iff {overflow : Overflow} {a b : Nat} :
    sum? overflow a b = none ↔ overflow = .stops ∧ count ≤ a + b := by
  unfold sum?
  split
  case isTrue word => simp [Nat.not_le.2 word]
  case isFalse past => cases overflow <;> simp [Overflow.result?, Nat.le_of_not_lt past]

theorem difference?_eq_none_iff {overflow : Overflow} {a b : Nat} :
    difference? overflow a b = none ↔ overflow = .stops ∧ a < b := by
  unfold difference?
  split
  case isTrue word => simp [Nat.not_lt.2 word]
  case isFalse past => cases overflow <;> simp [Overflow.result?, Nat.lt_of_not_le past]

theorem sum?_wraps_of_le {a b : Nat} (first : a < count) (second : b < count) (past : count ≤ a + b) :
    sum? .wraps a b = some (a + b - count) := by
  have below : a + b - count < count := by omega
  rw [sum?, if_neg (Nat.not_lt.2 past), Overflow.result?, Nat.mod_eq_sub_mod past, Nat.mod_eq_of_lt below]

theorem difference?_wraps_of_lt {a b : Nat} (h : a < b) : difference? .wraps a b = some (count - (b - a)) := by
  rw [difference?, if_neg (Nat.not_le.2 h), Overflow.result?]

end Word

end ExactCalc
