/-
Sizes and positions of a text in bytes of UTF-8.

Positions in a line count bytes, columns count characters. `width` is the byte size of a text and `charIndex?` turns a
byte position into a character position, where the byte position lies between two characters. `charsBetween` counts the
characters between two byte positions, and `charsBetween?` does so in words, which matters where they are out of order.

`width_append`: sizes add up. `charIndex?_width`: the end of an initial part lies after as many characters as it has.
-/
import ExactCalc.Word

namespace ExactCalc.Text

/-- number of bytes of a text in UTF-8 -/
def width : List Char → Nat
  | [] => 0
  | c :: cs => c.utf8Size + width cs

@[simp] theorem width_nil : width [] = 0 := rfl

@[simp] theorem width_cons (c : Char) (cs : List Char) : width (c :: cs) = c.utf8Size + width cs := rfl

@[simp] theorem width_append (cs ds : List Char) : width (cs ++ ds) = width cs + width ds := by
  induction cs with
  | nil => simp
  | cons c cs ih => simp [ih, Nat.add_assoc]

/-- number of characters in the first `n` bytes, if a character boundary lies there -/
def charIndex? : List Char → Nat → Option Nat
  | [], n => if n = 0 then some 0 else none
  | c :: cs, n =>
    if n = 0 then some 0
    else if c.utf8Size ≤ n then (charIndex? cs (n - c.utf8Size)).map (· + 1)
    else none

@[simp] theorem charIndex?_zero (cs : List Char) : charIndex? cs 0 = some 0 := by
  cases cs <;> rfl

theorem charIndex?_width (cs ds : List Char) : charIndex? (cs ++ ds) (width cs) = some cs.length := by
  induction cs with
  | nil => simp
  | cons c cs ih =>
    have := c.utf8Size_pos
    rw [List.cons_append, width_cons, charIndex?, if_neg (by omega), if_pos (by omega), Nat.add_sub_cancel_left, ih]
    rfl

/-- texts are smaller than this; only half of all words are sizes of something in memory -/
def sizeLimit : Nat :=
  Nat.pow 2 63

/-- number of characters between two byte positions, or of bytes where one of them cuts a character -/
def charsBetween (cs : List Char) (start stop : Nat) : Nat :=
  match charIndex? cs start, charIndex? cs stop with
  | some i, some j => j - i
  | _, _ => stop - start

/-- the same in words; the number of bytes is taken in any case, and given where the positions are out of order -/
def charsBetween? (overflow : Overflow) (cs : List Char) (start stop : Nat) : Option Nat :=
  (Word.difference? overflow stop start).map fun bytes => if start ≤ stop then charsBetween cs start stop else bytes

theorem charsBetween?_of_le {start stop : Nat} (h : start ≤ stop) (overflow : Overflow) (cs : List Char) :
    charsBetween? overflow cs start stop = some (charsBetween cs start stop) := by
  rw [charsBetween?, Word.difference?_of_le h, Option.map_some, if_pos h]

theorem charsBetween?_eq_none_iff {overflow : Overflow} {cs : List Char} {start stop : Nat} :
    charsBetween? overflow cs start stop = none ↔ overflow = .stops ∧ stop < start := by
  rw [charsBetween?, Option.map_eq_none_iff, Word.difference?_eq_none_iff]

end ExactCalc.Text
