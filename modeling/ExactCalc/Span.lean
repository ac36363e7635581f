/-
Stretches of a line, and values that know the stretch they were read from.

A span has an offset and a length, both in bytes. There is one line only, so a span needs no line number. Both are
words, but where the span stops need not be one: `stop` is the exact position, and `stop?`, `between?` and `cover?` are
what comes of it in words. Spans of a line are `Bounded`, and for these the two are the same.

`stop_between`: the span between two positions in order ends at the second one. `stop?_of_bounded`, `between?_of_le`,
`cover?_of_le`: what comes of it in words is exact where it stops at a word and the ends are in order.
-/
import ExactCalc.Word

namespace ExactCalc

/-- a stretch of a line -/
structure Span where
  offset : Nat
  length : Nat
  deriving DecidableEq, Repr

namespace Span

/-- the position behind the span -/
def stop (s : Span) : Nat :=
  s.offset + s.length

/-- the span from one position up to another -/
def between (start stop : Nat) : Span :=
  ⟨start, stop - start⟩

/-- the span from the start of one span up to the end of another -/
def cover (first last : Span) : Span :=
  between first.offset last.stop

theorem stop_between {start stop : Nat} (h : start ≤ stop) : (between start stop).stop = stop := by
  simp only [Span.stop, between]
  omega

@[simp] theorem between_offset_stop (s : Span) : between s.offset s.stop = s := by
  simp [between, Span.stop]

@[simp] theorem cover_self (s : Span) : cover s s = s :=
  between_offset_stop s

/-! ## In words -/

/-- the position behind the span is a word -/
def Bounded (s : Span) : Prop :=
  s.stop < Word.count

instance (s : Span) : Decidable s.Bounded :=
  inferInstanceAs (Decidable (_ < _))

/-- the position behind the span, in words -/
def stop? (overflow : Overflow) (s : Span) : Option Nat :=
  Word.sum? overflow s.offset s.length

/-- the span from one position up to another, in words -/
def between? (overflow : Overflow) (start stop : Nat) : Option Span :=
  (Word.difference? overflow stop start).map fun length => ⟨start, length⟩

/-- the span from the start of one span up to the end of another, in words -/
def cover? (overflow : Overflow) (first last : Span) : Option Span :=
  (last.stop? overflow).bind (between? overflow first.offset)

theorem stop?_of_bounded {s : Span} (h : s.Bounded) (overflow : Overflow) : s.stop? overflow = some s.stop :=
  Word.sum?_of_lt h overflow

theorem stop?_eq_none_iff {overflow : Overflow} {s : Span} :
    s.stop? overflow = none ↔ overflow = .stops ∧ ¬s.Bounded := by
  rw [stop?, Word.sum?_eq_none_iff, Bounded, Nat.not_lt, stop]

theorem between?_of_le {start stop : Nat} (h : start ≤ stop) (overflow : Overflow) :
    between? overflow start stop = some (between start stop) := by
  rw [between?, Word.difference?_of_le h, Option.map_some, between]

theorem cover?_of_le {first last : Span} (bounded : last.Bounded) (h : first.offset ≤ last.stop)
    (overflow : Overflow) : cover? overflow first last = some (cover first last) := by
  rw [cover?, stop?_of_bounded bounded, Option.bind_some, between?_of_le h, cover]

end Span

/-- a value together with the stretch of the line it stands for -/
structure Located (α : Type) where
  span : Span
  value : α
  deriving DecidableEq, Repr

namespace Located

/-- the same stretch with another value -/
def map {α β : Type} (f : α → β) (x : Located α) : Located β :=
  ⟨x.span, f x.value⟩

/-- the value's own text followed by where it starts and stops, in words -/
def text? {α : Type} (overflow : Overflow) (write : α → String) (x : Located α) : Option String :=
  (x.span.stop? overflow).map fun stop =>
    write x.value ++ ".tag(" ++ toString x.span.offset ++ ".." ++ toString stop ++ ")"

end Located

end ExactCalc
