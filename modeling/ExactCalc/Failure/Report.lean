/-
What happens to a failure on its way to the user.

The first line of a report gives the reason. Then each place follows, innermost first: the line itself, carets under the
stretch that is meant, and what was being done there. A stretch past the end of the line is cut off at the end, and
there is always one caret at least. Without the line only what was being done is said, and columns count bytes.

`report` takes its sums exactly, and `report?` takes them in words, so that there may be none. `Location.Presentable`
says when all of them are words; places in a line are always of this kind.

`under?_of_bounded`, `Location.report?_of_presentable`, `report?_of_presentable`: in words the report is the same where
the places are presentable. `under?_eq_none_iff`, `Location.report?_eq_none_iff`, `report?_eq_none_iff`: only places
that are not can stop it. `render?_of_written`: a report that is written already is not written again.
-/
import ExactCalc.Failure

namespace ExactCalc

/-! ## Markers -/

/-- carets under part of a line: how many characters stand before them, and how many there are -/
structure Marker where
  column : Nat
  carets : Nat
  deriving DecidableEq, Repr

namespace Marker

/-- the marker of a span, cut off at the end of the line -/
def under (line : List Char) (span : Span) : Marker :=
  let start := min span.offset (Text.width line)
  let stop := min span.stop (Text.width line)
  ⟨Text.charsBetween line 0 start, max 1 (Text.charsBetween line start stop)⟩

/-- the marker of a span, in words -/
def under? (overflow : Overflow) (line : List Char) (span : Span) : Option Marker := do
  let past ← span.stop? overflow
  let start := min span.offset (Text.width line)
  let stop := min past (Text.width line)
  let column ← Text.charsBetween? overflow line 0 start
  let carets ← Text.charsBetween? overflow line start stop
  return ⟨column, max 1 carets⟩

theorem one_le_carets (line : List Char) (span : Span) : 1 ≤ (under line span).carets :=
  Nat.le_max_left 1 _

example : under "(é 1)".toList ⟨1, 2⟩ = ⟨1, 1⟩ := by decide

example : under "(é 1)".toList ⟨4, 9⟩ = ⟨3, 2⟩ := by decide

example : under "(é 1)".toList ⟨2, 2⟩ = ⟨2, 2⟩ := by decide

theorem under?_of_bounded {span : Span} (h : span.Bounded) (overflow : Overflow) (line : List Char) :
    under? overflow line span = some (under line span) := by
  have inOrder : min span.offset (Text.width line) ≤ min span.stop (Text.width line) := by
    unfold Span.stop
    omega
  simp only [under?, Span.stop?_of_bounded h, Text.charsBetween?_of_le (Nat.zero_le _),
    Text.charsBetween?_of_le inOrder, Option.pure_def, Option.bind_eq_bind, Option.bind_some, under]

theorem under?_eq_none_iff {overflow : Overflow} {line : List Char} {span : Span} :
    under? overflow line span = none ↔ overflow = .stops ∧ ¬span.Bounded := by
  by_cases bounded : span.Bounded
  · simp [under?_of_bounded bounded, bounded]
  · cases overflow with
    | stops =>
      have none : span.stop? .stops = none := Span.stop?_eq_none_iff.2 ⟨rfl, bounded⟩
      simp [under?, none, bounded]
    | wraps =>
      obtain ⟨past, stop⟩ : ∃ past, span.stop? .wraps = some past :=
        Overflow.exists_of_wraps Span.stop?_eq_none_iff
      obtain ⟨carets, among⟩ : ∃ carets, Text.charsBetween? .wraps line (min span.offset (Text.width line))
          (min past (Text.width line)) = some carets :=
        Overflow.exists_of_wraps Text.charsBetween?_eq_none_iff
      simp [under?, stop, Text.charsBetween?_of_le (Nat.zero_le _), among]

/-- the row of carets -/
def row (m : Marker) : String :=
  String.ofList (List.replicate m.column ' ' ++ List.replicate m.carets '^')

/-- the line and the row of carets under it -/
def excerpt (m : Marker) (line : String) : String :=
  "\n" ++ line ++ "\n" ++ m.row

end Marker

/-! ## Places -/

/-- the line about what was being done, and at which column -/
def Activity.report (activity : Activity) (number : Nat) : String :=
  "\nwhile " ++ activity.text ++ " at column " ++ toString number

namespace Location

/-- the part of a report about one place; columns are counted from one -/
def report (line? : Option String) (l : Location) : String :=
  match line? with
  | none => l.activity.report (l.span.offset + 1)
  | some line =>
    let marker := Marker.under line.toList l.span
    marker.excerpt line ++ l.activity.report (marker.column + 1)

/-- the part of a report about one place, in words -/
def report? (overflow : Overflow) (line? : Option String) (l : Location) : Option String :=
  match line? with
  | none => (Word.sum? overflow l.span.offset 1).map l.activity.report
  | some line => do
    let marker ← Marker.under? overflow line.toList l.span
    let number ← Word.sum? overflow marker.column 1
    return marker.excerpt line ++ l.activity.report number

/-- the place stops at a word, and its column is one -/
def Presentable (line? : Option String) (l : Location) : Prop :=
  match line? with
  | none => l.span.offset + 1 < Word.count
  | some line => l.span.Bounded ∧ (Marker.under line.toList l.span).column + 1 < Word.count

instance (line? : Option String) (l : Location) : Decidable (l.Presentable line?) :=
  match line? with
  | none => inferInstanceAs (Decidable (_ < _))
  | some _ => inferInstanceAs (Decidable (_ ∧ _))

theorem report?_of_presentable {line? : Option String} {l : Location} (h : l.Presentable line?)
    (overflow : Overflow) : l.report? overflow line? = some (l.report line?) := by
  cases line? with
  | none => rw [report?, Word.sum?_of_lt h, Option.map_some, report]
  | some line =>
    simp only [report?, Marker.under?_of_bounded h.1, Word.sum?_of_lt h.2, Option.pure_def, Option.bind_eq_bind,
      Option.bind_some, report]

theorem report?_eq_none_iff {overflow : Overflow} {line? : Option String} {l : Location} :
    l.report? overflow line? = none ↔ overflow = .stops ∧ ¬l.Presentable line? := by
  by_cases presentable : l.Presentable line?
  · simp [report?_of_presentable presentable, presentable]
  · cases overflow with
    | wraps =>
      cases line? with
      | none => simp [report?, Word.sum?_eq_none_iff]
      | some line =>
        obtain ⟨marker, drawn⟩ : ∃ marker, Marker.under? .wraps line.toList l.span = some marker :=
          Overflow.exists_of_wraps Marker.under?_eq_none_iff
        obtain ⟨number, next⟩ : ∃ number, Word.sum? .wraps marker.column 1 = some number :=
          Overflow.exists_of_wraps Word.sum?_eq_none_iff
        simp [report?, drawn, next]
    | stops =>
      refine iff_of_true ?_ ⟨rfl, presentable⟩
      cases line? with
      | none =>
        rw [report?, Option.map_eq_none_iff, Word.sum?_eq_none_iff]
        exact ⟨rfl, Nat.le_of_not_lt presentable⟩
      | some line =>
        by_cases bounded : l.span.Bounded
        · have past : Word.sum? .stops (Marker.under line.toList l.span).column 1 = none :=
            Word.sum?_eq_none_iff.2 ⟨rfl, Nat.le_of_not_lt fun word => presentable ⟨bounded, word⟩⟩
          simp [report?, Marker.under?_of_bounded bounded, past]
        · have none : Marker.under? .stops line.toList l.span = none := Marker.under?_eq_none_iff.2 ⟨rfl, bounded⟩
          simp [report?, none]

end Location

/-! ## Reports -/

/-- if there is a result for each of a list, it is the one that this function gives -/
theorem eq_map_of_mapM {α β : Type} {f : α → Option β} {g : α → β} {xs : List α} {ys : List β}
    (exact : ∀ x ∈ xs, ∀ y, f x = some y → y = g x) (h : xs.mapM f = some ys) : ys = xs.map g := by
  induction xs generalizing ys with
  | nil => simpa using h.symm
  | cons x xs ih =>
    rw [List.mapM_cons] at h
    obtain ⟨y, first, h⟩ := Option.bind_eq_some_iff.1 h
    obtain ⟨zs, others, h⟩ := Option.bind_eq_some_iff.1 h
    cases h
    rw [List.map_cons, exact x List.mem_cons_self y first,
      ih (fun z member => exact z (List.mem_cons_of_mem _ member)) others]

theorem mapM_eq_none_iff {α β : Type} {f : α → Option β} {xs : List α} :
    xs.mapM f = none ↔ ∃ x ∈ xs, f x = none := by
  induction xs with
  | nil => simp
  | cons x xs ih =>
    simp only [List.mapM_cons, List.mem_cons, exists_eq_or_imp, ← ih]
    cases first : f x with
    | none => simp
    | some y => cases others : xs.mapM f <;> simp

namespace Failure

/-- the first line of a report -/
def headline (f : Failure) : String :=
  "Error: " ++ match f.reason? with
    | some reason => reason.message
    | none => "unknown reason"

/-- the whole report -/
def report (f : Failure) (line? : Option String) : String :=
  f.headline ++ String.join (f.trail.map (Location.report line?))

/-- the whole report, in words -/
def report? (overflow : Overflow) (f : Failure) (line? : Option String) : Option String := do
  let places ← f.trail.mapM (Location.report? overflow line?)
  return f.headline ++ String.join places

/-- write the report down unless one is written already -/
def render? (overflow : Overflow) (f : Failure) (line? : Option String) : Option Failure :=
  match f.rendered? with
  | some _ => some f
  | none => (f.report? overflow line?).map fun text => { f with rendered? := some text }

theorem report?_eq_none_iff {overflow : Overflow} {f : Failure} {line? : Option String} :
    f.report? overflow line? = none ↔ overflow = .stops ∧ ∃ l ∈ f.trail, ¬l.Presentable line? := by
  have places : f.trail.mapM (Location.report? overflow line?) = none ↔
      overflow = .stops ∧ ∃ l ∈ f.trail, ¬l.Presentable line? := by
    simp only [mapM_eq_none_iff, Location.report?_eq_none_iff]
    constructor
    · rintro ⟨l, here, stops, past⟩
      exact ⟨stops, l, here, past⟩
    · rintro ⟨stops, l, here, past⟩
      exact ⟨l, here, stops, past⟩
  rw [← places, report?]
  cases f.trail.mapM (Location.report? overflow line?) <;> simp

theorem report?_of_presentable {f : Failure} {line? : Option String} (h : ∀ l ∈ f.trail, l.Presentable line?)
    (overflow : Overflow) : f.report? overflow line? = some (f.report line?) := by
  have exact : ∀ l ∈ f.trail, ∀ text, l.report? overflow line? = some text → text = l.report line? := by
    intro l here text written
    rw [Location.report?_of_presentable (h l here)] at written
    exact (Option.some.inj written).symm
  cases places : f.trail.mapM (Location.report? overflow line?) with
  | none =>
    obtain ⟨l, here, stopped⟩ := mapM_eq_none_iff.1 places
    exact absurd (h l here) (Location.report?_eq_none_iff.1 stopped).2
  | some texts => simp [report?, report, places, eq_map_of_mapM exact places]

theorem render?_of_written {f : Failure} {text : String} (h : f.rendered? = some text) (overflow : Overflow)
    (line? : Option String) : f.render? overflow line? = some f := by
  rw [render?, h]

theorem render?_of_unwritten {f : Failure} (h : f.rendered? = none) (overflow : Overflow) (line? : Option String) :
    f.render? overflow line? = (f.report? overflow line?).map fun text => { f with rendered? := some text } := by
  rw [render?, h]

theorem render?_eq_none_iff {overflow : Overflow} {f : Failure} {line? : Option String} :
    f.render? overflow line? = none ↔
      overflow = .stops ∧ f.rendered? = none ∧ ∃ l ∈ f.trail, ¬l.Presentable line? := by
  cases written : f.rendered? with
  | some text => simp [render?_of_written written]
  | none => simp [render?_of_unwritten written, report?_eq_none_iff]

/-- forget the written report -/
def unrender (f : Failure) : Failure :=
  { f with rendered? := none }

end Failure

end ExactCalc
