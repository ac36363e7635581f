/-
Which characters the carets of a report stand under.

Spans count bytes and markers count characters. `Span.clipped line s` is the part of a span that lies in the line, and
`Span.Parts line s before part behind` says that it cuts the line into three texts. `Marker.Marks line s m`: the marker
stands under the middle one, character for character. An end that cuts a character cuts no such texts; then bytes take
the place of characters, and `Marker.Counts line s m` says what is left.

Where a span stops need not be a word. Then a program that stops at such a sum draws nothing, and in one that wraps
around the end may come to lie before the start: `Marker.Wrapped line s m`.

Results:
- `charIndex?_eq_some_iff`, `isValid_iff`: character boundaries lie behind the initial parts of a line.
- `exists_parts_of_fits`: a span that cuts no character has its three texts.
- `marks_under`, `counts_under`: what the marker of a span stands under.
- `wrapped_of_under?`: what comes of a span that stops at no word where sums wrap around.
- `Location.presentable_iff`: in a line that there is room for, a place can be reported on if it stops at a word.
- `rendered?_of_evaluateAt`: by induction on the tree, evaluation writes no failure down.
- `fits_of_evaluateLine`: all that a line is found wrong at lies in it, and cuts no character.
- `carets_exact`: **carets mark exactly the characters that are meant**, if the span stops at a word.
-/
import ExactCalc.Proofs.Blame

namespace ExactCalc

/-! ## Spans cut off at the end of a line -/

namespace Span

variable {line : String} {s : Span}

/-- the part of a span that lies in the line; what lies behind the line is taken for its end -/
def clipped (line : String) (s : Span) : Span :=
  .between (min s.offset line.utf8ByteSize) (min s.stop line.utf8ByteSize)

theorem offset_le_stop (s : Span) : s.offset ≤ s.stop :=
  Nat.le_add_right _ _

/-- cut off at the same place, a span does not start behind its end -/
theorem min_offset_le (s : Span) (n : ℕ) : min s.offset n ≤ min s.stop n :=
  min_le_min_right n s.offset_le_stop

@[simp] theorem offset_clipped (line : String) (s : Span) :
    (s.clipped line).offset = min s.offset line.utf8ByteSize := rfl

@[simp] theorem stop_clipped (line : String) (s : Span) : (s.clipped line).stop = min s.stop line.utf8ByteSize :=
  stop_between (s.min_offset_le _)

/-- a line is smaller than half of all words, so what lies in it stops at a word -/
theorem Fits.bounded (h : s.Fits line) (room : line.utf8ByteSize < Text.sizeLimit) : s.Bounded := by
  have limits : Text.sizeLimit < Word.count := by decide
  exact h.within.trans_lt (room.trans limits)

theorem clipped_of_fits (h : s.Fits line) : s.clipped line = s := by
  have stop : min s.stop line.utf8ByteSize = s.stop := min_eq_left h.within
  have start : min s.offset line.utf8ByteSize = s.offset := min_eq_left (s.offset_le_stop.trans h.within)
  rw [clipped, start, stop, between_offset_stop]

end Span

/-! ## Characters and bytes -/

namespace Text

/-- the characters before a byte position are counted if it lies behind an initial part of the text -/
theorem charIndex?_eq_some_iff {cs : List Char} {n i : ℕ} :
    charIndex? cs n = some i ↔ ∃ before behind, cs = before ++ behind ∧ width before = n ∧ before.length = i := by
  constructor
  · intro h
    induction cs generalizing n i with
    | nil =>
      rw [charIndex?] at h
      split_ifs at h with zero
      cases h
      exact ⟨[], [], rfl, zero.symm, rfl⟩
    | cons c cs ih =>
      rw [charIndex?] at h
      split_ifs at h with zero enough
      · cases h
        exact ⟨[], c :: cs, rfl, zero.symm, rfl⟩
      · obtain ⟨j, found, rfl⟩ := Option.map_eq_some_iff.1 h
        obtain ⟨before, behind, rfl, size, rfl⟩ := ih found
        refine ⟨c :: before, behind, rfl, ?_, rfl⟩
        rw [width_cons, size]
        omega
  · rintro ⟨before, behind, rfl, rfl, rfl⟩
    exact charIndex?_width before behind

theorem isValid_iff {line : String} {n : ℕ} :
    String.Pos.Raw.IsValid line ⟨n⟩ ↔ ∃ before behind, line.toList = before ++ behind ∧ width before = n := by
  constructor
  · intro valid
    obtain ⟨before, behind, rfl, size⟩ := String.Pos.Raw.isValid_iff_exists_append.1 valid
    refine ⟨before.toList, behind.toList, String.toList_append, ?_⟩
    rw [String.Pos.Raw.ext_iff] at size
    rw [width_toList]
    exact size.symm
  · rintro ⟨before, behind, whole, rfl⟩
    exact isValid_width whole

theorem charIndex?_eq_none_iff {line : String} {n : ℕ} :
    charIndex? line.toList n = none ↔ ¬String.Pos.Raw.IsValid line ⟨n⟩ := by
  rw [isValid_iff]
  constructor
  · rintro none ⟨before, behind, whole, size⟩
    rw [charIndex?_eq_some_iff.2 ⟨before, behind, whole, size, rfl⟩] at none
    cases none
  · intro cut
    cases found : charIndex? line.toList n with
    | none => rfl
    | some i =>
      obtain ⟨before, behind, whole, size, -⟩ := charIndex?_eq_some_iff.1 found
      exact absurd ⟨before, behind, whole, size⟩ cut

theorem length_le_width (cs : List Char) : cs.length ≤ width cs := by
  induction cs with
  | nil => exact le_rfl
  | cons c cs ih =>
    have := c.utf8Size_pos
    rw [List.length_cons, width_cons]
    omega

/-- no more characters than bytes stand before a position -/
theorem le_of_charIndex? {cs : List Char} {n i : ℕ} (h : charIndex? cs n = some i) : i ≤ n := by
  obtain ⟨before, -, -, rfl, rfl⟩ := charIndex?_eq_some_iff.1 h
  exact length_le_width before

theorem charIndex?_utf8ByteSize (before behind : String) :
    charIndex? (before ++ behind).toList before.utf8ByteSize = some before.length := by
  rw [String.toList_append, ← width_toList, charIndex?_width, String.length_toList]

/-- from the start of a text on, what is counted hangs on the other position alone -/
theorem charsBetween_zero (cs : List Char) (n : ℕ) : charsBetween cs 0 n = (charIndex? cs n).getD n := by
  rw [charsBetween, charIndex?_zero]
  cases charIndex? cs n with
  | none => rfl
  | some i => rfl

theorem charsBetween_of_boundaries {cs : List Char} {start stop i j : ℕ} (first : charIndex? cs start = some i)
    (last : charIndex? cs stop = some j) : charsBetween cs start stop = j - i := by
  rw [charsBetween, first, last]

/-- bytes are counted if one of the positions cuts a character -/
theorem charsBetween_of_cut {line : String} {start stop : ℕ}
    (cut : ¬String.Pos.Raw.IsValid line ⟨start⟩ ∨ ¬String.Pos.Raw.IsValid line ⟨stop⟩) :
    charsBetween line.toList start stop = stop - start := by
  rw [charsBetween]
  rcases cut with cut | cut
  · rw [charIndex?_eq_none_iff.2 cut]
  · rw [charIndex?_eq_none_iff.2 cut]
    cases charIndex? line.toList start <;> rfl

/-- of two initial parts of a text the one with fewer bytes is an initial part of the other -/
theorem exists_append_of_width_le {cs ds cs' ds' : List Char} (same : cs ++ ds = cs' ++ ds')
    (le : width cs ≤ width cs') : ∃ es, cs' = cs ++ es ∧ ds = es ++ ds' := by
  rcases List.append_eq_append_iff.1 same with more | ⟨es, rfl, rfl⟩
  · exact more
  · have none : width es = 0 := by
      rw [width_append] at le
      omega
    cases es with
    | nil => exact ⟨[], by simp, by simp⟩
    | cons c es =>
      have := c.utf8Size_pos
      rw [width_cons] at none
      omega

end Text

/-! ## The texts around a span -/

/-- the line is put together from what stands before the span, what the span covers and what stands behind it -/
structure Span.Parts (line : String) (s : Span) (before part behind : String) : Prop where
  whole : line = before ++ part ++ behind
  start : s.offset = before.utf8ByteSize
  stop : s.stop = before.utf8ByteSize + part.utf8ByteSize

theorem Span.exists_parts_of_fits {line : String} {s : Span} (h : s.Fits line) :
    ∃ before part behind, s.Parts line before part behind := by
  obtain ⟨before, rest, whole, start⟩ := Text.isValid_iff.1 h.start
  obtain ⟨upTo, behind, whole', stop⟩ := Text.isValid_iff.1 h.stop
  have le : Text.width before ≤ Text.width upTo := by
    rw [start, stop]
    exact s.offset_le_stop
  obtain ⟨part, rfl, rfl⟩ := Text.exists_append_of_width_le (whole.symm.trans whole') le
  refine ⟨String.ofList before, String.ofList part, String.ofList behind, ?_, ?_, ?_⟩
  · rw [← String.toList_inj, whole]
    simp
  · rw [← start, ← Text.width_toList, String.toList_ofList]
  · rw [← stop, ← Text.width_toList, ← Text.width_toList, String.toList_ofList, String.toList_ofList,
      Text.width_append]

/-! ## Markers -/

namespace Marker

/-- the marker stands under a span that cuts no character: behind as many columns as characters stand before the span,
with one caret under each character of the span and one at least, and at most one column behind the line -/
structure Marks (line : String) (s : Span) (m : Marker) : Prop where
  parts : ∃ before part behind, s.Parts line before part behind ∧ m.column = before.length ∧
    m.carets = max 1 part.length ∧ (part ≠ "" → (line.toList.drop m.column).take m.carets = part.toList)
  within : m.column + m.carets ≤ line.length + 1

/-- the marker of any span, which may lie behind the line or cut a character: there is a caret, the ends of the span are
in order when they have been cut off at the end of the line, and bytes are counted where one of them cuts a character -/
structure Counts (line : String) (s : Span) (m : Marker) : Prop where
  caret : 1 ≤ m.carets
  ordered : min s.offset line.utf8ByteSize ≤ min s.stop line.utf8ByteSize
  between : ∀ before behind, line = before ++ behind → before.utf8ByteSize = min s.offset line.utf8ByteSize →
    m.column = before.length
  inside : ¬String.Pos.Raw.IsValid line ⟨min s.offset line.utf8ByteSize⟩ → m.column = min s.offset line.utf8ByteSize
  cut : ¬(s.clipped line).Fits line →
    ∃ n, min s.offset line.utf8ByteSize + n = min s.stop line.utf8ByteSize ∧ m.carets = max 1 n

variable {line : String} {s : Span}

theorem column_under (line : String) (s : Span) : (under line.toList s).column =
    (Text.charIndex? line.toList (s.clipped line).offset).getD (s.clipped line).offset := by
  rw [under, Text.width_toList, Text.charsBetween_zero, Span.offset_clipped]

theorem carets_under (line : String) (s : Span) : (under line.toList s).carets =
    max 1 (Text.charsBetween line.toList (s.clipped line).offset (s.clipped line).stop) := by
  rw [under, Text.width_toList, Span.offset_clipped, Span.stop_clipped]

theorem marks_under (h : (s.clipped line).Fits line) : (under line.toList s).Marks line (s.clipped line) := by
  obtain ⟨before, part, behind, parts⟩ := Span.exists_parts_of_fits h
  have start : Text.charIndex? line.toList (s.clipped line).offset = some before.length := by
    rw [parts.start, parts.whole, String.append_assoc, Text.charIndex?_utf8ByteSize]
  have stop : Text.charIndex? line.toList (s.clipped line).stop = some (before.length + part.length) := by
    rw [parts.stop, parts.whole, ← String.utf8ByteSize_append, Text.charIndex?_utf8ByteSize, String.length_append]
  have column : (under line.toList s).column = before.length := by
    rw [column_under, start, Option.getD_some]
  have carets : (under line.toList s).carets = max 1 part.length := by
    rw [carets_under, Text.charsBetween_of_boundaries start stop, Nat.add_sub_cancel_left]
  have whole : line.length = before.length + part.length + behind.length := by
    rw [parts.whole, String.length_append, String.length_append]
  refine ⟨⟨before, part, behind, parts, column, carets, fun inhabited => ?_⟩, by omega⟩
  have one : 1 ≤ part.length := by
    rw [Nat.one_le_iff_ne_zero, ← String.length_toList, Ne, List.length_eq_zero_iff, String.toList_eq_nil_iff]
    exact inhabited
  rw [column, carets, max_eq_right one, parts.whole, String.append_assoc, String.toList_append, String.toList_append,
    ← String.length_toList, ← String.length_toList, List.drop_left, List.take_left]

theorem counts_under (line : String) (s : Span) : (under line.toList s).Counts line s := by
  refine ⟨one_le_carets _ _, s.min_offset_le _, ?between, ?inside, ?cut⟩
  case between =>
    intro before behind whole start
    rw [column_under, Span.offset_clipped, ← start, whole, Text.charIndex?_utf8ByteSize, Option.getD_some]
  case inside =>
    intro inside
    rw [column_under, Span.offset_clipped, Text.charIndex?_eq_none_iff.2 inside, Option.getD_none]
  case cut =>
    intro cut
    have ends : ¬String.Pos.Raw.IsValid line ⟨(s.clipped line).offset⟩ ∨
        ¬String.Pos.Raw.IsValid line ⟨(s.clipped line).stop⟩ := by
      by_contra both
      rw [not_or, not_not, not_not] at both
      exact cut (Span.fits_of_isValid both.1 both.2)
    refine ⟨min s.stop line.utf8ByteSize - min s.offset line.utf8ByteSize,
      Nat.add_sub_cancel' (s.min_offset_le _), ?_⟩
    rw [carets_under, Text.charsBetween_of_cut ends, Span.offset_clipped, Span.stop_clipped]

/-! ## Markers in words -/

/-- what comes of a span whose end wraps around to a position before its start. If that lies in the line there are as
many carets as there are words, but for the size of the line at most; behind the line it makes no difference -/
structure Wrapped (line : String) (s : Span) (m : Marker) : Prop where
  inside : s.stop < Word.count + line.utf8ByteSize → Word.count ≤ m.carets + line.utf8ByteSize
  behind : Word.count + line.utf8ByteSize ≤ s.stop →
    m.Counts line s ∧ ((s.clipped line).Fits line → m.Marks line (s.clipped line))

theorem column_under_le (line : String) (s : Span) : (under line.toList s).column ≤ line.utf8ByteSize := by
  have inLine : (s.clipped line).offset ≤ line.utf8ByteSize := min_le_right _ _
  rw [column_under]
  cases found : Text.charIndex? line.toList (s.clipped line).offset with
  | none => exact inLine
  | some i => exact (Text.le_of_charIndex? found).trans inLine

/-- what a marker in words is made of; its column is that of the exact one -/
theorem under?_eq_some_iff {overflow : Overflow} {m : Marker} : under? overflow line.toList s = some m ↔
    ∃ past carets, s.stop? overflow = some past ∧
      Text.charsBetween? overflow line.toList (min s.offset line.utf8ByteSize) (min past line.utf8ByteSize) =
        some carets ∧ m = ⟨(under line.toList s).column, max 1 carets⟩ := by
  simp only [under?, Text.width_toList, Text.charsBetween?_of_le (Nat.zero_le _), Option.pure_def,
    Option.bind_eq_bind, Option.bind_some, Option.bind_eq_some_iff, Option.some.injEq, under]
  constructor
  · rintro ⟨past, stop, carets, among, rfl⟩
    exact ⟨past, carets, stop, among, rfl⟩
  · rintro ⟨past, carets, stop, among, rfl⟩
    exact ⟨past, stop, carets, among, rfl⟩

theorem column_of_under? {overflow : Overflow} {m : Marker} (h : under? overflow line.toList s = some m) :
    m.column = (under line.toList s).column := by
  obtain ⟨past, carets, -, -, rfl⟩ := under?_eq_some_iff.1 h
  rfl

theorem wrapped_of_under? {m : Marker} (offset : s.offset < Word.count) (length : s.length < Word.count)
    (unbounded : ¬s.Bounded) (h : under? .wraps line.toList s = some m) : m.Wrapped line s := by
  have past : Word.count ≤ s.offset + s.length := Nat.le_of_not_lt unbounded
  obtain ⟨wrapped, carets, stop, among, rfl⟩ := under?_eq_some_iff.1 h
  rw [Span.stop?, Word.sum?_wraps_of_le offset length past] at stop
  obtain rfl := Option.some.inj stop
  refine ⟨fun inside => ?_, fun behind => ?_⟩
  · -- the end lies in the line and before the start, so that the difference of the two wraps around, too
    unfold Span.stop at inside
    have order : min (s.offset + s.length - Word.count) line.utf8ByteSize < min s.offset line.utf8ByteSize := by omega
    rw [Text.charsBetween?, Word.difference?_wraps_of_lt order, Option.map_some, if_neg (Nat.not_le.2 order)] at among
    obtain rfl := Option.some.inj among
    show Word.count ≤ max 1 _ + line.utf8ByteSize
    omega
  · -- both ends are cut off at the end of the line, wherever they are
    unfold Span.stop at behind
    have same : min (s.offset + s.length - Word.count) line.utf8ByteSize = min s.stop line.utf8ByteSize := by
      unfold Span.stop
      omega
    rw [same, Text.charsBetween?_of_le (s.min_offset_le _)] at among
    obtain rfl := Option.some.inj among
    have exact : under line.toList s = ⟨(under line.toList s).column,
        max 1 (Text.charsBetween line.toList (min s.offset line.utf8ByteSize) (min s.stop line.utf8ByteSize))⟩ := by
      simp only [under, Text.width_toList]
    rw [← exact]
    exact ⟨counts_under line s, marks_under⟩

end Marker

/-! ## Reports -/

/-- what a report says about one place: the line, a row of blanks and carets, and what was being done at the column
behind the blanks, where the first column is number one -/
def Location.marked (line : String) (l : Location) (m : Marker) : String :=
  "\n" ++ line ++ "\n" ++ String.ofList (List.replicate m.column ' ') ++ String.ofList (List.replicate m.carets '^') ++
    "\nwhile " ++ l.activity.text ++ " at column " ++ toString (m.column + 1)

theorem Location.excerpt_append_report (line : String) (l : Location) (m : Marker) :
    m.excerpt line ++ l.activity.report (m.column + 1) = l.marked line m := by
  simp only [marked, Marker.excerpt, Marker.row, Activity.report, String.ofList_append, String.append_assoc]

/-- the marker that a place gets, or would get if its end were a word -/
def Location.marker (line : String) (overflow : Overflow) (l : Location) : Marker :=
  (Marker.under? overflow line.toList l.span).getD (Marker.under line.toList l.span)

section
variable {line : String} {overflow : Overflow} {l : Location}

/-- a line is smaller than half of all words, so every column of it has a number -/
theorem Marker.column_lt (room : line.utf8ByteSize < Text.sizeLimit) (s : Span) :
    (under line.toList s).column + 1 < Word.count := by
  have column := column_under_le line s
  have limits : Text.sizeLimit < Word.count := by decide
  omega

theorem Location.presentable_iff (room : line.utf8ByteSize < Text.sizeLimit) :
    l.Presentable (some line) ↔ l.span.Bounded :=
  and_iff_left (Marker.column_lt room l.span)

theorem Location.marker_of_bounded (h : l.span.Bounded) :
    l.marker line overflow = Marker.under line.toList l.span := by
  rw [marker, Marker.under?_of_bounded h, Option.getD_some]

theorem Location.eq_marked_of_report? (room : line.utf8ByteSize < Text.sizeLimit) {text : String}
    (h : l.report? overflow (some line) = some text) : text = l.marked line (l.marker line overflow) := by
  obtain ⟨m, drawn, h⟩ := Option.bind_eq_some_iff.1 h
  have column : m.column + 1 < Word.count := by
    rw [Marker.column_of_under? drawn]
    exact Marker.column_lt room l.span
  rw [Word.sum?_of_lt column] at h
  cases h
  rw [excerpt_append_report, marker, drawn, Option.getD_some]

theorem Failure.eq_marked_of_report? {f : Failure} (room : line.utf8ByteSize < Text.sizeLimit) {text : String}
    (h : f.report? overflow (some line) = some text) :
    text = f.headline ++ String.join (f.trail.map fun l => l.marked line (l.marker line overflow)) := by
  obtain ⟨texts, places, h⟩ := Option.bind_eq_some_iff.1 h
  cases h
  rw [eq_map_of_mapM (fun l _ text => Location.eq_marked_of_report? room) places]

end

/-! ## Failures of evaluation -/

namespace Expr

theorem rendered?_of_atomValue {t : Token} {f : Failure} (h : atomValue t = .error f) : f.rendered? = none := by
  rw [atomValue] at h
  split_ifs at h with constant
  · obtain ⟨r, -, rfl⟩ := mapError_eq_error_iff.1 h
    simp
  · cases h
    simp

theorem rendered?_of_checkOperand {e : Expr} {f : Failure} (h : checkOperand e = .error f) : f.rendered? = none := by
  cases e with
  | list es => cases h
  | nil =>
    cases h
    simp
  | atom t =>
    rw [checkOperand] at h
    split_ifs at h with operator
    cases h
    simp

mutual

/-- evaluation writes no failure down -/
theorem rendered?_of_evaluateAt {depth : ℕ} {f : Failure} :
    (e : Expr) → evaluateAt depth e = .error f → f.rendered? = none
  | .atom t, h => by
    rw [evaluateAt] at h
    exact rendered?_of_atomValue (map_eq_error_iff.1 h)
  | .nil, h => by
    rw [evaluateAt] at h
    cases h
  | .list es, h => by
    rw [evaluateAt] at h
    obtain ⟨g, called, rfl⟩ := mapError_eq_error_iff.1 h
    rw [Failure.rendered?_tagOptionIfBare]
    exact rendered?_of_callAt es (map_eq_error_iff.1 called)

theorem rendered?_of_callAt {depth : ℕ} {f : Failure} :
    (es : List Expr) → callAt depth es = .error f → f.rendered? = none
  | [], h => by
    rw [callAt] at h
    cases h
    simp
  | head :: operands, h => by
    rw [callAt] at h
    rcases bind_eq_error_iff.1 h with unnamed | ⟨⟨t, operation⟩, -, h⟩
    · rw [eq_undefinedHead_of_callee unnamed, undefinedHead]
      simp
    rcases bind_eq_error_iff.1 h with deep | ⟨inner, -, h⟩
    · obtain ⟨r, -, rfl⟩ := mapError_eq_error_iff.1 deep
      simp
    rcases bind_eq_error_iff.1 h with operand | ⟨as, -, applied⟩
    · exact rendered?_of_operandsAt operands operand
    · obtain ⟨r, -, rfl⟩ := mapError_eq_error_iff.1 applied
      simp

theorem rendered?_of_operandsAt {depth : ℕ} {f : Failure} :
    (es : List Expr) → operandsAt depth es = .error f → f.rendered? = none
  | [], h => by
    rw [operandsAt] at h
    cases h
  | e :: es, h => by
    rw [operandsAt] at h
    rcases bind_eq_error_iff.1 h with illegal | ⟨_, -, h⟩
    · exact rendered?_of_checkOperand illegal
    rcases bind_eq_error_iff.1 h with failed | ⟨a?, -, h⟩
    · exact rendered?_of_evaluateAt e failed
    rcases bind_eq_error_iff.1 h with others | ⟨as, -, h⟩
    · exact rendered?_of_operandsAt es others
    · cases h

end

theorem Blames.rendered? {c : Cursor} {f : Failure} (h : Blames c f) : f.rendered? = none := by
  cases h <;> rfl

end Expr

/-! ## Failures of a line -/

theorem rendered?_of_evaluateLine {line : String} {f : Failure} (h : evaluateLine line = .error f) :
    f.rendered? = none := by
  rcases read : Expr.parse line with g | ⟨span, e⟩
  · rw [evaluateLine_of_refused read] at h
    cases h
    exact (Expr.blames_of_parse read).rendered?
  · rw [evaluateLine_of_read read] at h
    exact Expr.rendered?_of_evaluateAt e h

/-- all places that a line is found wrong at lie in it, and cut no character -/
theorem fits_of_evaluateLine {line : String} {f : Failure} (h : evaluateLine line = .error f) {l : Location}
    (here : l ∈ f.trail) : l.span.Fits line := by
  rcases read : Expr.parse line with g | ⟨span, e⟩
  · rw [evaluateLine_of_refused read] at h
    cases h
    obtain ⟨l', located, fits⟩ := (Expr.blames_of_parse read).locatedIn (Cursor.on_start line)
    rw [located, List.mem_singleton] at here
    exact here ▸ fits
  · rw [evaluateLine_of_read read] at h
    have laid : Token.Laid line e.atoms := Expr.laid_atoms_of_parse (Expr.map_value_eq_ok_iff.2 ⟨span, read⟩)
    rcases Expr.traced_evaluateAt 0 e f h with bare | ⟨l', located, d, part, extent⟩
    · rw [bare] at here
      cases here
    · rw [located, List.mem_singleton] at here
      exact here ▸ Expr.fits_of_extent? (laid.sublist part.atoms_sublist) extent

/-- what a run says about a line that is found wrong is the report in words -/
theorem report?_of_evaluateLine {line : String} (room : line.utf8ByteSize < Text.sizeLimit) {f : Failure}
    (h : evaluateLine line = .error f) (overflow : Overflow) :
    f.report? overflow (some line) = some (f.report (some line)) :=
  Failure.report?_of_presentable
    (fun _ here => (Location.presentable_iff room).2 ((fits_of_evaluateLine h here).bounded room)) overflow

/-- **Carets mark exactly the characters that are meant, if the place stops at a word.** The line is one that there is
room for. A report on a failure for it, unless one is written already, is written if all places stop at words, or if the
program wraps around where one does not. It is its first line and then, for each place from the innermost outwards, the
line, a row of so many blanks and carets, and the column. Let the place stop at a word. If, cut off at the end of the
line, it cuts no character, there are as many blanks as characters before it and one caret under each of its characters,
or one caret where it has none, and the row is longer than the line by one at most. For every other such place there is
a caret, too, and byte counts stand in where a character is cut; a place never starts behind its end. If the place stops
at no word, there are about as many carets as words, unless its end wraps around to a position behind the line. What a
line is found wrong at is never of these kinds: all places of a failure that comes out of evaluating the line lie in it
as they are and cut no character, no report on it is written yet, and the report is the one that a run prints. -/
theorem carets_exact (line : String) (room : line.utf8ByteSize < Text.sizeLimit) (f : Failure) :
    ∃ marker : Overflow → Location → Marker,
      (∀ overflow, f.render? overflow (some line) = none ↔
        overflow = .stops ∧ f.rendered? = none ∧ ∃ l ∈ f.trail, ¬l.span.Bounded) ∧
      (∀ overflow g, f.render? overflow (some line) = some g → g.rendered? = some (f.rendered?.getD
        (f.headline ++ String.join (f.trail.map fun l => l.marked line (marker overflow l))))) ∧
      (∀ overflow, ∀ l ∈ f.trail, l.span.Bounded → (marker overflow l).Counts line l.span ∧
        ((l.span.clipped line).Fits line → (marker overflow l).Marks line (l.span.clipped line))) ∧
      (∀ l ∈ f.trail, l.span.offset < Word.count → l.span.length < Word.count → ¬l.span.Bounded →
        (marker .wraps l).Wrapped line l.span) ∧
      (evaluateLine line = .error f → f.rendered? = none ∧
        (∀ overflow, f.report? overflow (some line) = some (f.report (some line))) ∧
        ∀ l ∈ f.trail, l.span.Bounded ∧ l.span.Fits line ∧ ∀ overflow, (marker overflow l).Marks line l.span) := by
  refine ⟨Location.marker line, ?stopped, ?text, ?bounded, ?wrapped, ?pipeline⟩
  case stopped =>
    intro overflow
    simp only [Failure.render?_eq_none_iff, Location.presentable_iff room]
  case text =>
    intro overflow g rendered
    cases written : f.rendered? with
    | some text =>
      rw [Failure.render?_of_written written] at rendered
      cases rendered
      exact written
    | none =>
      rw [Failure.render?_of_unwritten written] at rendered
      obtain ⟨text, report, rfl⟩ := Option.map_eq_some_iff.1 rendered
      exact congrArg some (Failure.eq_marked_of_report? room report)
  case bounded =>
    intro overflow l here bounded
    rw [Location.marker_of_bounded bounded]
    exact ⟨Marker.counts_under line l.span, Marker.marks_under⟩
  case wrapped =>
    intro l here offset length unbounded
    obtain ⟨m, drawn⟩ : ∃ m, Marker.under? .wraps line.toList l.span = some m :=
      Overflow.exists_of_wraps Marker.under?_eq_none_iff
    rw [Location.marker, drawn, Option.getD_some]
    exact Marker.wrapped_of_under? offset length unbounded drawn
  case pipeline =>
    intro failed
    refine ⟨rendered?_of_evaluateLine failed, report?_of_evaluateLine room failed, fun l here => ?_⟩
    have fits : l.span.Fits line := fits_of_evaluateLine failed here
    have whole : l.span.clipped line = l.span := Span.clipped_of_fits fits
    have bounded : l.span.Bounded := fits.bounded room
    have marks : (Marker.under line.toList l.span).Marks line (l.span.clipped line) :=
      Marker.marks_under (by rwa [whole])
    rw [whole] at marks
    refine ⟨bounded, fits, fun overflow => ?_⟩
    rw [Location.marker_of_bounded bounded]
    exact marks

/-- a caret under a character of two bytes, behind a blank of two bytes; in the same line a place that goes on behind
the end, and one that starts inside the blank; and a place whose end wraps around into the line -/
theorem carets_exact_wide :
    let line := "(+\u00a0é)"
    let f := (Failure.of (.unexpectedChar 'é')).tag ⟨4, 2⟩ .parse
    let g := ((Failure.of .outOfRange).tag ⟨6, 9⟩ .call).tag ⟨3, 3⟩ .visit
    let k := (Failure.of .outOfRange).tag ⟨4, 18446744073709551612⟩ .visit
    let text := "Error: unexpected character 'é'\n(+\u00a0é)\n   ^\nwhile parsing at column 4"
    let text' :=
      "Error: value out of range\n(+\u00a0é)\n    ^\nwhile calling function at column 5\n(+\u00a0é)\n   ^^^" ++
        "\nwhile traversing at column 4"
    line.utf8ByteSize < Text.sizeLimit ∧
      (evaluateLine line = .error f ∧ f.render? .stops (some line) = some { f with rendered? := some text } ∧
        ∃ m : Marker, m.Marks line ⟨4, 2⟩ ∧
          text = f.headline ++ String.join [Location.marked line ⟨⟨4, 2⟩, .parse⟩ m]) ∧
      (Span.Bounded ⟨6, 9⟩ ∧ (Span.clipped line ⟨6, 9⟩).Fits line ∧ Span.Bounded ⟨3, 3⟩ ∧
        g.render? .stops (some line) = some { g with rendered? := some text' } ∧
        ∃ m m' : Marker, m.Marks line (Span.clipped line ⟨6, 9⟩) ∧ m'.Counts line ⟨3, 3⟩ ∧
          text' = g.headline ++
            String.join [Location.marked line ⟨⟨6, 9⟩, .call⟩ m, Location.marked line ⟨⟨3, 3⟩, .visit⟩ m']) ∧
      (¬Span.Bounded ⟨4, 18446744073709551612⟩ ∧ k.render? .stops (some line) = none ∧
        ∃ m : Marker, m.Wrapped line ⟨4, 18446744073709551612⟩) := by
  intro line f g k text text'
  have room : line.utf8ByteSize < Text.sizeLimit := by decide
  have failed : evaluateLine line = .error f := by decide +kernel
  have written : f.render? .stops (some line) = some { f with rendered? := some text } := by decide +kernel
  have written' : g.render? .stops (some line) = some { g with rendered? := some text' } := by decide +kernel
  have fits : (Span.clipped line ⟨6, 9⟩).Fits line := Span.fits_of_isValid (by decide) (by decide)
  obtain ⟨marker, -, report, -, -, pipeline⟩ := carets_exact line room f
  obtain ⟨marker', -, report', bounded, -, -⟩ := carets_exact line room g
  obtain ⟨marker'', stopped, -, -, wrapped, -⟩ := carets_exact line room k
  have marks := ((pipeline failed).2.2 ⟨⟨4, 2⟩, .parse⟩ (by decide)).2.2 .stops
  have under := (bounded .stops ⟨⟨6, 9⟩, .call⟩ (by decide) (by decide)).2 fits
  have cut := (bounded .stops ⟨⟨3, 3⟩, .visit⟩ (by decide) (by decide)).1
  have past := wrapped ⟨⟨4, 18446744073709551612⟩, .visit⟩ (by decide) (by decide) (by decide) (by decide)
  have never := (stopped .stops).2 ⟨rfl, rfl, _, List.mem_cons_self, by decide⟩
  exact ⟨room, ⟨failed, written, _, marks, Option.some.inj (report _ _ written)⟩,
    ⟨by decide, fits, by decide, written', _, _, under, cut, Option.some.inj (report' _ _ written')⟩,
    by decide, never, _, past⟩

/-- a place that covers some characters of the line once it is cut off, but stops at no word: either no report on it is
written, or it has as many carets as there are words but one -/
theorem carets_not_always_exact :
    let line := "(+ 1 2)"
    let s : Span := ⟨3, 18446744073709551615⟩
    let f := ((Failure.of .outOfRange).tag ⟨3, 1⟩ .call).tag s .evaluate
    (line.utf8ByteSize < Text.sizeLimit ∧ s.offset < Word.count ∧ s.length < Word.count ∧
      (s.clipped line).Fits line) ∧ f.render? .stops (some line) = none ∧
      ∃ m : Marker, Marker.under? .wraps line.toList s = some m ∧ m.carets = 18446744073709551615 ∧
        ¬m.Marks line (s.clipped line) := by
  intro line s f
  refine ⟨⟨by decide, by decide, by decide, Span.fits_of_isValid (by decide) (by decide)⟩, by decide +kernel,
    ⟨3, 18446744073709551615⟩, by decide +kernel, rfl, fun marks => ?_⟩
  have within : 3 + 18446744073709551615 ≤ line.length + 1 := marks.within
  have length : line.length = 7 := by decide
  omega

end ExactCalc
