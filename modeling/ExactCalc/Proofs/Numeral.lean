/-
What the texts of integers stand for.

`Number.decimalValue`: the positional value of digits, the last one counting ones. `Number.signedValue`: the same with
a sign in front, which may be left out. `Number.Spelled signs cs n`: the text is one of these sign parts with grouped
digits behind it, and stands for this integer. A text is read in three layers, each of which takes off a sign under a
condition of its own, and each layer is a set of sign parts made out of that below.

Results:
- `ofDigitChars_eq`: shifting and adding from the left gives the positional value.
- `spelled_dropPlus_iff`: what taking off one `+` does to a set of sign parts.
- `exists_unsignedOf?_iff`, `exists_naturalOf?_iff`, `integerOf?_eq_some_iff`: what each layer reads.
- `ofText_of_isConstant`: every text that is spelled as a constant is read, and as what its digits and its sign say.
- `ofText_eq_ok_iff`: what all layers together read.
- `literal_language`: **literals are one language**, that of five sign parts.
-/
import Mathlib.Data.Nat.Digits.Defs
import ExactCalc.Number.Literal
import ExactCalc.Proofs.Lexical

namespace ExactCalc.Number

open Lexeme

/-! ## Values -/

/-- what a digit counts -/
def digitValue (d : Char) : ℕ :=
  d.toNat - '0'.toNat

/-- the positional value of digits -/
def decimalValue (ds : List Char) : ℕ :=
  Nat.ofDigits 10 (ds.reverse.map digitValue)

/-- the value of digits behind an optional sign -/
def signedValue : List Char → ℤ
  | '-' :: ds => -(decimalValue ds : ℤ)
  | '+' :: ds => decimalValue ds
  | ds => decimalValue ds

theorem decimalValue_concat (ds : List Char) (d : Char) :
    decimalValue (ds ++ [d]) = 10 * decimalValue ds + digitValue d := by
  rw [decimalValue, List.reverse_append, List.reverse_singleton, List.singleton_append, List.map_cons,
    Nat.ofDigits_cons, decimalValue, Nat.add_comm]

/-- shifting and adding from the left gives the positional value -/
theorem ofDigitChars_eq (ds : List Char) : Nat.ofDigitChars 10 ds 0 = decimalValue ds := by
  induction ds using List.reverseRecOn with
  | nil => rfl
  | append_singleton ds d ih =>
    rw [Nat.ofDigitChars_append, Nat.ofDigitChars_cons, Nat.ofDigitChars_nil, ih, decimalValue_concat, digitValue]

/-- the digits of a constant stand alone or behind one of the two signs -/
theorem isConstant_iff {cs : List Char} : isConstant cs = true ↔
    isDigits cs = true ∨ (∃ ds, cs = '+' :: ds ∧ isDigits ds = true) ∨ ∃ ds, cs = '-' :: ds ∧ isDigits ds = true := by
  cases cs with
  | nil => simp [isConstant, isDigits]
  | cons c cs =>
    rw [isConstant, Bool.or_eq_true, Bool.and_eq_true, isSign, Bool.or_eq_true, beq_iff_eq, beq_iff_eq]
    simp only [List.cons.injEq, and_assoc, exists_and_left, exists_eq_left', or_and_right]

theorem signedValue_of_isDigits {ds : List Char} (h : isDigits ds = true) : signedValue ds = decimalValue ds := by
  obtain ⟨-, digits⟩ := isDigits_iff.1 h
  unfold signedValue
  split
  · exact absurd (digits '-' List.mem_cons_self) (by decide)
  · exact absurd (digits '+' List.mem_cons_self) (by decide)
  · rfl

/-! ## Grouped digits -/

/-- a digit, and then digits and underscores -/
def isGrouped : List Char → Bool
  | [] => false
  | d :: cs => d.isDigit && cs.all fun c => c.isDigit || c == '_'

/-- the value of grouped digits, which is that of the digits alone -/
def groupedValue (cs : List Char) : ℕ :=
  decimalValue (cs.filter (· ≠ '_'))

theorem isGrouped_cons_of_not_isDigit {c : Char} (h : c.isDigit = false) (cs : List Char) :
    isGrouped (c :: cs) = false := by
  rw [isGrouped, h, Bool.false_and]

theorem isGrouped_of_isDigits {ds : List Char} (h : isDigits ds = true) : isGrouped ds = true := by
  obtain ⟨nonempty, digits⟩ := isDigits_iff.1 h
  cases ds with
  | nil => exact absurd rfl nonempty
  | cons d ds =>
    rw [isGrouped, digits d List.mem_cons_self, Bool.true_and, List.all_eq_true]
    intro c hc
    rw [digits c (List.mem_cons_of_mem d hc), Bool.true_or]

theorem ne_underscore_of_isDigit {d : Char} (h : d.isDigit = true) : d ≠ '_' := by
  rintro rfl
  cases h

theorem groupedValue_of_isDigits {ds : List Char} (h : isDigits ds = true) : groupedValue ds = decimalValue ds := by
  rw [groupedValue, List.filter_eq_self.2]
  intro d hd
  exact decide_eq_true (ne_underscore_of_isDigit ((isDigits_iff.1 h).2 d hd))

/-- without its underscores a grouped text consists of its digits -/
theorem filter_isDigit_of_isGrouped {cs : List Char} (h : isGrouped cs = true) :
    cs.filter Char.isDigit = cs.filter (· ≠ '_') := by
  apply List.filter_congr
  intro c hc
  have sort : c.isDigit = true ∨ c = '_' := by
    cases cs with
    | nil => cases hc
    | cons d cs =>
      obtain ⟨first, others⟩ := Bool.and_eq_true_iff.1 h
      rcases List.mem_cons.1 hc with rfl | hc
      · exact .inl first
      · simpa using List.all_eq_true.1 others c hc
  rcases sort with digit | rfl
  · simp [digit, ne_underscore_of_isDigit digit]
  · decide

/-- grouped digits are read as the value of the digits -/
theorem unsignedOf?_eq (cs : List Char) :
    unsignedOf? cs = if isGrouped cs = true then some (groupedValue cs) else none := by
  cases cs with
  | nil => rfl
  | cons d ds =>
    have test : (d.isDigit && (d :: ds).all fun c => c.isDigit || c == '_') = isGrouped (d :: ds) := by
      rw [isGrouped, List.all_cons]
      cases d.isDigit <;> simp
    rw [unsignedOf?, test]
    split_ifs with grouped
    · rw [ofDigitChars_eq, filter_isDigit_of_isGrouped grouped]
      rfl
    · rfl

/-! ## Signs -/

/-- the text is this sign part with grouped digits behind it, and it stands for this integer -/
def SpelledWith (sign cs : List Char) (n : ℤ) : Prop :=
  ∃ digits, cs = sign ++ digits ∧ isGrouped digits = true ∧
    n = if '-' ∈ sign then -(groupedValue digits : ℤ) else groupedValue digits

/-- the text has one of these sign parts, with which it stands for this integer -/
def Spelled (signs : List (List Char)) (cs : List Char) (n : ℤ) : Prop :=
  ∃ sign ∈ signs, SpelledWith sign cs n

section
variable {sign cs : List Char} {n : ℤ}

theorem spelledWith_nil : SpelledWith [] cs n ↔ isGrouped cs = true ∧ n = groupedValue cs := by
  simp [SpelledWith]

theorem spelledWith_minus : SpelledWith ['-'] ('-' :: cs) n ↔ isGrouped cs = true ∧ n = -(groupedValue cs : ℤ) := by
  simp [SpelledWith]

theorem spelledWith_plus : SpelledWith ('+' :: sign) ('+' :: cs) n ↔ SpelledWith sign cs n := by
  simp [SpelledWith]

/-- grouped digits start with no sign, so what a text starts with its sign part starts with -/
theorem SpelledWith.head?_eq {c : Char} (digit : c.isDigit = false) (h : SpelledWith sign (c :: cs) n) :
    sign.head? = some c := by
  obtain ⟨digits, whole, grouped, -⟩ := h
  cases sign with
  | nil =>
    rw [List.nil_append] at whole
    rw [← whole, isGrouped_cons_of_not_isDigit digit] at grouped
    cases grouped
  | cons d sign => rw [List.head?_cons, (List.cons.inj whole).1]

/-- a text with a sign part that is not empty starts as this does -/
theorem SpelledWith.head?_text {c : Char} (h : SpelledWith (c :: sign) cs n) : cs.head? = some c := by
  obtain ⟨digits, rfl, -, -⟩ := h
  rfl

end

/-- where one `+` is dropped first, every sign part may have one in front, and those that start with one already cannot
stand alone -/
theorem spelled_dropPlus_iff {signs : List (List Char)} {cs : List Char} {n : ℤ} :
    Spelled signs (dropPlus cs) n ↔
      Spelled (signs.map ('+' :: ·) ++ signs.filter fun sign => sign.head? ≠ some '+') cs n := by
  by_cases plus : cs.head? = some '+'
  · obtain ⟨ds, rfl⟩ := List.head?_eq_some_iff.1 plus
    constructor
    · rintro ⟨sign, member, spelled⟩
      exact ⟨_, List.mem_append_left _ (List.mem_map_of_mem member), spelledWith_plus.2 spelled⟩
    · rintro ⟨sign, member, spelled⟩
      rcases List.mem_append.1 member with added | kept
      · obtain ⟨shorter, original, rfl⟩ := List.mem_map.1 added
        exact ⟨shorter, original, spelledWith_plus.1 spelled⟩
      · have other := of_decide_eq_true (List.mem_filter.1 kept).2
        exact absurd (spelled.head?_eq rfl) other
  · have same : dropPlus cs = cs := by
      unfold dropPlus
      split
      · exact absurd rfl plus
      · rfl
    rw [same]
    constructor
    · rintro ⟨sign, member, spelled⟩
      refine ⟨sign, List.mem_append_right _ (List.mem_filter.2 ⟨member, decide_eq_true ?_⟩), spelled⟩
      intro first
      obtain ⟨rest, rfl⟩ := List.head?_eq_some_iff.1 first
      exact plus spelled.head?_text
    · rintro ⟨sign, member, spelled⟩
      rcases List.mem_append.1 member with added | kept
      · obtain ⟨sign, -, rfl⟩ := List.mem_map.1 added
        exact absurd spelled.head?_text plus
      · exact ⟨sign, List.mem_of_mem_filter kept, spelled⟩

/-- the sign parts of a natural number -/
def naturalSigns : List (List Char) :=
  ["+".toList, "".toList]

/-- the sign parts of an integer -/
def integerSigns : List (List Char) :=
  ["+".toList, "".toList, "-".toList]

/-- the sign parts that a literal may have -/
def signParts : List (List Char) :=
  ["".toList, "+".toList, "++".toList, "-".toList, "+-".toList]

theorem Spelled.mono {signs others : List (List Char)} {cs : List Char} {n : ℤ} (sub : signs ⊆ others)
    (h : Spelled signs cs n) : Spelled others cs n := by
  obtain ⟨sign, member, spelled⟩ := h
  exact ⟨sign, sub member, spelled⟩

/-! ## Reading literals -/

section
variable {cs : List Char} {n : ℤ}

theorem unsignedOf?_eq_some_iff {m : ℕ} : unsignedOf? cs = some m ↔ isGrouped cs = true ∧ m = groupedValue cs := by
  rw [unsignedOf?_eq]
  split_ifs with grouped
  · simp [grouped, eq_comm]
  · simp [grouped]

theorem map_cast_eq_some_iff {o : Option ℕ} :
    (o.map fun m => (m : ℤ)) = some n ↔ ∃ m : ℕ, o = some m ∧ n = m := by
  cases o with
  | none => simp
  | some m => simp [eq_comm]

theorem map_neg_eq_some_iff {o : Option ℕ} :
    (o.map fun m => -(m : ℤ)) = some n ↔ ∃ m : ℕ, o = some m ∧ n = -(m : ℤ) := by
  cases o with
  | none => simp
  | some m => simp [eq_comm]

theorem exists_unsignedOf?_iff {f : ℕ → ℤ} :
    (∃ m : ℕ, unsignedOf? cs = some m ∧ n = f m) ↔ isGrouped cs = true ∧ n = f (groupedValue cs) := by
  simp only [unsignedOf?_eq_some_iff, and_assoc, exists_and_left, exists_eq_left]

/-- digits may have a `+` of their own -/
theorem exists_naturalOf?_iff : (∃ m : ℕ, naturalOf? cs = some m ∧ n = m) ↔ Spelled naturalSigns cs n := by
  calc (∃ m : ℕ, unsignedOf? (dropPlus cs) = some m ∧ n = m)
    _ ↔ SpelledWith [] (dropPlus cs) n := by rw [exists_unsignedOf?_iff, spelledWith_nil]
    _ ↔ Spelled [[]] (dropPlus cs) n := by simp only [Spelled, List.mem_singleton, exists_eq_left]
    _ ↔ Spelled naturalSigns cs n := spelled_dropPlus_iff

theorem mem_integerSigns_iff {sign : List Char} : sign ∈ integerSigns ↔ sign = ['+'] ∨ sign = [] ∨ sign = ['-'] := by
  simp [integerSigns]

/-- behind a `-` come grouped digits and no other sign -/
theorem spelled_minus_iff :
    Spelled integerSigns ('-' :: cs) n ↔ isGrouped cs = true ∧ n = -(groupedValue cs : ℤ) := by
  rw [← spelledWith_minus]
  constructor
  · rintro ⟨sign, member, spelled⟩
    have first := spelled.head?_eq rfl
    rcases mem_integerSigns_iff.1 member with rfl | rfl | rfl
    · cases first
    · cases first
    · exact spelled
  · intro spelled
    exact ⟨['-'], by decide, spelled⟩

theorem spelled_of_not_minus (h : cs.head? ≠ some '-') :
    Spelled integerSigns cs n ↔ Spelled naturalSigns cs n := by
  constructor
  · rintro ⟨sign, member, spelled⟩
    rcases mem_integerSigns_iff.1 member with rfl | rfl | rfl
    · exact ⟨['+'], by decide, spelled⟩
    · exact ⟨[], by decide, spelled⟩
    · exact absurd spelled.head?_text h
  · exact Spelled.mono (by decide)

/-- a `-` is a sign unless a `+` comes behind it -/
theorem integerOf?_eq_some_iff : integerOf? cs = some n ↔ Spelled integerSigns cs n := by
  unfold integerOf?
  split
  · rw [spelled_minus_iff, isGrouped_cons_of_not_isDigit rfl]
    simp
  · rw [spelled_minus_iff, map_neg_eq_some_iff, exists_unsignedOf?_iff (f := fun m => -(m : ℤ))]
  · rename_i other
    rw [map_cast_eq_some_iff, exists_naturalOf?_iff, spelled_of_not_minus]
    intro first
    obtain ⟨ds, rfl⟩ := List.head?_eq_some_iff.1 first
    exact other ds rfl

end

theorem integerOf?_dropPlus_eq_some_iff {cs : List Char} {n : ℤ} :
    integerOf? (dropPlus cs) = some n ↔ Spelled signParts cs n := by
  have forward :
      integerSigns.map ('+' :: ·) ++ integerSigns.filter (fun sign => sign.head? ≠ some '+') ⊆ signParts := by decide
  have backward :
      signParts ⊆ integerSigns.map ('+' :: ·) ++ integerSigns.filter fun sign => sign.head? ≠ some '+' := by decide
  rw [integerOf?_eq_some_iff, spelled_dropPlus_iff]
  exact ⟨Spelled.mono forward, Spelled.mono backward⟩

/-- a constant is read as the integer that it spells -/
theorem ofText_of_isConstant {s : String} (h : isConstant s.toList = true) :
    ofText s = .ok (.integer (signedValue s.toList)) := by
  have literal : Spelled signParts s.toList (signedValue s.toList) := by
    rcases isConstant_iff.1 h with unsigned | ⟨ds, signed, digits⟩ | ⟨ds, signed, digits⟩
    · refine ⟨[], by decide, spelledWith_nil.2 ⟨isGrouped_of_isDigits unsigned, ?_⟩⟩
      rw [signedValue_of_isDigits unsigned, groupedValue_of_isDigits unsigned]
    · rw [signed, signedValue]
      refine ⟨['+'], by decide, spelledWith_plus.2 (spelledWith_nil.2 ⟨isGrouped_of_isDigits digits, ?_⟩)⟩
      rw [groupedValue_of_isDigits digits]
    · rw [signed, signedValue]
      refine ⟨['-'], by decide, spelledWith_minus.2 ⟨isGrouped_of_isDigits digits, ?_⟩⟩
      rw [groupedValue_of_isDigits digits]
  rw [ofText, integerOf?_dropPlus_eq_some_iff.2 literal]

/-- a text is read exactly if it has one of the sign parts with grouped digits behind it, and as what these stand for -/
theorem ofText_eq_ok_iff {s : String} {a : Number} :
    ofText s = .ok a ↔ ∃ sign ∈ signParts, ∃ digits, s.toList = sign ++ digits ∧ isGrouped digits = true ∧
      a = .integer (if '-' ∈ sign then -(groupedValue digits : ℤ) else groupedValue digits) := by
  have read : ofText s = .ok a ↔ ∃ n, integerOf? (dropPlus s.toList) = some n ∧ a = .integer n := by
    rw [ofText]
    cases integerOf? (dropPlus s.toList) with
    | none => simp
    | some n => simp [eq_comm]
  simp only [read, integerOf?_dropPlus_eq_some_iff]
  constructor
  · rintro ⟨n, ⟨sign, member, digits, whole, grouped, rfl⟩, rfl⟩
    exact ⟨sign, member, digits, whole, grouped, rfl⟩
  · rintro ⟨sign, member, digits, whole, grouped, rfl⟩
    exact ⟨_, ⟨sign, member, digits, whole, grouped, rfl⟩, rfl⟩

/-- **Literals are one language.** A text is read exactly if it is one of five sign parts with grouped digits behind
it: a digit, and then digits and underscores. It is read as the integer that the digits without the underscores are in
decimal, and as the negative of it if the sign part has a `-`. Any other text is reported as a whole, together with a
`+` that it starts with. -/
theorem literal_language (s : String) :
    (∀ a, ofText s = .ok a ↔ ∃ sign ∈ signParts, ∃ digits, s.toList = sign ++ digits ∧ isGrouped digits = true ∧
      a = .integer (if '-' ∈ sign then -(groupedValue digits : ℤ) else groupedValue digits)) ∧
    ∀ r, ofText s = .error r ↔
      (¬∃ sign ∈ signParts, ∃ digits, s.toList = sign ++ digits ∧ isGrouped digits = true) ∧ r = .invalidLiteral s := by
  refine ⟨fun a => ofText_eq_ok_iff, ?_⟩
  intro r
  constructor
  · intro failed
    refine ⟨?_, ofText_error failed⟩
    rintro ⟨sign, member, digits, whole, grouped⟩
    have read := ofText_eq_ok_iff.2 ⟨sign, member, digits, whole, grouped, rfl⟩
    rw [failed] at read
    cases read
  · rintro ⟨other, rfl⟩
    cases result : ofText s with
    | ok a =>
      obtain ⟨sign, member, digits, whole, grouped, -⟩ := ofText_eq_ok_iff.1 result
      exact absurd ⟨sign, member, digits, whole, grouped⟩ other
    | error r => rw [ofText_error result]

end ExactCalc.Number
