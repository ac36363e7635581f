/-
Integers in print, and read again.

Three pieces have to agree here: an integer is written out in full, the lexer takes what is written as one constant, and
the constant is read as an integer. `canonicalText` is the form of a constant that all constants of the same value
share. It is made from the characters alone, so it says what is written again without a number in between.

Results:
- `IsNumeral.eq_digits`: digits without needless zeros are those that their number is written with.
- `isConstant_integerText`: an integer in print is a constant, and it spells the integer.
- `evaluateLine_of_isConstant`: a line that is a constant is one token, and has the value that the constant spells.
- `integerText_signedValue`, `canonicalText_eq_iff`: what a constant spells is written in the canonical form of the
  constant, and no two values share one.
- `integer_roundTrip`: **integers survive printing and reading**.
-/
import ExactCalc.Proofs.DecimalText
import ExactCalc.Proofs.Denotation
import ExactCalc.Proofs.RoundTrip
import ExactCalc.Session

namespace ExactCalc.Number

open Lexeme

/-! ## Digits of one number -/

theorem digitValue_lt {d : Char} (h : d.isDigit = true) : digitValue d < 10 := by
  have bounds := isDigit_bounds h
  have code : digitValue d = d.toNat - 48 := rfl
  omega

theorem digits_digitValue {d : Char} (h : d.isDigit = true) : digits (digitValue d) = [d] := by
  have bounds := isDigit_bounds h
  have code : digitValue d = d.toNat - 48 := rfl
  have small := digitValue_lt h
  rw [digits, Nat.toDigits_of_lt_base small, List.singleton_inj, ← Char.toNat_inj, Nat.toNat_digitChar_of_lt_ten small]
  omega

/-- what stands before the last digit of a numeral is a numeral too, and not that of zero -/
theorem IsNumeral.front {front : List Char} {d : Char} {n : ℕ} (h : IsNumeral (front ++ [d]) n) (more : front ≠ []) :
    IsNumeral front (decimalValue front) ∧ front.head? ≠ some '0' := by
  obtain ⟨-, all⟩ := isDigits_iff.1 h.digits
  have leading : front.head? ≠ some '0' := by
    intro zero
    have whole := h.leading (by rw [List.head?_append_of_ne_nil _ more, zero])
    rcases List.append_eq_singleton_iff.1 whole with ⟨empty, -⟩ | ⟨-, empty⟩
    · exact more empty
    · cases empty
  have digits : ∀ c ∈ front, c.isDigit = true := fun c hc => all c (List.mem_append_left _ hc)
  exact ⟨⟨isDigits_iff.2 ⟨more, digits⟩, rfl, fun zero => absurd zero leading⟩, leading⟩

/-- a number has one numeral: digits without needless zeros are those that it is written with -/
theorem IsNumeral.eq_digits {ds : List Char} {n : ℕ} (h : IsNumeral ds n) : ds = Number.digits n := by
  induction ds using List.reverseRecOn generalizing n with
  | nil => cases h.digits
  | append_singleton front d ih =>
    have digit : d.isDigit = true := (isDigits_iff.1 h.digits).2 d (List.mem_append_right _ List.mem_cons_self)
    have value : 10 * decimalValue front + digitValue d = n := by rw [← decimalValue_concat, h.value]
    by_cases alone : front = []
    · subst alone
      rw [← value, ← digits_digitValue digit]
      show Number.digits (digitValue d) = Number.digits (10 * 0 + digitValue d)
      rw [Nat.mul_zero, Nat.zero_add]
    · obtain ⟨numeral, leading⟩ := h.front alone
      have written : front = Number.digits (decimalValue front) := ih numeral
      have positive : 0 < decimalValue front := by
        rw [Nat.pos_iff_ne_zero]
        intro zero
        rw [written, zero] at leading
        exact leading rfl
      calc front ++ [d]
        _ = Number.digits (decimalValue front) ++ Number.digits (digitValue d) := by
          rw [← written, digits_digitValue digit]
        _ = Number.digits (10 * decimalValue front + digitValue d) :=
          Nat.toDigits_append_toDigits (by decide) positive (digitValue_lt digit)
        _ = Number.digits n := by rw [value]

theorem digits_eq_zero_iff {n : ℕ} : digits n = ['0'] ↔ n = 0 := by
  constructor
  · intro written
    have value := (isNumeral_digits n).value
    rw [written] at value
    exact value.symm
  · rintro rfl
    rfl

/-! ## Constants in canonical form -/

/-- digits without the zeros in front, one digit being left at least -/
def withoutLeadingZeros (ds : List Char) : List Char :=
  match ds.dropWhile (· == '0') with
  | [] => ['0']
  | ds => ds

/-- the form of a constant that all constants of the same value share: without a `+`, without needless zeros, and with
a `-` only where a digit other than zero follows -/
def canonicalText : List Char → List Char
  | '+' :: ds => withoutLeadingZeros ds
  | '-' :: ds => if withoutLeadingZeros ds = ['0'] then ['0'] else '-' :: withoutLeadingZeros ds
  | ds => withoutLeadingZeros ds

example : canonicalText "-0070".toList = "-70".toList := by decide

example : canonicalText "-00".toList = "0".toList := by decide

theorem isNumeral_withoutLeadingZeros {ds : List Char} (h : isDigits ds = true) :
    IsNumeral (withoutLeadingZeros ds) (decimalValue ds) := by
  obtain ⟨-, all⟩ := isDigits_iff.1 h
  have whole : ds = List.replicate (ds.takeWhile (· == '0')).length '0' ++ ds.dropWhile (· == '0') := by
    rw [← takeWhile_zeros, List.takeWhile_append_dropWhile]
  have value : decimalValue ds = decimalValue (ds.dropWhile (· == '0')) := by
    conv_lhs => rw [whole]
    rw [decimalValue_append, decimalValue_zeros, Nat.zero_mul, Nat.zero_add]
  have first := List.head?_dropWhile_not (· == '0') ds
  rw [value, withoutLeadingZeros]
  cases left : ds.dropWhile (· == '0') with
  | nil => exact ⟨rfl, rfl, fun _ => rfl⟩
  | cons c cs =>
    refine ⟨isDigits_iff.2 ⟨List.cons_ne_nil c cs, ?_⟩, rfl, ?_⟩
    · intro d hd
      apply all
      rw [whole, left]
      exact List.mem_append_right _ hd
    · rintro ⟨⟩
      rw [left] at first
      cases first

theorem withoutLeadingZeros_eq {ds : List Char} (h : isDigits ds = true) :
    withoutLeadingZeros ds = digits (decimalValue ds) :=
  (isNumeral_withoutLeadingZeros h).eq_digits

theorem canonicalText_of_isDigits {ds : List Char} (h : isDigits ds = true) :
    canonicalText ds = withoutLeadingZeros ds := by
  obtain ⟨-, digits⟩ := isDigits_iff.1 h
  unfold canonicalText
  split
  · exact absurd (digits '+' List.mem_cons_self) (by decide)
  · exact absurd (digits '-' List.mem_cons_self) (by decide)
  · rfl

/-! ## Integers in print -/

theorem toList_integerText_natCast (n : ℕ) : (integerText n).toList = digits n := by
  rw [integerText, String.toList_ofList, signOf, if_neg (by omega), List.nil_append, Int.natAbs_natCast]

theorem toList_integerText_neg {n : ℕ} (h : n ≠ 0) : (integerText (-n)).toList = '-' :: digits n := by
  rw [integerText, String.toList_ofList, signOf, if_pos (by omega), List.singleton_append, Int.natAbs_neg,
    Int.natAbs_natCast]

/-- an integer in print is a constant, and it spells the integer -/
theorem isConstant_integerText (n : ℤ) :
    isConstant (integerText n).toList = true ∧ signedValue (integerText n).toList = n := by
  have numeral := isNumeral_digits n.natAbs
  rw [integerText, String.toList_ofList, signOf]
  split_ifs with negative
  · refine ⟨isConstant_iff.2 (.inr (.inr ⟨_, rfl, numeral.digits⟩)), ?_⟩
    rw [List.singleton_append, signedValue, numeral.value]
    omega
  · rw [List.nil_append]
    refine ⟨isConstant_iff.2 (.inl numeral.digits), ?_⟩
    rw [signedValue_of_isDigits numeral.digits, numeral.value]
    omega

/-- what a constant spells is written in the canonical form of the constant -/
theorem integerText_signedValue {cs : List Char} (h : isConstant cs = true) :
    (integerText (signedValue cs)).toList = canonicalText cs := by
  rcases isConstant_iff.1 h with unsigned | ⟨ds, rfl, digits⟩ | ⟨ds, rfl, digits⟩
  · rw [signedValue_of_isDigits unsigned, toList_integerText_natCast, canonicalText_of_isDigits unsigned,
      withoutLeadingZeros_eq unsigned]
  · rw [signedValue, toList_integerText_natCast, canonicalText, withoutLeadingZeros_eq digits]
  · rw [signedValue, canonicalText, withoutLeadingZeros_eq digits]
    simp only [digits_eq_zero_iff]
    split_ifs with zero
    · rw [zero]
      rfl
    · exact toList_integerText_neg zero

/-- constants have one canonical form exactly if they spell one integer -/
theorem canonicalText_eq_iff {cs ds : List Char} (hc : isConstant cs = true) (hd : isConstant ds = true) :
    canonicalText cs = canonicalText ds ↔ signedValue cs = signedValue ds := by
  rw [← integerText_signedValue hc, ← integerText_signedValue hd]
  constructor
  · intro same
    have values := congrArg signedValue same
    rwa [(isConstant_integerText _).2, (isConstant_integerText _).2] at values
  · intro same
    rw [same]

/-! ## Constants read again -/

/-- a line that is a constant is one token -/
theorem scan_of_isConstant {s : String} (h : isConstant s.toList = true) : Token.scan s = [⟨.constant, 0, s⟩] := by
  have first : first s.toList = ⟨.constant, s.toList, []⟩ := by
    have taken : first (s.toList ++ []) = ⟨.constant, s.toList, []⟩ := first_constant h rfl
    rwa [List.append_nil] at taken
  obtain ⟨peek, advance⟩ := Cursor.peek_of_first first 0
  rw [String.ofList_toList] at peek
  have more : (Cursor.start s).peek.kind ≠ .endOfInput := by simp [Cursor.start, peek]
  calc Token.scan s
    _ = (Cursor.start s).peek :: (Cursor.start s).advance.tokens := Cursor.tokens_of_token more
    _ = [⟨.constant, 0, s⟩] := by rw [Cursor.start, peek, advance, Cursor.tokens_of_end rfl]

/-- a line that is a constant is read as this atom and nothing else -/
theorem parse_of_isConstant {s : String} (h : isConstant s.toList = true) :
    (Expr.parse s).map Located.value = .ok (.atom ⟨.constant, 0, s⟩) := by
  have wellFormed : Expr.WellFormed 0 (.atom ⟨.constant, 0, s⟩) := by
    refine ⟨trivial, ?_, Nat.zero_le _⟩
    intro t ht
    rw [List.mem_singleton.1 ht]
    exact h
  have read := Expr.parse_text wellFormed
  rwa [Expr.text_atom] at read

theorem evaluate_atom_of_isSpelled {t : Token} (spelled : t.isSpelled = true) (constant : t.kind = .constant) :
    (Expr.atom t).evaluate = .ok (some (.integer (signedValue t.text.toList))) := by
  rw [Expr.evaluate_atom, (Expr.atomValue_eq_ok_iff spelled).2 ⟨constant, rfl⟩]
  rfl

/-- a line that is a constant has the value that the constant spells -/
theorem evaluateLine_of_isConstant {s : String} (h : isConstant s.toList = true) :
    evaluateLine s = .ok (some (.integer (signedValue s.toList))) := by
  obtain ⟨span, read⟩ := Expr.map_value_eq_ok_iff.1 (parse_of_isConstant h)
  rw [evaluateLine_of_read read]
  exact evaluate_atom_of_isSpelled h rfl

/-- **Integers survive printing and reading.** Whatever number of places is asked for, or none, an integer in print is a
line of one token, a constant, which is read as that integer and is the value of the line. The other way round, every
constant among the tokens of a line is read as an integer, its value alone and as a line of its own, and this is printed
as the canonical form of the constant. -/
theorem integer_roundTrip :
    (∀ (n : ℤ) (places? : Option ℕ),
      Token.scan ((integer n).text places?) = [⟨.constant, 0, (integer n).text places?⟩] ∧
      ofText ((integer n).text places?) = .ok (.integer n) ∧
      evaluateLine ((integer n).text places?) = .ok (some (.integer n))) ∧
    ∀ (line : String), ∀ t ∈ Token.scan line, t.kind = .constant →
      ∃ a, ofText t.text = .ok a ∧ (Expr.atom t).evaluate = .ok (some a) ∧ evaluateLine t.text = .ok (some a) ∧
        ∀ places?, (a.text places?).toList = canonicalText t.text.toList := by
  constructor
  · intro n places?
    obtain ⟨constant, value⟩ := isConstant_integerText n
    have read := ofText_of_isConstant constant
    have evaluated := evaluateLine_of_isConstant constant
    rw [value] at read evaluated
    exact ⟨scan_of_isConstant constant, read, evaluated⟩
  · intro line t member kind
    have spelled : t.isSpelled = true := Token.isSpelled_of_mem_scan member (by rw [Token.isAtomic, kind]; rfl)
    have constant : isConstant t.text.toList = true := by
      rwa [Token.isSpelled, kind] at spelled
    refine ⟨_, ofText_of_isConstant constant, evaluate_atom_of_isSpelled spelled kind,
      evaluateLine_of_isConstant constant, ?_⟩
    intro places?
    exact integerText_signedValue constant

/-- a constant with a sign and needless zeros, in the middle of a line -/
theorem integer_roundTrip_zeros :
    let t : Token := ⟨.constant, 3, "-0070"⟩
    t ∈ Token.scan "(+ -0070 1/2" ∧ ofText "-0070" = .ok (.integer (-70)) ∧
      ∀ places?, ((integer (-70)).text places?).toList = "-70".toList := by
  intro t
  have member : t ∈ Token.scan "(+ -0070 1/2" := by decide +kernel
  obtain ⟨a, read, -, -, printed⟩ := integer_roundTrip.2 _ t member rfl
  have value : ofText "-0070" = .ok (.integer (-70)) := rfl
  cases Except.ok.inj (value.symm.trans read)
  have canonical : canonicalText t.text.toList = "-70".toList := by decide
  rw [canonical] at printed
  exact ⟨member, value, printed⟩

end ExactCalc.Number
