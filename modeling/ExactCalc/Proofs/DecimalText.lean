/-
Numbers in decimal.

`IsDecimal cs m places`: the text `cs` is that of m/10^places, character by character: a sign, the whole part and the
places behind the point. `readDecimal?`: the value of a decimal text, which knows nothing of the number of places.
Sign and digits are both taken from the rounded integer. So a carry into the whole part, or a value below zero that is
rounded to zero, needs no case of its own.

Results:
- `isNumeral_digits`, `isPlaces_fractionDigits`: the whole part has no needless zeros and the places have all theirs.
- `readDecimal?_of_isDecimal`: a decimal text has one value, and it is that of the integer behind it.
- `shortText_parts`: the text without a number of places is that with twenty but for its zeros.
- `text_rounded`: **decimal texts are correctly rounded and decode to the rounded value**.
-/
import ExactCalc.Proofs.Numeral
import ExactCalc.Proofs.Rounding

namespace ExactCalc.Number

open Lexeme

/-! ## Digits -/

theorem decimalValue_append (cs ds : List Char) :
    decimalValue (cs ++ ds) = decimalValue cs * 10 ^ ds.length + decimalValue ds := by
  simp only [decimalValue, List.reverse_append, List.map_append, Nat.ofDigits_append, List.length_map,
    List.length_reverse]
  ring

theorem decimalValue_zeros (n : ℕ) : decimalValue (List.replicate n '0') = 0 := by
  rw [← ofDigitChars_eq, Nat.ofDigitChars_replicate_zero, Nat.mul_zero]

/-- the digits of a natural number as they are written, without zeros in front that are not needed -/
structure IsNumeral (ds : List Char) (n : ℕ) : Prop where
  digits : isDigits ds = true
  value : decimalValue ds = n
  leading : ds.head? = some '0' → ds = ['0']

/-- digits behind a point: so many of them, and what they count in the last place -/
structure IsPlaces (ds : List Char) (length n : ℕ) : Prop where
  length_eq : ds.length = length
  digits : ∀ d ∈ ds, d.isDigit = true
  value : decimalValue ds = n

theorem head?_digits (n : ℕ) (h : (digits n).head? = some '0') : digits n = ['0'] := by
  induction n using Nat.strong_induction_on with
  | h n ih =>
    rcases Nat.lt_or_ge n 10 with small | large
    · rw [digits, Nat.toDigits_of_lt_base small] at h ⊢
      rw [List.head?_singleton, Option.some.injEq] at h
      rw [h]
    · -- the first digit is that of a smaller number, which would have to be zero
      have shorter : digits n = digits (n / 10) ++ [(n % 10).digitChar] := Nat.toDigits_of_base_le (by decide) large
      have nonempty : digits (n / 10) ≠ [] := Nat.toDigits_ne_nil
      rw [shorter, List.head?_append_of_ne_nil _ nonempty] at h
      have zero := ih (n / 10) (by omega) h
      have value : Nat.ofDigitChars 10 (digits (n / 10)) 0 = n / 10 := Nat.ofDigitChars_ten_toDigits
      rw [zero] at value
      have : (0 : ℕ) = n / 10 := value
      omega

theorem isNumeral_digits (n : ℕ) : IsNumeral (digits n) n := by
  refine ⟨isDigits_iff.2 ⟨Nat.toDigits_ne_nil, ?_⟩, ?_, head?_digits n⟩
  · intro d hd
    exact Nat.isDigit_of_mem_toDigits (by decide) (by decide) hd
  · rw [← ofDigitChars_eq]
    exact Nat.ofDigitChars_ten_toDigits

theorem isPlaces_fractionDigits (m : ℕ) {places : ℕ} (positive : 0 < places) :
    IsPlaces (fractionDigits m places) places (m % 10 ^ places) := by
  have written := isNumeral_digits (m % 10 ^ places)
  have fits : (digits (m % 10 ^ places)).length ≤ places := by
    rw [digits, Nat.length_toDigits_le_iff (by decide) positive]
    exact Nat.mod_lt _ (by positivity)
  refine ⟨length_padded fits, ?_, ?_⟩
  · intro d hd
    rcases List.mem_append.1 hd with zero | digit
    · rw [List.eq_of_mem_replicate zero]
      rfl
    · exact (isDigits_iff.1 written.digits).2 d digit
  · show decimalValue (List.replicate _ '0' ++ digits (m % 10 ^ places)) = m % 10 ^ places
    rw [decimalValue_append, decimalValue_zeros, Nat.zero_mul, Nat.zero_add, written.value]

theorem takeWhile_zeros (ds : List Char) :
    ds.takeWhile (· == '0') = List.replicate (ds.takeWhile (· == '0')).length '0' := by
  rw [List.eq_replicate_iff]
  refine ⟨rfl, ?_⟩
  intro d hd
  have zero : (d == '0') = true := List.mem_takeWhile_imp (p := (· == '0')) hd
  exact beq_iff_eq.1 zero

/-- a list is what is left without its final zeros, and these -/
theorem eq_append_zeros (ds : List Char) :
    ∃ zeros, ds = (ds.reverse.dropWhile (· == '0')).reverse ++ List.replicate zeros '0' := by
  refine ⟨(ds.reverse.takeWhile (· == '0')).length, ?_⟩
  calc ds
    _ = (ds.reverse.takeWhile (· == '0') ++ ds.reverse.dropWhile (· == '0')).reverse := by
      rw [List.takeWhile_append_dropWhile, List.reverse_reverse]
    _ = (ds.reverse.dropWhile (· == '0')).reverse ++ (ds.reverse.takeWhile (· == '0')).reverse := List.reverse_append
    _ = (ds.reverse.dropWhile (· == '0')).reverse ++ List.replicate _ '0' := by
      rw [← List.reverse_replicate, ← takeWhile_zeros]

/-- only zeros at the end are dropped, and all of them but for a first digit -/
theorem exists_withoutFinalZeros {ds : List Char} (h : ds ≠ []) :
    ∃ zeros, ds = withoutFinalZeros ds ++ List.replicate zeros '0' ∧ withoutFinalZeros ds ≠ [] ∧
      ((withoutFinalZeros ds).getLast? = some '0' → withoutFinalZeros ds = ['0']) := by
  obtain ⟨zeros, whole⟩ := eq_append_zeros ds
  cases kept : (ds.reverse.dropWhile (· == '0')).reverse with
  | nil =>
    have result : withoutFinalZeros ds = ['0'] := by
      rw [withoutFinalZeros, kept]
    rw [kept, List.nil_append] at whole
    rw [result]
    cases zeros with
    | zero => exact absurd whole h
    | succ zeros => exact ⟨zeros, by rw [whole, List.replicate_succ, List.singleton_append], by simp, fun _ => rfl⟩
  | cons c cs =>
    have result : withoutFinalZeros ds = c :: cs := by
      rw [withoutFinalZeros, kept]
    rw [kept] at whole
    rw [result]
    refine ⟨zeros, whole, List.cons_ne_nil c cs, ?_⟩
    intro last
    have first := List.head?_dropWhile_not (· == '0') ds.reverse
    rw [← List.getLast?_reverse, kept, last] at first
    cases first

/-! ## Reading -/

/-- the value of digits, and perhaps a point and more digits -/
def unsignedDecimal? (cs : List Char) : Option ℚ :=
  let whole := cs.takeWhile Char.isDigit
  match cs.dropWhile Char.isDigit with
  | [] => if isDigits whole then some (decimalValue whole) else none
  | c :: behind =>
    if c = '.' ∧ isDigits whole ∧ isDigits behind then
      some (decimalValue whole + decimalValue behind / 10 ^ behind.length)
    else none

/-- the value of a decimal with a minus sign where it is negative -/
def readDecimal? : List Char → Option ℚ
  | '-' :: cs => (unsignedDecimal? cs).map fun v => -v
  | cs => unsignedDecimal? cs

theorem unsignedDecimal?_whole {whole : List Char} (h : isDigits whole = true) :
    unsignedDecimal? whole = some (decimalValue whole : ℚ) := by
  obtain ⟨-, digits⟩ := isDigits_iff.1 h
  have taken : whole.takeWhile Char.isDigit = whole := List.takeWhile_eq_self_iff.2 digits
  have left : whole.dropWhile Char.isDigit = [] := List.dropWhile_eq_nil_iff.2 digits
  rw [unsignedDecimal?, left, taken]
  exact if_pos h

theorem unsignedDecimal?_point {whole behind : List Char} (hw : isDigits whole = true) (hb : isDigits behind = true) :
    unsignedDecimal? (whole ++ '.' :: behind) =
      some (decimalValue whole + decimalValue behind / 10 ^ behind.length : ℚ) := by
  obtain ⟨-, digits⟩ := isDigits_iff.1 hw
  have stop : ∀ x, ('.' :: behind).head? = some x → x.isDigit = false := by
    intro x first
    cases first
    rfl
  obtain ⟨taken, left⟩ := span_append digits stop
  rw [unsignedDecimal?, left, taken]
  exact if_pos ⟨rfl, hw, hb⟩

theorem readDecimal?_signed (m : ℤ) {whole : List Char} (h : isDigits whole = true) (tail : List Char) :
    readDecimal? (signOf m ++ whole ++ tail) =
      (unsignedDecimal? (whole ++ tail)).map fun v => if m < 0 then -v else v := by
  obtain ⟨nonempty, digits⟩ := isDigits_iff.1 h
  rw [List.append_assoc, signOf]
  split_ifs with negative
  · rfl
  · rw [List.nil_append, Option.map_id', readDecimal?]
    intro cs minus
    cases whole with
    | nil => exact absurd rfl nonempty
    | cons d ds =>
      rw [List.cons_append, List.cons.injEq] at minus
      have digit := digits d List.mem_cons_self
      rw [minus.1] at digit
      cases digit

/-! ## Texts -/

/-- the text of m/10^places: a sign where `m` is negative, the whole part, and behind a point all the places, if any -/
def IsDecimal (cs : List Char) (m : ℤ) (places : ℕ) : Prop :=
  ∃ whole behind, IsNumeral whole (m.natAbs / 10 ^ places) ∧ IsPlaces behind places (m.natAbs % 10 ^ places) ∧
    cs = (if m < 0 then ['-'] else []) ++ whole ++ if places = 0 then [] else '.' :: behind

theorem isDecimal_integerText (m : ℤ) : IsDecimal (integerText m).toList m 0 := by
  refine ⟨digits m.natAbs, [], ?_, ⟨rfl, List.forall_mem_nil _, ?_⟩, ?_⟩
  · rw [pow_zero, Nat.div_one]
    exact isNumeral_digits _
  · rw [pow_zero, Nat.mod_one]
    rfl
  · rw [integerText, String.toList_ofList, if_pos rfl, List.append_nil, signOf]

theorem isDecimal_fixedText (q : ℚ) (places : ℕ) : IsDecimal (fixedText q places).toList (scaled q places) places := by
  rcases Nat.eq_zero_or_pos places with rfl | positive
  · exact isDecimal_integerText _
  · refine ⟨_, _, isNumeral_digits _, isPlaces_fractionDigits _ positive, ?_⟩
    rw [fixedText, if_neg positive.ne', if_neg positive.ne', pointText, String.toList_ofList, signOf]
    rfl

theorem sign_div (m : ℤ) (w : ℚ) : (if m < 0 then -((m.natAbs : ℚ) / w) else m.natAbs / w) = m / w := by
  rw [Nat.cast_natAbs]
  split_ifs with negative
  · rw [abs_of_neg negative, Int.cast_neg, neg_div, neg_neg]
  · rw [abs_of_nonneg (not_lt.1 negative)]

/-- the whole part and the places make up the number -/
theorem whole_add_places {whole behind : List Char} {places m : ℕ} (hw : IsNumeral whole (m / 10 ^ places))
    (hb : IsPlaces behind places (m % 10 ^ places)) :
    (decimalValue whole : ℚ) + decimalValue behind / 10 ^ behind.length = m / 10 ^ places := by
  have parts : (10 ^ places * (m / 10 ^ places) + m % 10 ^ places : ℕ) = m := Nat.div_add_mod m _
  have power : (10 : ℚ) ^ places ≠ 0 := by positivity
  rw [hw.value, hb.value, hb.length_eq, eq_div_iff power, add_mul, div_mul_cancel₀ _ power]
  nth_rewrite 3 [← parts]
  push_cast
  ring

/-- zeros at the end of the places do not count -/
theorem places_append_zeros (ds : List Char) (zeros : ℕ) :
    (decimalValue (ds ++ List.replicate zeros '0') : ℚ) / 10 ^ (ds ++ List.replicate zeros '0').length =
      decimalValue ds / 10 ^ ds.length := by
  rw [decimalValue_append, decimalValue_zeros, List.length_append, List.length_replicate, pow_add, Nat.add_zero,
    Nat.cast_mul, Nat.cast_pow, Nat.cast_ofNat, mul_div_mul_right _ _ (by positivity)]

theorem readDecimal?_of_isDecimal {cs : List Char} {m : ℤ} {places : ℕ} (h : IsDecimal cs m places) :
    readDecimal? cs = some (m / 10 ^ places : ℚ) := by
  obtain ⟨whole, behind, hw, hb, rfl⟩ := h
  rw [← signOf, readDecimal?_signed m hw.digits, ← sign_div]
  by_cases bare : places = 0
  · subst bare
    rw [if_pos rfl, List.append_nil, unsignedDecimal?_whole hw.digits, hw.value, pow_zero, pow_zero, Nat.div_one]
    simp
  · have nonempty : behind ≠ [] := by
      rw [← List.length_pos_iff, hb.length_eq]
      exact Nat.pos_of_ne_zero bare
    rw [if_neg bare, unsignedDecimal?_point hw.digits (isDigits_iff.2 ⟨nonempty, hb.digits⟩), whole_add_places hw hb]
    rfl

/-- the text without a number of places is that with twenty, but for the zeros that are dropped -/
theorem shortText_parts (q : ℚ) :
    ∃ whole kept zeros, IsNumeral whole ((scaled q 20).natAbs / 10 ^ 20) ∧
      IsPlaces (kept ++ List.replicate zeros '0') 20 ((scaled q 20).natAbs % 10 ^ 20) ∧
      kept ≠ [] ∧ (kept.getLast? = some '0' → kept = ['0']) ∧
      (fixedText q 20).toList = signOf (scaled q 20) ++ whole ++ '.' :: (kept ++ List.replicate zeros '0') ∧
      (shortText q).toList = signOf (scaled q 20) ++ whole ++ '.' :: kept := by
  have places : IsPlaces (fractionDigits (scaled q 20).natAbs 20) 20 ((scaled q 20).natAbs % 10 ^ 20) :=
    isPlaces_fractionDigits _ (by decide)
  have nonempty : fractionDigits (scaled q 20).natAbs 20 ≠ [] := by
    rw [← List.length_pos_iff, places.length_eq]
    decide
  obtain ⟨zeros, dropped, left, last⟩ := exists_withoutFinalZeros nonempty
  rw [dropped] at places
  refine ⟨_, _, zeros, isNumeral_digits _, places, left, last, ?_, ?_⟩
  · rw [fixedText, if_neg (by decide), pointText, String.toList_ofList, ← dropped]
    rfl
  · rw [shortText, defaultPlaces, pointText, String.toList_ofList]
    rfl

/-- one decimal text is another without zeros at its end, but a digit is left behind the point -/
def Shortens (short long : List Char) : Prop :=
  ∃ front kept zeros, long = front ++ '.' :: (kept ++ List.replicate zeros '0') ∧ short = front ++ '.' :: kept ∧
    kept ≠ [] ∧ (kept.getLast? = some '0' → kept = ['0'])

theorem shortens_shortText (q : ℚ) : Shortens (shortText q).toList (fixedText q 20).toList := by
  obtain ⟨whole, kept, zeros, -, -, left, last, long, short⟩ := shortText_parts q
  exact ⟨_, kept, zeros, long, short, left, last⟩

theorem readDecimal?_shortText (q : ℚ) : readDecimal? (shortText q).toList = some (scaled q 20 / 10 ^ 20 : ℚ) := by
  obtain ⟨whole, kept, zeros, hw, hb, left, -, -, short⟩ := shortText_parts q
  have digits : isDigits kept = true :=
    isDigits_iff.2 ⟨left, fun d hd => hb.digits d (List.mem_append_left _ hd)⟩
  have value := whole_add_places hw hb
  rw [places_append_zeros] at value
  rw [short, readDecimal?_signed _ hw.digits, unsignedDecimal?_point hw.digits digits, value, ← sign_div]
  rfl

/-! ## Numbers in decimal -/

/-- **Decimal texts are correctly rounded and decode to the rounded value.** Let `m` be the integer nearest to
q·10^places, the one further from zero if there are two. With so many places a fraction is written as a sign where `m`
is negative, the whole part without needless zeros, and, if places are asked for, a point and exactly so many digits;
this reads as m/10^places, which is within half a unit of the last place. With no number of places asked for, the text
is that with twenty without zeros at its end, but for one digit behind the point; it reads as the same number, and so as
the fraction itself where twenty places are enough for it. An integer is written in full whatever is asked for. -/
theorem text_rounded (q : ℚ) :
    (∀ places : ℕ, ∃ m : ℤ, (∀ k, IsRounding (q * 10 ^ places) k ↔ k = m) ∧
      IsDecimal ((fraction q).text (some places)).toList m places ∧
      readDecimal? ((fraction q).text (some places)).toList = some (m / 10 ^ places : ℚ) ∧
      |q - m / 10 ^ places| ≤ 1 / 2 / 10 ^ places) ∧
    Shortens ((fraction q).text none).toList ((fraction q).text (some 20)).toList ∧
    (∃ m : ℤ, (∀ k, IsRounding (q * 10 ^ 20) k ↔ k = m) ∧
      readDecimal? ((fraction q).text none).toList = some (m / 10 ^ 20 : ℚ)) ∧
    (q.den ∣ 10 ^ 20 → readDecimal? ((fraction q).text none).toList = some q) ∧
    ∀ (n : ℤ) (places? : Option ℕ), IsDecimal ((integer n).text places?).toList n 0 ∧
      readDecimal? ((integer n).text places?).toList = some (n : ℚ) := by
  refine ⟨?fixed, shortens_shortText q, ?short, ?precise, ?whole⟩
  case fixed =>
    intro places
    have written := isDecimal_fixedText q places
    exact ⟨scaled q places, isRounding_iff q places, written, readDecimal?_of_isDecimal written,
      abs_sub_scaled_le q places⟩
  case short =>
    exact ⟨scaled q 20, isRounding_iff q 20, readDecimal?_shortText q⟩
  case precise =>
    intro enough
    have read := readDecimal?_shortText q
    rw [scaled_div_of_dvd enough] at read
    exact read
  case whole =>
    intro n places?
    have written := isDecimal_integerText n
    have value := readDecimal?_of_isDecimal written
    rw [pow_zero, div_one] at value
    exact ⟨written, value⟩

/-- a half is rounded away from zero below zero too, and an eighth is written exactly where nothing is asked for -/
theorem text_rounded_eighth :
    let q : ℚ := -1 / 8
    q.den ∣ 10 ^ 20 ∧ (fraction q).text none = "-0.125" ∧ readDecimal? "-0.125".toList = some q ∧
      (fraction q).text (some 2) = "-0.13" ∧
      ∃ m : ℤ, IsRounding (q * 10 ^ 2) m ∧ IsDecimal "-0.13".toList m 2 ∧ |q - m / 10 ^ 2| ≤ 1 / 2 / 10 ^ 2 := by
  intro q
  have enough : q.den ∣ 10 ^ 20 := by decide +kernel
  have short : (fraction q).text none = "-0.125" := by decide +kernel
  have fixed : (fraction q).text (some 2) = "-0.13" := by decide +kernel
  obtain ⟨rounded, -, -, precise, -⟩ := text_rounded q
  obtain ⟨m, rounding, written, -, close⟩ := rounded 2
  have value := precise enough
  rw [short] at value
  rw [fixed] at written
  exact ⟨enough, short, value, fixed, m, (rounding m).2 rfl, written, close⟩

end ExactCalc.Number
