/-
  Transcode — what numerals are read as.

  A numeral is worth its digits times a power of ten, whatever zeros it has in front, and
  it is read as the number nearest to that, unless it is so great or so small that the
  power is not computed.

  * `Numeral.ofChars?_whole`, `Numeral.ofChars?_pointed`: the numerals that texts are;
  * `ofNumeral_eq_nearest`: what a numeral is rounded from;
  * `exists_ofChars?_of_integerOf?`: a text of a whole number is read as a float, too,
    and that is the one nearest to it.
-/
import Transcode.Proofs.Digits
import Transcode.Proofs.Rounding
import Transcode.Value

namespace Transcode

variable {cs whole fraction : List Char} {negative : Bool}

/-! ## Signs -/

/-- A digit is no sign. -/
theorem takeSign_of_isDigit (h : ∃ c ∈ cs.head?, c.isDigit = true) : takeSign cs = (false, cs) := by
  obtain ⟨c, hc, hdigit⟩ := h
  unfold takeSign
  split
  · cases hc
    cases hdigit
  · cases hc
    cases hdigit
  · rfl

theorem takeSign_signText (negative : Bool) (h : ∃ c ∈ cs.head?, c.isDigit = true) :
    takeSign (Binary64.signText negative ++ cs) = (negative, cs) := by
  cases negative with
  | true => rfl
  | false => exact takeSign_of_isDigit h

/-! ## Whole numbers -/

theorem naturalOf?_eq_some_iff {n : Nat} :
    naturalOf? cs = some n ↔ cs ≠ [] ∧ (∀ c ∈ cs, c.isDigit = true) ∧ n = valueOfDigits cs := by
  have hdigits : (!cs.isEmpty && cs.all isDigit) = true ↔
      cs ≠ [] ∧ ∀ c ∈ cs, c.isDigit = true := by
    rw [Bool.and_eq_true_iff, List.all_eq_true, Bool.not_eq_true', List.isEmpty_eq_false_iff]
    rfl
  rw [← and_assoc, ← hdigits, naturalOf?]
  split
  · next h => simp [h, eq_comm]
  · next h => simp [h]

theorem integerOf?_eq_some_iff {low high i : Int} :
    integerOf? low high cs = some i ↔ ∃ negative digits, takeSign cs = (negative, digits) ∧
      digits ≠ [] ∧ (∀ c ∈ digits, c.isDigit = true) ∧
      i = Binary64.signed negative (valueOfDigits digits) ∧ low ≤ i ∧ i ≤ high := by
  obtain ⟨⟨negative, digits⟩, hsign⟩ : ∃ p, takeSign cs = p := ⟨_, rfl⟩
  have hinteger : integerOf? low high cs = (naturalOf? digits).bind fun n =>
      if low ≤ Binary64.signed negative n ∧ Binary64.signed negative n ≤ high then
        some (Binary64.signed negative n) else none := by
    rw [integerOf?, hsign]
    rfl
  simp only [hinteger, Option.bind_eq_some_iff, naturalOf?_eq_some_iff]
  constructor
  · rintro ⟨n, ⟨hne, hdigits, rfl⟩, h⟩
    split at h
    · next hbounds =>
      cases h
      exact ⟨negative, digits, hsign, hne, hdigits, rfl, hbounds⟩
    · cases h
  · rintro ⟨_, _, h, hne, hdigits, rfl, hbounds⟩
    cases hsign.symm.trans h
    exact ⟨_, ⟨hne, hdigits, rfl⟩, if_pos hbounds⟩

/-! ## Texts of numerals -/

namespace Numeral

/-- Digits alone. -/
theorem ofChars?_whole (hsign : takeSign cs = (negative, whole)) (hne : whole ≠ [])
    (hwhole : ∀ c ∈ whole, c.isDigit = true) : ofChars? cs = some ⟨negative, whole, 0⟩ := by
  have hspan := span_isDigit_append (r := []) hwhole (by simp)
  rw [List.append_nil] at hspan
  simp only [ofChars?, hsign, hspan, takeFraction, exponentOf?, List.isEmpty_eq_false_iff.2 hne,
    List.append_nil]
  rfl

/-- Digits with a point among them. -/
theorem ofChars?_pointed (hsign : takeSign cs = (negative, whole ++ '.' :: fraction))
    (hne : whole ≠ []) (hwhole : ∀ c ∈ whole, c.isDigit = true)
    (hfraction : ∀ c ∈ fraction, c.isDigit = true) :
    ofChars? cs = some ⟨negative, whole ++ fraction, -fraction.length⟩ := by
  have hspan := span_isDigit_append (r := '.' :: fraction) hwhole (by simp; decide)
  have hrest := span_isDigit_append (r := []) hfraction (by simp)
  rw [List.append_nil] at hrest
  simp only [ofChars?, hsign, hspan, takeFraction, hrest, exponentOf?,
    List.isEmpty_eq_false_iff.2 hne, Bool.false_and, Bool.false_eq_true, if_false, Option.map_some,
    Int.zero_sub]

end Numeral

/-! ## What numerals are rounded from -/

namespace Binary64

section
variable {n : Numeral} {digits : List Char}

theorem ofNumeral_zero (h : valueOfDigits n.digits = 0) : ofNumeral n = zero n.negative := by
  rw [← valueOfDigits_dropWhile_zero] at h
  simp only [ofNumeral, h, if_true]

/-- **A numeral is rounded from its value**, if it is neither too great nor too small. -/
theorem ofNumeral_eq_nearest (hdigits : n.digits.dropWhile (· == '0') = digits)
    (hpos : valueOfDigits digits ≠ 0) (hhigh : digits.length + n.exponent ≤ 310)
    (hlow : -330 ≤ digits.length + n.exponent) :
    ofNumeral n = nearest n.negative (valueOfDigits digits * tenTo n.exponent.toNat * one)
      (tenTo (-n.exponent).toNat) := by
  subst hdigits
  simp only [ofNumeral, if_neg hpos, if_neg (Int.not_lt.2 hhigh), if_neg (Int.not_lt.2 hlow)]
  split
  · next h =>
    have hnone : (-n.exponent).toNat = 0 := by omega
    rw [hnone]
    rfl
  · next h =>
    have hnone : n.exponent.toNat = 0 := by omega
    rw [hnone]
    show nearest _ (_ * one) _ = nearest _ (_ * 1 * one) _
    rw [Nat.mul_one]

theorem natAbs_signed (negative : Bool) (n : Nat) : (signed negative n).natAbs = n := by
  cases negative <;> simp [signed]

theorem ofInt_signed (negative : Bool) {n : Nat} (hn : 0 < n) :
    ofInt (signed negative n) = nearest negative (n * one) 1 := by
  have hsign : decide (signed negative n < 0) = negative := by
    cases negative with
    | true => simpa [signed] using hn
    | false => simp [signed]
  rw [ofInt, hsign, natAbs_signed]

/-- **A whole number is read as the float nearest to it**, but for the sign of a zero. -/
theorem exists_ofChars?_of_integerOf? {low high i : Int} (h : integerOf? low high cs = some i)
    (hi : i.natAbs < tenTo 310) : ∃ x, ofChars? cs = some x ∧ x.key = (ofInt i).key := by
  obtain ⟨negative, digits, hsign, hne, hdigits, rfl, -, -⟩ := integerOf?_eq_some_iff.1 h
  have hread : ofChars? cs = some (ofNumeral ⟨negative, digits, 0⟩) := by
    rw [ofChars?, Numeral.ofChars?_whole hsign hne hdigits]
  refine ⟨_, hread, ?_⟩
  rcases Nat.eq_zero_or_pos (valueOfDigits digits) with hzero | hpos
  · have hzeros : signed negative 0 = 0 := by cases negative <;> rfl
    rw [ofNumeral_zero hzero, hzero, hzeros, ofInt, Int.natAbs_zero, Nat.zero_mul,
      nearest_one fits_zero]
    cases negative <;> rfl
  · rw [natAbs_signed] at hi
    have hlength := length_dropWhile_zero_le hdigits hi
    have hvalue := valueOfDigits_dropWhile_zero digits
    have hnearest := ofNumeral_eq_nearest (n := ⟨negative, digits, 0⟩) rfl
      (hvalue.symm ▸ hpos.ne') (by dsimp only; omega) (by dsimp only; omega)
    rw [hnearest, hvalue, ofInt_signed negative hpos]
    show (nearest negative (_ * 1 * one) 1).key = _
    rw [Nat.mul_one]

end

end Binary64

end Transcode
