/-
  Transcode — shortest decimals are read back.

  The grid with 17 digits around a number has a point in the number's interval, so the
  search for a shortest decimal ends, and what it finds is read as the number again.

  * `Reaches`: how a number compares to a power of ten, on any finer grid (`reaches_iff`);
  * `reaches_magnitude`, `not_reaches_magnitude`: the powers around a number;
  * `exists_onGrid_seventeen`: 17 digits are enough;
  * `exists_shortest`: what the search finds;
  * `Decimal.exists_numeral`: what the plain text of a decimal is read as;
  * `ofChars?_plain`: **every number is read back from its plain text**.
-/
import Transcode.Proofs.Numerals
import Transcode.Proofs.RoundingIntervals
import Transcode.Proofs.ValueText
import Transcode.Proofs.WholeFloats

namespace Transcode

namespace Binary64

/-! ## Powers of ten around a number -/

section
variable {n : Nat}

/-- A number of `n` units is at least `10 ^ a`. -/
def Reaches (n : Nat) (a : Int) : Prop :=
  tenTo a.toNat * one ≤ n * tenTo (-a).toNat

/-- It is so iff it has enough points of a finer grid below it. -/
theorem reaches_iff {a e : Int} (k : Nat) (he : a = e + k) :
    Reaches n a ↔ tenTo k * (one * tenTo e.toNat) ≤ n * tenTo (-e).toNat := by
  have hpower : tenTo a.toNat * tenTo (-e).toNat =
      tenTo k * tenTo e.toNat * tenTo (-a).toNat := by
    rw [← tenTo_add, ← tenTo_add, ← tenTo_add]
    congr 1
    omega
  have hleft : tenTo a.toNat * one * tenTo (-e).toNat =
      tenTo k * (one * tenTo e.toNat) * tenTo (-a).toNat :=
    calc tenTo a.toNat * one * tenTo (-e).toNat
        = tenTo a.toNat * tenTo (-e).toNat * one := by ring
      _ = tenTo k * (one * tenTo e.toNat) * tenTo (-a).toNat := by rw [hpower]; ring
  have hright : n * tenTo (-a).toNat * tenTo (-e).toNat =
      n * tenTo (-e).toNat * tenTo (-a).toNat := by ring
  rw [Reaches, ← Nat.mul_le_mul_right_iff (tenTo_pos (-e).toNat), hleft, hright,
    Nat.mul_le_mul_right_iff (tenTo_pos (-a).toNat)]

theorem reaches_magnitude (hpos : 0 < n) : Reaches n (magnitude n - 1) := by
  unfold Reaches magnitude
  split
  · next h =>
    have hcount := digitCount_pos (Nat.div_pos h one_units_pos)
    have hle := tenTo_le_of_lt_digitCount (Nat.sub_one_lt hcount.ne')
    have hnat : ((digitCount (n / one) : Int) - 1).toNat = digitCount (n / one) - 1 := by omega
    have hnone : (-((digitCount (n / one) : Int) - 1)).toNat = 0 := by omega
    rw [hnat, hnone, tenTo_zero, Nat.mul_one]
    exact (Nat.le_div_iff_mul_le one_units_pos).1 hle
  · next h =>
    have hlt := (Nat.div_lt_iff_lt_mul hpos).1 (lt_tenTo_digitCount ((one - 1) / n))
    have hnone : (1 - (digitCount ((one - 1) / n) : Int) - 1).toNat = 0 := by omega
    have hnat : (-(1 - (digitCount ((one - 1) / n) : Int) - 1)).toNat =
        digitCount ((one - 1) / n) := by omega
    rw [hnone, hnat, tenTo_zero, Nat.one_mul, Nat.mul_comm n]
    omega

theorem not_reaches_magnitude (hpos : 0 < n) : ¬ Reaches n (magnitude n) := by
  rw [Reaches, Nat.not_le]
  unfold magnitude
  split
  · next h =>
    have hlt := (Nat.div_lt_iff_lt_mul one_units_pos).1 (lt_tenTo_digitCount (n / one))
    have hnone : (-(digitCount (n / one) : Int)).toNat = 0 := by omega
    rwa [Int.toNat_natCast, hnone, tenTo_zero, Nat.mul_one]
  · next h =>
    have hcount := digitCount_pos (n := (one - 1) / n) (Nat.div_pos (by omega) hpos)
    have hle := tenTo_le_of_lt_digitCount (Nat.sub_one_lt hcount.ne')
    have hmul := (Nat.le_div_iff_mul_le hpos).1 hle
    have hnone : (1 - (digitCount ((one - 1) / n) : Int)).toNat = 0 := by omega
    have hnat : (-(1 - (digitCount ((one - 1) / n) : Int))).toNat =
        digitCount ((one - 1) / n) - 1 := by omega
    have hone := one_units_pos
    rw [hnone, hnat, tenTo_zero, Nat.one_mul, Nat.mul_comm n]
    omega

/-- The numbers of the format lie between `10 ^ -324` and `10 ^ 309`. -/
theorem magnitude_bounds (hn : n < twoTo 2098) : -323 ≤ magnitude n ∧ magnitude n ≤ 309 := by
  have hone : one ≤ tenTo 324 := by decide +kernel
  have hlimit : twoTo 2098 ≤ tenTo 309 * one := by decide +kernel
  unfold magnitude
  split
  · have hcount : digitCount (n / one) ≤ 309 :=
      digitCount_le_iff.2 ((Nat.div_lt_iff_lt_mul one_units_pos).2 (hn.trans_le hlimit))
    omega
  · have hle : (one - 1) / n < tenTo 324 := by
      have := Nat.div_le_self (one - 1) n
      have := one_units_pos
      omega
    have hcount := digitCount_le_iff.2 hle
    omega

end

/-! ## The search -/

section
variable {tie : Tie} {n d : Nat} {e top : Int}

/-- The point of a grid below a number. -/
def gridBelow (n : Nat) (e : Int) : Nat :=
  n * tenTo (-e).toNat / (one * tenTo e.toNat)

theorem onGrid_eq_some (h : onGrid tie n e = some d) :
    inInterval n (tenTo e.toNat) (tenTo (-e).toNat) d = true ∧
      gridBelow n e ≤ d ∧ d ≤ gridBelow n e + 1 := by
  simp only [onGrid] at h
  rw [← gridBelow] at h
  split at h
  · next hbelow habove =>
    split at h
    · cases h
      exact ⟨hbelow, Nat.le_refl _, Nat.le_succ _⟩
    · cases h
      exact ⟨habove, Nat.le_succ _, Nat.le_refl _⟩
  · next hbelow habove =>
    cases h
    exact ⟨hbelow, Nat.le_refl _, Nat.le_succ _⟩
  · next hbelow habove =>
    cases h
    exact ⟨habove, Nat.le_succ _, Nat.le_refl _⟩
  · cases h

theorem exists_onGrid (h : inInterval n (tenTo e.toNat) (tenTo (-e).toNat) (gridBelow n e) = true ∨
    inInterval n (tenTo e.toNat) (tenTo (-e).toNat) (gridBelow n e + 1) = true) :
    ∃ d, onGrid tie n e = some d := by
  simp only [onGrid]
  rw [← gridBelow]
  split
  · split
    · exact ⟨_, rfl⟩
    · exact ⟨_, rfl⟩
  · exact ⟨_, rfl⟩
  · exact ⟨_, rfl⟩
  · next hbelow habove =>
    rw [hbelow, habove] at h
    rcases h with h | h <;> cases h

/-- The interval of a number is wider than a grid of 17 digits. -/
theorem grid_lt_interval {p q : Nat} (hn : Fits n) (hpos : 0 < n) (hq : 0 < q)
    (h : tenTo 16 * (one * p) ≤ n * q) :
    4 * (one * p) < reachBelow n * q + 2 * step n * q := by
  obtain ⟨m, j, hm, hstep, hbits, -⟩ := exists_steps hn hpos
  have hwidth : 0 < step n * q := Nat.mul_pos (step_pos n) hq
  have htwice : 2 * step n * q = 2 * (step n * q) := Nat.mul_assoc _ _ _
  have hten : tenTo 16 = 10000000000000000 := rfl
  rw [hten] at h
  rw [htwice]
  unfold reachBelow
  split
  · next hpower =>
    have hunits : n * q = 4503599627370496 * (step n * q) := by
      rw [← Nat.mul_assoc]
      exact congrArg (· * q) hpower.1
    omega
  · have hunits : n * q ≤ 9007199254740992 * (step n * q) := by
      rw [← Nat.mul_assoc, hstep]
      exact Nat.mul_le_mul_right q (hm.trans_le (Nat.mul_le_mul_right _ hbits.le))
    rw [htwice]
    omega

/-- **Seventeen digits are enough.** -/
theorem exists_onGrid_seventeen (tie : Tie) (hn : Fits n) (hpos : 0 < n) :
    ∃ d, onGrid tie n (magnitude n - 17) = some d := by
  refine exists_onGrid ?_
  have hspacing := (reaches_iff 16 (by omega : magnitude n - 1 = magnitude n - 17 + 16)).1
    (reaches_magnitude hpos)
  have hq := tenTo_pos (-(magnitude n - 17)).toNat
  have hp := Nat.mul_pos one_units_pos (tenTo_pos (magnitude n - 17).toNat)
  unfold gridBelow
  generalize tenTo (-(magnitude n - 17)).toNat = q at *
  generalize tenTo (magnitude n - 17).toNat = p at *
  have hwide := grid_lt_interval hn hpos hq hspacing
  have hdiv := Nat.div_add_mod (n * q) (one * p)
  have hmod := Nat.mod_lt (n * q) hp
  have hwidth : 0 < 2 * step n * q := Nat.mul_pos (Nat.mul_pos (by decide) (step_pos n)) hq
  have hat : ∀ d, d * p * one = d * (one * p) := by
    intro d
    ring
  rw [inInterval_iff hpos, inInterval_iff hpos, hat, hat, Nat.add_mul, Nat.one_mul]
  rw [Nat.mul_comm] at hdiv
  generalize n * q / (one * p) * (one * p) = below at *
  omega

/-- The search ends at the first grid that has a point in the interval. -/
theorem exists_searchGrids (last : Nat) (hgrid : ∃ d, onGrid tie n (top - last) = some d) :
    ∀ fuel k, k ≤ last → last < k + fuel →
      ∃ (d j : Nat), searchGrids tie n top fuel k = some (d, top - j) ∧ k ≤ j ∧
        onGrid tie n (top - j) = some d := by
  intro fuel
  induction fuel with
  | zero => omega
  | succ fuel ih =>
    intro k hk hfuel
    rw [searchGrids]
    cases hhit : onGrid tie n (top - k) with
    | some d => exact ⟨d, k, rfl, Nat.le_refl k, hhit⟩
    | none =>
      have hne : k ≠ last := by
        rintro rfl
        obtain ⟨d, hd⟩ := hgrid
        rw [hhit] at hd
        cases hd
      obtain ⟨d, j, hsearch, hj, hd⟩ := ih (k + 1) (by omega) (by omega)
      exact ⟨d, j, hsearch, by omega, hd⟩

/-- **What the search finds**: digits of a decimal in the interval of the number, whose
    point is where a number of the format may have it. -/
theorem exists_shortest (tie : Tie) (hn : Fits n) (hpos : 0 < n) :
    ∃ (d : Nat) (e : Int),
      shortest tie n = ⟨dropZeros (digitsOf d), (digitsOf d).length + e⟩ ∧
      inInterval n (tenTo e.toNat) (tenTo (-e).toNat) d = true ∧ 0 < d ∧
      -323 ≤ (digitsOf d).length + e ∧ (digitsOf d).length + e ≤ 310 := by
  obtain ⟨d, j, hsearch, hj, hgrid⟩ :=
    exists_searchGrids 17 (exists_onGrid_seventeen tie hn hpos) 17 1 (by omega) (by omega)
  obtain ⟨hinterval, hbelow, habove⟩ := onGrid_eq_some hgrid
  have hspacing := Nat.mul_pos one_units_pos (tenTo_pos (magnitude n - j).toNat)
  have hlow : tenTo (j - 1) ≤ d := by
    refine le_trans ?_ hbelow
    rw [gridBelow, Nat.le_div_iff_mul_le hspacing]
    exact (reaches_iff (j - 1) (by omega)).1 (reaches_magnitude hpos)
  have hhigh : d < tenTo (j + 1) := by
    have hlt : gridBelow n (magnitude n - j) < tenTo j := by
      rw [gridBelow, Nat.div_lt_iff_lt_mul hspacing, ← Nat.not_le]
      exact fun h => not_reaches_magnitude hpos ((reaches_iff j (by omega)).2 h)
    have hten := tenTo_pos j
    rw [tenTo_succ]
    omega
  have hd : 0 < d := (tenTo_pos (j - 1)).trans_le hlow
  have hlength : j ≤ digitCount d ∧ digitCount d ≤ j + 1 := by
    refine ⟨Nat.le_of_pred_lt (Nat.lt_of_not_le fun h => ?_), digitCount_le_iff.2 hhigh⟩
    exact Nat.not_lt.2 hlow (digitCount_le_iff.1 h)
  obtain ⟨hmin, hmax⟩ := magnitude_bounds hn.2
  refine ⟨d, magnitude n - j, ?_, hinterval, hd, ?_, ?_⟩
  · rw [shortest, if_neg hpos.ne', hsearch]
  · rw [length_digitsOf hd]
    omega
  · rw [length_digitsOf hd]
    omega

end

end Binary64

/-! ## Plain texts -/

namespace Decimal

variable {d : Decimal}

theorem split_of_point_le (hne : d.digits ≠ []) (hpoint : d.point ≤ 0) :
    d.split = (['0'], zeros (-d.point).toNat ++ d.digits) := by
  have hnone : d.point.toNat = 0 := by omega
  have hempty : d.digits.isEmpty = false := List.isEmpty_eq_false_iff.2 hne
  simp only [split, hnone, hempty, List.take_zero, List.drop_zero, Nat.zero_sub, zeros,
    List.replicate_zero, List.append_nil, List.isEmpty_nil, if_true, Bool.false_eq_true, if_false]

theorem split_of_lt (hpoint : 0 < d.point) (hlt : d.point < d.digits.length) :
    d.split = (d.digits.take d.point.toNat, d.digits.drop d.point.toNat) := by
  have hnone : (-d.point).toNat = 0 := by omega
  have hnone' : d.point.toNat - d.digits.length = 0 := by omega
  have hempty : d.digits.isEmpty = false := by
    rw [List.isEmpty_eq_false_iff, ← List.length_pos_iff]
    omega
  have hwhole : (d.digits.take d.point.toNat).isEmpty = false := by
    rw [List.isEmpty_eq_false_iff, ← List.length_pos_iff, List.length_take]
    omega
  simp only [split, hnone, hnone', hempty, zeros, List.replicate_zero, List.append_nil,
    List.nil_append, hwhole, Bool.false_eq_true, if_false]

theorem plain_of_split {whole fraction : List Char} (h : d.split = (whole, fraction))
    (hne : fraction ≠ []) : d.plain = whole ++ '.' :: fraction := by
  simp only [plain, h, List.isEmpty_eq_false_iff.2 hne, Bool.false_eq_true, if_false]

/-- A text with a point is read as the digits on both sides of it. -/
theorem ofChars?_plain_of_split {whole fraction : List Char} (negative : Bool)
    (h : d.split = (whole, fraction)) (hwhole : whole ≠ []) (hfraction : fraction ≠ [])
    (hdigits : ∀ c ∈ d.digits, c.isDigit = true) :
    Numeral.ofChars? (Binary64.signText negative ++ d.plain) =
      some ⟨negative, whole ++ fraction, -fraction.length⟩ := by
  have hleft : ∀ c ∈ whole, c.isDigit = true := by
    intro c hc
    exact isDigit_of_mem_whole hdigits (by rwa [h])
  have hright : ∀ c ∈ fraction, c.isDigit = true := by
    intro c hc
    exact isDigit_of_mem_fraction hdigits (by rwa [h])
  rw [plain_of_split h hfraction]
  refine Numeral.ofChars?_pointed (takeSign_signText negative ?_) hwhole hleft hright
  obtain ⟨c, r, rfl⟩ := List.exists_cons_of_ne_nil hwhole
  exact ⟨c, rfl, hleft c List.mem_cons_self⟩

/-- A numeral that spells a decimal: it has the same digits, but for zeros on both sides,
    and the power of ten that puts the point in its place. -/
def IsSpelled (d : Decimal) (numeral : Numeral) : Prop :=
  ∃ j : Nat, numeral.digits.dropWhile (· == '0') = d.digits ++ zeros j ∧
    d.digits.length + numeral.exponent + j = d.point

section
variable (negative : Bool) (hdigits : ∀ c ∈ d.digits, c.isDigit = true)
  (hhead : ∀ c ∈ d.digits.head?, c ≠ '0')
include hdigits hhead

/-- The point is in front of the digits, behind a zero. -/
theorem exists_numeral_of_point_le (hne : d.digits ≠ []) (hpoint : d.point ≤ 0) :
    ∃ digits exponent, Numeral.ofChars? (Binary64.signText negative ++ d.plain) =
      some ⟨negative, digits, exponent⟩ ∧ d.IsSpelled ⟨negative, digits, exponent⟩ := by
  have hfraction : zeros (-d.point).toNat ++ d.digits ≠ [] :=
    List.append_ne_nil_of_right_ne_nil _ hne
  refine ⟨_, _, ofChars?_plain_of_split negative (split_of_point_le hne hpoint)
    (List.cons_ne_nil _ _) hfraction hdigits, 0, ?_, ?_⟩
  · exact (dropWhile_zeros_append hhead ((-d.point).toNat + 1)).trans (List.append_nil _).symm
  · dsimp only
    rw [List.length_append, zeros, List.length_replicate]
    omega

/-- The point is among the digits. -/
theorem exists_numeral_of_lt (hpoint : 0 < d.point) (hlt : d.point < d.digits.length) :
    ∃ digits exponent, Numeral.ofChars? (Binary64.signText negative ++ d.plain) =
      some ⟨negative, digits, exponent⟩ ∧ d.IsSpelled ⟨negative, digits, exponent⟩ := by
  have hwhole : d.digits.take d.point.toNat ≠ [] := by
    rw [← List.length_pos_iff, List.length_take]
    omega
  have hfraction : d.digits.drop d.point.toNat ≠ [] := by
    rw [← List.length_pos_iff, List.length_drop]
    omega
  refine ⟨_, _, ofChars?_plain_of_split negative (split_of_lt hpoint hlt) hwhole hfraction
    hdigits, 0, ?_, ?_⟩
  · dsimp only
    rw [List.take_append_drop]
    exact (dropWhile_zeros_append hhead 0).trans (List.append_nil _).symm
  · dsimp only
    rw [List.length_drop]
    omega

/-- The point is behind the digits, and the zeros after them. -/
theorem exists_numeral_of_length_le (hne : d.digits ≠ []) (hle : d.digits.length ≤ d.point) :
    ∃ digits exponent, Numeral.ofChars? (Binary64.signText negative ++ d.plain) =
      some ⟨negative, digits, exponent⟩ ∧ d.IsSpelled ⟨negative, digits, exponent⟩ := by
  have hpos : 0 < d.digits.length := List.length_pos_iff.2 hne
  obtain ⟨k, hk⟩ : ∃ k : Nat, d.point = k := ⟨d.point.toNat, by omega⟩
  have hplain := plain_of_length_le hk (by omega) (by omega)
  have hall : ∀ c ∈ d.plain, c.isDigit = true := by
    intro c hc
    rw [hplain] at hc
    rcases List.mem_append.1 hc with hc | hc
    · exact hdigits c hc
    · exact isDigit_of_mem_zeros hc
  obtain ⟨c, r, hcons⟩ := List.exists_cons_of_ne_nil hne
  have hfirst : d.plain.head? = some c := by
    rw [hplain, hcons]
    rfl
  have hsign := takeSign_signText negative ⟨c, hfirst, hdigits c (hcons ▸ List.mem_cons_self)⟩
  have hplainne : d.plain ≠ [] := by
    intro hnil
    rw [hnil] at hfirst
    cases hfirst
  refine ⟨_, _, Numeral.ofChars?_whole hsign hplainne hall, k - d.digits.length, ?_, ?_⟩
  · dsimp only
    rw [hplain]
    refine dropWhile_zeros_append (j := 0) ?_
    rw [hcons] at hhead ⊢
    exact hhead
  · dsimp only
    omega

end

/-- **What the plain text of a decimal is read as**: a numeral that spells it. -/
theorem exists_numeral (negative : Bool) (hne : d.digits ≠ [])
    (hdigits : ∀ c ∈ d.digits, c.isDigit = true) (hhead : ∀ c ∈ d.digits.head?, c ≠ '0') :
    ∃ digits exponent, Numeral.ofChars? (Binary64.signText negative ++ d.plain) =
      some ⟨negative, digits, exponent⟩ ∧ d.IsSpelled ⟨negative, digits, exponent⟩ := by
  rcases Int.lt_or_le 0 d.point with hpoint | hpoint
  · rcases Int.lt_or_le d.point d.digits.length with hlt | hle
    · exact exists_numeral_of_lt negative hdigits hhead hpoint hlt
    · exact exists_numeral_of_length_le negative hdigits hhead hne hle
  · exact exists_numeral_of_point_le negative hdigits hhead hne hpoint

end Decimal

namespace Binary64

section
variable {n d : Nat}

/-- The digits of a decimal, without the zeros behind, and how many these are. -/
theorem dropZeros_digitsOf (hd : 0 < d) :
    ∃ z, (digitsOf d).length = (dropZeros (digitsOf d)).length + z ∧
      d = valueOfDigits (dropZeros (digitsOf d)) * tenTo z ∧ dropZeros (digitsOf d) ≠ [] ∧
      ∀ c ∈ (dropZeros (digitsOf d)).head?, c ≠ '0' := by
  obtain ⟨hle, hzeros⟩ := dropZeros_append_zeros (digitsOf d)
  generalize hz : (digitsOf d).length - (dropZeros (digitsOf d)).length = z at hzeros
  have hvalue : d = valueOfDigits (dropZeros (digitsOf d)) * tenTo z := by
    rw [← valueOfDigits_append_zeros, hzeros, valueOfDigits_digitsOf]
  refine ⟨z, by omega, hvalue, ?_, ?_⟩
  · intro hnil
    rw [hnil] at hvalue
    exact hd.ne' (hvalue.trans (Nat.zero_mul _))
  · rintro c hc rfl
    refine head?_digitsOf hd ?_
    rw [← hzeros, List.head?_append, Option.mem_def.1 hc]
    rfl

/-- The shortest decimal of a number is rounded to the number. -/
theorem exists_ofNumeral_shortest (negative : Bool) (hn : Fits n) (hpos : 0 < n) :
    ∃ numeral, Numeral.ofChars? (signText negative ++ (shortest .greater n).plain) = some numeral ∧
      ofNumeral numeral = finite negative n hn := by
  obtain ⟨d, e, hshortest, hinterval, hd, hlow, hhigh⟩ := exists_shortest .greater hn hpos
  obtain ⟨z, hlength, hvalue, hne, hhead⟩ := dropZeros_digitsOf hd
  have hdigits : ∀ c ∈ dropZeros (digitsOf d), c.isDigit = true := fun c hc =>
    isDigit_of_mem_digitsOf (mem_of_mem_dropZeros hc)
  rw [hshortest]
  obtain ⟨digits, exponent, hread, j, hsame, hpoint⟩ :=
    Decimal.exists_numeral (d := ⟨dropZeros (digitsOf d), (digitsOf d).length + e⟩) negative hne
      hdigits hhead
  dsimp only at hsame hpoint
  refine ⟨_, hread, ?_⟩
  have hworth := valueOfDigits_append_zeros (dropZeros (digitsOf d)) j
  have hrow : (dropZeros (digitsOf d) ++ zeros j).length = (dropZeros (digitsOf d)).length + j := by
    rw [List.length_append, zeros, List.length_replicate]
  have hworth' : valueOfDigits (dropZeros (digitsOf d) ++ zeros j) ≠ 0 := by
    rw [hworth]
    refine (Nat.mul_pos (Nat.pos_of_ne_zero fun hzero => ?_) (tenTo_pos j)).ne'
    rw [hzero, Nat.zero_mul] at hvalue
    exact hd.ne' hvalue
  rw [ofNumeral_eq_nearest hsame hworth' (by dsimp only; omega) (by dsimp only; omega), hworth,
    ← nearest_of_inInterval hn hpos (tenTo_pos _) hinterval]
  refine nearest_congr (tenTo_pos _) (tenTo_pos _) ?_
  have hpower : tenTo j * tenTo exponent.toNat * tenTo (-e).toNat =
      tenTo z * tenTo e.toNat * tenTo (-exponent).toNat := by
    rw [← tenTo_add, ← tenTo_add, ← tenTo_add, ← tenTo_add]
    congr 1
    omega
  generalize valueOfDigits (dropZeros (digitsOf d)) = value at hvalue
  calc value * tenTo j * tenTo exponent.toNat * one * tenTo (-e).toNat
      = value * (tenTo j * tenTo exponent.toNat * tenTo (-e).toNat) * one := by ring
    _ = value * tenTo z * tenTo e.toNat * one * tenTo (-exponent).toNat := by rw [hpower]; ring
    _ = d * tenTo e.toNat * one * tenTo (-exponent).toNat := by rw [← hvalue]

end

/-- **Every number is read back from its plain text.** -/
theorem ofChars?_plain (x : Binary64) : ofChars? x.plain = some x := by
  cases x with
  | nan => decide +kernel
  | infinite negative => cases negative <;> decide +kernel
  | finite negative n hn =>
    rcases Nat.eq_zero_or_pos n with rfl | hpos
    · show ofChars? (zero negative).plain = some (zero negative)
      cases negative <;> decide +kernel
    · obtain ⟨numeral, hread, hround⟩ := exists_ofNumeral_shortest negative hn hpos
      rw [plain, ofChars?, hread, ← hround]

end Binary64

end Transcode
