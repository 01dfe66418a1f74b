/-
  Transcode — whole numbers as floats.

  A whole number of 53 bits is a number of the format, and its digits are the shortest
  decimal that reads back as it: a decimal with fewer digits than it takes is off by a
  whole unit at least, and the neighbours of the format are not so far apart.

  * `inInterval_mul_one`: among whole numbers, only the number itself reads back as it;
  * `searchGrids_mul_one`: so the first grid that has it is found;
  * `shortest_mul_one`: and its digits are those of the number;
  * `plain_ofInt`, `isWhole_ofInt`, `clamp_ofInt`: what the views of a value see.
-/
import Transcode.Proofs.Digits
import Transcode.Proofs.Rounding
import Transcode.Value

namespace Transcode

/-! ## Dropping zeros -/

namespace Binary64

/-- Only zeros are dropped. -/
theorem dropZeros_append_zeros (cs : List Char) :
    (dropZeros cs).length ≤ cs.length ∧
      dropZeros cs ++ zeros (cs.length - (dropZeros cs).length) = cs := by
  induction cs with
  | nil => exact ⟨Nat.le_refl _, rfl⟩
  | cons c cs ih =>
    have hcons : dropZeros (c :: cs) =
        if (dropZeros cs).isEmpty && c == '0' then [] else c :: dropZeros cs := rfl
    obtain ⟨hle, hzeros⟩ := ih
    rw [hcons]
    split
    · next hempty =>
      simp only [Bool.and_eq_true, List.isEmpty_iff, beq_iff_eq] at hempty
      obtain ⟨hnil, rfl⟩ := hempty
      rw [hnil] at hzeros
      refine ⟨Nat.zero_le _, ?_⟩
      rw [List.nil_append, List.length_nil, Nat.sub_zero] at hzeros ⊢
      rw [List.length_cons, zeros, List.replicate_succ]
      exact congrArg _ hzeros
    · simpa using ⟨hle, hzeros⟩

end Binary64

/-- A decimal with all its digits before the point. -/
theorem Decimal.plain_of_length_le {d : Decimal} {k : Nat} (hpoint : d.point = k) (hk : 0 < k)
    (hle : d.digits.length ≤ k) : d.plain = d.digits ++ zeros (k - d.digits.length) := by
  have hwhole : (d.digits ++ zeros (k - d.digits.length)).isEmpty = false := by
    rw [List.isEmpty_eq_false_iff, ← List.length_pos_iff, List.length_append, zeros,
      List.length_replicate]
    omega
  have hnone : (-(k : Int)).toNat = 0 := by omega
  simp only [plain, split, hpoint, Int.toNat_natCast, List.take_of_length_le hle,
    List.drop_of_length_le hle, hwhole, hnone]
  cases d.digits with
  | nil => rfl
  | cons c cs => rfl

/-! ## The shortest decimal of a whole number -/

namespace Binary64

/-- What reads back as a number is half a step from it at most. -/
theorem bounds_of_inInterval {n p q d : Nat} (h : inInterval n p q d = true) :
    (4 * n - 2 * step n) * q ≤ 4 * d * p * one ∧ 4 * d * p * one ≤ (4 * n + 2 * step n) * q := by
  simp only [inInterval] at h
  generalize hbelow :
    (if n = twoTo 52 * step n ∧ step n ≠ 1 then step n else 2 * step n) = below at h
  have hle : below ≤ 2 * step n := by
    rw [← hbelow]
    split <;> omega
  have hlow : (4 * n - 2 * step n) * q ≤ (4 * n - below) * q :=
    Nat.mul_le_mul_right _ (by omega)
  split at h
  · obtain ⟨hge, hle⟩ := Bool.and_eq_true_iff.1 h
    exact ⟨hlow.trans (of_decide_eq_true hge), of_decide_eq_true hle⟩
  · obtain ⟨hgt, hlt⟩ := Bool.and_eq_true_iff.1 h
    exact ⟨hlow.trans (of_decide_eq_true hgt).le, (of_decide_eq_true hlt).le⟩

/-- A number reads back as itself. -/
theorem inInterval_self {n p q d : Nat} (hn : 0 < n) (hq : 0 < q) (h : d * p * one = n * q) :
    inInterval n p q d = true := by
  have hat : 4 * d * p * one = 4 * n * q :=
    calc 4 * d * p * one = 4 * (d * p * one) := by ring
      _ = 4 * n * q := by rw [h]; ring
  have hstep := step_pos n
  simp only [inInterval, hat]
  generalize hbelow : (if n = twoTo 52 * step n ∧ step n ≠ 1 then step n else 2 * step n) = below
  have hpos : 0 < below := by
    rw [← hbelow]
    split <;> omega
  have hlow : (4 * n - below) * q < 4 * n * q := Nat.mul_lt_mul_of_pos_right (by omega) hq
  have hhigh : 4 * n * q < (4 * n + 2 * step n) * q := Nat.mul_lt_mul_of_pos_right (by omega) hq
  split
  · exact Bool.and_eq_true_iff.2 ⟨decide_eq_true hlow.le, decide_eq_true hhigh.le⟩
  · exact Bool.and_eq_true_iff.2 ⟨decide_eq_true hlow, decide_eq_true hhigh⟩

/-- A grid of which the upper neighbour does not read back. -/
theorem onGrid_eq {tie : Tie} {n p q below : Nat} {e : Int} (hp : tenTo e.toNat = p)
    (hq : tenTo (-e).toNat = q) (hbelow : n * q / (one * p) = below)
    (habove : inInterval n p q (below + 1) = false) :
    onGrid tie n e = if inInterval n p q below then some below else none := by
  subst hp hq hbelow
  unfold onGrid
  dsimp only
  rw [habove]
  cases inInterval n (tenTo e.toNat) (tenTo (-e).toNat)
      (n * tenTo (-e).toNat / (one * tenTo e.toNat)) with
  | true => rfl
  | false => rfl

section
variable {n : Nat}

/-- The neighbours of a number below 2^53 are at most one apart. -/
theorem step_mul_one_le (hpos : 0 < n) (hn : n < twoTo 53) : step (n * one) ≤ one := by
  have hlog : (n * one).log2 < 53 + 1074 := log2_mul_twoTo_lt hpos hn 1074
  exact twoTo_le (by omega)

/-- **Among whole numbers, only the number itself reads back as it.** -/
theorem inInterval_mul_one (hpos : 0 < n) (hn : n < twoTo 53) {p d : Nat} :
    inInterval (n * one) p 1 d = true ↔ d * p = n := by
  constructor
  · intro h
    obtain ⟨hlow, hhigh⟩ := bounds_of_inInterval h
    have hwidth := step_mul_one_le hpos hn
    have hunit := one_units_pos
    have hat : 4 * d * p * one = 4 * (d * p * one) := by ring
    rw [hat, Nat.mul_one] at hlow hhigh
    generalize step (n * one) = width at *
    generalize one = unit at *
    -- A whole number apart is a whole unit apart, which is more than half a step.
    rcases Nat.lt_trichotomy (d * p) n with hlt | heq | hgt
    · have hmul : (d * p + 1) * unit ≤ n * unit := Nat.mul_le_mul_right _ hlt
      rw [Nat.add_mul, Nat.one_mul] at hmul
      omega
    · exact heq
    · have hmul : (n + 1) * unit ≤ d * p * unit := Nat.mul_le_mul_right _ hgt
      rw [Nat.add_mul, Nat.one_mul] at hmul
      omega
  · rintro rfl
    exact inInterval_self (Nat.mul_pos hpos one_units_pos) Nat.one_pos (Nat.mul_one _).symm

/-- A grid has a decimal that reads back as a whole number iff it has the number. -/
theorem onGrid_mul_one (tie : Tie) (hpos : 0 < n) (hn : n < twoTo 53) (e : Nat) :
    onGrid tie (n * one) e = if tenTo e ∣ n then some (n / tenTo e) else none := by
  have hone : tenTo (-(e : Int)).toNat = 1 := by
    have hnone : (-(e : Int)).toNat = 0 := by omega
    rw [hnone]
    rfl
  have hdiv : n * one * 1 / (one * tenTo e) = n / tenTo e := by
    rw [Nat.mul_one, Nat.mul_comm n, Nat.mul_div_mul_left _ _ one_units_pos]
  have habove : inInterval (n * one) (tenTo e) 1 (n / tenTo e + 1) = false := by
    rw [Bool.eq_false_iff, Ne, inInterval_mul_one hpos hn]
    exact (Nat.lt_mul_of_div_lt (Nat.lt_succ_self _) (tenTo_pos e)).ne'
  rw [onGrid_eq (congrArg tenTo (Int.toNat_natCast e)) hone hdiv habove]
  refine if_congr ?_ rfl rfl
  rw [inInterval_mul_one hpos hn, Nat.dvd_iff_div_mul_eq]

/-- The first grid that is tried and has the number is found, at the latest that of all
    whole numbers. -/
theorem searchGrids_mul_one (tie : Tie) (hpos : 0 < n) (hn : n < twoTo 53) {top : Nat} :
    ∀ fuel k, k ≤ top → top < fuel + k →
      ∃ d e : Nat, searchGrids tie (n * one) top fuel k = some (d, (e : Int)) ∧
        d * tenTo e = n := by
  intro fuel
  induction fuel with
  | zero => omega
  | succ fuel ih =>
    intro k hk hfuel
    have he : (top : Int) - k = (top - k : Nat) := by omega
    rw [searchGrids, he, onGrid_mul_one tie hpos hn]
    by_cases hdvd : tenTo (top - k) ∣ n
    · rw [if_pos hdvd]
      exact ⟨n / tenTo (top - k), top - k, rfl, Nat.div_mul_cancel hdvd⟩
    · rw [if_neg hdvd]
      -- The grid of all whole numbers has every one of them.
      have hlast : k ≠ top := by
        rintro rfl
        rw [Nat.sub_self] at hdvd
        exact hdvd (Nat.one_dvd n)
      exact ih (k + 1) (by omega) (by omega)

theorem magnitude_mul_one (hpos : 0 < n) : magnitude (n * one) = digitCount n := by
  rw [magnitude, if_pos (Nat.le_mul_of_pos_left one hpos), Nat.mul_div_cancel n one_units_pos]

/-- **The shortest decimal of a whole number** is the number in its digits. -/
theorem shortest_mul_one (hn : n ≤ twoTo 53) :
    (shortest .greater (n * one)).plain = digitsOf n := by
  rcases Nat.eq_zero_or_pos n with rfl | hpos
  · rw [Nat.zero_mul]
    decide
  rcases Nat.eq_or_lt_of_le hn with rfl | hn
  · -- Around 2^53 the steps change: the next whole number is half a step away.
    decide +kernel
  have hcount : digitCount n ≤ 16 := digitCount_le_iff.2 (hn.trans (by decide))
  have hsome : 1 ≤ digitCount n := by
    unfold digitCount
    rw [if_neg hpos.ne']
    omega
  obtain ⟨d, e, hsearch, rfl⟩ := searchGrids_mul_one .greater hpos hn 17 1 hsome (by omega)
  have hd : 0 < d := Nat.pos_of_mul_pos_right hpos
  have hne : d * tenTo e * one ≠ 0 := (Nat.mul_pos hpos one_units_pos).ne'
  rw [shortest, if_neg hne, magnitude_mul_one hpos, hsearch]
  obtain ⟨hle, hdigits⟩ := dropZeros_append_zeros (digitsOf d)
  have hpoint : ((digitsOf d).length : Int) + e = ((digitsOf d).length + e : Nat) := by omega
  have hlength : 0 < (digitsOf d).length := Nat.length_toDigits_pos
  have hsplit : (digitsOf d).length + e - (dropZeros (digitsOf d)).length =
      (digitsOf d).length - (dropZeros (digitsOf d)).length + e := by omega
  calc Decimal.plain ⟨dropZeros (digitsOf d), (digitsOf d).length + e⟩
      = dropZeros (digitsOf d) ++
          zeros ((digitsOf d).length + e - (dropZeros (digitsOf d)).length) :=
        Decimal.plain_of_length_le hpoint (by omega) (by dsimp only; omega)
    _ = digitsOf d ++ zeros e := by
        rw [hsplit, zeros, ← List.replicate_append_replicate, ← List.append_assoc]
        exact congrArg (· ++ zeros e) hdigits
    _ = digitsOf (d * tenTo e) := (digitsOf_mul_tenTo hd e).symm

end

/-! ## Whole numbers as they are seen -/

section
variable {i : Int}

theorem plain_ofInt (hi : i.natAbs ≤ twoTo 53) : (ofInt i).plain = Value.integerText i := by
  rw [ofInt_eq hi, plain, shortest_mul_one hi]
  rfl

theorem isWhole_ofInt (hi : i.natAbs ≤ twoTo 53) : (ofInt i).isWhole = true := by
  rw [ofInt_eq hi, isWhole, Nat.mul_mod_left]
  rfl

theorem signed_natAbs (i : Int) : signed (decide (i < 0)) i.natAbs = i := by
  unfold signed
  split
  · next h =>
    have := of_decide_eq_true h
    omega
  · next h =>
    have := of_decide_eq_false (Bool.eq_false_iff.2 h)
    omega

theorem clamp_ofInt (hi : i.natAbs ≤ twoTo 53) {low high : Int} (hlow : low ≤ i)
    (hhigh : i ≤ high) : (ofInt i).clamp low high = i := by
  rw [ofInt_eq hi, clamp, Nat.mul_div_cancel _ one_units_pos, signed_natAbs]
  omega

end

end Binary64

end Transcode
