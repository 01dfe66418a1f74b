/-
  Transcode — rounding to the numbers of the format.

  Rounding keeps what is a number of the format, and it keeps the order: what is not
  above a number of the format is not above it after rounding either, and likewise
  from below.  Whole numbers up to 2^53 are numbers of the format, so sums and products
  that come to one are exact.

  * `rounded` is the result of rounding, in units, wherever it is finite;
  * `rounded_le`, `le_rounded`: rounding keeps the order;
  * `rounded_mul_le`, `le_rounded_mul`: it adds, or takes, no more than one part in 2^53;
  * `nearest_eq_finite`: a fraction that is bounded by a number of the format rounds to
    a finite number;
  * `fits_mul_twoTo`: what 53 bits and a power of two make is a number of the format;
  * `ofNat_eq`, `mul_ofNat`: whole numbers up to 2^53 are taken as they are;
  * `quotient_bounds`: how far their quotients are from the exact ones.
-/
import Mathlib.Tactic.Ring
import Transcode.Binary64.Basic

namespace Transcode

theorem twoTo_add (m n : Nat) : twoTo (m + n) = twoTo m * twoTo n :=
  Nat.pow_add 2 m n

theorem twoTo_lt {m n : Nat} (h : m < n) : twoTo m < twoTo n :=
  Nat.pow_lt_pow_right (by decide) h

theorem twoTo_le {m n : Nat} (h : m ≤ n) : twoTo m ≤ twoTo n :=
  Nat.pow_le_pow_right (by decide) h

theorem twoTo_dvd {m n : Nat} (h : m ≤ n) : twoTo m ∣ twoTo n :=
  Nat.pow_dvd_pow 2 h

namespace Binary64

theorem one_units_pos : 0 < one :=
  twoTo_pos 1074

theorem one_eq_mul {i j : Nat} (h : i + j = 1074) : one = twoTo i * twoTo j := by
  rw [← twoTo_add, h]
  rfl

theorem signed_true (n : Nat) : signed true n = -(n : Int) := rfl

theorem signed_false (n : Nat) : signed false n = (n : Int) := rfl

/-! ## Halves -/

section
variable {p q k : Nat}

theorem halfEven_cases (p q : Nat) :
    (halfEven p q = p / q ∧ 2 * (p % q) ≤ q) ∨ (halfEven p q = p / q + 1 ∧ q ≤ 2 * (p % q)) := by
  unfold halfEven
  rcases Nat.lt_trichotomy (2 * (p % q)) q with h | h | h
  · rw [if_pos h]
    omega
  · rw [if_neg (by omega), if_neg (by omega)]
    rcases Nat.mod_two_eq_zero_or_one (p / q) with h' | h' <;> omega
  · rw [if_neg (by omega), if_pos h]
    omega

theorem halfEven_le (hq : 0 < q) (h : p ≤ k * q) : halfEven p q ≤ k := by
  have hdiv : p / q ≤ k := Nat.div_le_of_le_mul (Nat.mul_comm k q ▸ h)
  rcases halfEven_cases p q with ⟨he, -⟩ | ⟨he, hhalf⟩
  · omega
  · -- Above the quotient only where something remains, so the quotient is below `k`.
    have hne : p / q ≠ k := by
      intro hk
      have hp := Nat.div_add_mod p q
      rw [hk, Nat.mul_comm q k] at hp
      omega
    omega

/-- It is not more than a half above. -/
theorem halfEven_mul_le (p q : Nat) : 2 * (halfEven p q * q) ≤ 2 * p + q := by
  have hp := Nat.div_add_mod p q
  rw [Nat.mul_comm] at hp
  rcases halfEven_cases p q with ⟨he, -⟩ | ⟨he, hhalf⟩
  · rw [he]
    omega
  · rw [he, Nat.add_mul, Nat.one_mul]
    omega

/-- It is not more than a half below. -/
theorem le_halfEven_mul (hq : 0 < q) : 2 * p ≤ 2 * (halfEven p q * q) + q := by
  have hp := Nat.div_add_mod p q
  have hmod := Nat.mod_lt p hq
  rw [Nat.mul_comm] at hp
  rcases halfEven_cases p q with ⟨he, hhalf⟩ | ⟨he, -⟩
  · rw [he]
    omega
  · rw [he, Nat.add_mul, Nat.one_mul]
    omega

theorem le_halfEven (hq : 0 < q) (h : k * q ≤ p) : k ≤ halfEven p q := by
  have hdiv : k ≤ p / q := (Nat.le_div_iff_mul_le hq).2 h
  rcases halfEven_cases p q with ⟨he, -⟩ | ⟨he, -⟩ <;> omega

end

/-! ## Steps -/

section
variable {m n p q : Nat}

theorem step_pos (n : Nat) : 0 < step n :=
  twoTo_pos _

theorem log2_le (h : m ≤ n) : m.log2 ≤ n.log2 := by
  rcases Nat.eq_zero_or_pos m with rfl | hm
  · exact Nat.zero_le _
  · exact (Nat.le_log2 (by omega)).2 ((Nat.log2_self_le (by omega)).trans h)

theorem le_log2_of_twoTo_le {k : Nat} (h : twoTo k ≤ n) : k ≤ n.log2 :=
  (Nat.le_log2 ((twoTo_pos k).trans_le h).ne').2 h

/-- Where all 53 bits are in use, a step is no more than the last of them. -/
theorem step_mul_le (h : twoTo 52 ≤ n) : step n * twoTo 52 ≤ n := by
  have hne : n ≠ 0 := (Nat.lt_of_lt_of_le (twoTo_pos 52) h).ne'
  have hlog : 52 ≤ n.log2 := (Nat.le_log2 hne).2 h
  calc step n * twoTo 52 = twoTo n.log2 := by rw [step, ← twoTo_add, Nat.sub_add_cancel hlog]
    _ ≤ n := Nat.log2_self_le hne

theorem step_dvd (h : m ≤ n) : step m ∣ step n :=
  twoTo_dvd (Nat.sub_le_sub_right (log2_le h) 52)

theorem step_dvd_of_fits (h : m ≤ n) (hn : Fits n) : step m ∣ n :=
  (step_dvd h).trans (Nat.dvd_of_mod_eq_zero hn.1)

theorem log2_mul_twoTo_lt (hpos : 0 < m) (hm : m < twoTo 53) (k : Nat) :
    (m * twoTo k).log2 < 53 + k := by
  rw [Nat.log2_lt (Nat.mul_pos hpos (twoTo_pos k)).ne', Nat.pow_add]
  exact Nat.mul_lt_mul_of_pos_right hm (twoTo_pos k)

/-- What 53 bits and a power of two make is a number of the format. -/
theorem fits_mul_twoTo {k : Nat} (hm : m ≤ twoTo 53) (hlt : m * twoTo k < twoTo 2098) :
    Fits (m * twoTo k) := by
  refine ⟨Nat.mod_eq_zero_of_dvd ?_, hlt⟩
  rcases Nat.eq_zero_or_pos m with rfl | hpos
  · rw [Nat.zero_mul]
    exact Nat.dvd_zero _
  rcases Nat.eq_or_lt_of_le hm with rfl | hm
  · rw [← twoTo_add]
    refine twoTo_dvd ?_
    show Nat.log2 (2 ^ (53 + k)) - 52 ≤ 53 + k
    rw [Nat.log2_two_pow]
    omega
  · have hlog := log2_mul_twoTo_lt hpos hm k
    exact (twoTo_dvd (by omega)).trans (Nat.dvd_mul_left _ _)

theorem fits_mul_twoTo_of_le {k : Nat} (hm : m ≤ twoTo 53) (hk : k ≤ 1074) :
    Fits (m * twoTo k) := by
  refine fits_mul_twoTo hm ?_
  calc m * twoTo k ≤ twoTo 53 * twoTo 1074 := Nat.mul_le_mul hm (twoTo_le hk)
    _ = twoTo 1127 := (twoTo_add 53 1074).symm
    _ < twoTo 2098 := twoTo_lt (by omega)

theorem fits_mul_one (hn : n ≤ twoTo 53) : Fits (n * one) :=
  fits_mul_twoTo_of_le hn (Nat.le_refl 1074)

/-! ## Rounding -/

/-- The result of rounding a fraction, in units, wherever it is finite. -/
def rounded (p q : Nat) : Nat :=
  halfEven p (q * step (p / q)) * step (p / q)

theorem nearest_of_fits {s : Bool} (h : Fits (rounded p q)) :
    nearest s p q = finite s (rounded p q) h :=
  dif_pos h

theorem units_of_nearest {s t : Bool} {h : Fits n} (hn : nearest s p q = finite t n h) :
    n = rounded p q := by
  unfold nearest at hn
  dsimp only at hn
  split at hn
  · cases hn
    rfl
  · cases hn

/-- **Rounding does not pass a number of the format** that is not passed before. -/
theorem rounded_le (hq : 0 < q) (hn : Fits n) (h : p ≤ n * q) : rounded p q ≤ n := by
  have hdiv : p / q ≤ n := Nat.div_le_of_le_mul (Nat.mul_comm n q ▸ h)
  obtain ⟨k, hk⟩ := step_dvd_of_fits hdiv hn
  unfold rounded
  rw [Nat.mul_comm, hk]
  refine Nat.mul_le_mul_left _ (halfEven_le (Nat.mul_pos hq (step_pos _)) ?_)
  calc p ≤ n * q := h
    _ = k * (q * step (p / q)) := by rw [hk]; ring

theorem le_rounded_of_dvd (hq : 0 < q) (hdvd : step (p / q) ∣ n) (h : n * q ≤ p) :
    n ≤ rounded p q := by
  obtain ⟨k, rfl⟩ := hdvd
  unfold rounded
  rw [Nat.mul_comm]
  refine Nat.mul_le_mul_right _ (le_halfEven (Nat.mul_pos hq (step_pos _)) ?_)
  calc k * (q * step (p / q)) = step (p / q) * k * q := by ring
    _ ≤ p := h

/-- The power of two at the top of a fraction is not passed. -/
theorem twoTo_log2_le_rounded (hq : 0 < q) (hpos : p / q ≠ 0) :
    twoTo (p / q).log2 ≤ rounded p q :=
  le_rounded_of_dvd hq (twoTo_dvd (Nat.sub_le _ _))
    ((Nat.le_div_iff_mul_le hq).1 (Nat.log2_self_le hpos))

theorem le_rounded (hq : 0 < q) (hn : Fits n) (h : n * q ≤ p) : n ≤ rounded p q := by
  have hdiv : n ≤ p / q := (Nat.le_div_iff_mul_le hq).2 h
  rcases Nat.eq_or_lt_of_le (log2_le hdiv) with hlog | hlog
  · refine le_rounded_of_dvd hq ?_ h
    unfold step
    rw [← hlog]
    exact Nat.dvd_of_mod_eq_zero hn.1
  · -- The power of two at the top of `p / q` is above `n`.
    have hpos : p / q ≠ 0 := by
      intro h0
      rw [h0, Nat.log2_zero] at hlog
      omega
    have hn : n < twoTo (p / q).log2 := by
      rcases Nat.eq_zero_or_pos n with rfl | hn
      · exact twoTo_pos _
      · exact (Nat.log2_lt hn.ne').1 hlog
    exact hn.le.trans (twoTo_log2_le_rounded hq hpos)

theorem rounded_mul (hq : 0 < q) (hn : Fits n) : rounded (n * q) q = n :=
  Nat.le_antisymm (rounded_le hq hn (Nat.le_refl _)) (le_rounded hq hn (Nat.le_refl _))

theorem mul_step_mul_le (h : twoTo 52 ≤ p / q) : q * step (p / q) * twoTo 52 ≤ p := by
  calc q * step (p / q) * twoTo 52 = q * (step (p / q) * twoTo 52) := by ring
    _ ≤ q * (p / q) := Nat.mul_le_mul_left _ (step_mul_le h)
    _ ≤ p := Nat.mul_div_le p q

/-- The result on both sides of the bounds for halves, with all bits in use. -/
theorem rounded_mul_twoTo (p q : Nat) :
    rounded p q * q * twoTo 53 =
      2 * (halfEven p (q * step (p / q)) * (q * step (p / q))) * twoTo 52 := by
  rw [rounded, twoTo_add 1 52]
  show _ * (2 * twoTo 52) = _
  ring

/-- **Rounding up adds no more than one part in 2^53**, to a number with all its bits. -/
theorem rounded_mul_le (h : twoTo 52 ≤ p / q) :
    rounded p q * q * twoTo 53 ≤ p * (twoTo 53 + 1) := by
  have hhalf := halfEven_mul_le p (q * step (p / q))
  have hstep := mul_step_mul_le h
  have hbits : twoTo 53 = 2 * twoTo 52 := twoTo_add 1 52
  calc rounded p q * q * twoTo 53
      = 2 * (halfEven p (q * step (p / q)) * (q * step (p / q))) * twoTo 52 := rounded_mul_twoTo p q
    _ ≤ (2 * p + q * step (p / q)) * twoTo 52 := Nat.mul_le_mul_right _ hhalf
    _ = p * twoTo 53 + q * step (p / q) * twoTo 52 := by rw [hbits]; ring
    _ ≤ p * (twoTo 53 + 1) := by rw [Nat.mul_add, Nat.mul_one]; omega

/-- **Rounding down takes no more than one part in 2^53.** -/
theorem le_rounded_mul (hq : 0 < q) (h : twoTo 52 ≤ p / q) :
    p * twoTo 53 ≤ rounded p q * q * twoTo 53 + p := by
  have hhalf := le_halfEven_mul (p := p) (Nat.mul_pos hq (step_pos (p / q)))
  have hstep := mul_step_mul_le h
  have hbits : twoTo 53 = 2 * twoTo 52 := twoTo_add 1 52
  calc p * twoTo 53 = 2 * p * twoTo 52 := by rw [hbits]; ring
    _ ≤ (2 * (halfEven p (q * step (p / q)) * (q * step (p / q))) + q * step (p / q)) * twoTo 52 :=
        Nat.mul_le_mul_right _ hhalf
    _ = rounded p q * q * twoTo 53 + q * step (p / q) * twoTo 52 := by
        rw [rounded_mul_twoTo, Nat.add_mul]
    _ ≤ rounded p q * q * twoTo 53 + p := Nat.add_le_add_left hstep _

/-- What is rounded is a number of the format, unless it is too great for one. -/
theorem fits_rounded (hq : 0 < q) (hlt : rounded p q < twoTo 2098) : Fits (rounded p q) := by
  have hstep : step (p / q) ∣ rounded p q := Nat.dvd_mul_left _ _
  refine ⟨Nat.mod_eq_zero_of_dvd ?_, hlt⟩
  obtain ⟨k, hk⟩ : step (p / q) ∣ twoTo ((p / q).log2 + 1) := twoTo_dvd (by omega)
  have hp : p ≤ twoTo ((p / q).log2 + 1) * q :=
    ((Nat.div_lt_iff_lt_mul hq).1 Nat.lt_log2_self).le
  have htop : rounded p q ≤ twoTo ((p / q).log2 + 1) := by
    rw [hk, Nat.mul_comm]
    refine Nat.mul_le_mul_right _ (halfEven_le (Nat.mul_pos hq (step_pos _)) ?_)
    calc p ≤ step (p / q) * k * q := hk ▸ hp
      _ = k * (q * step (p / q)) := by ring
  rcases Nat.eq_or_lt_of_le htop with heq | hlt
  · rw [heq]
    refine twoTo_dvd ?_
    show Nat.log2 (2 ^ ((p / q).log2 + 1)) - 52 ≤ _
    rw [Nat.log2_two_pow]
    omega
  · have hlog : (rounded p q).log2 ≤ (p / q).log2 := by
      rcases Nat.eq_zero_or_pos (rounded p q) with h0 | hpos
      · rw [h0]
        exact Nat.zero_le _
      · exact Nat.lt_succ_iff.1 ((Nat.log2_lt hpos.ne').2 hlt)
    exact (twoTo_dvd (Nat.sub_le_sub_right hlog 52)).trans hstep

theorem nearest_eq_finite {s : Bool} (hq : 0 < q) (hn : Fits n) (h : p ≤ n * q) :
    ∃ hfits, nearest s p q = finite s (rounded p q) hfits ∧ rounded p q ≤ n := by
  have hle := rounded_le hq hn h
  have hfits := fits_rounded hq (hle.trans_lt hn.2)
  exact ⟨hfits, nearest_of_fits hfits, hle⟩

/-- A number of the format is rounded to itself. -/
theorem nearest_mul {s : Bool} (hq : 0 < q) (hn : Fits n) :
    nearest s (n * q) q = finite s n hn := by
  have hr : rounded (n * q) q = n := rounded_mul hq hn
  have hfits : Fits (rounded (n * q) q) := hr.symm ▸ hn
  rw [nearest_of_fits hfits]
  simp only [hr]

theorem nearest_one {s : Bool} (hn : Fits n) : nearest s n 1 = finite s n hn := by
  have h := nearest_mul (s := s) Nat.one_pos hn
  rwa [Nat.mul_one] at h

end

theorem div_finite {s t : Bool} {m n : Nat} {hm : Fits m} {hn : Fits n} (hpos : 0 < n) :
    (finite s m hm).div (finite t n hn) = nearest (s != t) (m * one) n :=
  if_neg hpos.ne'

/-! ## Whole numbers -/

section
variable {m n : Nat}

/-- **Whole numbers of 53 bits are numbers of the format.** -/
theorem ofNat_eq (hn : n ≤ twoTo 53) : ofNat n = finite false (n * one) (fits_mul_one hn) :=
  nearest_one _

theorem ofInt_eq {i : Int} (hi : i.natAbs ≤ twoTo 53) :
    ofInt i = finite (decide (i < 0)) (i.natAbs * one) (fits_mul_one hi) :=
  nearest_one _

theorem mul_ofNat (hm : m ≤ twoTo 53) (hn : n ≤ twoTo 53) (h : m * n ≤ twoTo 53) :
    (ofNat m).mul (ofNat n) = ofNat (m * n) := by
  rw [ofNat_eq hm, ofNat_eq hn, ofNat_eq h]
  have hproduct : m * one * (n * one) = m * n * one * one := by ring
  show nearest false (m * one * (n * one)) one = _
  rw [hproduct]
  exact nearest_mul one_units_pos (fits_mul_one h)

theorem ofNat_zero : ofNat 0 = zero false := by
  show nearest false (0 * one) 1 = _
  rw [Nat.zero_mul]
  exact nearest_one fits_zero

/-- The whole part of a number that is not negative. -/
theorem floor_finite {hn : Fits n} : (finite false n hn).floor = ofNat (n / one) := by
  unfold floor
  exact if_neg Bool.false_ne_true

theorem isFinite_ofNat (hn : n ≤ twoTo 53) : (ofNat n).isFinite = true := by
  rw [ofNat_eq hn]
  rfl

theorem lt_ofNat (hm : m ≤ twoTo 53) (hn : n ≤ twoTo 53) :
    (ofNat m).lt (ofNat n) = decide (m < n) := by
  rw [ofNat_eq hm, ofNat_eq hn]
  show decide (((m * one : Nat) : Int) < ((n * one : Nat) : Int)) = _
  rw [decide_eq_decide, Int.ofNat_lt, Nat.mul_lt_mul_right one_units_pos]

theorem max_ofNat (hm : m ≤ twoTo 53) (hn : n ≤ twoTo 53) :
    (ofNat m).max (ofNat n) = ofNat (Max.max m n) := by
  have hmax : (ofNat m).max (ofNat n) = if (ofNat m).lt (ofNat n) then ofNat n else ofNat m := by
    rw [ofNat_eq hm, ofNat_eq hn]
    rfl
  rw [hmax, lt_ofNat hm hn]
  rcases Nat.lt_or_ge m n with h | h
  · rw [if_pos (decide_eq_true h), Nat.max_eq_right h.le]
  · rw [if_neg (by simpa using h), Nat.max_eq_left h]

theorem clamp_ofNat (hn : n ≤ twoTo 53) (high : Nat) :
    (ofNat n).clamp 0 high = (Min.min high n : Nat) := by
  rw [ofNat_eq hn]
  show Max.max (0 : Int) (Min.min (high : Int) ((n * one / one : Nat) : Int)) = _
  rw [Nat.mul_div_cancel n one_units_pos]
  omega

end

/-! ## Quotients of whole numbers -/

section
variable {p a i : Nat}

theorem twoTo_mul_le_one (ha : a < twoTo 32) (hi : i + 32 ≤ 1074) : twoTo i * a ≤ one := by
  calc twoTo i * a ≤ twoTo i * twoTo 32 := Nat.mul_le_mul_left _ ha.le
    _ = twoTo (i + 32) := (twoTo_add i 32).symm
    _ ≤ one := twoTo_le hi

theorem twoTo_mul_le_units (hp : 0 < p) (ha : a < twoTo 32) (hi : i + 32 ≤ 1074) :
    twoTo i * (a * one) ≤ p * one * one := by
  rw [← Nat.mul_assoc]
  exact Nat.mul_le_mul_right _ ((twoTo_mul_le_one ha hi).trans (Nat.le_mul_of_pos_left one hp))

theorem twoTo_le_quotient (hp : 0 < p) (ha : 0 < a) (ha32 : a < twoTo 32) (hi : i + 32 ≤ 1074) :
    twoTo i ≤ rounded (p * one * one) (a * one) := by
  rw [← Nat.one_mul (twoTo i)]
  refine le_rounded (Nat.mul_pos ha one_units_pos)
    (fits_mul_twoTo_of_le (twoTo_pos 53) (by omega)) ?_
  rw [Nat.one_mul]
  exact twoTo_mul_le_units hp ha32 hi

/-- **A quotient is the exact one** but for one part in 2^53. -/
theorem quotient_bounds (hp : 0 < p) (ha : 0 < a) (ha32 : a < twoTo 32) :
    rounded (p * one * one) (a * one) * a * twoTo 53 ≤ p * one * (twoTo 53 + 1) ∧
      p * one * twoTo 53 ≤ rounded (p * one * one) (a * one) * a * twoTo 53 + p * one := by
  have hone := one_units_pos
  have hpos : 0 < a * one := Nat.mul_pos ha hone
  have hbits : twoTo 52 ≤ p * one * one / (a * one) :=
    (Nat.le_div_iff_mul_le hpos).2 (twoTo_mul_le_units hp ha32 (by omega))
  have hupper := rounded_mul_le hbits
  have hlower := le_rounded_mul hpos hbits
  generalize rounded (p * one * one) (a * one) = quotient at hupper hlower
  constructor
  · refine Nat.le_of_mul_le_mul_right ?_ hone
    calc quotient * a * twoTo 53 * one = quotient * (a * one) * twoTo 53 := by ring
      _ ≤ p * one * one * (twoTo 53 + 1) := hupper
      _ = p * one * (twoTo 53 + 1) * one := by ring
  · refine Nat.le_of_mul_le_mul_right ?_ hone
    calc p * one * twoTo 53 * one = p * one * one * twoTo 53 := by ring
      _ ≤ quotient * (a * one) * twoTo 53 + p * one * one := hlower
      _ = (quotient * a * twoTo 53 + p * one) * one := by ring

end

end Binary64

end Transcode
