/-
  Transcode — what rounds to a number.

  A fraction rounds to a number of the format if it is half a step from it at most: a
  quarter below where the steps change, and not at the ends if the number is odd.  Beyond
  half a step above the greatest number it rounds to infinity.

  * `nearest_congr`: equal fractions round alike;
  * `nearest_of_inInterval`: what lies in the interval of a number rounds to it;
  * `isFinite_nearest_iff`: what does not round to infinity.
-/
import Mathlib.Tactic.Ring
import Transcode.Binary64.Shortest
import Transcode.Proofs.Rounding

namespace Transcode.Binary64

/-! ## Equal fractions -/

section
variable {p q p' q' k : Nat}

theorem halfEven_mul_right (p q : Nat) (hk : 0 < k) :
    halfEven (p * k) (q * k) = halfEven p q := by
  have hlt : 2 * (p % q * k) < q * k ↔ 2 * (p % q) < q := by
    rw [← Nat.mul_assoc, Nat.mul_lt_mul_right hk]
  have hgt : q * k < 2 * (p % q * k) ↔ q < 2 * (p % q) := by
    rw [← Nat.mul_assoc, Nat.mul_lt_mul_right hk]
  unfold halfEven
  simp only [Nat.mul_mod_mul_right, Nat.mul_div_mul_right p q hk, hlt, hgt]

theorem nearest_mul_right (s : Bool) (p q : Nat) (hk : 0 < k) :
    nearest s (p * k) (q * k) = nearest s p q := by
  have hstep : q * k * step (p / q) = q * step (p / q) * k := Nat.mul_right_comm _ _ _
  unfold nearest
  simp only [Nat.mul_div_mul_right p q hk, hstep, halfEven_mul_right _ _ hk]

/-- **Equal fractions round alike.** -/
theorem nearest_congr {s : Bool} (hq : 0 < q) (hq' : 0 < q') (h : p * q' = p' * q) :
    nearest s p q = nearest s p' q' :=
  calc nearest s p q = nearest s (p * q') (q * q') := (nearest_mul_right s p q hq').symm
    _ = nearest s (p' * q) (q' * q) := by rw [h, Nat.mul_comm q q']
    _ = nearest s p' q' := nearest_mul_right s p' q' hq

/-- What is a half away at most is the nearest; if it is odd, less than a half. -/
theorem halfEven_eq (hq : 0 < q) (hlow : 2 * (k * q) ≤ 2 * p + q) (hhigh : 2 * p ≤ 2 * (k * q) + q)
    (hodd : k % 2 = 1 → 2 * (k * q) < 2 * p + q ∧ 2 * p < 2 * (k * q) + q) :
    halfEven p q = k := by
  have hp := Nat.div_add_mod p q
  have hmod := Nat.mod_lt p hq
  rw [Nat.mul_comm] at hp
  have hcases : p / q = k ∨ p / q + 1 = k := by
    rcases Nat.lt_trichotomy (p / q) k with hlt | heq | hgt
    · right
      rcases Nat.eq_or_lt_of_le (Nat.succ_le_of_lt hlt) with h | h
      · exact h
      · have hmul : (p / q + 2) * q ≤ k * q := Nat.mul_le_mul_right q h
        rw [Nat.add_mul] at hmul
        omega
    · exact Or.inl heq
    · have hmul : (k + 1) * q ≤ p / q * q := Nat.mul_le_mul_right q hgt
      rw [Nat.add_mul, Nat.one_mul] at hmul
      omega
  unfold halfEven
  rcases hcases with hk | hk
  · rw [hk] at hp ⊢
    split <;> [rfl; split] <;> omega
  · rw [← hk, Nat.add_mul, Nat.one_mul] at hlow hhigh hodd
    rw [← hk]
    split <;> [skip; split] <;> omega

end

/-! ## The interval of a number -/

section
variable {n p q j : Nat}

/-- The steps of a binade. -/
theorem step_eq (hlow : j = 0 ∨ twoTo (52 + j) ≤ n) (hhigh : n < twoTo (53 + j)) :
    step n = twoTo j := by
  have hlog : n.log2 - 52 = j := by
    rcases Nat.eq_zero_or_pos n with rfl | hpos
    · have := twoTo_pos (52 + j)
      rw [Nat.log2_zero]
      omega
    · have hlt : n.log2 < 53 + j := (Nat.log2_lt hpos.ne').2 hhigh
      rcases hlow with rfl | hlow
      · omega
      · have := le_log2_of_twoTo_le hlow
        omega
  rw [step, hlog]

/-- A number of the format, counted in the steps of its binade. -/
theorem exists_steps (hn : Fits n) (hpos : 0 < n) :
    ∃ m j, n = m * twoTo j ∧ step n = twoTo j ∧ m < twoTo 53 ∧ (j = 0 ∨ twoTo 52 ≤ m) := by
  obtain ⟨m, hm⟩ := Nat.dvd_of_mod_eq_zero hn.1
  obtain ⟨j, hj⟩ : ∃ j, n.log2 - 52 = j := ⟨_, rfl⟩
  rw [Nat.mul_comm, hj] at hm
  refine ⟨m, j, hm, congrArg twoTo hj, ?_, ?_⟩
  · have hlt : n < twoTo (53 + j) := Nat.lt_log2_self.trans_le (twoTo_le (by omega))
    rw [twoTo_add, hm] at hlt
    exact Nat.lt_of_mul_lt_mul_right hlt
  · rcases Nat.eq_zero_or_pos j with hzero | hlog
    · exact Or.inl hzero
    · have hle : twoTo (52 + j) ≤ n := (twoTo_le (by omega)).trans (Nat.log2_self_le hpos.ne')
      rw [twoTo_add, hm] at hle
      exact Or.inr (Nat.le_of_mul_le_mul_right hle (twoTo_pos j))

theorem step_le (hpos : 0 < n) : step n ≤ n := by
  rcases Nat.lt_or_ge n (twoTo 52) with h | h
  · rw [step_eq (Or.inl rfl) (h.trans (twoTo_lt (by omega)))]
    exact hpos
  · exact (Nat.le_mul_of_pos_right _ (twoTo_pos 52)).trans (step_mul_le h)

/-- How far the interval of a number reaches down, in quarters of a unit. -/
def reachBelow (n : Nat) : Nat :=
  if n = twoTo 52 * step n ∧ step n ≠ 1 then step n else 2 * step n

theorem reachBelow_le (n : Nat) : reachBelow n ≤ 2 * step n := by
  unfold reachBelow
  split <;> omega

/-- **The interval of a number**: between its ends, and at them if the number is even. -/
theorem inInterval_iff {d : Nat} (hpos : 0 < n) :
    inInterval n p q d = true ↔
      4 * (n * q) ≤ 4 * (d * p * one) + reachBelow n * q ∧
      4 * (d * p * one) ≤ 4 * (n * q) + 2 * step n * q ∧
      (n / step n % 2 = 1 → 4 * (n * q) < 4 * (d * p * one) + reachBelow n * q ∧
        4 * (d * p * one) < 4 * (n * q) + 2 * step n * q) := by
  have hat : 4 * d * p * one = 4 * (d * p * one) := by ring
  have hbelow : reachBelow n * q ≤ 4 * (n * q) := by
    rw [← Nat.mul_assoc]
    refine Nat.mul_le_mul_right q ?_
    have := reachBelow_le n
    have := step_le hpos
    omega
  have hinterval : inInterval n p q d =
      if n / step n % 2 = 0 then (4 * n - reachBelow n) * q ≤ 4 * d * p * one &&
        4 * d * p * one ≤ (4 * n + 2 * step n) * q
      else (4 * n - reachBelow n) * q < 4 * d * p * one &&
        4 * d * p * one < (4 * n + 2 * step n) * q := rfl
  rw [hinterval, hat, Nat.sub_mul, Nat.add_mul, Nat.mul_assoc 4 n q]
  split
  · simp only [Bool.and_eq_true, decide_eq_true_eq]
    omega
  · simp only [Bool.and_eq_true, decide_eq_true_eq]
    omega

/-- Where the steps of a fraction are known, it rounds to the nearest of them. -/
theorem rounded_of_step {m : Nat} (hq : 0 < q) (hstep : step (p / q) = twoTo j)
    (hlow : 2 * (m * (q * twoTo j)) ≤ 2 * p + q * twoTo j)
    (hhigh : 2 * p ≤ 2 * (m * (q * twoTo j)) + q * twoTo j)
    (hodd : m % 2 = 1 → 2 * (m * (q * twoTo j)) < 2 * p + q * twoTo j ∧
      2 * p < 2 * (m * (q * twoTo j)) + q * twoTo j) :
    rounded p q = m * twoTo j := by
  rw [rounded, hstep, halfEven_eq (Nat.mul_pos hq (twoTo_pos j)) hlow hhigh hodd]

/-- The steps of a fraction, where it is given in them. -/
theorem step_div_eq (hq : 0 < q) (hlow : j = 0 ∨ twoTo 52 * (q * twoTo j) ≤ p)
    (hhigh : p < twoTo 53 * (q * twoTo j)) : step (p / q) = twoTo j := by
  have hunits : ∀ k, twoTo (k + j) * q = twoTo k * (q * twoTo j) := by
    intro k
    rw [twoTo_add]
    ring
  refine step_eq ?_ ((Nat.div_lt_iff_lt_mul hq).2 ((hunits 53).symm ▸ hhigh))
  rcases hlow with rfl | hlow
  · exact Or.inl rfl
  · exact Or.inr ((Nat.le_div_iff_mul_le hq).2 ((hunits 52).symm ▸ hlow))

/-- Just below a power of two the steps are half as wide as above it. -/
theorem rounded_below_power (hq : 0 < q)
    (hlow : 2 * (twoTo 53 * (q * twoTo j)) ≤ 2 * p + q * twoTo j)
    (hhigh : p < twoTo 53 * (q * twoTo j)) : rounded p q = twoTo 53 * twoTo j := by
  have hbits : twoTo 53 * (q * twoTo j) = 2 * (twoTo 52 * (q * twoTo j)) :=
    Nat.mul_assoc 2 (twoTo 52) _
  have hone : q * twoTo j ≤ twoTo 52 * (q * twoTo j) := Nat.le_mul_of_pos_left _ (twoTo_pos 52)
  refine rounded_of_step hq (step_div_eq hq (Or.inr ?_) hhigh) hlow (by omega) ?_
  · omega
  · intro hodd
    exact absurd hodd (by decide)

/-- **What lies in the interval of a number rounds to it.** -/
theorem rounded_of_inInterval {d : Nat} (hn : Fits n) (hpos : 0 < n) (hq : 0 < q)
    (h : inInterval n p q d = true) : rounded (d * p * one) q = n := by
  obtain ⟨hlow, hhigh, hodd⟩ := (inInterval_iff hpos).1 h
  obtain ⟨m, j, hm, hstep, hbits, htop⟩ := exists_steps hn hpos
  have hcount : n / step n = m := by rw [hstep, hm, Nat.mul_div_cancel m (twoTo_pos j)]
  have hunits : n * q = m * (q * twoTo j) := by rw [hm]; ring
  have habove : 2 * step n * q = 2 * (q * twoTo j) := by rw [hstep]; ring
  have hbelow : reachBelow n * q ≤ 2 * (q * twoTo j) :=
    habove ▸ Nat.mul_le_mul_right q (reachBelow_le n)
  rw [hcount, hunits, habove] at hodd
  rw [hunits, habove] at hhigh
  rw [hunits] at hlow
  generalize d * p * one = x at *
  have hwidth : 0 < q * twoTo j := Nat.mul_pos hq (twoTo_pos j)
  by_cases hlower : j ≠ 0 ∧ m = twoTo 52 ∧ x < m * (q * twoTo j)
  · obtain ⟨hj, rfl, hx⟩ := hlower
    obtain ⟨i, rfl⟩ := Nat.exists_eq_succ_of_ne_zero hj
    have hdouble : ∀ k, twoTo 52 * (k * twoTo (i + 1)) = twoTo 53 * (k * twoTo i) := by
      intro k
      rw [twoTo_add i 1, twoTo_add 52 1]
      ring
    have hnear : reachBelow n * q = 2 * (q * twoTo i) := by
      have hne : twoTo (i + 1) ≠ 1 := (Nat.one_lt_two_pow hj).ne'
      rw [reachBelow, hstep, if_pos ⟨hm, hne⟩, twoTo_add i 1]
      show twoTo i * 2 * q = _
      ring
    have hone := hdouble 1
    rw [Nat.one_mul, Nat.one_mul] at hone
    rw [hdouble] at hlow hx
    rw [hm, hone]
    exact rounded_below_power hq (by omega) hx
  · rw [hm]
    refine rounded_of_step hq (step_div_eq hq ?_ ?_) (by omega) (by omega) (by omega)
    · rcases Nat.eq_zero_or_pos j with hj | hj
      · exact Or.inl hj
      · have htop : twoTo 52 ≤ m := htop.resolve_left hj.ne'
        right
        rcases Nat.eq_or_lt_of_le htop with heq | hlt
        · rw [heq]
          exact Nat.le_of_not_lt fun hx => hlower ⟨hj.ne', heq.symm, hx⟩
        · have hmul : (twoTo 52 + 1) * (q * twoTo j) ≤ m * (q * twoTo j) :=
            Nat.mul_le_mul_right _ hlt
          rw [Nat.add_mul, Nat.one_mul] at hmul
          omega
    · have hmul : (m + 1) * (q * twoTo j) ≤ twoTo 53 * (q * twoTo j) :=
        Nat.mul_le_mul_right _ hbits
      rw [Nat.add_mul, Nat.one_mul] at hmul
      omega

theorem nearest_of_inInterval {s : Bool} {d : Nat} (hn : Fits n) (hpos : 0 < n) (hq : 0 < q)
    (h : inInterval n p q d = true) : nearest s (d * p * one) q = finite s n hn := by
  have hunits := rounded_of_inInterval hn hpos hq h
  have hfits : Fits (rounded (d * p * one) q) := hunits.symm ▸ hn
  rw [nearest_of_fits hfits]
  simp only [hunits]

end

/-! ## Too great a fraction -/

/-- Half a step above the greatest number, in units. -/
def overflow : Nat :=
  twoTo 2098 - twoTo 2044

section
variable {p q : Nat}

theorem isFinite_nearest {s : Bool} (hq : 0 < q) :
    (nearest s p q).isFinite = true ↔ rounded p q < twoTo 2098 := by
  constructor
  · intro h
    refine Nat.lt_of_not_le fun hle => ?_
    have hfits : ¬ Fits (rounded p q) := fun hfits => absurd hfits.2 (Nat.not_lt.2 hle)
    rw [show nearest s p q = infinite s from dif_neg hfits] at h
    cases h
  · intro hlt
    rw [nearest_of_fits (fits_rounded hq hlt)]
    rfl

theorem two_mul_overflow (q : Nat) :
    2 * (overflow * q) + q * twoTo 2045 = 2 * (twoTo 53 * (q * twoTo 2045)) := by
  have htwo : twoTo 1 = 2 := rfl
  have hstep : twoTo 2045 = 2 * twoTo 2044 := by
    rw [← htwo, ← twoTo_add]
  have hlimit : overflow + twoTo 2044 = twoTo 53 * twoTo 2045 := by
    rw [← twoTo_add, overflow, Nat.sub_add_cancel (twoTo_le (by omega))]
  calc 2 * (overflow * q) + q * twoTo 2045
      = 2 * ((overflow + twoTo 2044) * q) := by rw [hstep]; ring
    _ = 2 * (twoTo 53 * (q * twoTo 2045)) := by rw [hlimit]; ring

theorem rounded_lt_iff (hq : 0 < q) : rounded p q < twoTo 2098 ↔ p < overflow * q := by
  have hlimit := two_mul_overflow q
  have htop : twoTo 2098 = twoTo 53 * twoTo 2045 := twoTo_add 53 2045
  have hbits : twoTo 53 * (q * twoTo 2045) = 2 * (twoTo 52 * (q * twoTo 2045)) :=
    Nat.mul_assoc 2 (twoTo 52) _
  have hone : q * twoTo 2045 ≤ twoTo 52 * (q * twoTo 2045) :=
    Nat.le_mul_of_pos_left _ (twoTo_pos 52)
  constructor
  · intro hlt
    refine Nat.lt_of_not_le fun hle => ?_
    rcases Nat.lt_or_ge p (twoTo 53 * (q * twoTo 2045)) with hp | hp
    · rw [rounded_below_power hq (by omega) hp, htop] at hlt
      exact Nat.lt_irrefl _ hlt
    · have hdiv : twoTo 2098 ≤ p / q := by
        refine (Nat.le_div_iff_mul_le hq).2 ?_
        calc twoTo 2098 * q = twoTo 53 * (q * twoTo 2045) := by rw [htop]; ring
          _ ≤ p := hp
      have hne : p / q ≠ 0 := ((twoTo_pos 2098).trans_le hdiv).ne'
      have hlog := twoTo_le (le_log2_of_twoTo_le hdiv)
      have hpower := twoTo_log2_le_rounded hq hne
      omega
  · intro hlt
    rcases Nat.lt_or_ge p (twoTo 52 * (q * twoTo 2045)) with hp | hp
    · have hfits : Fits (twoTo 52 * twoTo 2045) := by
        refine fits_mul_twoTo (twoTo_le (by omega)) ?_
        rw [← twoTo_add]
        exact twoTo_lt (by omega)
      have hle : p ≤ twoTo 52 * twoTo 2045 * q := by
        calc p ≤ twoTo 52 * (q * twoTo 2045) := hp.le
          _ = twoTo 52 * twoTo 2045 * q := by ring
      exact (rounded_le hq hfits hle).trans_lt hfits.2
    · have hstep : step (p / q) = twoTo 2045 := step_div_eq hq (Or.inr hp) (by omega)
      have hhalf := halfEven_mul_le p (q * twoTo 2045)
      have hcount : halfEven p (q * twoTo 2045) < twoTo 53 :=
        Nat.lt_of_mul_lt_mul_right (a := q * twoTo 2045) (by omega)
      rw [rounded, hstep, htop]
      exact Nat.mul_lt_mul_of_pos_right hcount (twoTo_pos 2045)

/-- **A fraction rounds to a finite number** if it is less than half a step above the
    greatest. -/
theorem isFinite_nearest_iff {s : Bool} (hq : 0 < q) :
    (nearest s p q).isFinite = true ↔ p < overflow * q := by
  rw [isFinite_nearest hq, rounded_lt_iff hq]

end
end Transcode.Binary64
