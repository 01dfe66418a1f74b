/-
  Transcode — heights that are nearest.

  The height that follows from a source is found with two divisions, each of which is
  rounded, and is then rounded to a multiple of the modulus.  Both divisions keep on their
  side of every half step: a half step that is reached is a number of the format, and one
  that is not reached is missed by more than both roundings add, as long as the width times
  the height of the source is below 2^51.  So the height is the nearest multiple indeed.

  * `le_twice`, `twice_lt`: on which side of a half step the quotient is;
  * `stepsIn_twice`: so its steps are those of the exact quotient;
  * `isNearestMultiple_mul`: these make the nearest multiple;
  * `FrameSize.scale_nearest`: so the height of a frame is that, or is refused.
-/
import Transcode.Proofs.FrameScaling

namespace Transcode

namespace Binary64

/-! ## Two divisions -/

/-- The units of a whole number that is divided by two others, one after the other. -/
def twice (p a b : Nat) : Nat :=
  rounded (rounded (p * one * one) (a * one) * one) (b * one)

section
variable {p a b k : Nat}

/-- Half a unit of a whole number. -/
theorem one_eq_two_mul : one = 2 * twoTo 1073 := by
  have htwo : twoTo 1 = 2 := rfl
  rw [one_eq_mul (i := 1) (j := 1073) (by omega), htwo]

/-- **A half step that is reached is not lost**: it is a number of the format, before the
    second division and after it. -/
theorem le_twice (ha : 0 < a) (hb : 0 < b) (hp : 2 * p ≤ twoTo 53) (h : k * (a * b) ≤ 2 * p) :
    k * one ≤ 2 * twice p a b := by
  have hone := one_units_pos
  have hk : k * b ≤ twoTo 53 := by
    calc k * b ≤ a * (k * b) := Nat.le_mul_of_pos_left _ ha
      _ = k * (a * b) := by ring
      _ ≤ twoTo 53 := h.trans hp
  have hfirst : k * b * twoTo 1073 ≤ rounded (p * one * one) (a * one) := by
    refine le_rounded (Nat.mul_pos ha hone) (fits_mul_twoTo_of_le hk (by omega)) ?_
    calc k * b * twoTo 1073 * (a * one) = k * (a * b) * (twoTo 1073 * one) := by ring
      _ ≤ 2 * p * (twoTo 1073 * one) := Nat.mul_le_mul_right _ h
      _ = p * (2 * twoTo 1073) * one := by ring
      _ = p * one * one := by rw [← one_eq_two_mul]
  have hsecond : k * twoTo 1073 ≤ twice p a b := by
    have hk : k ≤ twoTo 53 := (Nat.le_mul_of_pos_right k hb).trans hk
    refine le_rounded (Nat.mul_pos hb hone) (fits_mul_twoTo_of_le hk (by omega)) ?_
    calc k * twoTo 1073 * (b * one) = k * b * twoTo 1073 * one := by ring
      _ ≤ rounded (p * one * one) (a * one) * one := Nat.mul_le_mul_right _ hfirst
  calc k * one = 2 * (k * twoTo 1073) := by rw [one_eq_two_mul]; ring
    _ ≤ 2 * twice p a b := Nat.mul_le_mul_left 2 hsecond

/-- Two roundings add one part in 2^53 each, as both quotients have all their bits. -/
theorem twice_mul_le (hp : 0 < p) (ha : 0 < a) (ha32 : a < twoTo 32) (hb : 0 < b)
    (hb32 : b < twoTo 32) :
    twice p a b * (a * b) * (twoTo 53 * twoTo 53) ≤
      p * one * ((twoTo 53 + 1) * (twoTo 53 + 1)) := by
  have hone := one_units_pos
  have hlarge : twoTo 84 ≤ rounded (p * one * one) (a * one) :=
    twoTo_le_quotient hp ha ha32 (by omega)
  obtain ⟨hquotient, -⟩ := quotient_bounds hp ha ha32
  unfold twice
  generalize rounded (p * one * one) (a * one) = quotient at hquotient hlarge
  have hsecond : twoTo 52 ≤ quotient * one / (b * one) := by
    rw [Nat.mul_div_mul_right _ _ hone, Nat.le_div_iff_mul_le hb]
    calc twoTo 52 * b ≤ twoTo 52 * twoTo 32 := Nat.mul_le_mul_left _ hb32.le
      _ = twoTo 84 := (twoTo_add 52 32).symm
      _ ≤ quotient := hlarge
  have herror := rounded_mul_le hsecond
  generalize rounded (quotient * one) (b * one) = result at herror
  have hresult : result * b * twoTo 53 ≤ quotient * (twoTo 53 + 1) := by
    refine Nat.le_of_mul_le_mul_right ?_ hone
    calc result * b * twoTo 53 * one = result * (b * one) * twoTo 53 := by ring
      _ ≤ quotient * one * (twoTo 53 + 1) := herror
      _ = quotient * (twoTo 53 + 1) * one := by ring
  calc result * (a * b) * (twoTo 53 * twoTo 53)
      = result * b * twoTo 53 * (a * twoTo 53) := by ring
    _ ≤ quotient * (twoTo 53 + 1) * (a * twoTo 53) := Nat.mul_le_mul_right _ hresult
    _ = quotient * a * twoTo 53 * (twoTo 53 + 1) := by ring
    _ ≤ p * one * (twoTo 53 + 1) * (twoTo 53 + 1) := Nat.mul_le_mul_right _ hquotient
    _ = p * one * ((twoTo 53 + 1) * (twoTo 53 + 1)) := by ring

/-- **A half step that is not reached is not gained**: what is missing to it is more than
    the two roundings add. -/
theorem twice_lt (hp : 0 < p) (hp51 : p < twoTo 51) (ha : 0 < a) (ha32 : a < twoTo 32)
    (hb : 0 < b) (hb32 : b < twoTo 32) (h : 2 * p < k * (a * b)) :
    2 * twice p a b < k * one := by
  refine Nat.lt_of_not_le fun hle => ?_
  have herror := twice_mul_le hp ha ha32 hb hb32
  -- If the half step were gained, the roundings would add one part in `2 * p` at least.
  have hgain : (2 * p + 1) * (twoTo 53 * twoTo 53) ≤
      2 * p * ((twoTo 53 + 1) * (twoTo 53 + 1)) := by
    refine Nat.le_of_mul_le_mul_right ?_ one_units_pos
    calc (2 * p + 1) * (twoTo 53 * twoTo 53) * one
        ≤ k * (a * b) * (twoTo 53 * twoTo 53) * one :=
          Nat.mul_le_mul_right _ (Nat.mul_le_mul_right _ h)
      _ = k * one * (a * b) * (twoTo 53 * twoTo 53) := by ring
      _ ≤ 2 * twice p a b * (a * b) * (twoTo 53 * twoTo 53) :=
          Nat.mul_le_mul_right _ (Nat.mul_le_mul_right _ hle)
      _ = 2 * (twice p a b * (a * b) * (twoTo 53 * twoTo 53)) := by ring
      _ ≤ 2 * (p * one * ((twoTo 53 + 1) * (twoTo 53 + 1))) := Nat.mul_le_mul_left _ herror
      _ = 2 * p * ((twoTo 53 + 1) * (twoTo 53 + 1)) * one := by ring
  have hbits : twoTo 53 = 9007199254740992 := by decide
  have hbits' : twoTo 51 = 2251799813685248 := by decide
  rw [hbits'] at hp51
  rw [hbits] at hgain
  omega

/-- **Two divisions lose no step**: the quotient has the steps of the exact one, each half
    step counting as one. -/
theorem stepsIn_twice (hp : 0 < p) (hp51 : p < twoTo 51) (ha : 0 < a) (ha32 : a < twoTo 32)
    (hb : 0 < b) (hb32 : b < twoTo 32) :
    (2 * twice p a b + one) / (2 * one) = (2 * p + a * b) / (2 * (a * b)) := by
  have hone := one_units_pos
  have hproduct : 0 < a * b := Nat.mul_pos ha hb
  have hp53 : 2 * p ≤ twoTo 53 := by
    have hbits : twoTo 53 = 4 * twoTo 51 := twoTo_add 2 51
    omega
  refine eq_of_forall_le_iff fun k => ?_
  rw [Nat.le_div_iff_mul_le (by omega), Nat.le_div_iff_mul_le (by omega)]
  rcases Nat.eq_zero_or_pos k with rfl | hk
  · simp
  -- The half step in front of the step `k` is at `2 * k - 1` halves.
  obtain ⟨j, rfl⟩ : ∃ j, k = j + 1 := ⟨k - 1, by omega⟩
  have hsteps : (j + 1) * (2 * one) = (2 * j + 1) * one + one := by ring
  have hexact : (j + 1) * (2 * (a * b)) = (2 * j + 1) * (a * b) + a * b := by ring
  rw [hsteps, hexact, Nat.add_le_add_iff_right, Nat.add_le_add_iff_right]
  constructor
  · intro hle
    refine Nat.le_of_not_lt fun hlt => absurd hle (Nat.not_le.2 ?_)
    exact twice_lt hp hp51 ha ha32 hb hb32 hlt
  · exact le_twice ha hb hp53

end

end Binary64

/-! ## The nearest multiple -/

/-- The positive multiple of a modulus that is nearest to the quotient `p / q`, the greater
    of two that are; what is compared are the distances times `q`. -/
structure IsNearestMultiple (modulus p q h : Nat) : Prop where
  pos : 0 < h
  dvd : modulus ∣ h
  nearest : ∀ n, 0 < n → modulus ∣ n → ((h * q : Int) - p).natAbs ≤ ((n * q : Int) - p).natAbs
  greater : ∀ n, modulus ∣ n → ((n * q : Int) - p).natAbs = ((h * q : Int) - p).natAbs → n ≤ h

/-- A multiple of `d` is nearest to a number if half a step above it is above the number, and
    half a step below it is not, unless the multiples below it do not count. -/
theorem nearest_of_half_steps {p d s j : Nat} (hd : 0 < d) (habove : 2 * p < 2 * (s * d) + d)
    (hbelow : j < s → 2 * (s * d) ≤ 2 * p + d) :
    ((s * d : Nat) - p : Int).natAbs ≤ ((j * d : Nat) - p : Int).natAbs ∧
      (((j * d : Nat) - p : Int).natAbs = ((s * d : Nat) - p : Int).natAbs → j ≤ s) := by
  rcases lt_trichotomy j s with hlt | rfl | hgt
  · have hbelow := hbelow hlt
    have hstep : (j + 1) * d ≤ s * d := Nat.mul_le_mul_right d hlt
    rw [Nat.succ_mul] at hstep
    omega
  · exact ⟨Nat.le_refl _, fun _ => Nat.le_refl _⟩
  · have hstep : (s + 1) * d ≤ j * d := Nat.mul_le_mul_right d hgt
    rw [Nat.succ_mul] at hstep
    omega

/-- The steps of the quotient, half a step counting as one, make the nearest multiple. -/
theorem isNearestMultiple_mul {modulus p q : Nat} (hm : 0 < modulus) (hq : 0 < q) :
    IsNearestMultiple modulus p q
      (modulus * Max.max 1 ((2 * p + q * modulus) / (2 * (q * modulus)))) := by
  have hd : 0 < q * modulus := Nat.mul_pos hq hm
  have hfloor := Nat.div_mul_le_self (2 * p + q * modulus) (2 * (q * modulus))
  have hceil : 2 * p + q * modulus < _ := Nat.lt_div_mul_add (Nat.mul_pos Nat.two_pos hd)
  generalize (2 * p + q * modulus) / (2 * (q * modulus)) = k at hfloor hceil
  rw [Nat.mul_left_comm k] at hfloor hceil
  have habove : 2 * p < 2 * (Max.max 1 k * (q * modulus)) + q * modulus := by
    have hle := Nat.mul_le_mul_right (q * modulus) (Nat.le_max_right 1 k)
    omega
  -- There are positive multiples below only where the quotient has steps of its own.
  have hbelow : ∀ j, 0 < j → j < Max.max 1 k →
      2 * (Max.max 1 k * (q * modulus)) ≤ 2 * p + q * modulus := by
    intro j hj hlt
    rwa [Nat.max_eq_right (by omega)]
  have hunits : ∀ n : Nat, ((modulus * n : Nat) * q : Int) = (n * (q * modulus) : Nat) := by
    intro n
    push_cast
    ring
  refine ⟨Nat.mul_pos hm (by omega), Nat.dvd_mul_right _ _, ?_, ?_⟩
  · rintro n hn ⟨j, rfl⟩
    rw [hunits, hunits]
    exact (nearest_of_half_steps hd habove (hbelow j (Nat.pos_of_mul_pos_left hn))).1
  · rintro n ⟨j, rfl⟩
    rw [hunits, hunits]
    rcases Nat.eq_zero_or_pos j with rfl | hj
    · exact fun _ => Nat.zero_le _
    · exact fun h => Nat.mul_le_mul_left _ ((nearest_of_half_steps hd habove (hbelow j hj)).2 h)

namespace FrameSize

variable {source : FrameSize} {width modulus w : UInt32}

/-- The multiple of a modulus that is nearest to the height with the shape of a source, the
    greater one of two, and the modulus at least. -/
def nearestHeight (source : FrameSize) (width modulus : UInt32) : Nat :=
  modulus.toNat * Max.max 1
    ((2 * width.toNat * source.height.toNat + source.width.toNat * modulus.toNat) /
      (2 * source.width.toNat * modulus.toNat))

/-- While the product has 51 bits, the steps that are computed are the exact ones. -/
theorem heightSteps_mul (hm : 0 < modulus.toNat) (hwidth : 0 < width.toNat)
    (hw : 0 < source.width.toNat) (hh : 0 < source.height.toNat)
    (hproduct : width.toNat * source.height.toNat < 2 ^ 51) :
    heightSteps source width modulus * modulus.toNat = nearestHeight source width modulus := by
  have hsteps := Binary64.stepsIn_twice (Nat.mul_pos hwidth hh) hproduct hw (toNat_lt_twoTo _) hm
    (toNat_lt_twoTo modulus)
  have hunits : stepsIn (heightUnits source width) modulus.toNat = _ := hsteps
  rw [heightSteps, hunits, nearestHeight, Nat.mul_assoc, Nat.mul_assoc, Nat.mul_comm,
    Nat.max_comm]

section
variable (hw : roundDown width modulus = some w) (hpos : 0 < w.toNat)
  (hwidth : 0 < source.width.toNat) (hheight : 0 < source.height.toNat)
  (hproduct : w.toNat * source.height.toNat < 2 ^ 51)
include hw hpos hwidth hheight hproduct

theorem scale_eq_nearest :
    scale width none (some source) modulus =
      if nearestHeight source w modulus < 4294967296 then
        .ok ⟨w, UInt32.ofNat (nearestHeight source w modulus)⟩
      else .error (.setting .height (.derivedHeight source w)) := by
  have hm : 0 < modulus.toNat := (roundDown_eq_some_iff.1 hw).1
  have hbits : w.toNat * source.height.toNat ≤ twoTo 53 := hproduct.le.trans (by decide)
  rw [scale_eq_ite hw hpos hm hwidth hbits, heightSteps_mul hm hpos hwidth hheight hproduct]

theorem scale_eq_ok_iff_nearest (size : FrameSize) :
    scale width none (some source) modulus = .ok size ↔
      size.width = w ∧ size.height.toNat = nearestHeight source w modulus := by
  obtain ⟨width', h⟩ := size
  have hlt := toNat_lt_twoTo h
  rw [scale_eq_nearest hw hpos hwidth hheight hproduct]
  split
  · next hfits =>
    have hword : (UInt32.ofNat (nearestHeight source w modulus)).toNat = _ :=
      UInt32.toNat_ofNat_of_lt hfits
    rw [Except.ok.injEq, FrameSize.mk.injEq, ← UInt32.toNat_inj (a := UInt32.ofNat _), hword]
    exact and_congr eq_comm eq_comm
  · next htooHigh =>
    constructor
    · rintro ⟨⟩
    · rintro ⟨-, hh⟩
      exact absurd (hh ▸ hlt) htooHigh

theorem scale_eq_error_iff_nearest :
    (∃ objection, scale width none (some source) modulus = .error (.setting .height objection)) ↔
      4294967295 < nearestHeight source w modulus := by
  rw [scale_eq_nearest hw hpos hwidth hheight hproduct]
  split
  · next hfits =>
    constructor
    · rintro ⟨_, ⟨⟩⟩
    · omega
  · next htooHigh => exact ⟨fun _ => by omega, fun _ => ⟨_, rfl⟩⟩

end

/-- **The height that follows from a source is the nearest one.**  Although it is found with
    two divisions that are rounded, it is the multiple of the modulus that is nearest to the
    height with the shape of the source; the height is refused only if that has more than
    32 bits. -/
theorem scale_nearest (source : FrameSize) (hw : roundDown width modulus = some w)
    (hpos : 0 < w.toNat) (hwidth : 0 < source.width.toNat) (hheight : 0 < source.height.toNat)
    (hproduct : w.toNat * source.height.toNat < 2 ^ 51) :
    (∀ size, scale width none (some source) modulus = .ok size ↔
      size.width = w ∧ size.height.toNat = nearestHeight source w modulus) ∧
    ((∃ objection, scale width none (some source) modulus = .error (.setting .height objection)) ↔
      4294967295 < nearestHeight source w modulus) ∧
    IsNearestMultiple modulus.toNat (w.toNat * source.height.toNat) source.width.toNat
      (nearestHeight source w modulus) := by
  have hm : 0 < modulus.toNat := (roundDown_eq_some_iff.1 hw).1
  have hnearest := isNearestMultiple_mul (p := w.toNat * source.height.toNat) hm hwidth
  rw [← Nat.mul_assoc, ← Nat.mul_assoc] at hnearest
  exact ⟨scale_eq_ok_iff_nearest hw hpos hwidth hheight hproduct,
    scale_eq_error_iff_nearest hw hpos hwidth hheight hproduct, hnearest⟩

theorem scale_nearest_halfway :
    (scale 767 none (some ⟨1920, 1080⟩) 8 = .ok ⟨760, 424⟩ ∧
      IsNearestMultiple 8 (760 * 1080) 1920 424) ∧
    (scale 640 none (some ⟨160, 27⟩) 8 = .ok ⟨640, 112⟩ ∧
      IsNearestMultiple 8 (640 * 27) 160 112) ∧
    ∃ objection, scale 4000000000 none (some ⟨1, 2⟩) 8 = .error (.setting .height objection) := by
  have hround : roundDown 767 8 = some 760 := by decide
  have hround' : roundDown 640 8 = some 640 := by decide
  have hround'' : roundDown 4000000000 8 = some 4000000000 := by decide
  have hheight : nearestHeight ⟨1920, 1080⟩ 760 8 = 424 := by decide
  have hheight' : nearestHeight ⟨160, 27⟩ 640 8 = 112 := by decide
  obtain ⟨hscale, -, hnearest⟩ := scale_nearest ⟨1920, 1080⟩ hround (by decide)
    (by decide) (by decide) (by decide)
  obtain ⟨hscale', -, hnearest'⟩ := scale_nearest ⟨160, 27⟩ hround' (by decide)
    (by decide) (by decide) (by decide)
  obtain ⟨-, htooHigh, -⟩ := scale_nearest ⟨1, 2⟩ hround'' (by decide)
    (by decide) (by decide) (by decide)
  exact ⟨⟨(hscale _).2 ⟨rfl, hheight.symm⟩, hheight ▸ hnearest⟩,
    ⟨(hscale' _).2 ⟨rfl, hheight'.symm⟩, hheight' ▸ hnearest'⟩, htooHigh.2 (by decide)⟩

end FrameSize

end Transcode
