/-
  Transcode — heights that follow from a source.

  At a width, the shape of a source gives a height, and the modulus the steps that are
  nearest to it.  While the products involved have 53 bits, these steps are a whole
  number, and the only thing that can be wrong with the height is that it has more
  than 32 bits.

  * `FrameSize.modulusSteps_exactHeight`: the steps of the height, with a bound;
  * `roundNearest_eq`: the multiple of the modulus, if it has 32 bits;
  * `FrameSize.scale_eq_ite`: so a frame is scaled, or its height has too many bits;
  * `FrameSize.exists_scale`: which sources are flat enough for a height of 32 bits.
-/
import Transcode.Frame.Scale
import Transcode.Proofs.Rounding

namespace Transcode

open Binary64

theorem toNat_lt_twoTo (n : UInt32) : n.toNat < twoTo 32 :=
  n.toNat_lt

theorem toNat_le_twoTo (n : UInt32) : n.toNat ≤ twoTo 53 :=
  ((toNat_lt_twoTo n).trans (twoTo_lt (by omega))).le

theorem ne_zero_of_toNat_pos {n : UInt32} (h : 0 < n.toNat) : n ≠ 0 := by
  rintro rfl
  exact Nat.lt_irrefl 0 h

theorem toNat_pos_of_ne_zero {n : UInt32} (h : n ≠ 0) : 0 < n.toNat :=
  Nat.pos_of_ne_zero fun hzero => h (UInt32.toNat_inj.1 hzero)

/-- The steps of a modulus that are nearest to a number, as a number; there is at
    least one. -/
def modulusSteps (value : Binary64) (modulus : UInt32) : Binary64 :=
  ((value.div (.ofNat modulus.toNat)).round).max (.ofNat 1)

section
variable {units bound : Nat} {modulus : UInt32}

/-- The steps of a modulus in a number of so many units, half a step counting as one. -/
def stepsIn (units modulus : Nat) : Nat :=
  (2 * rounded (units * one) (modulus * one) + one) / (2 * one)

/-- A number that is bounded by so many steps has no more of them. -/
theorem stepsIn_le {m : Nat} (hm : 0 < m) (hbound : bound ≤ twoTo 53)
    (h : units ≤ bound * m * one) : stepsIn units m ≤ bound := by
  have hone := one_units_pos
  have hle : units * one ≤ bound * one * (m * one) := by
    calc units * one ≤ bound * m * one * one := Nat.mul_le_mul_right _ h
      _ = bound * one * (m * one) := by ring
  have hquotient : rounded (units * one) (m * one) ≤ bound * one :=
    rounded_le (Nat.mul_pos hm hone) (fits_mul_one hbound) hle
  have hexpand : (bound + 1) * (2 * one) = 2 * (bound * one) + 2 * one := by ring
  rw [stepsIn, ← Nat.lt_add_one_iff, Nat.div_lt_iff_lt_mul (by omega)]
  omega

theorem modulusSteps_eq (fits : Fits units) (hm : 0 < modulus.toNat) (hbound : bound ≤ twoTo 53)
    (h : units ≤ bound * one) :
    modulusSteps (finite false units fits) modulus =
      .ofNat (Max.max (stepsIn units modulus.toNat) 1) := by
  have hone := one_units_pos
  have hmodulus : 0 < modulus.toNat * one := Nat.mul_pos hm hone
  have hdiv : (finite false units fits).div (.ofNat modulus.toNat) =
      nearest false (units * one) (modulus.toNat * one) := by
    rw [ofNat_eq (toNat_le_twoTo modulus), div_finite hmodulus, bne_self_eq_false]
  have hle : units * one ≤ bound * one * (modulus.toNat * one) :=
    Nat.mul_le_mul h (Nat.le_mul_of_pos_left one hm)
  obtain ⟨hfits, hnearest, -⟩ := nearest_eq_finite (s := false) hmodulus (fits_mul_one hbound) hle
  have hsteps : stepsIn units modulus.toNat ≤ bound := by
    refine stepsIn_le hm hbound (h.trans ?_)
    exact Nat.mul_le_mul_right _ (Nat.le_mul_of_pos_right _ hm)
  rw [← max_ofNat (hsteps.trans hbound) (twoTo_pos 53), modulusSteps, hdiv, hnearest]
  rfl

/-- **Rounding to a multiple** gives that many steps of the modulus, if the multiple has
    32 bits. -/
theorem roundNearest_eq {value : Binary64} {k : Nat} (hm : 0 < modulus.toNat)
    (hsteps : modulusSteps value modulus = .ofNat k) (hk : k ≤ twoTo 53) :
    roundNearest value modulus =
      if k * modulus.toNat < 4294967296 then some (UInt32.ofNat (k * modulus.toNat)) else none := by
  have hlimit : (4294967295 : Nat) ≤ twoTo 53 := by decide
  unfold roundNearest
  unfold modulusSteps at hsteps
  simp only [hsteps, isFinite_ofNat hk, lt_ofNat hlimit hk, Bool.not_true, Bool.false_or,
    decide_eq_true_eq]
  have hclamp : (ofNat k).clamp 0 4294967295 = (Min.min 4294967295 k : Nat) := clamp_ofNat hk _
  rcases Nat.lt_or_ge 4294967295 k with hlt | hle
  · have hmul : k ≤ k * modulus.toNat := Nat.le_mul_of_pos_right k hm
    rw [if_pos hlt, if_neg (by omega)]
  · rw [if_neg (by omega), hclamp, Int.toNat_natCast, Nat.min_eq_right hle]

end

namespace FrameSize

variable {source : FrameSize} {width modulus : UInt32} {bound : Nat}

/-- The units of the height that keeps the shape of a source, before it is rounded to a
    multiple. -/
def heightUnits (source : FrameSize) (width : UInt32) : Nat :=
  rounded (width.toNat * source.height.toNat * one * one) (source.width.toNat * one)

/-- The steps of the height that keeps the shape of a source; there is at least one. -/
def heightSteps (source : FrameSize) (width modulus : UInt32) : Nat :=
  Max.max (stepsIn (heightUnits source width) modulus.toNat) 1

/-- The height is bounded as the exact one is. -/
theorem heightUnits_le (hsource : 0 < source.width.toNat) (hbound : bound ≤ twoTo 53)
    (h : width.toNat * source.height.toNat ≤ bound * source.width.toNat) :
    heightUnits source width ≤ bound * one := by
  refine rounded_le (Nat.mul_pos hsource one_units_pos) (fits_mul_one hbound) ?_
  calc width.toNat * source.height.toNat * one * one
      ≤ bound * source.width.toNat * one * one :=
        Nat.mul_le_mul_right _ (Nat.mul_le_mul_right _ h)
    _ = bound * one * (source.width.toNat * one) := by ring

theorem exactHeight_eq (hsource : 0 < source.width.toNat)
    (hproduct : width.toNat * source.height.toNat ≤ twoTo 53) :
    ∃ fits, exactHeight source width = finite false (heightUnits source width) fits := by
  have hwidth : 0 < source.width.toNat * one := Nat.mul_pos hsource one_units_pos
  have hdiv : exactHeight source width =
      nearest false (width.toNat * source.height.toNat * one * one) (source.width.toNat * one) := by
    rw [exactHeight, mul_ofNat (toNat_le_twoTo _) (toNat_le_twoTo _) hproduct, ofNat_eq hproduct,
      ofNat_eq (toNat_le_twoTo _), div_finite hwidth, bne_self_eq_false]
  have hle : width.toNat * source.height.toNat * one * one ≤
      width.toNat * source.height.toNat * one * (source.width.toNat * one) :=
    Nat.mul_le_mul_left _ (Nat.le_mul_of_pos_left one hsource)
  obtain ⟨hfits, hnearest, -⟩ :=
    nearest_eq_finite (s := false) hwidth (fits_mul_one hproduct) hle
  exact ⟨hfits, hdiv.trans hnearest⟩

theorem heightSteps_le (hm : 0 < modulus.toNat) (hsource : 0 < source.width.toNat)
    (hbound : bound * modulus.toNat ≤ twoTo 53)
    (h : width.toNat * source.height.toNat ≤ bound * modulus.toNat * source.width.toNat) :
    heightSteps source width modulus ≤ Max.max bound 1 := by
  have hsteps := stepsIn_le hm ((Nat.le_mul_of_pos_right _ hm).trans hbound)
    (heightUnits_le hsource hbound h)
  exact max_le_max hsteps (Nat.le_refl 1)

/-- While the product has 53 bits, the steps are a whole number. -/
theorem modulusSteps_exactHeight (hm : 0 < modulus.toNat) (hsource : 0 < source.width.toNat)
    (hproduct : width.toNat * source.height.toNat ≤ twoTo 53) :
    modulusSteps (exactHeight source width) modulus = .ofNat (heightSteps source width modulus) ∧
      heightSteps source width modulus ≤ twoTo 53 := by
  obtain ⟨fits, hexact⟩ := exactHeight_eq hsource hproduct
  have hunits := heightUnits_le hsource hproduct (Nat.le_mul_of_pos_right _ hsource)
  have hsteps := stepsIn_le hm hproduct
    (hunits.trans (Nat.mul_le_mul_right _ (Nat.le_mul_of_pos_right _ hm)))
  rw [hexact, modulusSteps_eq fits hm hproduct hunits]
  exact ⟨rfl, Nat.max_le.2 ⟨hsteps.trans hproduct, twoTo_pos 53⟩⟩

/-- The height that follows from a source has more than 32 bits: it is so many steps
    of the modulus. -/
def IsTooHigh (source : FrameSize) (width modulus : UInt32) : Prop :=
  ∃ k, modulusSteps (exactHeight source width) modulus = .ofNat k ∧ k ≤ twoTo 53 ∧
    4294967296 ≤ k * modulus.toNat

theorem roundDown_of_dvd (hm : 0 < modulus.toNat) (h : modulus.toNat ∣ width.toNat) :
    roundDown width modulus = some width := by
  have hmod : width % modulus = 0 := by
    rw [← UInt32.toNat_inj, UInt32.toNat_mod]
    exact Nat.mod_eq_zero_of_dvd h
  rw [roundDown, if_neg (ne_zero_of_toNat_pos hm), hmod, UInt32.sub_zero]

/-- Where no height is given, the width is rounded down and the height follows from it. -/
theorem scale_of_roundDown {w : UInt32} (hw : roundDown width modulus = some w)
    (hpos : 0 < w.toNat) (source : FrameSize) :
    scale width none (some source) modulus =
      match roundNearest (exactHeight source w) modulus with
      | some h => .ok ⟨w, h⟩
      | none => .error (.setting .height (.derivedHeight source w)) := by
  unfold scale
  -- Rounding is made opaque: no case is to be decided by computing it.
  obtain ⟨round, hround⟩ : ∃ f, f = roundNearest := ⟨_, rfl⟩
  rw [hw, ← hround]
  dsimp only
  refine (if_neg (ne_zero_of_toNat_pos hpos)).trans ?_
  cases round (exactHeight source w) modulus with
  | none => rfl
  | some h => rfl

/-- **A height follows from every source of a known size**: so many steps of the modulus,
    unless that has more than 32 bits. -/
theorem scale_eq_ite {w : UInt32} (hw : roundDown width modulus = some w) (hpos : 0 < w.toNat)
    (hm : 0 < modulus.toNat) (hsource : 0 < source.width.toNat)
    (hproduct : w.toNat * source.height.toNat ≤ twoTo 53) :
    scale width none (some source) modulus =
      if heightSteps source w modulus * modulus.toNat < 4294967296 then
        .ok ⟨w, UInt32.ofNat (heightSteps source w modulus * modulus.toNat)⟩
      else .error (.setting .height (.derivedHeight source w)) := by
  obtain ⟨hsteps, hle⟩ := modulusSteps_exactHeight hm hsource hproduct
  rw [scale_of_roundDown hw hpos, roundNearest_eq hm hsteps hle]
  by_cases hlt : heightSteps source w modulus * modulus.toNat < 4294967296
  · rw [if_pos hlt, if_pos hlt]
  · rw [if_neg hlt, if_neg hlt]

theorem scale_of_source (hm : 0 < modulus.toNat) (hw : 0 < width.toNat)
    (hdvd : modulus.toNat ∣ width.toNat) (hsource : 0 < source.width.toNat)
    (hproduct : width.toNat * source.height.toNat ≤ twoTo 53) :
    (∃ size, scale width none (some source) modulus = .ok size) ∨
      scale width none (some source) modulus =
        .error (.setting .height (.derivedHeight source width)) ∧
      source.IsTooHigh width modulus := by
  obtain ⟨hsteps, hle⟩ := modulusSteps_exactHeight hm hsource hproduct
  rw [scale_eq_ite (roundDown_of_dvd hm hdvd) hw hm hsource hproduct]
  split
  · exact Or.inl ⟨_, rfl⟩
  · next hge => exact Or.inr ⟨rfl, _, hsteps, hle, Nat.not_lt.1 hge⟩

/-- The height has 32 bits if the exact height is not above a multiple of the modulus
    that has. -/
theorem exists_scale (hm : 0 < modulus.toNat) (hw : 0 < width.toNat)
    (hdvd : modulus.toNat ∣ width.toNat) (hsource : 0 < source.width.toNat)
    (hproduct : width.toNat * source.height.toNat ≤ twoTo 53) {k : Nat} (hpos : 0 < k)
    (hk : k * modulus.toNat < 4294967296)
    (h : width.toNat * source.height.toNat ≤ k * modulus.toNat * source.width.toNat) :
    ∃ size, scale width none (some source) modulus = .ok size := by
  have hlimit : (4294967296 : Nat) ≤ twoTo 53 := by decide
  have hsteps := heightSteps_le hm hsource (hk.le.trans hlimit) h
  rw [Nat.max_eq_left hpos] at hsteps
  rw [scale_eq_ite (roundDown_of_dvd hm hdvd) hw hm hsource hproduct, if_pos]
  · exact ⟨_, rfl⟩
  · exact (Nat.mul_le_mul_right _ hsteps).trans_lt hk

end FrameSize

end Transcode
