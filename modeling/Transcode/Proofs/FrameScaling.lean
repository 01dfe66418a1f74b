/-
  Transcode — frames that are scaled.

  A frame size is made of multiples of a modulus.  The width is the greatest one that is
  not above the width asked for, and so is a height that is given; a height that follows
  from a source is at least the modulus.  Scaling a size that was made so changes nothing.

  * `isGreatest_of_roundDown`: rounding down gives the greatest multiple;
  * `roundNearest_eq_some_iff`: rounding to the nearest multiple gives at least one step;
  * `FrameSize.scale_eq_ok_iff`: what a frame size is made of;
  * `FrameSize.multiples_of_scale`: all of this for the sides of a frame, and its aspect
    ratio in lowest terms;
  * `roundNearest_eq_none_or_multiple`: numbers that are not finite, and sources without
    a width.  Of these numbers only the one above all others has no nearest multiple; what
    is not a number is taken for the least multiple (`roundNearest_takes_nan`).
-/
import Mathlib.Order.Bounds.Basic
import Transcode.Proofs.DerivedHeights

namespace Transcode

open Binary64

/-! ## Rounding down -/

section
variable {value modulus w : UInt32}

theorem roundDown_eq_some_iff :
    roundDown value modulus = some w ↔
      0 < modulus.toNat ∧ w.toNat = value.toNat - value.toNat % modulus.toNat := by
  have hle : value % modulus ≤ value := by
    rw [UInt32.le_iff_toNat_le, UInt32.toNat_mod]
    exact Nat.mod_le _ _
  have hsub : (value - value % modulus).toNat = value.toNat - value.toNat % modulus.toNat := by
    rw [UInt32.toNat_sub_of_le _ _ hle, UInt32.toNat_mod]
  have hzero : modulus = 0 ↔ modulus.toNat = 0 := UInt32.toNat_inj.symm
  unfold roundDown
  by_cases hm : modulus = 0
  · rw [if_pos hm]
    have := hzero.1 hm
    constructor
    · rintro ⟨⟩
    · omega
  · rw [if_neg hm, Option.some_inj, ← UInt32.toNat_inj, hsub]
    have := mt hzero.2 hm
    omega

/-- **Rounding down gives the greatest multiple** that is not above. -/
theorem isGreatest_of_roundDown (h : roundDown value modulus = some w) :
    IsGreatest {n | modulus.toNat ∣ n ∧ n ≤ value.toNat} w.toNat := by
  obtain ⟨hm, hw⟩ := roundDown_eq_some_iff.1 h
  rw [hw]
  refine ⟨⟨Nat.dvd_sub_mod _, Nat.sub_le _ _⟩, ?_⟩
  rintro n ⟨⟨k, rfl⟩, hn⟩
  -- A multiple that is not above has no more steps than the quotient.
  have hk : k ≤ value.toNat / modulus.toNat :=
    (Nat.le_div_iff_mul_le hm).2 (Nat.mul_comm _ k ▸ hn)
  have hdiv := Nat.div_add_mod value.toNat modulus.toNat
  have hmul := Nat.mul_le_mul_left modulus.toNat hk
  omega

end

/-! ## Rounding to the nearest multiple -/

namespace Binary64

variable {x y : Binary64}

theorem nan_max (y : Binary64) : nan.max y = y := by
  cases y <;> rfl

/-- Of a number and one that is not above all others, the greater is either. -/
theorem max_cases (hx : x ≠ nan) (hy : y ≠ nan) :
    x.lt y = true ∧ x.max y = y ∨ x.lt y = false ∧ x.max y = x := by
  have hmax : x.max y = if x.lt y then y else x := by
    cases x with
    | nan => exact absurd rfl hx
    | infinite | finite =>
      cases y with
      | nan => exact absurd rfl hy
      | infinite | finite => rfl
  cases hlt : x.lt y with
  | true => exact Or.inl ⟨rfl, by rw [hmax, hlt, if_pos rfl]⟩
  | false => exact Or.inr ⟨rfl, by rw [hmax, hlt, if_neg Bool.false_ne_true]⟩

theorem nearest_div_zero {p q : Nat} (hq : 0 < q) (h : one * q ≤ p) :
    (nearest false p q).div (zero false) = infinite false := by
  have hone : Fits one := by
    rw [← Nat.one_mul one]
    exact fits_mul_one (twoTo_pos 53)
  have hrounded : one ≤ rounded p q := le_rounded hq hone h
  have hne : rounded p q ≠ 0 := (one_units_pos.trans_le hrounded).ne'
  by_cases hfits : Fits (rounded p q)
  · rw [nearest_of_fits hfits, zero, div, if_pos rfl, if_neg hne]
    rfl
  · have hnearest : nearest false p q = infinite false := dif_neg hfits
    rw [hnearest]
    rfl

theorem one_le_twoTo : 1 ≤ twoTo 53 :=
  twoTo_pos 53

theorem ofNat_one_ne_nan : Binary64.ofNat 1 ≠ nan := by
  rw [ofNat_eq one_le_twoTo]
  exact Binary64.noConfusion

theorem lt_of_key {a b : Int} (hx : x.key = some a) (hy : y.key = some b) :
    x.lt y = decide (a < b) := by
  rw [lt, hx, hy]

theorem lt_ofNat_of_infinite {n : Nat} (hn : n ≤ twoTo 53) (s : Bool) :
    (infinite s).lt (.ofNat n) = s := by
  rw [ofNat_eq hn, lt_of_key (a := signed s (twoTo 2098)) (b := (n * one : Nat)) rfl rfl]
  obtain ⟨-, hlt⟩ := fits_mul_one hn
  generalize twoTo 2098 = bound at hlt
  cases s with
  | true =>
    have hneg : signed true bound = -bound := rfl
    rw [hneg, decide_eq_true_eq]
    omega
  | false =>
    have hpos : signed false bound = bound := rfl
    rw [hpos, decide_eq_false_iff_not]
    omega

theorem one_le_clamp_max (x : Binary64) : 1 ≤ (x.max (.ofNat 1)).clamp 0 4294967295 := by
  have hclamp : (Binary64.ofNat 1).clamp 0 4294967295 = 1 := clamp_ofNat one_le_twoTo 4294967295
  by_cases hx : x = nan
  · rw [hx, nan_max, hclamp]
  rcases max_cases hx ofNat_one_ne_nan with ⟨-, hmax⟩ | ⟨hlt, hmax⟩
  · rw [hmax, hclamp]
  rw [hmax]
  cases x with
  | nan => exact absurd rfl hx
  | infinite s =>
    rw [lt_ofNat_of_infinite one_le_twoTo] at hlt
    rw [hlt]
    decide
  | finite s n hn =>
    rw [ofNat_eq one_le_twoTo] at hlt
    have hle : ((1 * one : Nat) : Int) ≤ signed s n := Int.not_lt.1 (of_decide_eq_false hlt)
    have hpos := one_units_pos
    cases s with
    | true =>
      have hle : ((1 * one : Nat) : Int) ≤ -(n : Int) := hle
      omega
    | false =>
      have hunits : 1 ≤ n / one := (Nat.le_div_iff_mul_le hpos).2 (Int.ofNat_le.1 hle)
      show 1 ≤ Max.max (0 : Int) (Min.min 4294967295 ((n / one : Nat) : Int))
      omega

end Binary64

section
variable {value : Binary64} {modulus h : UInt32}

theorem roundNearest_eq_some_iff :
    roundNearest value modulus = some h ↔
      (modulusSteps value modulus).isFinite = true ∧
      (Binary64.ofNat 4294967295).lt (modulusSteps value modulus) = false ∧
      h.toNat = ((modulusSteps value modulus).clamp 0 4294967295).toNat * modulus.toNat := by
  have hsteps : ((value.div (.ofNat modulus.toNat)).round).max (.ofNat 1) =
      modulusSteps value modulus := rfl
  have hlt := toNat_lt_twoTo h
  unfold roundNearest
  simp only [hsteps]
  generalize ((modulusSteps value modulus).clamp 0 4294967295).toNat * modulus.toNat = n
  cases (modulusSteps value modulus).isFinite with
  | false => simp
  | true =>
    cases (Binary64.ofNat 4294967295).lt (modulusSteps value modulus) with
    | true => simp
    | false =>
      rw [if_neg (by decide)]
      split
      · next hn =>
        have hword : (UInt32.ofNat n).toNat = n := UInt32.toNat_ofNat_of_lt hn
        rw [Option.some_inj, ← UInt32.toNat_inj, hword, eq_comm]
        exact ⟨fun hh => ⟨rfl, rfl, hh⟩, fun hh => hh.2.2⟩
      · next hn =>
        constructor
        · rintro ⟨⟩
        · rintro ⟨-, -, rfl⟩
          exact absurd hlt hn

/-- **Rounding to the nearest multiple gives at least one step.** -/
theorem exists_steps_of_roundNearest (hr : roundNearest value modulus = some h) :
    ∃ k, 0 < k ∧ h.toNat = k * modulus.toNat := by
  obtain ⟨-, -, hh⟩ := roundNearest_eq_some_iff.1 hr
  have hone : 1 ≤ (modulusSteps value modulus).clamp 0 4294967295 := one_le_clamp_max _
  exact ⟨_, by omega, hh⟩

end

/-! ## What a frame size is made of -/

namespace FrameSize

variable {width modulus : UInt32} {height : Option UInt32} {source : Option FrameSize}
  {size : FrameSize}

/-- What the height of a frame comes from, at its width: one that is given, or a source. -/
inductive HeightFrom (width modulus : UInt32) : Option UInt32 → Option FrameSize → UInt32 → Prop
  | given {source given h} : roundDown given modulus = some h → h ≠ 0 →
      HeightFrom width modulus (some given) source h
  | derived {source h} : roundNearest (exactHeight source width) modulus = some h →
      HeightFrom width modulus none (some source) h

theorem scale_eq_ok_iff :
    scale width height source modulus = .ok size ↔
      roundDown width modulus = some size.width ∧ size.width ≠ 0 ∧
        HeightFrom size.width modulus height source size.height := by
  unfold scale
  -- Rounding is made opaque: no case is to be decided by computing it.
  obtain ⟨round, hround⟩ : ∃ f, f = roundNearest := ⟨_, rfl⟩
  rw [← hround]
  constructor
  · intro h
    split at h
    · cases h
    · next w hw =>
      split at h
      · cases h
      · next hne =>
        rw [hw]
        split at h
        · split at h
          · cases h
          · next given hgiven =>
            split at h
            · cases h
            · next hh =>
              cases h
              exact ⟨rfl, hne, .given hgiven hh⟩
        · split at h
          · next hnearest =>
            cases h
            exact ⟨rfl, hne, .derived (hround ▸ hnearest)⟩
          · cases h
        · cases h
  · rintro ⟨hw, hne, hheight⟩
    obtain ⟨w, h⟩ := size
    rw [hw]
    dsimp only at hne ⊢
    rw [if_neg hne]
    cases hheight with
    | given hgiven hh =>
      dsimp only
      rw [hgiven]
      exact if_neg hh
    | derived hnearest =>
      dsimp only at hnearest ⊢
      rw [hround, hnearest]

theorem HeightFrom.pos_and_dvd {h : UInt32} (hh : HeightFrom width modulus height source h)
    (hm : 0 < modulus.toNat) : 0 < h.toNat ∧ modulus.toNat ∣ h.toNat := by
  cases hh with
  | given hgiven hne =>
    obtain ⟨⟨hdvd, -⟩, -⟩ := isGreatest_of_roundDown hgiven
    exact ⟨toNat_pos_of_ne_zero hne, hdvd⟩
  | derived hnearest =>
    obtain ⟨k, hk, hsteps⟩ := exists_steps_of_roundNearest hnearest
    rw [hsteps]
    exact ⟨Nat.mul_pos hk hm, Nat.dvd_mul_left _ _⟩

/-- The aspect ratio is the two sides without what they have in common. -/
theorem aspectRatio_eq (hw : 0 < size.width.toNat) :
    ∃ a b : UInt32, size.aspectRatio = s!"{sideText a}:{sideText b}" ∧
      Nat.gcd a.toNat b.toNat = 1 ∧
      a.toNat * size.height.toNat = b.toNat * size.width.toNat := by
  let d := gcd size.width size.height
  have hd : d.toNat = Nat.gcd size.width.toNat size.height.toNat := toNat_gcd _ _
  have hpos : 0 < d.toNat := hd ▸ Nat.gcd_pos_of_pos_left _ hw
  have hmax : max d 1 = d := by
    show (if d ≤ 1 then 1 else d) = d
    split
    · next hle =>
      have hle : d.toNat ≤ 1 := UInt32.le_iff_toNat_le.1 hle
      rw [← UInt32.toNat_inj]
      show 1 = d.toNat
      omega
    · rfl
  refine ⟨size.width / d, size.height / d, ?_, ?_, ?_⟩
  · unfold aspectRatio
    show s!"{sideText (size.width / max d 1)}:{sideText (size.height / max d 1)}" = _
    rw [hmax]
  · rw [UInt32.toNat_div, UInt32.toNat_div, hd]
    exact Nat.gcd_div_gcd_div_gcd_of_pos_left hw
  · obtain ⟨a, ha⟩ := Nat.gcd_dvd_left size.width.toNat size.height.toNat
    obtain ⟨b, hb⟩ := Nat.gcd_dvd_right size.width.toNat size.height.toNat
    rw [← hd] at ha hb
    rw [UInt32.toNat_div, UInt32.toNat_div, ha, hb, Nat.mul_div_cancel_left a hpos,
      Nat.mul_div_cancel_left b hpos]
    ring

/-- **The sides of a frame are multiples of the modulus**, the width and a height that is
    given the greatest ones that are not above; the frame is kept when its sides are given
    back, whatever the source; and its aspect ratio is that of its sides, in lowest terms. -/
theorem multiples_of_scale (h : scale width height source modulus = .ok size) :
    0 < size.width.toNat ∧
    IsGreatest {n | modulus.toNat ∣ n ∧ n ≤ width.toNat} size.width.toNat ∧
    0 < size.height.toNat ∧ modulus.toNat ∣ size.height.toNat ∧
    (∀ given, height = some given →
      IsGreatest {n | modulus.toNat ∣ n ∧ n ≤ given.toNat} size.height.toNat) ∧
    (∀ source', scale size.width (some size.height) source' modulus = .ok size) ∧
    ∃ a b : UInt32, size.aspectRatio = s!"{sideText a}:{sideText b}" ∧
      Nat.gcd a.toNat b.toNat = 1 ∧
      a.toNat * size.height.toNat = b.toNat * size.width.toNat := by
  obtain ⟨hwidth, hne, hheight⟩ := scale_eq_ok_iff.1 h
  have hm : 0 < modulus.toNat := (roundDown_eq_some_iff.1 hwidth).1
  have hgreatest := isGreatest_of_roundDown hwidth
  have hw : 0 < size.width.toNat := toNat_pos_of_ne_zero hne
  obtain ⟨hh, hdvd⟩ := hheight.pos_and_dvd hm
  refine ⟨hw, hgreatest, hh, hdvd, ?_, ?_, aspectRatio_eq hw⟩
  · rintro given rfl
    cases hheight with
    | given hgiven _ => exact isGreatest_of_roundDown hgiven
  · intro source'
    have hagain : roundDown size.height modulus = some size.height := roundDown_of_dvd hm hdvd
    exact scale_eq_ok_iff.2 ⟨roundDown_of_dvd hm hgreatest.1.1, hne,
      .given hagain (ne_zero_of_toNat_pos hh)⟩

theorem multiples_of_scale_wide :
    scale 642 (some 363) none 4 = .ok ⟨640, 360⟩ ∧
    IsGreatest {n | 4 ∣ n ∧ n ≤ 363} 360 ∧
    scale 767 none (some ⟨1920, 1080⟩) 8 = .ok ⟨760, 424⟩ ∧
    IsGreatest {n | 8 ∣ n ∧ n ≤ 767} 760 ∧
    scale 760 (some 424) (some ⟨1, 4294967295⟩) 8 = .ok ⟨760, 424⟩ ∧
    (⟨760, 424⟩ : FrameSize).aspectRatio = "95:53" ∧
    ∃ a b : UInt32, "95:53" = s!"{sideText a}:{sideText b}" ∧ Nat.gcd a.toNat b.toNat = 1 ∧
      a.toNat * 424 = b.toNat * 760 := by
  have hgiven : scale 642 (some 363) none 4 = .ok ⟨640, 360⟩ := by decide +kernel
  have hderived : scale 767 none (some ⟨1920, 1080⟩) 8 = .ok ⟨760, 424⟩ := by decide +kernel
  have haspect : (⟨760, 424⟩ : FrameSize).aspectRatio = "95:53" := by decide +kernel
  obtain ⟨-, -, -, -, hheight, -⟩ := multiples_of_scale hgiven
  obtain ⟨-, hwidth, -, -, -, hagain, hlowest⟩ := multiples_of_scale hderived
  exact ⟨hgiven, hheight 363 rfl, hderived, hwidth, hagain _, haspect, haspect ▸ hlowest⟩

end FrameSize

/-! ## Numbers that are not finite -/

section
variable {value : Binary64} {modulus h : UInt32}

theorem modulusSteps_nan (modulus : UInt32) : modulusSteps nan modulus = .ofNat 1 := by
  have hdiv : nan.div (.ofNat modulus.toNat) = nan := by
    cases Binary64.ofNat modulus.toNat <;> rfl
  rw [modulusSteps, hdiv]
  exact nan_max _

/-- What is below all numbers is raised to one step, and what is above all stays. -/
theorem modulusSteps_infinite (s : Bool) (modulus : UInt32) :
    modulusSteps (infinite s) modulus = if s then .ofNat 1 else infinite false := by
  have hround : ((infinite s).div (.ofNat modulus.toNat)).round = infinite s := by
    rw [ofNat_eq (toNat_le_twoTo modulus)]
    cases s <;> rfl
  have hne : infinite s ≠ nan := Binary64.noConfusion
  rw [modulusSteps, hround]
  rcases max_cases hne ofNat_one_ne_nan with ⟨hlt, hmax⟩ | ⟨hlt, hmax⟩
  · rw [lt_ofNat_of_infinite one_le_twoTo] at hlt
    rw [hmax, hlt, if_pos rfl]
  · rw [lt_ofNat_of_infinite one_le_twoTo] at hlt
    rw [hmax, hlt, if_neg Bool.false_ne_true]

theorem roundNearest_of_one_step (hsteps : modulusSteps value modulus = .ofNat 1) :
    roundNearest value modulus = some modulus := by
  have hlimit : (4294967295 : Nat) ≤ twoTo 53 := by decide
  have hclamp : (Binary64.ofNat 1).clamp 0 4294967295 = 1 := clamp_ofNat one_le_twoTo 4294967295
  refine roundNearest_eq_some_iff.2 ?_
  rw [hsteps, isFinite_ofNat one_le_twoTo, lt_ofNat hlimit one_le_twoTo, hclamp]
  exact ⟨rfl, by decide, (Nat.one_mul _).symm⟩

theorem roundNearest_infinite (modulus : UInt32) : roundNearest (infinite false) modulus = none := by
  refine Option.eq_none_iff_forall_ne_some.2 fun h hh => ?_
  obtain ⟨hfinite, -⟩ := roundNearest_eq_some_iff.1 hh
  rw [modulusSteps_infinite] at hfinite
  cases hfinite

theorem roundNearest_of_not_finite (hvalue : value.isFinite = false)
    (hne : value ≠ infinite false) : roundNearest value modulus = some modulus := by
  cases value with
  | nan => exact roundNearest_of_one_step (modulusSteps_nan modulus)
  | infinite s =>
    cases s with
    | true => exact roundNearest_of_one_step ((modulusSteps_infinite true modulus).trans (if_pos rfl))
    | false => exact absurd rfl hne
  | finite => cases hvalue

end

namespace FrameSize

variable {source : FrameSize} {w modulus h : UInt32}

/-- At a width that a source does not have, no height keeps its shape: the height is above
    all numbers, or not a number if the source does not have that either. -/
theorem exactHeight_of_no_width (hsource : source.width = 0) (hw : 0 < w.toNat) :
    exactHeight source w = if source.height = 0 then nan else infinite false := by
  have hzero : Binary64.ofNat source.width.toNat = zero false := by
    rw [hsource]
    exact ofNat_zero
  rw [exactHeight, hzero]
  by_cases hh : source.height = 0
  · have hproduct : (Binary64.ofNat w.toNat).mul (.ofNat source.height.toNat) = zero false := by
      rw [hh]
      exact (mul_ofNat (toNat_le_twoTo w) (Nat.zero_le _) (Nat.zero_le _)).trans ofNat_zero
    rw [hproduct, if_pos hh]
    rfl
  · have hpos : 1 ≤ w.toNat * source.height.toNat := Nat.mul_pos hw (toNat_pos_of_ne_zero hh)
    have hproduct : (Binary64.ofNat w.toNat).mul (.ofNat source.height.toNat) =
        nearest false (w.toNat * one * (source.height.toNat * one)) one := by
      rw [ofNat_eq (toNat_le_twoTo _), ofNat_eq (toNat_le_twoTo _)]
      rfl
    have hle : one * one ≤ w.toNat * one * (source.height.toNat * one) := by
      calc one * one = 1 * (one * one) := (Nat.one_mul _).symm
        _ ≤ w.toNat * source.height.toNat * (one * one) := Nat.mul_le_mul_right _ hpos
        _ = w.toNat * one * (source.height.toNat * one) := by ring
    rw [hproduct, nearest_div_zero one_units_pos hle, if_neg hh]

theorem heightFrom_of_no_width (hsource : source.width = 0) (hw : 0 < w.toNat) :
    HeightFrom w modulus none (some source) h ↔ source.height = 0 ∧ h = modulus := by
  have hexact := exactHeight_of_no_width hsource hw
  constructor
  · rintro (_ | hnearest)
    rw [hexact] at hnearest
    by_cases hh : source.height = 0
    · rw [if_pos hh, roundNearest_of_not_finite rfl Binary64.noConfusion] at hnearest
      exact ⟨hh, (Option.some.inj hnearest).symm⟩
    · rw [if_neg hh, roundNearest_infinite] at hnearest
      cases hnearest
  · rintro ⟨hh, rfl⟩
    refine .derived ?_
    rw [hexact, if_pos hh]
    exact roundNearest_of_not_finite rfl Binary64.noConfusion

end FrameSize

/-- **Rounding to a multiple fails or gives one that is at least the modulus.**  It fails
    for a number above all others; any other that is not finite is taken for the least
    multiple.  So no height follows from a source without a width, unless the source has no
    height either: then that is the modulus. -/
theorem roundNearest_eq_none_or_multiple (value : Binary64) (width modulus : UInt32)
    (source : FrameSize) :
    (value = infinite false → roundNearest value modulus = none) ∧
    (value.isFinite = false → value ≠ infinite false →
      roundNearest value modulus = some modulus) ∧
    (∀ h, roundNearest value modulus = some h → modulus.toNat ∣ h.toNat ∧ modulus ≤ h) ∧
    (source.width = 0 → ∀ size, FrameSize.scale width none (some source) modulus = .ok size ↔
      source.height = 0 ∧ roundDown width modulus = some size.width ∧ size.width ≠ 0 ∧
        size.height = modulus) := by
  refine ⟨fun h => h ▸ roundNearest_infinite modulus, roundNearest_of_not_finite, ?_, ?_⟩
  · intro h hh
    obtain ⟨k, hk, hsteps⟩ := exists_steps_of_roundNearest hh
    rw [UInt32.le_iff_toNat_le, hsteps]
    exact ⟨Nat.dvd_mul_left _ _, Nat.le_mul_of_pos_left _ hk⟩
  · intro hsource size
    rw [FrameSize.scale_eq_ok_iff]
    constructor
    · rintro ⟨hround, hne, hheight⟩
      obtain ⟨hh, hmodulus⟩ :=
        (FrameSize.heightFrom_of_no_width hsource (toNat_pos_of_ne_zero hne)).1 hheight
      exact ⟨hh, hround, hne, hmodulus⟩
    · rintro ⟨hh, hround, hne, hmodulus⟩
      exact ⟨hround, hne,
        (FrameSize.heightFrom_of_no_width hsource (toNat_pos_of_ne_zero hne)).2 ⟨hh, hmodulus⟩⟩

/-- What is not a number has a nearest multiple, and so a height follows from a source
    with neither side. -/
theorem roundNearest_takes_nan :
    nan.isFinite = false ∧ roundNearest nan 8 = some 8 ∧ roundNearest (infinite true) 8 = some 8 ∧
      FrameSize.scale 640 none (some ⟨0, 0⟩) 8 = .ok ⟨640, 8⟩ := by
  decide +kernel

theorem roundNearest_eq_none_or_multiple_empty :
    roundNearest (infinite false) 8 = none ∧ roundNearest nan 8 = some 8 ∧
    (roundNearest (.ofFraction false 855 2) 8 = some 424 ∧ 8 ∣ 424 ∧ (8 : UInt32) ≤ 424) ∧
    FrameSize.scale 640 none (some ⟨0, 0⟩) 8 = .ok ⟨640, 8⟩ ∧
    ∀ size, FrameSize.scale 640 none (some ⟨0, 480⟩) 8 ≠ .ok size := by
  obtain ⟨hinfinite, -, -, hempty⟩ := roundNearest_eq_none_or_multiple (infinite false) 640 8 ⟨0, 0⟩
  obtain ⟨-, hleast, -, hflat⟩ := roundNearest_eq_none_or_multiple nan 640 8 ⟨0, 480⟩
  obtain ⟨-, -, hmultiple, -⟩ :=
    roundNearest_eq_none_or_multiple (.ofFraction false 855 2) 640 8 ⟨0, 0⟩
  have hfinite : roundNearest (.ofFraction false 855 2) 8 = some 424 := by decide +kernel
  refine ⟨hinfinite rfl, hleast rfl Binary64.noConfusion, ⟨hfinite, hmultiple 424 hfinite⟩,
    (hempty rfl _).2 ⟨rfl, by decide, by decide, rfl⟩, ?_⟩
  intro size h
  exact absurd ((hflat rfl size).1 h).1 (by decide)

end Transcode
