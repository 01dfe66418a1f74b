/-
  Transcode — the frames between keyframes.

  The frames between keyframes are the whole part of the seconds times the rate.  The
  seconds are a thousandth of the milliseconds and are rounded first, then the product is
  rounded, so the whole part is not always that of the exact product: 1160 ms at 25 frames
  a second are 29 frames, but 28 are written.  It is another one only where the exact
  product is a whole number and the seconds are rounded down, and where it is a thousandth
  below one, of 2^52 thousandths at least, and the seconds are rounded up.  Even there the
  second rounding may make up for the first, as it does for 1160 ms at 75 frames a second;
  so what decides is the rounded product itself, against the whole numbers on both sides of
  the exact one.  Where it falls short or reaches the next, the count is off by one.

  * `keyframeInterval_eq`: the interval of whole numbers, with its two roundings;
  * `framesUnits_bounds`: what these add, and what they take;
  * `keyframeInterval_counts`: so which frames are counted;
  * `lost_iff`, `gained_iff`: and on which pairs one is lost or gained;
  * `keyframeInterval_of_dvd`: those of whole eighths of a second as they are;
  * `frameRate_keyframes`: so which frames are written.
-/
import Transcode.Proofs.FrameRates

namespace Transcode

namespace FrameRate

open Binary64

/-! ## Two roundings -/

/-- The units of the seconds that a number of milliseconds is. -/
def secondsUnits (g : Nat) : Nat :=
  rounded (g * one * one) (1000 * one)

/-- The units of the frames in a number of milliseconds. -/
def framesUnits (g r : Nat) : Nat :=
  rounded (secondsUnits g * (r * one)) one

section
variable {g r : Nat}

theorem le_twoTo_of_mul (hg : 0 < g) (hr : 0 < r) (h : g * r ≤ twoTo 53) :
    g ≤ twoTo 53 ∧ r ≤ twoTo 53 :=
  ⟨(Nat.le_mul_of_pos_right g hr).trans h, (Nat.le_mul_of_pos_left r hg).trans h⟩

theorem secondsUnits_le (hg : g ≤ twoTo 53) : secondsUnits g ≤ g * one := by
  refine rounded_le (Nat.mul_pos (by decide) one_units_pos) (fits_mul_one hg) ?_
  exact Nat.mul_le_mul_left _ (Nat.le_mul_of_pos_left one (by decide))

theorem div_ofNat_thousand (hg : g ≤ twoTo 53) :
    ∃ fits, (ofNat g).div (ofNat 1000) = finite false (secondsUnits g) fits := by
  have hpos : 0 < 1000 * one := Nat.mul_pos (by decide) one_units_pos
  have hle : g * one * one ≤ g * one * (1000 * one) :=
    Nat.mul_le_mul_left _ (Nat.le_mul_of_pos_left one (by decide))
  rw [ofNat_eq hg, ofNat_eq (by decide), div_finite hpos]
  obtain ⟨hfits, hnearest, -⟩ := nearest_eq_finite (s := false) hpos (fits_mul_one hg) hle
  exact ⟨hfits, hnearest⟩

theorem div_mul_ofNat (hg : 0 < g) (hr : 0 < r) (h : g * r ≤ twoTo 53) :
    ∃ fits : Fits (framesUnits g r),
      ((ofNat g).div (ofNat 1000)).mul (ofNat r) = finite false (framesUnits g r) fits ∧
        framesUnits g r ≤ g * r * one := by
  obtain ⟨hg53, hr53⟩ := le_twoTo_of_mul hg hr h
  obtain ⟨hfits, hseconds⟩ := div_ofNat_thousand hg53
  have hle : secondsUnits g * (r * one) ≤ g * r * one * one := by
    calc secondsUnits g * (r * one) ≤ g * one * (r * one) :=
          Nat.mul_le_mul_right _ (secondsUnits_le hg53)
      _ = g * r * one * one := by ring
  obtain ⟨hfits', hframes, hbound⟩ :=
    nearest_eq_finite (s := false) one_units_pos (fits_mul_one h) hle
  rw [hseconds, ofNat_eq hr53]
  exact ⟨hfits', hframes, hbound⟩

/-- **The interval of whole numbers**: the whole part of the frames, which are rounded. -/
theorem keyframeInterval_eq (hg : 0 < g) (hr : 0 < r) (h : g * r ≤ twoTo 53) :
    keyframeInterval (.ofNat g) (.ofNat r) = framesUnits g r / one := by
  obtain ⟨hfits, hproduct, hbound⟩ := div_mul_ofNat hg hr h
  have hwhole : framesUnits g r / one ≤ twoTo 53 := by
    refine (Nat.div_le_of_le_mul ?_).trans h
    rw [Nat.mul_comm]
    exact hbound
  have hheld : (ofNat (framesUnits g r / one)).clamp 0 18446744073709551615 =
      (Min.min 18446744073709551615 (framesUnits g r / one) : Nat) := clamp_ofNat hwhole _
  rw [keyframeInterval, hproduct, floor_finite, ← ofNat_zero, max_ofNat hwhole (Nat.zero_le _),
    Nat.max_zero, hheld, Int.toNat_natCast]
  exact Nat.min_eq_right (hwhole.trans (by decide))

/-! ## What the roundings add and take -/

/-- The seconds are a thousandth of the milliseconds but for one part in 2^53. -/
theorem secondsUnits_bounds (hg : 0 < g) :
    secondsUnits g * 1000 * twoTo 53 ≤ g * one * (twoTo 53 + 1) ∧
      g * one * twoTo 53 ≤ secondsUnits g * 1000 * twoTo 53 + g * one :=
  quotient_bounds hg (by decide) (by decide)

/-- The frames are the seconds times the rate but for one part in 2^53. -/
theorem framesUnits_bounds (hg : 0 < g) (hr : 0 < r) :
    framesUnits g r * twoTo 53 ≤ secondsUnits g * r * (twoTo 53 + 1) ∧
      secondsUnits g * r * twoTo 53 ≤ framesUnits g r * twoTo 53 + secondsUnits g * r := by
  have hone := one_units_pos
  have hbits : twoTo 52 ≤ secondsUnits g * (r * one) / one := by
    rw [← Nat.mul_assoc, Nat.mul_div_cancel _ hone]
    exact (twoTo_le_quotient hg (by decide) (by decide) (by omega)).trans
      (Nat.le_mul_of_pos_right _ hr)
  have hupper := rounded_mul_le hbits
  have hlower := le_rounded_mul hone hbits
  unfold framesUnits
  generalize secondsUnits g = seconds at hupper hlower
  generalize rounded (seconds * (r * one)) one = frames at hupper hlower
  constructor
  · refine Nat.le_of_mul_le_mul_right ?_ hone
    calc frames * twoTo 53 * one = frames * one * twoTo 53 := by ring
      _ ≤ seconds * (r * one) * (twoTo 53 + 1) := hupper
      _ = seconds * r * (twoTo 53 + 1) * one := by ring
  · refine Nat.le_of_mul_le_mul_right ?_ hone
    calc seconds * r * twoTo 53 * one = seconds * (r * one) * twoTo 53 := by ring
      _ ≤ frames * one * twoTo 53 + seconds * (r * one) := hlower
      _ = (frames * twoTo 53 + seconds * r) * one := by ring

/-! ## Frames that are counted -/

/-- A number of frames that the seconds reach is counted: it is a number of the format. -/
theorem le_of_reached {k : Nat} (hk : k ≤ twoTo 53) (h : k * one ≤ secondsUnits g * r) :
    k ≤ framesUnits g r / one := by
  rw [Nat.le_div_iff_mul_le one_units_pos]
  refine le_rounded one_units_pos (fits_mul_one hk) ?_
  calc k * one * one ≤ secondsUnits g * r * one := Nat.mul_le_mul_right _ h
    _ = secondsUnits g * (r * one) := Nat.mul_assoc _ _ _

/-- No frames are missing if the seconds are not rounded down. -/
theorem le_counted_of_le (h : g * r ≤ twoTo 53) (hs : g * one ≤ secondsUnits g * 1000) :
    g * r / 1000 ≤ framesUnits g r / one := by
  refine le_of_reached ((Nat.div_le_self _ _).trans h) ?_
  refine Nat.le_of_mul_le_mul_right ?_ (show 0 < 1000 by decide)
  calc g * r / 1000 * one * 1000 = g * r / 1000 * 1000 * one := by ring
    _ ≤ g * r * one := Nat.mul_le_mul_right _ (Nat.div_mul_le_self _ _)
    _ = g * one * r := by ring
    _ ≤ secondsUnits g * 1000 * r := Nat.mul_le_mul_right _ hs
    _ = secondsUnits g * r * 1000 := by ring

/-- No frames are missing if there is a part of a frame: it is more than what the rounding
    of the seconds takes. -/
theorem le_counted_of_mod (hg : 0 < g) (h : g * r ≤ twoTo 53) (hmod : g * r % 1000 ≠ 0) :
    g * r / 1000 ≤ framesUnits g r / one := by
  refine le_of_reached ((Nat.div_le_self _ _).trans h) ?_
  obtain ⟨-, hseconds⟩ := secondsUnits_bounds hg
  have hpart : g * r / 1000 * 1000 * twoTo 53 + g * r ≤ g * r * twoTo 53 := by
    have hsplit := Nat.div_add_mod (g * r) 1000
    have hbits : twoTo 53 = 9007199254740992 := by decide
    rw [hbits] at h ⊢
    omega
  refine Nat.le_of_mul_le_mul_right ?_ (Nat.mul_pos (by decide) (twoTo_pos 53) : 0 < 1000 * twoTo 53)
  refine Nat.le_of_add_le_add_right (b := g * r * one) ?_
  calc g * r / 1000 * one * (1000 * twoTo 53) + g * r * one
      = (g * r / 1000 * 1000 * twoTo 53 + g * r) * one := by ring
    _ ≤ g * r * twoTo 53 * one := Nat.mul_le_mul_right _ hpart
    _ = g * one * twoTo 53 * r := by ring
    _ ≤ (secondsUnits g * 1000 * twoTo 53 + g * one) * r := Nat.mul_le_mul_right _ hseconds
    _ = secondsUnits g * r * (1000 * twoTo 53) + g * r * one := by ring

theorem counted_mul_one_le (hg : 0 < g) (hr : 0 < r) :
    framesUnits g r / one * one * twoTo 53 ≤ secondsUnits g * r * (twoTo 53 + 1) :=
  (Nat.mul_le_mul_right _ (Nat.div_mul_le_self _ _)).trans (framesUnits_bounds hg hr).1

/-- The frames that are counted are not more than what two roundings add. -/
theorem counted_mul_le (hg : 0 < g) (hr : 0 < r) :
    framesUnits g r / one * 1000 * (twoTo 53 * twoTo 53) ≤
      g * r * ((twoTo 53 + 1) * (twoTo 53 + 1)) := by
  obtain ⟨hseconds, -⟩ := secondsUnits_bounds hg
  refine Nat.le_of_mul_le_mul_right ?_ one_units_pos
  calc framesUnits g r / one * 1000 * (twoTo 53 * twoTo 53) * one
      = framesUnits g r / one * one * twoTo 53 * (1000 * twoTo 53) := by ring
    _ ≤ secondsUnits g * r * (twoTo 53 + 1) * (1000 * twoTo 53) :=
        Nat.mul_le_mul_right _ (counted_mul_one_le hg hr)
    _ = secondsUnits g * 1000 * twoTo 53 * (r * (twoTo 53 + 1)) := by ring
    _ ≤ g * one * (twoTo 53 + 1) * (r * (twoTo 53 + 1)) := Nat.mul_le_mul_right _ hseconds
    _ = g * r * ((twoTo 53 + 1) * (twoTo 53 + 1)) * one := by ring

/-- If the seconds are not rounded up, they are not more than what one rounding adds. -/
theorem counted_mul_le_of_le (hg : 0 < g) (hr : 0 < r) (hs : secondsUnits g * 1000 ≤ g * one) :
    framesUnits g r / one * 1000 * twoTo 53 ≤ g * r * (twoTo 53 + 1) := by
  refine Nat.le_of_mul_le_mul_right ?_ one_units_pos
  calc framesUnits g r / one * 1000 * twoTo 53 * one
      = framesUnits g r / one * one * twoTo 53 * 1000 := by ring
    _ ≤ secondsUnits g * r * (twoTo 53 + 1) * 1000 :=
        Nat.mul_le_mul_right _ (counted_mul_one_le hg hr)
    _ = secondsUnits g * 1000 * (r * (twoTo 53 + 1)) := by ring
    _ ≤ g * one * (r * (twoTo 53 + 1)) := Nat.mul_le_mul_right _ hs
    _ = g * r * (twoTo 53 + 1) * one := by ring

/-- One frame more is more than what two roundings leave. -/
theorem lt_counted_mul (hg : 0 < g) (hr : 0 < r) :
    g * r * (twoTo 53 * twoTo 53) <
      (framesUnits g r / one + 1) * 1000 * (twoTo 53 * twoTo 53) + g * r * (2 * twoTo 53 + 1) := by
  obtain ⟨hupper, hlower⟩ := secondsUnits_bounds hg
  obtain ⟨-, hframes⟩ := framesUnits_bounds hg hr
  have hnext : framesUnits g r < (framesUnits g r / one + 1) * one := by
    rw [Nat.mul_comm]
    exact Nat.lt_mul_div_succ _ one_units_pos
  have hscale : 0 < 1000 * (twoTo 53 * twoTo 53) := by decide
  refine Nat.lt_of_mul_lt_mul_right (a := one) ?_
  calc g * r * (twoTo 53 * twoTo 53) * one
      = g * one * twoTo 53 * (r * twoTo 53) := by ring
    _ ≤ (secondsUnits g * 1000 * twoTo 53 + g * one) * (r * twoTo 53) :=
        Nat.mul_le_mul_right _ hlower
    _ = secondsUnits g * r * twoTo 53 * (1000 * twoTo 53) + g * r * twoTo 53 * one := by ring
    _ ≤ (framesUnits g r * twoTo 53 + secondsUnits g * r) * (1000 * twoTo 53) +
          g * r * twoTo 53 * one :=
        Nat.add_le_add_right (Nat.mul_le_mul_right _ hframes) _
    _ = framesUnits g r * (1000 * (twoTo 53 * twoTo 53)) +
          (secondsUnits g * 1000 * twoTo 53 * r + g * r * twoTo 53 * one) := by ring
    _ ≤ framesUnits g r * (1000 * (twoTo 53 * twoTo 53)) +
          (g * one * (twoTo 53 + 1) * r + g * r * twoTo 53 * one) :=
        Nat.add_le_add_left (Nat.add_le_add_right (Nat.mul_le_mul_right _ hupper) _) _
    _ < (framesUnits g r / one + 1) * one * (1000 * (twoTo 53 * twoTo 53)) +
          (g * one * (twoTo 53 + 1) * r + g * r * twoTo 53 * one) :=
        Nat.add_lt_add_right (Nat.mul_lt_mul_of_pos_right hnext hscale) _
    _ = ((framesUnits g r / one + 1) * 1000 * (twoTo 53 * twoTo 53) +
          g * r * (2 * twoTo 53 + 1)) * one := by ring

/-- **The frames that are counted.**  One is lost only where they come out even and the
    seconds are rounded down; one is gained only where a thousandth is missing to it, with
    2^52 thousandths at least, and the seconds are rounded up. -/
theorem keyframeInterval_counts (hg : 0 < g) (hr : 0 < r) (h : g * r < twoTo 53) {frames : Nat}
    (hframes : keyframeInterval (.ofNat g) (.ofNat r) = frames) :
    frames = g * r / 1000 ∨
      (frames + 1 = g * r / 1000 ∧ g * r % 1000 = 0 ∧ secondsUnits g * 1000 < g * one) ∨
      (frames = g * r / 1000 + 1 ∧ g * r % 1000 = 999 ∧ twoTo 52 ≤ g * r ∧
        g * one < secondsUnits g * 1000) := by
  obtain rfl : framesUnits g r / one = frames := (keyframeInterval_eq hg hr h.le).symm.trans hframes
  have hbits : twoTo 53 = 9007199254740992 := by decide
  have hbits' : twoTo 52 = 4503599627370496 := by decide
  rcases Nat.lt_trichotomy (framesUnits g r / one) (g * r / 1000) with hlt | heq | hgt
  · have hdown : secondsUnits g * 1000 < g * one :=
      Nat.lt_of_not_le fun hs => Nat.not_le.2 hlt (le_counted_of_le h.le hs)
    have hmod : g * r % 1000 = 0 :=
      Classical.not_not.1 fun hmod => Nat.not_le.2 hlt (le_counted_of_mod hg h.le hmod)
    refine Or.inr (Or.inl ⟨?_, hmod, hdown⟩)
    have hbound := lt_counted_mul hg hr
    generalize framesUnits g r / one = frames at *
    rw [hbits] at h hbound
    omega
  · exact Or.inl heq
  · have hbound := counted_mul_le hg hr
    have hup : g * one < secondsUnits g * 1000 := by
      refine Nat.lt_of_not_le fun hs => ?_
      have hbound' := counted_mul_le_of_le hg hr hs
      generalize framesUnits g r / one = frames at *
      rw [hbits] at h hbound'
      omega
    generalize framesUnits g r / one = frames at *
    rw [hbits] at h hbound
    rw [hbits']
    refine Or.inr (Or.inr ⟨?_, ?_, ?_, hup⟩)
    all_goals omega

/-- **A frame is lost** exactly where the rounded product falls below the whole part of the
    exact one. -/
theorem lost_iff (hg : 0 < g) (hr : 0 < r) (h : g * r < twoTo 53) :
    keyframeInterval (.ofNat g) (.ofNat r) + 1 = g * r / 1000 ↔
      framesUnits g r < g * r / 1000 * one := by
  rw [← Nat.div_lt_iff_lt_mul one_units_pos, ← keyframeInterval_eq hg hr h.le]
  rcases keyframeInterval_counts hg hr h rfl with hcount | ⟨hcount, -⟩ | ⟨hcount, -⟩
  all_goals omega

/-- **A frame is gained** exactly where the rounded product reaches the whole number above
    the exact one. -/
theorem gained_iff (hg : 0 < g) (hr : 0 < r) (h : g * r < twoTo 53) :
    keyframeInterval (.ofNat g) (.ofNat r) = g * r / 1000 + 1 ↔
      (g * r / 1000 + 1) * one ≤ framesUnits g r := by
  rw [← Nat.le_div_iff_mul_le one_units_pos, ← keyframeInterval_eq hg hr h.le]
  rcases keyframeInterval_counts hg hr h rfl with hcount | ⟨hcount, -⟩ | ⟨hcount, -⟩
  all_goals omega

/-- Eighths of a second are not rounded. -/
theorem secondsUnits_of_dvd (hg : g ≤ twoTo 53) (hdvd : 125 ∣ g) :
    secondsUnits g * 1000 = g * one := by
  obtain ⟨eighths, rfl⟩ := hdvd
  have hthree : twoTo 3 = 8 := rfl
  have hone : one = 8 * twoTo 1071 := by rw [one_eq_mul (i := 3) (j := 1071) (by omega), hthree]
  have hle : eighths ≤ twoTo 53 := (Nat.le_mul_of_pos_left _ (by decide)).trans hg
  have hexact : 125 * eighths * one * one = eighths * twoTo 1071 * (1000 * one) := by
    calc 125 * eighths * one * one = 125 * eighths * (8 * twoTo 1071) * one := by rw [← hone]
      _ = eighths * twoTo 1071 * (1000 * one) := by ring
  rw [secondsUnits, hexact, rounded_mul (Nat.mul_pos (by decide) one_units_pos)
    (fits_mul_twoTo_of_le hle (by omega)), hone]
  ring

/-- So the frames of whole eighths of a second are counted as they are. -/
theorem keyframeInterval_of_dvd (hg : 0 < g) (hr : 0 < r) (h : g * r < twoTo 53)
    (hdvd : 125 ∣ g) : keyframeInterval (.ofNat g) (.ofNat r) = g * r / 1000 := by
  have hexact := secondsUnits_of_dvd (le_twoTo_of_mul hg hr h.le).1 hdvd
  rcases keyframeInterval_counts hg hr h rfl with hcount | ⟨-, -, hdown⟩ | ⟨-, -, -, hup⟩
  · exact hcount
  · exact absurd hexact hdown.ne
  · exact absurd hexact hup.ne'

end

end FrameRate

theorem Binary64.isPositive_ofNat {n : Nat} (hpos : 0 < n) (hn : n ≤ twoTo 53) :
    (Binary64.ofNat n).IsPositive :=
  ⟨_, _, ofNat_eq hn, Nat.mul_pos hpos one_units_pos⟩

/-- **The frames that are written.**  Of a stream that is encoded, with a whole number of
    milliseconds and a whole rate, they are the whole part of the exact product, but one less
    exactly where the rounded product falls below it, and one more exactly where the rounded
    product reaches the next whole number.  The first is only where the exact product is a
    whole number and the seconds are rounded down, the second only where it is a thousandth
    below one, of 2^52 thousandths at least, and the seconds are rounded up. -/
theorem frameRate_keyframes {p : Profile} {v : Value} {source : Source} {g r : Nat}
    (hp : p.isPassThrough = false) (hg : 0 < g) (hr : 0 < r) (h : g * r < twoTo 53)
    (hgop : p.HasGop (.ofNat g)) (hrate : v.GivesRate source (.ofNat r)) :
    ∃ frames,
      (Flag.frameRate v ⟨p, source⟩ = if frames = 0 then
        .error (.setting .gopDuration (.noFrameBetween (.ofNat g) (.ofNat r)))
      else .ok (Flag.rateFlags (.ofNat r) frames)) ∧
      (frames + 1 = g * r / 1000 ↔ FrameRate.framesUnits g r < g * r / 1000 * Binary64.one) ∧
      (frames = g * r / 1000 + 1 ↔
        (g * r / 1000 + 1) * Binary64.one ≤ FrameRate.framesUnits g r) ∧
      (frames = g * r / 1000 ∨
        (frames + 1 = g * r / 1000 ∧ g * r % 1000 = 0 ∧
          FrameRate.secondsUnits g * 1000 < g * Binary64.one) ∨
        (frames = g * r / 1000 + 1 ∧ g * r % 1000 = 999 ∧ twoTo 52 ≤ g * r ∧
          g * Binary64.one < FrameRate.secondsUnits g * 1000)) := by
  have hpos := Binary64.isPositive_ofNat hr (FrameRate.le_twoTo_of_mul hg hr h.le).2
  refine ⟨_, ?_, FrameRate.lost_iff hg hr h, FrameRate.gained_iff hg hr h,
    FrameRate.keyframeInterval_counts hg hr h rfl⟩
  rw [Flag.frameRate_eq_of hp hrate hpos hgop, Flag.paced]

/-- 1160 and 1200 milliseconds are rounded down, but not every rate loses a frame by it. -/
example : FrameRate.keyframeInterval (.ofNat 1160) (.ofNat 75) = 87 ∧
    FrameRate.keyframeInterval (.ofNat 1200) (.ofNat 25) = 30 := by
  decide +kernel

/-- A request for a distance of keyframes. -/
def gopRequest (milliseconds : Int64) : Settings :=
  .ofList [(.gopDuration, .integer milliseconds)]

theorem frameRate_keyframes_twoSeconds :
    Flag.frameRate (.integer 25) ⟨.resolve .empty (gopRequest 2000), .unknown⟩ =
      .ok ["-r", "25", "-g", "50", "-keyint_min", "50"] := by
  have hgop : (Profile.resolve .empty (gopRequest 2000)).HasGop (.ofNat 2000) :=
    .given (v := .integer 2000) (by decide +kernel) (by decide +kernel)
  have hrate : (Value.integer 25).GivesRate .unknown (.ofNat 25) :=
    Flag.rateOf_eq_ok_iff.1 (by decide +kernel)
  obtain ⟨frames, hwritten, hlost, hgained, hcount⟩ := frameRate_keyframes (g := 2000) (r := 25)
    (by decide +kernel) (by decide) (by decide) (by decide) hgop hrate
  obtain rfl : frames = 50 := by
    rcases hcount with hcount | ⟨hless, -⟩ | ⟨hmore, -⟩
    · exact hcount
    · exact absurd (hlost.1 hless) (by decide +kernel)
    · exact absurd (hgained.1 hmore) (by decide +kernel)
  rw [hwritten]
  decide +kernel

/-- **They are not the whole part of the exact product**: of 29 frames 28 are written, and
    of 9007163683617 there is one more. -/
theorem frameRate_miscounts_keyframes :
    (Flag.frameRate (.integer 25) ⟨.resolve .empty (gopRequest 1160), .unknown⟩ =
        .ok ["-r", "25", "-g", "28", "-keyint_min", "28"] ∧
      1160 * 25 / 1000 = 29) ∧
    (Flag.frameRate (.integer 3002387894539333) ⟨.resolve .empty (gopRequest 3), .unknown⟩ =
        .ok ["-r", "3002387894539333", "-g", "9007163683618", "-keyint_min", "9007163683618"] ∧
      3 * 3002387894539333 / 1000 = 9007163683617 ∧ 3 * 3002387894539333 < twoTo 53) := by
  decide +kernel

end Transcode
