/-
  Transcode — the frame rate of an output.

  A profile names one rate, or several to choose from: then the first is taken that is
  near the rate of the source, and the first of all if none is.  A rate is near if the
  difference, which is rounded once, is below one hundredth; rates that are zero or at
  least 1/128 have such a difference iff the exact one is below one hundredth.

  * `isNear_iff_exact`: where rounding the difference makes none;
  * `select_eq_some_iff`: which candidate is chosen;
  * `frameRate_eq_ok_iff`, `frameRate_eq_error_iff`: what the rule of the frame rate
    writes, and what it refuses;
  * `frameRate_outcome`: all of this together.
-/
import Transcode.Proofs.Rendering
import Transcode.Proofs.Rounding

namespace Transcode

namespace FrameRate

open Binary64

/-! ## Rates that are near -/

/-- A rate is near that of a source: their difference, as a number of the format, is below
    one hundredth. -/
def IsNear (source candidate : Binary64) : Prop :=
  ∃ s units fits, candidate.sub source = .finite s units fits ∧ 100 * units < one

/-- Below the tolerance are the numbers below one hundredth: no number of the format is
    between them. -/
theorem lt_tolerance_iff {units : Nat} (h : Fits units) :
    units < rounded (1 * one) 100 ↔ 100 * units < one := by
  have habove : one < 100 * rounded (1 * one) 100 := by decide +kernel
  have hbelow : one ≤ 100 * units → rounded (1 * one) 100 ≤ units := by
    intro hle
    refine rounded_le (by decide) h ?_
    rwa [Nat.one_mul, Nat.mul_comm]
  have hupper : 100 * units ≤ one → units ≤ rounded (1 * one) 100 := by
    intro hle
    refine le_rounded (by decide) h ?_
    rwa [Nat.one_mul, Nat.mul_comm]
  generalize rounded (1 * one) 100 = hundredth at *
  generalize one = unit at *
  omega

theorem fits_iff {source candidate : Binary64} :
    fits source candidate = true ↔ IsNear source candidate := by
  have hfits : Fits (rounded (1 * one) 100) := by decide +kernel
  have htolerance : tolerance = .finite false (rounded (1 * one) 100) hfits := by
    rw [tolerance, ofFraction, nearest_of_fits hfits]
  unfold fits IsNear
  rw [htolerance]
  cases candidate.sub source with
  | nan =>
    constructor
    · rintro ⟨⟩
    · rintro ⟨_, _, _, ⟨⟩, _⟩
  | infinite s =>
    have hlt : (Binary64.infinite s).abs.lt (.finite false (rounded (1 * one) 100) hfits) =
        decide ((twoTo 2098 : Nat) < ((rounded (1 * one) 100 : Nat) : Int)) := rfl
    rw [hlt, decide_eq_true_eq, Int.ofNat_lt]
    constructor
    · exact fun hlt => absurd hlt (Nat.lt_asymm hfits.2)
    · rintro ⟨_, _, _, ⟨⟩, _⟩
  | finite s units h =>
    have hlt : (Binary64.finite s units h).abs.lt (.finite false (rounded (1 * one) 100) hfits) =
        decide ((units : Int) < (rounded (1 * one) 100 : Nat)) := rfl
    rw [hlt, decide_eq_true_eq, Int.ofNat_lt, lt_tolerance_iff h]
    constructor
    · exact fun hnear => ⟨s, units, h, rfl, hnear⟩
    · rintro ⟨_, _, _, ⟨⟩, hnear⟩
      exact hnear

/-! ## Differences that are exact -/

/-- Numbers of at least 1/128, and zero, are on one grid. -/
theorem twoTo_dvd_of_fits {units : Nat} (h : Fits units)
    (hlarge : units = 0 ∨ one ≤ 128 * units) : twoTo 1015 ∣ units := by
  rcases hlarge with rfl | hlarge
  · exact Nat.dvd_zero _
  · have hle : twoTo 1067 ≤ units := by
      have hseven : twoTo 7 = 128 := rfl
      rw [one_eq_mul (i := 7) (j := 1067) (by omega), hseven] at hlarge
      generalize twoTo 1067 = bound at hlarge
      omega
    have hlog : 1067 ≤ units.log2 := le_log2_of_twoTo_le hle
    have hstep : twoTo 1015 ∣ step units := twoTo_dvd (by omega)
    exact hstep.trans (Nat.dvd_of_mod_eq_zero h.1)

/-- **Differences on that grid are exact**, or far above one hundredth. -/
theorem isNear_iff_exact {s t : Bool} {m n : Nat} {hm : Fits m} {hn : Fits n}
    (hm' : m = 0 ∨ one ≤ 128 * m) (hn' : n = 0 ∨ one ≤ 128 * n) :
    IsNear (.finite s m hm) (.finite t n hn) ↔
      100 * (signed t n - signed s m).natAbs < one := by
  have hdvd : ∀ (r : Bool) (k : Nat), twoTo 1015 ∣ k → ((twoTo 1015 : Nat) : Int) ∣ signed r k := by
    intro r k hk
    have hk := Int.natCast_dvd_natCast.2 hk
    cases r with
    | true => exact (Int.dvd_neg).2 hk
    | false => exact hk
  obtain ⟨k, hk⟩ : twoTo 1015 ∣ (signed t n - signed s m).natAbs :=
    Int.natCast_dvd.1 (Int.dvd_sub (hdvd t n (twoTo_dvd_of_fits hn hn'))
      (hdvd s m (twoTo_dvd_of_fits hm hm')))
  have hsub : (Binary64.finite t n hn).sub (.finite s m hm) =
      if signed t n - signed s m = 0 then zero (t && !s)
      else nearest (decide (signed t n - signed s m < 0)) (signed t n - signed s m).natAbs 1 := rfl
  unfold IsNear
  rw [hsub]
  generalize signed t n - signed s m = d at hk
  by_cases hd : d = 0
  · rw [if_pos hd, hd]
    exact ⟨fun _ => one_units_pos, fun _ => ⟨_, 0, fits_zero, rfl, one_units_pos⟩⟩
  rw [if_neg hd]
  by_cases hbits : k ≤ twoTo 53
  · have hfits : Fits d.natAbs := by
      rw [hk, Nat.mul_comm]
      exact fits_mul_twoTo_of_le hbits (by omega)
    rw [nearest_one hfits]
    constructor
    · rintro ⟨_, _, _, ⟨⟩, hnear⟩
      exact hnear
    · exact fun hnear => ⟨_, _, hfits, rfl, hnear⟩
  · have hfits : Fits (twoTo 53 * twoTo 1015) := fits_mul_twoTo_of_le (Nat.le_refl _) (by omega)
    have hfar : one ≤ 100 * (twoTo 53 * twoTo 1015) := by
      have hsix : twoTo 6 ≤ 100 := by decide
      rw [one_eq_mul (i := 6) (j := 53 + 1015) (by omega), twoTo_add 53]
      exact Nat.mul_le_mul_right _ hsix
    have hle : twoTo 53 * twoTo 1015 ≤ d.natAbs := by
      rw [hk, Nat.mul_comm (twoTo 1015)]
      exact Nat.mul_le_mul_right _ (Nat.le_of_not_le hbits)
    have hrounded : twoTo 53 * twoTo 1015 ≤ rounded d.natAbs 1 :=
      le_rounded Nat.one_pos hfits (by rwa [Nat.mul_one])
    generalize twoTo 53 * twoTo 1015 = far at hfar hle hrounded
    generalize one = unit at hfar
    constructor
    · rintro ⟨_, units, _, hnearest, hnear⟩
      obtain rfl := units_of_nearest hnearest
      omega
    · omega

/-! ## Candidates -/

/-- The candidate for a source: the first that is near its rate, or the first of all if
    none is or the rate is not known. -/
inductive Chosen (candidates : List Binary64) (source : Option Binary64) (c : Binary64) : Prop
  | near {s : Binary64} {before after : List Binary64} (hs : source = some s)
      (h : candidates = before ++ c :: after) (hc : IsNear s c)
      (hbefore : ∀ b ∈ before, ¬ IsNear s b)
  | first {rest : List Binary64} (h : candidates = c :: rest)
      (hnone : ∀ s, source = some s → ∀ b ∈ candidates, ¬ IsNear s b)

section
variable {candidates : List Binary64} {source : Option Binary64} {c : Binary64}

theorem find?_eq_none_iff :
    (source.bind fun s => candidates.find? (fits s)) = none ↔
      ∀ s, source = some s → ∀ b ∈ candidates, ¬ IsNear s b := by
  cases source with
  | none => simp
  | some s => simp [← fits_iff]

theorem find?_eq_some_iff :
    (source.bind fun s => candidates.find? (fits s)) = some c ↔
      ∃ s before after, source = some s ∧ candidates = before ++ c :: after ∧ IsNear s c ∧
        ∀ b ∈ before, ¬ IsNear s b := by
  simp only [Option.bind_eq_some_iff, List.find?_eq_some_iff_append, ← fits_iff]
  constructor
  · rintro ⟨s, hs, hc, before, after, h, hbefore⟩
    exact ⟨s, before, after, hs, h, hc, by simpa using hbefore⟩
  · rintro ⟨s, before, after, hs, h, hc, hbefore⟩
    exact ⟨s, hs, hc, before, after, h, by simpa using hbefore⟩

/-- **Selecting gives the candidate for the source.** -/
theorem select_eq_some_iff : select candidates source = some c ↔ Chosen candidates source c := by
  rw [select, Option.or_eq_some_iff, find?_eq_none_iff, find?_eq_some_iff,
    List.head?_eq_some_iff]
  constructor
  · rintro (⟨s, before, after, hs, h, hc, hbefore⟩ | ⟨hnone, rest, h⟩)
    · exact .near hs h hc hbefore
    · exact .first h hnone
  · rintro (⟨hs, h, hc, hbefore⟩ | ⟨h, hnone⟩)
    · exact Or.inl ⟨_, _, _, hs, h, hc, hbefore⟩
    · exact Or.inr ⟨hnone, _, h⟩

theorem select_eq_none_iff : select candidates source = none ↔ candidates = [] := by
  rw [select, Option.or_eq_none_iff, List.head?_eq_none_iff]
  constructor
  · exact And.right
  · rintro rfl
    exact ⟨by cases source <;> rfl, rfl⟩

theorem Chosen.mem (h : Chosen candidates source c) : c ∈ candidates := by
  cases h with
  | near _ h => exact h ▸ List.mem_append_right _ List.mem_cons_self
  | first h => exact h ▸ List.mem_cons_self

end

end FrameRate

/-! ## The rate of a value -/

/-- The rate that a value means for a source: a single one, or the candidate for it. -/
inductive Value.GivesRate (source : Source) : Value → Binary64 → Prop
  | integer (i : Int64) : GivesRate source (.integer i) (.ofInt i.toInt)
  | float (x : Binary64) : GivesRate source (.float x) x
  | list {candidates : List Binary64} {c : Binary64}
      (h : FrameRate.Chosen candidates source.frameRate c) : GivesRate source (.list candidates) c

/-- Greater than zero, and not beyond all numbers. -/
def Binary64.IsPositive (x : Binary64) : Prop :=
  ∃ units fits, x = .finite false units fits ∧ 0 < units

theorem Binary64.isPositive_iff {x : Binary64} :
    (x.isFinite && (zero false).lt x) = true ↔ x.IsPositive := by
  unfold IsPositive
  cases x with
  | nan =>
    constructor
    · rintro ⟨⟩
    · rintro ⟨_, _, ⟨⟩, -⟩
  | infinite s =>
    constructor
    · rintro ⟨⟩
    · rintro ⟨_, _, ⟨⟩, -⟩
  | finite s units h =>
    have hlt : ((finite s units h).isFinite && (zero false).lt (finite s units h)) =
        decide ((0 : Int) < signed s units) := rfl
    rw [hlt, decide_eq_true_eq]
    cases s with
    | true =>
      rw [signed_true]
      constructor
      · omega
      · rintro ⟨_, _, ⟨⟩, -⟩
    | false =>
      rw [signed_false]
      constructor
      · exact fun hpos => ⟨units, h, rfl, by omega⟩
      · rintro ⟨_, _, ⟨⟩, hpos⟩
        omega

/-- The milliseconds between keyframes that a profile gives, or the standard. -/
inductive Profile.HasGop (p : Profile) : Binary64 → Prop
  | standard (h : p.get? .gopDuration = none) : HasGop p (.ofNat 4000)
  | given {v : Value} {gop : Binary64} (h : p.get? .gopDuration = some v)
      (hv : v.asNumber = some gop) : HasGop p gop

namespace Flag

variable {v : Value} {p : Profile} {source : Source} {rate gop : Binary64}

theorem rateOf_eq_ok_iff : rateOf v source = .ok rate ↔ v.GivesRate source rate := by
  cases v with
  | flag | text =>
    constructor
    · rintro ⟨⟩
    · rintro ⟨⟩
  | integer i =>
    constructor
    · rintro ⟨⟩
      exact .integer i
    · rintro ⟨⟩
      rfl
  | float x =>
    constructor
    · rintro ⟨⟩
      exact .float _
    · rintro ⟨⟩
      rfl
  | list candidates =>
    have hchosen : rateOf (.list candidates) source = .ok rate ↔
        FrameRate.select candidates source.frameRate = some rate := by
      unfold rateOf
      dsimp only
      cases FrameRate.select candidates source.frameRate <;> simp
    rw [hchosen, FrameRate.select_eq_some_iff]
    constructor
    · exact .list
    · rintro (_ | _ | h)
      exact h

/-- A value gives a source one rate. -/
theorem givesRate_unique {rate' : Binary64} (h : v.GivesRate source rate)
    (h' : v.GivesRate source rate') : rate = rate' :=
  Except.ok.inj ((rateOf_eq_ok_iff.2 h).symm.trans (rateOf_eq_ok_iff.2 h'))

theorem rateOf_eq_error_iff {e : CompileError} :
    rateOf v source = .error e ↔
      (v = .list [] ∧ e = .setting .frameRate .noCandidates) ∨
        (v.asNumber = none ∧ (∀ candidates, v ≠ .list candidates) ∧
          e = .setting .frameRate (.wrongType .numberOrList v)) := by
  cases v with
  | flag | integer | float | text =>
    simp [rateOf, Value.asNumber, CompileError.wrongType, eq_comm]
  | list candidates =>
    have hempty : rateOf (.list candidates) source = .error e ↔
        FrameRate.select candidates source.frameRate = none ∧
          e = .setting .frameRate .noCandidates := by
      unfold rateOf
      dsimp only
      cases FrameRate.select candidates source.frameRate <;> simp [eq_comm]
    rw [hempty, FrameRate.select_eq_none_iff]
    simp

/-! ## The rule of the frame rate -/

/-- The milliseconds between keyframes that the rule takes. -/
def gopOf (p : Profile) : Except CompileError Binary64 :=
  (p.number .gopDuration).map (·.getD standardGop)

theorem gopOf_eq_ok_iff : gopOf p = .ok gop ↔ p.HasGop gop := by
  cases hw : p.get? .gopDuration with
  | none =>
    have hstandard : gopOf p = .ok standardGop := by
      simp [gopOf, Profile.number, Profile.view, hw, Except.map]
    rw [hstandard, Except.ok.injEq]
    constructor
    · rintro rfl
      unfold standardGop
      exact .standard hw
    · rintro (_ | ⟨h, -⟩)
      · rfl
      · cases hw.symm.trans h
  | some w =>
    have hgiven : gopOf p = .ok gop ↔ w.asNumber = some gop := by
      rw [gopOf, Profile.number, Profile.view, hw, map_eq_ok_iff]
      cases hn : w.asNumber <;> simp [hn]
    rw [hgiven]
    constructor
    · exact .given hw
    · rintro (h | ⟨h, hn⟩)
      · cases hw.symm.trans h
      · cases hw.symm.trans h
        exact hn

theorem hasGop_unique {gop' : Binary64} (h : p.HasGop gop) (h' : p.HasGop gop') : gop = gop' :=
  Except.ok.inj ((gopOf_eq_ok_iff.2 h).symm.trans (gopOf_eq_ok_iff.2 h'))

theorem gopOf_eq_error_iff {e : CompileError} :
    gopOf p = .error e ↔ ∃ w, p.get? .gopDuration = some w ∧ w.asNumber = none ∧
      e = .setting .gopDuration (.wrongType .number w) := by
  unfold gopOf Profile.number Profile.view
  rw [map_eq_error_iff]
  cases p.get? .gopDuration with
  | none => simp
  | some w => cases hn : w.asNumber <;> simp [hn, CompileError.wrongType, eq_comm]

/-- What is written for a rate: the rate, and the frames between keyframes as the most
    and as the least. -/
def rateFlags (rate : Binary64) (frames : Nat) : List String :=
  ["-r", String.ofList rate.plain, "-g", String.ofList (digitsOf frames),
    "-keyint_min", String.ofList (digitsOf frames)]

/-- What the rule does with a rate and the milliseconds between keyframes. -/
def paced (gop rate : Binary64) : Rendering :=
  if FrameRate.keyframeInterval gop rate = 0 then
    .error (.setting .gopDuration (.noFrameBetween gop rate))
  else .ok (rateFlags rate (FrameRate.keyframeInterval gop rate))

/-- The rule takes a rate, judges it, and takes the milliseconds between keyframes. -/
theorem frameRate_eq_paced (hp : p.isPassThrough = false) :
    frameRate v ⟨p, source⟩ = rateOf v source >>= fun rate =>
      if rate.isFinite && (Binary64.zero false).lt rate then
        gopOf p >>= fun gop => paced gop rate
      else .error (.setting .frameRate (.badRate rate)) := by
  simp only [frameRate, hp]
  rw [if_neg Bool.false_ne_true]
  refine bind_congr_of_ok fun rate _ => ?_
  cases rate.isFinite && (Binary64.zero false).lt rate with
  | false => rfl
  | true =>
    unfold gopOf paced
    rw [if_neg (show ¬ (!true) = true by decide), if_pos rfl]
    cases p.number .gopDuration with
    | error e => rfl
    | ok gop =>
      show (if _ then _ else _) = if _ then _ else _
      split <;> rfl

/-- A rate and milliseconds that are not refused are all that counts. -/
theorem frameRate_eq_of (hp : p.isPassThrough = false) (hrate : v.GivesRate source rate)
    (hpos : rate.IsPositive) (hgop : p.HasGop gop) :
    frameRate v ⟨p, source⟩ = paced gop rate := by
  rw [frameRate_eq_paced hp, rateOf_eq_ok_iff.2 hrate]
  show (if _ then gopOf p >>= _ else _) = _
  rw [if_pos (Binary64.isPositive_iff.2 hpos), gopOf_eq_ok_iff.2 hgop]
  rfl

/-- **What the rule writes.** -/
theorem frameRate_eq_ok_iff {tokens : List String} (hp : p.isPassThrough = false) :
    frameRate v ⟨p, source⟩ = .ok tokens ↔
      ∃ rate gop, v.GivesRate source rate ∧ rate.IsPositive ∧ p.HasGop gop ∧
        1 ≤ FrameRate.keyframeInterval gop rate ∧
        tokens = rateFlags rate (FrameRate.keyframeInterval gop rate) := by
  rw [frameRate_eq_paced hp]
  simp only [bind_eq_ok_iff, rateOf_eq_ok_iff]
  constructor
  · rintro ⟨rate, hrate, h⟩
    split at h
    · next hpos =>
      obtain ⟨gop, hgop, h⟩ := bind_eq_ok_iff.1 h
      unfold paced at h
      split at h
      · cases h
      · next hframes =>
        cases h
        exact ⟨rate, gop, hrate, Binary64.isPositive_iff.1 hpos, gopOf_eq_ok_iff.1 hgop,
          Nat.one_le_iff_ne_zero.2 hframes, rfl⟩
    · cases h
  · rintro ⟨rate, gop, hrate, hpos, hgop, hframes, rfl⟩
    refine ⟨rate, hrate, ?_⟩
    rw [if_pos (Binary64.isPositive_iff.2 hpos)]
    refine bind_eq_ok_iff.2 ⟨gop, gopOf_eq_ok_iff.2 hgop, ?_⟩
    rw [paced, if_neg (Nat.one_le_iff_ne_zero.1 hframes)]

/-- What the rule refuses, and what for: each reason if none before it applies. -/
inductive RefusesRate (v : Value) (p : Profile) (source : Source) : Setting → Objection → Prop
  | noCandidates (h : v = .list []) : RefusesRate v p source .frameRate .noCandidates
  | noRate (h : v.asNumber = none) (hlist : ∀ candidates, v ≠ .list candidates) :
      RefusesRate v p source .frameRate (.wrongType .numberOrList v)
  | badRate {rate : Binary64} (hrate : v.GivesRate source rate) (h : ¬ rate.IsPositive) :
      RefusesRate v p source .frameRate (.badRate rate)
  | noGop {rate : Binary64} {w : Value} (hrate : v.GivesRate source rate) (hpos : rate.IsPositive)
      (hw : p.get? .gopDuration = some w) (h : w.asNumber = none) :
      RefusesRate v p source .gopDuration (.wrongType .number w)
  | noFrame {rate gop : Binary64} (hrate : v.GivesRate source rate) (hpos : rate.IsPositive)
      (hgop : p.HasGop gop) (h : FrameRate.keyframeInterval gop rate = 0) :
      RefusesRate v p source .gopDuration (.noFrameBetween gop rate)

/-- **What the rule refuses.** -/
theorem frameRate_eq_error_iff {e : CompileError} (hp : p.isPassThrough = false) :
    frameRate v ⟨p, source⟩ = .error e ↔ ∃ t o, e = .setting t o ∧ RefusesRate v p source t o := by
  rw [frameRate_eq_paced hp]
  simp only [bind_eq_error_iff, rateOf_eq_ok_iff, rateOf_eq_error_iff]
  constructor
  · rintro ((⟨h, rfl⟩ | ⟨h, hlist, rfl⟩) | ⟨rate, hrate, h⟩)
    · exact ⟨_, _, rfl, .noCandidates h⟩
    · exact ⟨_, _, rfl, .noRate h hlist⟩
    · split at h
      · next hpos =>
        have hpos := Binary64.isPositive_iff.1 hpos
        rcases bind_eq_error_iff.1 h with h | ⟨gop, hgop, h⟩
        · obtain ⟨w, hw, hn, rfl⟩ := gopOf_eq_error_iff.1 h
          exact ⟨_, _, rfl, .noGop hrate hpos hw hn⟩
        · unfold paced at h
          split at h
          · next hframes =>
            cases h
            exact ⟨_, _, rfl, .noFrame hrate hpos (gopOf_eq_ok_iff.1 hgop) hframes⟩
          · cases h
      · next hpos =>
        cases h
        exact ⟨_, _, rfl, .badRate hrate fun h => hpos (Binary64.isPositive_iff.2 h)⟩
  · rintro ⟨_, _, rfl, h⟩
    cases h with
    | noCandidates h => exact .inl (.inl ⟨h, rfl⟩)
    | noRate h hlist => exact .inl (.inr ⟨h, hlist, rfl⟩)
    | badRate hrate h =>
      refine .inr ⟨_, hrate, ?_⟩
      rw [if_neg fun hpos => h (Binary64.isPositive_iff.1 hpos)]
    | noGop hrate hpos hw h =>
      refine .inr ⟨_, hrate, ?_⟩
      rw [if_pos (Binary64.isPositive_iff.2 hpos)]
      exact bind_eq_error_iff.2 (.inl (gopOf_eq_error_iff.2 ⟨_, hw, h, rfl⟩))
    | noFrame hrate hpos hgop h =>
      refine .inr ⟨_, hrate, ?_⟩
      rw [if_pos (Binary64.isPositive_iff.2 hpos)]
      refine bind_eq_error_iff.2 (.inr ⟨_, gopOf_eq_ok_iff.2 hgop, ?_⟩)
      rw [paced, if_pos h]

end Flag

/-- **The frame rate of an output.**  Of a stream that is encoded the rule writes a finite,
    positive rate, of several the candidate for the source, and twice the same number of
    frames between keyframes, one at least.  It refuses a value without a rate, a rate that
    is not finite and positive, a distance of keyframes that is no number, and one without
    a frame in it, and nothing else; and always it names the setting.  Of rates that are
    zero or 1/128 at least, signs aside, the exact difference says which are near. -/
theorem frameRate_outcome {p : Profile} (hp : p.isPassThrough = false) (v : Value)
    (source : Source) :
    (∀ tokens, Flag.frameRate v ⟨p, source⟩ = .ok tokens ↔
      ∃ rate gop, v.GivesRate source rate ∧ rate.IsPositive ∧ p.HasGop gop ∧
        1 ≤ FrameRate.keyframeInterval gop rate ∧
        tokens = Flag.rateFlags rate (FrameRate.keyframeInterval gop rate)) ∧
    ((∃ e, Flag.frameRate v ⟨p, source⟩ = .error e) ↔
      v = .list [] ∨ (v.asNumber = none ∧ ∀ candidates, v ≠ .list candidates) ∨
        (∃ rate, v.GivesRate source rate ∧ ¬ rate.IsPositive) ∨
        (∃ w, p.get? .gopDuration = some w ∧ w.asNumber = none) ∨
        ∃ rate gop, v.GivesRate source rate ∧ p.HasGop gop ∧
          FrameRate.keyframeInterval gop rate = 0) ∧
    (∀ e, Flag.frameRate v ⟨p, source⟩ = .error e →
      ∃ t ∈ [Setting.frameRate, Setting.gopDuration], ∃ o, e = .setting t o) ∧
    (∀ candidates rate, v = .list candidates → v.GivesRate source rate → rate ∈ candidates) ∧
    ∀ (s t : Bool) (m n : Nat) (hm : Binary64.Fits m) (hn : Binary64.Fits n),
      (m = 0 ∨ Binary64.one ≤ 128 * m) → (n = 0 ∨ Binary64.one ≤ 128 * n) →
        (FrameRate.IsNear (.finite s m hm) (.finite t n hn) ↔
          100 * (Binary64.signed t n - Binary64.signed s m).natAbs < Binary64.one) := by
  refine ⟨fun _ => Flag.frameRate_eq_ok_iff hp, ?_, ?_, ?_, ?_⟩
  · constructor
    · rintro ⟨e, h⟩
      obtain ⟨_, _, _, h⟩ := (Flag.frameRate_eq_error_iff hp).1 h
      cases h with
      | noCandidates h => exact .inl h
      | noRate h hlist => exact .inr (.inl ⟨h, hlist⟩)
      | badRate hrate h => exact .inr (.inr (.inl ⟨_, hrate, h⟩))
      | noGop _ _ hw h => exact .inr (.inr (.inr (.inl ⟨_, hw, h⟩)))
      | noFrame hrate _ hgop h => exact .inr (.inr (.inr (.inr ⟨_, _, hrate, hgop, h⟩)))
    · -- What is not refused is written, with a rate and a distance that exclude each reason.
      intro h
      cases hr : Flag.frameRate v ⟨p, source⟩ with
      | error e => exact ⟨e, rfl⟩
      | ok tokens =>
        exfalso
        obtain ⟨rate, gop, hrate, hpos, hgop, hframes, -⟩ := (Flag.frameRate_eq_ok_iff hp).1 hr
        rcases h with h | ⟨h, hlist⟩ | ⟨rate', hrate', h⟩ | ⟨w, hw, h⟩ |
          ⟨rate', gop', hrate', hgop', h⟩
        · subst h
          rcases hrate with _ | _ | h
          cases h.mem
        · cases hrate with
          | integer | float => cases h
          | list => exact hlist _ rfl
        · obtain rfl := Flag.givesRate_unique hrate hrate'
          exact h hpos
        · rcases hgop with hw' | ⟨hw', hn⟩
          · cases hw.symm.trans hw'
          · cases hw.symm.trans hw'
            cases h.symm.trans hn
        · obtain rfl := Flag.givesRate_unique hrate hrate'
          obtain rfl := Flag.hasGop_unique hgop hgop'
          omega
  · intro e h
    obtain ⟨_, _, rfl, hrefuses⟩ := (Flag.frameRate_eq_error_iff hp).1 h
    cases hrefuses <;> exact ⟨_, by decide, _, rfl⟩
  · rintro candidates rate rfl (_ | _ | h)
    exact h.mem
  · exact fun _ _ _ _ _ _ => FrameRate.isNear_iff_exact

/-- Three candidates. -/
def threeRates : List Binary64 :=
  [.ofNat 25, .ofFraction false 2997 100, .ofNat 30]

/-- The profile of a request that says nothing. -/
def plainProfile : Profile :=
  .resolve .empty .empty

theorem frameRate_outcome_threeRates :
    Flag.frameRate (.list threeRates) ⟨plainProfile, ⟨none, none, some (.ofNat 30)⟩⟩ =
      .ok ["-r", "30", "-g", "120", "-keyint_min", "120"] ∧
    Flag.frameRate (.list threeRates) ⟨plainProfile, .unknown⟩ =
      .ok ["-r", "25", "-g", "100", "-keyint_min", "100"] ∧
    ∃ e, Flag.frameRate (.list [.nan]) ⟨plainProfile, .unknown⟩ = .error e := by
  have hp : plainProfile.isPassThrough = false := by decide +kernel
  have hgop : plainProfile.HasGop (.ofNat 4000) := .standard (by decide +kernel)
  have hpositive : ∀ {x : Binary64}, (x.isFinite && (Binary64.zero false).lt x) = true →
      x.IsPositive := Binary64.isPositive_iff.1
  refine ⟨?_, ?_, ?_⟩
  · refine ((frameRate_outcome hp _ _).1 _).2 ⟨.ofNat 30, .ofNat 4000, ?_,
      hpositive (by decide +kernel), hgop, by decide +kernel, by decide +kernel⟩
    have hsplit : threeRates = [.ofNat 25, .ofFraction false 2997 100] ++ [.ofNat 30] := rfl
    have hfar : ∀ b ∈ [Binary64.ofNat 25, .ofFraction false 2997 100],
        FrameRate.fits (.ofNat 30) b = false := by decide +kernel
    refine .list (.near rfl hsplit (FrameRate.fits_iff.1 (by decide +kernel)) fun b hb hnear => ?_)
    exact Bool.false_ne_true ((hfar b hb).symm.trans (FrameRate.fits_iff.2 hnear))
  · refine ((frameRate_outcome hp _ _).1 _).2 ⟨.ofNat 25, .ofNat 4000, ?_,
      hpositive (by decide +kernel), hgop, by decide +kernel, by decide +kernel⟩
    exact .list (.first rfl fun _ h => nomatch h)
  · refine ((frameRate_outcome hp _ _).2.1).2 (.inr (.inr (.inl ⟨.nan, ?_, ?_⟩)))
    · exact .list (.first rfl fun _ h => nomatch h)
    · rintro ⟨_, _, ⟨⟩, -⟩

end Transcode
