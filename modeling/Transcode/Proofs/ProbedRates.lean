/-
  Transcode — rates that are not finite.

  A rate that a report writes as a number has to be finite.  Of one that it writes as a
  ratio the denominator must not be zero, and nothing is asked of what comes out: the
  quotient of a number that is not finite is not, and a quotient may be too great.

  * `Binary64.isFinite_div_iff`: the quotients that are finite;
  * `Binary64.isFinite_div_of_one_le`: among them are all of finite numbers by 1 or more;
  * `FrameRate.ofRatio?_eq_some_iff`: how rates are read;
  * `probed_rates_finite_unless_ratio`: so rates and sources have an infinite or no rate
    only from such ratios.
-/
import Transcode.Proofs.Reports
import Transcode.Proofs.RoundingIntervals
import Transcode.Proofs.Tracks

namespace Transcode

/-! ## Quotients -/

namespace Binary64

/-- Numbers with a finite quotient: that of a finite number by an infinity is zero, and that
    of two finite ones has to be below half a step above the greatest number. -/
inductive HasFiniteQuotient : Binary64 → Binary64 → Prop
  | byInfinity {s t : Bool} {m : Nat} {hm : Fits m} :
      HasFiniteQuotient (finite s m hm) (infinite t)
  | below {s t : Bool} {m n : Nat} {hm : Fits m} {hn : Fits n} (h : m * one < overflow * n) :
      HasFiniteQuotient (finite s m hm) (finite t n hn)

variable {x y : Binary64}

/-- **When a quotient is finite.** -/
theorem isFinite_div_iff : (x.div y).isFinite = true ↔ HasFiniteQuotient x y := by
  constructor
  · intro h
    cases x with
    | nan => cases h
    | infinite s => cases y <;> cases h
    | finite s m hm =>
      cases y with
      | nan => cases h
      | infinite t => exact .byInfinity
      | finite t n hn =>
        rcases Nat.eq_zero_or_pos n with rfl | hpos
        · rw [div, if_pos rfl] at h
          split at h <;> cases h
        · rw [div, if_neg hpos.ne', isFinite_nearest_iff hpos] at h
          exact .below h
  · rintro (_ | h)
    · rfl
    · rename_i n _ _
      have hpos : 0 < n := Nat.pos_of_ne_zero fun hzero => by simp [hzero] at h
      rw [div, if_neg hpos.ne', isFinite_nearest_iff hpos]
      exact h

theorem lt_overflow {n : Nat} (hn : Fits n) : n < overflow := by
  have h : (nearest false n 1).isFinite = true := by
    rw [nearest_one hn]
    rfl
  rw [isFinite_nearest_iff Nat.one_pos, Nat.mul_one] at h
  exact h

/-- **Finite numbers by 1 or more** have a finite quotient. -/
theorem isFinite_div_of_one_le {s t : Bool} {m n : Nat} {hm : Fits m} {hn : Fits n}
    (h : one ≤ n) : ((finite s m hm).div (finite t n hn)).isFinite = true := by
  refine isFinite_div_iff.2 (.below ?_)
  calc m * one < overflow * one := Nat.mul_lt_mul_of_pos_right (lt_overflow hm) one_units_pos
    _ ≤ overflow * n := Nat.mul_le_mul_left overflow h

end Binary64

/-! ## Rates as they are written -/

namespace FrameRate

/-- What a text of a rate is read as. -/
inductive ReadsAs (cs : List Char) : Binary64 → Prop
  | ratio {num den : List Char} {n d : Binary64} (hcs : cs = num ++ '/' :: den)
      (hfirst : '/' ∉ num) (hnum : Binary64.ofTrimmed? num = some n)
      (hden : Binary64.ofTrimmed? den = some d) (hzero : d.eq (.zero false) = false) :
      ReadsAs cs (n.div d)
  | number {x : Binary64} (hcs : '/' ∉ cs) (hread : Binary64.ofTrimmed? cs = some x)
      (hfinite : x.isFinite = true) : ReadsAs cs x

/-- A ratio whose quotient is not finite, and whose denominator is not zero. -/
def IsUnboundedRatio (cs : List Char) : Prop :=
  ∃ num den n d, cs = num ++ '/' :: den ∧ '/' ∉ num ∧ Binary64.ofTrimmed? num = some n ∧
    Binary64.ofTrimmed? den = some d ∧ d.eq (.zero false) = false ∧ ¬ n.HasFiniteQuotient d

variable {text : String} {x : Binary64}

theorem cutAt_slash_eq_some_iff {cs num den : List Char} :
    Text.cutAt (· == '/') cs = some (num, den) ↔ cs = num ++ '/' :: den ∧ '/' ∉ num := by
  have hnum : '/' ∉ num ↔ ∀ c ∈ num, (c == '/') = false := by
    simp only [beq_eq_false_iff_ne]
    exact ⟨fun h c hc heq => h (heq ▸ hc), fun h hmem => h _ hmem rfl⟩
  constructor
  · intro h
    obtain ⟨c, hc, rfl, hall⟩ := Text.eq_of_cutAt h
    rw [beq_iff_eq.1 hc]
    exact ⟨rfl, hnum.2 hall⟩
  · rintro ⟨rfl, hfirst⟩
    exact Text.cutAt_append (hnum.1 hfirst) (by rfl) den

theorem ofRatio?_eq_some_iff : ofRatio? text = some x ↔ ReadsAs text.toList x := by
  unfold ofRatio?
  constructor
  · intro h
    split at h
    · next num den hcut =>
      obtain ⟨hcs, hfirst⟩ := cutAt_slash_eq_some_iff.1 hcut
      split at h
      · next n d hnum hden =>
        split at h
        · cases h
        · next hzero =>
          cases h
          exact .ratio hcs hfirst hnum hden (Bool.eq_false_iff.2 hzero)
      · cases h
    · next hcut =>
      obtain ⟨hread, hfinite⟩ := Option.filter_eq_some_iff.1 h
      refine .number (fun hmem => ?_) hread hfinite
      have hnot := Text.cutAt_eq_none_iff.1 hcut _ hmem
      cases hnot
  · rintro (⟨hcs, hfirst, hnum, hden, hzero⟩ | ⟨hcs, hread, hfinite⟩)
    · rw [cutAt_slash_eq_some_iff.2 ⟨hcs, hfirst⟩]
      dsimp only
      rw [hnum, hden]
      dsimp only
      rw [if_neg (Bool.eq_false_iff.1 hzero)]
    · have hcut : Text.cutAt (· == '/') text.toList = none :=
        Text.cutAt_eq_none_iff.2 fun c hc => beq_eq_false_iff_ne.2 fun h => hcs (h ▸ hc)
      rw [hcut]
      exact Option.filter_eq_some_iff.2 ⟨hread, hfinite⟩

/-- **Which rates are not finite**: those of ratios that have no finite quotient. -/
theorem exists_not_finite_iff :
    (∃ x, ofRatio? text = some x ∧ x.isFinite = false) ↔ IsUnboundedRatio text.toList := by
  simp only [ofRatio?_eq_some_iff]
  constructor
  · rintro ⟨x, ⟨hcs, hfirst, hnum, hden, hzero⟩ | ⟨-, -, hfinite⟩, hnot⟩
    · refine ⟨_, _, _, _, hcs, hfirst, hnum, hden, hzero, fun h => ?_⟩
      rw [Binary64.isFinite_div_iff.2 h] at hnot
      cases hnot
    · rw [hfinite] at hnot
      cases hnot
  · rintro ⟨num, den, n, d, hcs, hfirst, hnum, hden, hzero, hnot⟩
    refine ⟨n.div d, .ratio hcs hfirst hnum hden hzero, ?_⟩
    rwa [Bool.eq_false_iff, ne_eq, Binary64.isFinite_div_iff]

end FrameRate

/-! ## Rates of sources -/

namespace Media

theorem ofReportText_eq_ok_iff {file : Path} {text : String} {m : Media} :
    ofReportText file text = .ok m ↔
      ∃ r, Report.ofText? text = some r ∧ ofReport file r = .ok m := by
  unfold ofReportText
  rw [← Report.ofText?]
  cases Report.ofText? text <;> simp

/-- The rate of a source is that of the first video stream. -/
theorem frameRate_source_of_ofReport {file : Path} {r : Report} {m : Media}
    (h : ofReport file r = .ok m) :
    m.source.frameRate = (r.streams.find? Stream.isVideo).bind Stream.rate := by
  rw [source_of_ofReport h]
  cases r.streams.find? Stream.isVideo <;> rfl

end Media

/-- **Where rates are not finite.**  A rate that was read is infinite or NaN exactly if its
    text is a ratio, not by zero, whose quotient is not finite; and the rate of a source is so
    exactly if the rate of the first video stream of the report is. -/
theorem probed_rates_finite_unless_ratio (rate : String) (file : Path) (report : String) :
    ((∃ x, FrameRate.ofRatio? rate = some x ∧ x.isFinite = false) ↔
      FrameRate.IsUnboundedRatio rate.toList) ∧
    ∀ m, Media.ofReportText file report = .ok m →
      ((∃ x, m.source.frameRate = some x ∧ x.isFinite = false) ↔
        ∃ r s t, Media.Report.ofText? report = some r ∧
          r.streams.find? Media.Stream.isVideo = some s ∧ s.frameRate = some t ∧
          FrameRate.IsUnboundedRatio t.toList) := by
  refine ⟨FrameRate.exists_not_finite_iff, fun m h => ?_⟩
  obtain ⟨r, hr, hm⟩ := Media.ofReportText_eq_ok_iff.1 h
  simp only [Media.frameRate_source_of_ofReport hm, Media.Stream.rate, Option.bind_eq_some_iff,
    ← FrameRate.exists_not_finite_iff, hr, Option.some.injEq]
  constructor
  · rintro ⟨x, ⟨s, hs, t, ht, hx⟩, hnot⟩
    exact ⟨r, s, t, rfl, hs, ht, x, hx, hnot⟩
  · rintro ⟨_, s, t, rfl, hs, ht, x, hx, hnot⟩
    exact ⟨x, ⟨s, hs, t, ht, hx⟩, hnot⟩

/-- A report of a video stream of a rate. -/
def rateReport (rate : String) : String :=
  "\x7b\"streams\":[\x7b\"codec_type\":\"video\",\"r_frame_rate\":\"" ++ rate ++ "\"\x7d]\x7d"

theorem probed_rates_finite_unless_ratio_clip :
    ∃ m, Media.ofReportText "clip.mov" (rateReport "30000/1001") = .ok m ∧
      ((∃ x, m.source.frameRate = some x ∧ x.isFinite = false) ↔
        ∃ r s t, Media.Report.ofText? (rateReport "30000/1001") = some r ∧
          r.streams.find? Media.Stream.isVideo = some s ∧ s.frameRate = some t ∧
          FrameRate.IsUnboundedRatio t.toList) := by
  have hread : ∃ r ∈ Media.Report.ofText? (rateReport "30000/1001"), ¬ r.IsEndless := by
    decide +kernel
  obtain ⟨m, hm⟩ : ∃ m, Media.ofReportText "clip.mov" (rateReport "30000/1001") = .ok m :=
    Media.exists_ofReportText_iff.2 hread
  exact ⟨m, hm, (probed_rates_finite_unless_ratio "30000/1001" _ _).2 m hm⟩

/-- **A quotient that is too great** is taken for a rate, and becomes the rate of a source,
    although no number may be infinite. -/
theorem ofRatio_takes_infinity :
    FrameRate.ofRatio? "inf" = none ∧ FrameRate.ofRatio? "1/nan" = some .nan ∧
    FrameRate.ofRatio? "1e308/1e-308" = some (.infinite false) ∧
    (Media.ofReportText "clip.mov" (rateReport "1e308/1e-308")).toOption.map (·.source) =
      some ⟨none, none, some (.infinite false)⟩ := by
  decide +kernel

end Transcode
