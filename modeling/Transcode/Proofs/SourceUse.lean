/-
  Transcode — what flags take from a source.

  Two rules look at the source: that of the width at its size, where no height is
  given, and that of the frame rate at its rate, where there are several to choose
  from.  A stream that is copied has no use for either.

  * `Flag.dimensions_congr`, `Flag.frameRate_congr`: what each of the two rules
    looks at;
  * `Flag.dimensions_ne_ok`: a size that is needed has to be known;
  * `flags_of_source`: sources that agree on what a profile needs give the same
    flags or the same refusal.
-/
import Transcode.Proofs.PassThrough

namespace Transcode

/-! ## Rates -/

namespace Binary64

theorem signed_zero (negative : Bool) : signed negative 0 = 0 := by
  cases negative <;> rfl

theorem eq_of_signed {s t : Bool} {m n : Nat} (h : signed s m = signed t n) :
    m = n ∧ (s = t ∨ m = 0) := by
  cases s <;> cases t <;> simp [signed] at h ⊢ <;> omega

/-- Equal numbers are the same, unless both are zero. -/
theorem eq_cases {x y : Binary64} (h : x.eq y = true) :
    x = y ∨ ∃ s t, x = zero s ∧ y = zero t := by
  have hapart : ∀ {s t : Bool} {n : Nat}, Fits n → signed s n ≠ signed t (twoTo 2098) := by
    intro s t n hn hkey
    exact Nat.ne_of_lt hn.2 (eq_of_signed hkey).1
  cases x with
  | nan => cases h
  | infinite s =>
    cases y with
    | nan => cases h
    | infinite t =>
      rcases (eq_of_signed (of_decide_eq_true h)).2 with rfl | hzero
      · exact Or.inl rfl
      · exact absurd hzero (Nat.ne_of_gt (twoTo_pos 2098))
    | finite t n hn => exact absurd (of_decide_eq_true h).symm (hapart hn)
  | finite s m hm =>
    cases y with
    | nan => cases h
    | infinite t => exact absurd (of_decide_eq_true h) (hapart hm)
    | finite t n hn =>
      obtain ⟨rfl, rfl | rfl⟩ := eq_of_signed (of_decide_eq_true h)
      · exact Or.inl rfl
      · exact Or.inr ⟨s, t, rfl, rfl⟩

/-- Which zero is taken off shows in the sign at most. -/
theorem abs_sub_zero (x : Binary64) (s t : Bool) : (x.sub (zero s)).abs = (x.sub (zero t)).abs := by
  cases x with
  | nan => rfl
  | infinite r => rfl
  | finite r m hm =>
    simp only [sub, zero, signed_zero]
    split <;> rfl

end Binary64

namespace FrameRate

/-- Rates between which nothing is to choose: the same, or equal numbers. -/
def IsSame (a b : Option Binary64) : Prop :=
  a = b ∨ ∃ x y, a = some x ∧ b = some y ∧ x.eq y = true

theorem fits_congr {x y : Binary64} (h : x.eq y = true) : fits x = fits y := by
  rcases Binary64.eq_cases h with rfl | ⟨s, t, rfl, rfl⟩
  · rfl
  · funext candidate
    rw [fits, fits, Binary64.abs_sub_zero candidate s t]

theorem select_congr {a b : Option Binary64} (h : IsSame a b) (candidates : List Binary64) :
    select candidates a = select candidates b := by
  rcases h with rfl | ⟨x, y, rfl, rfl, hxy⟩
  · rfl
  · rw [select, select, Option.bind_some, Option.bind_some, fits_congr hxy]

end FrameRate

/-! ## Sizes -/

/-- A size is not known if a side is not, or is zero. -/
theorem Source.size_eq_none_iff {s : Source} :
    s.size = none ↔ s.width.getD 0 = 0 ∨ s.height.getD 0 = 0 := by
  unfold size
  cases s.width with
  | none => simp
  | some w =>
    cases s.height with
    | none => simp
    | some h => simp [UInt32.pos_iff_ne_zero, Decidable.imp_iff_not_or]

namespace FrameSize

variable {w m : UInt32} {height : Option UInt32} {source source' : Option FrameSize}

theorem scale_congr (h : height = none → source = source') :
    scale w height source m = scale w height source' m := by
  cases height with
  | none => rw [h rfl]
  | some height =>
    unfold scale
    rfl

/-- No height follows from a source whose size is not known. -/
theorem scale_ne_ok (size : FrameSize) : scale w none none m ≠ .ok size := by
  unfold scale
  split
  · intro h
    cases h
  · dsimp only
    split <;> intro h <;> cases h

end FrameSize

/-! ## The two rules -/

namespace Flag

variable {p : Profile} {source source' : Source}

theorem positive?_of_none {t : Setting} (h : p.get? t = none) : positive? p t = .ok none := by
  rw [positive?, Profile.integer, Profile.view, h]
  rfl

theorem ne_none_of_positive? {t : Setting} {n : Option UInt32} (h : p.get? t ≠ none)
    (hn : positive? p t = .ok n) : n ≠ none := by
  obtain ⟨v, hv⟩ := Option.ne_none_iff_exists'.1 h
  obtain ⟨i, hi, hn⟩ := bind_eq_ok_iff.1 hn
  rw [Profile.integer, Profile.view, hv] at hi
  dsimp only at hi
  split at hi
  · cases hi
    obtain ⟨k, -, hn⟩ := bind_eq_ok_iff.1 hn
    cases hn
    exact Option.some_ne_none k
  · cases hi

/-- **The rule of the width** looks at the size of the source, where no height is
    given. -/
theorem dimensions_congr (h : p.get? .height = none → source.size = source'.size) (v : Value) :
    dimensions v ⟨p, source⟩ = dimensions v ⟨p, source'⟩ := by
  unfold dimensions
  split
  · rfl
  · extract_lets rest rest'
    have hrest : rest = rest' := by
      funext width
      refine bind_congr_of_ok fun height hheight => bind_congr_of_ok fun modulus _ => ?_
      have hsize : height = none → source.size = source'.size := by
        intro hnone
        exact h (Classical.not_not.1 fun hne => ne_none_of_positive? hne hheight hnone)
      dsimp only
      rw [FrameSize.scale_congr hsize]
    rw [hrest]

/-- A size that the height follows from has to be known. -/
theorem dimensions_ne_ok (hp : p.isPassThrough = false) (hheight : p.get? .height = none)
    (hsize : source.size = none) (v : Value) (tokens : List String) :
    dimensions v ⟨p, source⟩ ≠ .ok tokens := by
  intro h
  simp only [dimensions, hp] at h
  rw [if_neg Bool.false_ne_true] at h
  split at h
  · obtain ⟨width, -, h⟩ := bind_eq_ok_iff.1 h
    obtain ⟨height, hnone, h⟩ := bind_eq_ok_iff.1 h
    obtain ⟨modulus, -, h⟩ := bind_eq_ok_iff.1 h
    obtain ⟨size, hscale, -⟩ := bind_eq_ok_iff.1 h
    rw [positive?_of_none hheight] at hnone
    cases hnone
    rw [hsize] at hscale
    exact FrameSize.scale_ne_ok size hscale
  · obtain ⟨_, h, -⟩ := bind_eq_ok_iff.1 h
    cases h

theorem rateOf_congr {v : Value}
    (h : ∀ candidates, v = .list candidates → FrameRate.IsSame source.frameRate source'.frameRate) :
    rateOf v source = rateOf v source' := by
  cases v with
  | list candidates => rw [rateOf, rateOf, FrameRate.select_congr (h candidates rfl)]
  | flag | integer | float | text => rfl

/-- **The rule of the frame rate** looks at the rate of the source, where there are
    several to choose from. -/
theorem frameRate_congr {v : Value}
    (h : ∀ candidates, v = .list candidates → FrameRate.IsSame source.frameRate source'.frameRate) :
    frameRate v ⟨p, source⟩ = frameRate v ⟨p, source'⟩ := by
  unfold frameRate
  dsimp only
  rw [rateOf_congr h]

end Flag

/-! ## All rules -/

namespace Profile

/-- Whether the height of the frame has to be found from the size of the source. -/
def NeedsSize (p : Profile) : Prop :=
  p.isPassThrough = false ∧ p.contains .width = true ∧ p.get? .height = none

/-- Whether the frame rate has to be chosen by the rate of the source. -/
def NeedsRate (p : Profile) : Prop :=
  p.isPassThrough = false ∧ ∃ candidates, p.get? .frameRate = some (.list candidates)

end Profile

section
variable {p : Profile} {source source' : Source}

theorem Rule.part_congr_source {r : Rule} (hr : r ∈ rules)
    (hsize : p.NeedsSize → source.size = source'.size)
    (hrate : p.NeedsRate → FrameRate.IsSame source.frameRate source'.frameRate) :
    r.part ⟨p, source⟩ = r.part ⟨p, source'⟩ := by
  cases hp : p.isPassThrough with
  | true => exact part_congr_of_isPassThrough hr hp hp fun _ _ => rfl
  | false =>
    cases hv : p.get? r.setting with
    | none => rw [part_of_none (s := ⟨p, source⟩) hv, part_of_none (s := ⟨p, source'⟩) hv]
    | some v =>
      rw [part_of_some (s := ⟨p, source⟩) hv, part_of_some (s := ⟨p, source'⟩) hv]
      by_cases ht : r.setting ∈ encoding
      · rcases mem_encoding hr ht with rfl | rfl | rfl | rfl | rfl | rfl
        · exact Flag.dimensions_congr (fun hheight =>
            hsize ⟨hp, Option.isSome_iff_exists.2 ⟨v, hv⟩, hheight⟩) v
        · rfl
        · exact Flag.frameRate_congr fun candidates he => hrate ⟨hp, candidates, he ▸ hv⟩
        · rfl
        · rfl
        · rfl
      · rcases verbatim_or_mem hr ht with ⟨flag, hflag⟩ | rfl | rfl | rfl | rfl
        · rw [render, render, hflag]
        · rfl
        · rfl
        · rfl
        · rfl

theorem FlagSet.ofProfile_congr_source (hsize : p.NeedsSize → source.size = source'.size)
    (hrate : p.NeedsRate → FrameRate.IsSame source.frameRate source'.frameRate) :
    ofProfile p source = ofProfile p source' := by
  rw [ofProfile_eq_gather, ofProfile_eq_gather]
  exact gather_congr fun r hr => Rule.part_congr_source hr hsize hrate

theorem FlagSet.exists_error_of_needsSize (hp : p.NeedsSize) (hsize : source.size = none) :
    ∃ e, ofProfile p source = .error e := by
  obtain ⟨hcopied, hwidth, hheight⟩ := hp
  obtain ⟨v, hv⟩ := Option.isSome_iff_exists.1 hwidth
  let r : Rule := ⟨.width, .video, .computed Flag.dimensions⟩
  cases hf : ofProfile p source with
  | error e => exact ⟨e, rfl⟩
  | ok f =>
    have hpart := part_of_ofProfile hf (r := r) (by simp [rules, r])
    rw [Rule.part_of_some (r := r) (s := ⟨p, source⟩) hv] at hpart
    exact absurd hpart (Flag.dimensions_ne_ok hcopied hheight hsize v _)

end

/-- **A source matters only where it is needed.**  Sources of the same size, if a
    height has to be found, and with the same rate, if one has to be chosen, give a
    profile the same flags, or the same refusal; and where a height has to be found,
    a source of which a side is missing or zero is refused. -/
theorem flags_of_source (p : Profile) (source source' : Source) :
    ((p.NeedsSize → source.size = source'.size) →
      (p.NeedsRate → FrameRate.IsSame source.frameRate source'.frameRate) →
        FlagSet.ofProfile p source = FlagSet.ofProfile p source') ∧
    (p.NeedsSize → source.width.getD 0 = 0 ∨ source.height.getD 0 = 0 →
      ∃ e, FlagSet.ofProfile p source = .error e) := by
  refine ⟨FlagSet.ofProfile_congr_source, ?_⟩
  intro hp hside
  exact FlagSet.exists_error_of_needsSize hp (Source.size_eq_none_iff.2 hside)

/-- Both sides of the frame, and rates to choose from. -/
def sizedChoice : Settings :=
  .ofList [(.width, .integer 640), (.height, .integer 360), (.gopDuration, .integer 1000000),
    (.frameRate, .list [.ofNat 25, .ofFraction false 1 200])]

/-- A width alone. -/
def widthAlone : Settings :=
  .ofList [(.width, .integer 768)]

theorem flags_of_source_sizedChoice :
    (Profile.resolve .empty sizedChoice).NeedsRate ∧
    ¬ (Profile.resolve .empty sizedChoice).NeedsSize ∧
    (∃ f, FlagSet.ofProfile (Profile.resolve .empty sizedChoice)
        ⟨none, none, some (.zero false)⟩ = .ok f ∧
      FlagSet.ofProfile (Profile.resolve .empty sizedChoice)
        ⟨some 1920, some 1080, some (.zero true)⟩ = .ok f) ∧
    (Profile.resolve .empty widthAlone).NeedsSize ∧
    ∃ e, FlagSet.ofProfile (Profile.resolve .empty widthAlone) ⟨some 1920, some 0, none⟩ =
      .error e := by
  have hrate : (Profile.resolve .empty sizedChoice).NeedsRate :=
    ⟨by decide +kernel, [.ofNat 25, .ofFraction false 1 200], by decide +kernel⟩
  have hsize : ¬ (Profile.resolve .empty sizedChoice).NeedsSize := by
    rintro ⟨-, -, hheight⟩
    exact absurd hheight (by decide +kernel)
  have halone : (Profile.resolve .empty widthAlone).NeedsSize :=
    ⟨by decide +kernel, by decide +kernel, by decide +kernel⟩
  have hsame : FrameRate.IsSame (some (.zero false)) (some (.zero true)) :=
    Or.inr ⟨.zero false, .zero true, rfl, rfl, by decide +kernel⟩
  have hok : (FlagSet.ofProfile (Profile.resolve .empty sizedChoice)
      ⟨none, none, some (.zero false)⟩).toOption.isSome = true := by decide +kernel
  obtain ⟨f, hf⟩ := Option.isSome_iff_exists.1 hok
  have hf := toOption_eq_some_iff.1 hf
  obtain ⟨hagree, -⟩ := flags_of_source (Profile.resolve .empty sizedChoice)
    ⟨none, none, some (.zero false)⟩ ⟨some 1920, some 1080, some (.zero true)⟩
  obtain ⟨-, hrefused⟩ := flags_of_source (Profile.resolve .empty widthAlone)
    ⟨some 1920, some 0, none⟩ .unknown
  refine ⟨hrate, hsize, ⟨f, hf, ?_⟩, halone, hrefused halone (Or.inr rfl)⟩
  rw [← hf]
  exact (hagree (fun hneeds => absurd hneeds hsize) fun _ => hsame).symm

end Transcode
