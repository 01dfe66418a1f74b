/-
  Transcode — the presets that are always there, for any source.

  These presets name everything but the height of the frame, which follows from the
  source.  So all that can be wrong with a source is that its size is not known, or
  that it is so narrow and high that the height has more than 32 bits.

  * `Profile.LeavesHeight`: nothing but the height is left to the source;
  * `FlagSet.ofProfile_of_leavesHeight`: such a profile is refused only with the frame;
  * `Registry.leavesHeight_builtin`: the presets that are always there are such;
  * `builtin_compile_for_sources`: so they compile for every source with a height.
-/
import Transcode.Proofs.DerivedHeights
import Transcode.Proofs.Refusals
import Transcode.Proofs.SourceUse

namespace Transcode

/-! ## Rules that no source makes refuse -/

theorem FrameRate.exists_select {xs : List Binary64} (hne : xs ≠ []) (source : Option Binary64) :
    ∃ x ∈ xs, select xs source = some x := by
  unfold select
  cases hfind : source.bind fun s => xs.find? (fits s) with
  | none =>
    obtain ⟨x, xs, rfl⟩ := List.exists_cons_of_ne_nil hne
    exact ⟨x, List.mem_cons_self, rfl⟩
  | some x =>
    obtain ⟨s, -, hx⟩ := Option.bind_eq_some_iff.1 hfind
    exact ⟨x, List.mem_of_find?_eq_some hx, rfl⟩

/-- Of several rates, one is rendered. -/
theorem Flag.exists_frameRate_list {xs : List Binary64} (hne : xs ≠ []) (p : Profile)
    (source : Source) :
    ∃ x ∈ xs, frameRate (.list xs) ⟨p, source⟩ = frameRate (.float x) ⟨p, source⟩ := by
  obtain ⟨x, hx, hselect⟩ := FrameRate.exists_select hne source.frameRate
  have hrate : rateOf (.list xs) source = rateOf (.float x) source := by
    simp only [rateOf, hselect]
    rfl
  refine ⟨x, hx, ?_⟩
  simp only [frameRate, hrate]

namespace Rule

variable {r : Rule} {p : Profile}

/-- All rules but that of the width render a value alike for all sources, unless it
    has rates to choose from. -/
theorem render_congr_source (hr : r ∈ rules) (hwidth : r.setting ≠ .width) {v : Value}
    (hv : ∀ xs, v ≠ .list xs) (source source' : Source) :
    r.render v ⟨p, source⟩ = r.render v ⟨p, source'⟩ := by
  by_cases ht : r.setting ∈ encoding
  · rcases mem_encoding hr ht with rfl | rfl | rfl | rfl | rfl | rfl
    · exact absurd rfl hwidth
    · rfl
    · exact Flag.frameRate_congr fun xs h => absurd h (hv xs)
    · rfl
    · rfl
    · rfl
  · rcases verbatim_or_mem hr ht with ⟨flag, hflag⟩ | rfl | rfl | rfl | rfl
    · rw [render, render, hflag]
    · rfl
    · rfl
    · rfl
    · rfl

/-- The values that a value may come down to: of several rates, any one. -/
def choices : Value → List Value
  | .list xs => xs.map .float
  | v => [v]

/-- Whether a rule renders whatever the value of its setting may come down to; only
    the rule of the frame rate has several to choose from. -/
def isSure (r : Rule) (p : Profile) : Bool :=
  match p.get? r.setting with
  | none => true
  | some v => choices v ≠ [] && (choices v).all (fun c => (r.render c ⟨p, .unknown⟩).isOk) &&
    (r.setting = .frameRate || !v matches .list _)

theorem exists_part_of_isSure (hr : r ∈ rules) (hwidth : r.setting ≠ .width)
    (hsure : r.isSure p = true) (source : Source) :
    ∃ tokens, r.part ⟨p, source⟩ = .ok tokens := by
  unfold isSure at hsure
  cases hv : p.get? r.setting with
  | none => exact ⟨[], part_of_none hv⟩
  | some v =>
    rw [part_of_some (s := ⟨p, source⟩) hv]
    simp only [hv, Bool.and_eq_true, List.all_eq_true, decide_eq_true_eq] at hsure
    obtain ⟨⟨hne, hall⟩, hlist⟩ := hsure
    have hone : ∀ c ∈ choices v, (∀ xs, c ≠ .list xs) →
        ∃ tokens, r.render c ⟨p, source⟩ = .ok tokens := by
      intro c hc hscalar
      rw [render_congr_source hr hwidth hscalar source .unknown]
      exact isOk_iff.1 (hall c hc)
    cases v with
    | list xs =>
      have hrate : r.setting = .frameRate := by simpa using hlist
      obtain rfl : r = ⟨.frameRate, .video, .computed Flag.frameRate⟩ := by
        have hmem : r ∈ rules.filter (·.setting = .frameRate) :=
          List.mem_filter.2 ⟨hr, decide_eq_true hrate⟩
        simpa [rules] using hmem
      have hxs : xs ≠ [] := by simpa [choices] using hne
      obtain ⟨x, hx, hrender⟩ := Flag.exists_frameRate_list hxs p source
      obtain ⟨tokens, htokens⟩ := hone (.float x) (List.mem_map_of_mem hx) (by simp)
      exact ⟨tokens, hrender.trans htokens⟩
    | flag b => exact hone _ List.mem_cons_self (by simp)
    | integer n => exact hone _ List.mem_cons_self (by simp)
    | float x => exact hone _ List.mem_cons_self (by simp)
    | text s => exact hone _ List.mem_cons_self (by simp)

end Rule

/-! ## Profiles that leave the height open -/

namespace Profile

/-- The width that a profile asks for, and the modulus of the sides. -/
def frame? (p : Profile) : Option (UInt32 × UInt32) :=
  match (Flag.positive? p .width).toOption, (Flag.positive? p .dimensionsModulus).toOption with
  | some (some width), some modulus => some (width, modulus.getD FrameSize.standardModulus)
  | _, _ => none

/-- Nothing but the height of the frame is left to the source. -/
structure LeavesHeight (p : Profile) : Prop where
  encodes : p.isPassThrough = false
  height : p.get? .height = none
  shape : p.get? .aspectRatio = none
  sure : ∀ r ∈ rules, r.setting ≠ .width → r.isSure p = true

instance (p : Profile) : Decidable p.LeavesHeight :=
  decidable_of_iff (p.isPassThrough = false ∧ p.get? .height = none ∧
      p.get? .aspectRatio = none ∧ ∀ r ∈ rules, r.setting ≠ .width → r.isSure p = true)
    ⟨fun ⟨h₁, h₂, h₃, h₄⟩ => ⟨h₁, h₂, h₃, h₄⟩, fun ⟨h₁, h₂, h₃, h₄⟩ => ⟨h₁, h₂, h₃, h₄⟩⟩

end Profile

theorem Flag.integer_of_positive? {p : Profile} {t : Setting} {v : Value} {n : UInt32}
    (hv : p.get? t = some v) (h : positive? p t = .ok (some n)) :
    ∃ i, v.asInteger = some i ∧ positive t i = .ok n := by
  obtain ⟨given, hgiven, h⟩ := bind_eq_ok_iff.1 h
  rw [Profile.integer, Profile.view, hv] at hgiven
  cases hi : v.asInteger with
  | none => simp [hi] at hgiven
  | some i =>
    simp only [hi] at hgiven
    cases hgiven
    obtain ⟨m, hm, h⟩ := bind_eq_ok_iff.1 h
    cases h
    exact ⟨i, rfl, hm⟩

section
variable {p : Profile} {width modulus : UInt32} {source : Source}

theorem Profile.frame?_eq_some (h : p.frame? = some (width, modulus)) :
    Flag.positive? p .width = .ok (some width) ∧
      ∃ m, Flag.positive? p .dimensionsModulus = .ok m ∧
        modulus = m.getD FrameSize.standardModulus := by
  unfold frame? at h
  split at h
  · next w m hw hm =>
    obtain ⟨rfl, rfl⟩ := Prod.mk.inj (Option.some.inj h)
    exact ⟨toOption_eq_some_iff.1 hw, m, toOption_eq_some_iff.1 hm, rfl⟩
  · cases h

/-- The rule of the width scales the frame, and writes its size and shape. -/
theorem Flag.dimensions_eq {v : Value} (hp : p.LeavesHeight) (hv : p.get? .width = some v)
    (hframe : p.frame? = some (width, modulus)) :
    dimensions v ⟨p, source⟩ = (FrameSize.scale width none source.size modulus).map
      fun size => ["-s", size.plain, "-aspect", size.aspectRatio] := by
  obtain ⟨hwidth, m, hm, rfl⟩ := Profile.frame?_eq_some hframe
  obtain ⟨i, hi, hpositive⟩ := integer_of_positive? hv hwidth
  have hshape : p.text .aspectRatio = .ok none := by
    rw [Profile.text, Profile.view, hp.shape]
  simp only [dimensions, hp.encodes, hi, hpositive, positive?_of_none hp.height, hm, hshape]
  rw [if_neg Bool.false_ne_true]
  show FrameSize.scale width none source.size (m.getD FrameSize.standardModulus) >>= _ = _
  cases FrameSize.scale width none source.size (m.getD FrameSize.standardModulus) with
  | error e => rfl
  | ok size => rfl

namespace FlagSet

/-- **A profile that leaves the height open** is refused only with its frame. -/
theorem ofProfile_of_leavesHeight (hp : p.LeavesHeight)
    (hframe : p.frame? = some (width, modulus)) (source : Source) :
    (∀ size, FrameSize.scale width none source.size modulus = .ok size →
      ∃ f, ofProfile p source = .ok f) ∧
    ∀ e, FrameSize.scale width none source.size modulus = .error e →
      ofProfile p source = .error e := by
  obtain ⟨v, hv⟩ : ∃ v, p.get? .width = some v := by
    refine Option.ne_none_iff_exists'.1 ?_
    intro hnone
    obtain ⟨hwidth, -⟩ := Profile.frame?_eq_some hframe
    rw [Flag.positive?_of_none hnone] at hwidth
    cases hwidth
  -- Whatever refuses the profile is the rule of the width, with the error of the frame.
  have hrefuses : ∀ r ∈ rules, ∀ e, r.Refuses ⟨p, source⟩ e →
      FrameSize.scale width none source.size modulus = .error e := by
    intro r hr e he
    rw [← Rule.part_eq_error_iff] at he
    by_cases ht : r.setting = .width
    · have hmem : r ∈ rules.filter (·.setting = .width) :=
        List.mem_filter.2 ⟨hr, decide_eq_true ht⟩
      obtain rfl : r = ⟨.width, .video, .computed Flag.dimensions⟩ := by
        simpa [rules] using hmem
      rw [Rule.part_of_some (s := ⟨p, source⟩) hv] at he
      exact map_eq_error_iff.1 ((Flag.dimensions_eq hp hv hframe).symm.trans he)
    · obtain ⟨tokens, htokens⟩ := Rule.exists_part_of_isSure hr ht (hp.sure r hr ht) source
      rw [htokens] at he
      cases he
  constructor
  · intro size hsize
    refine exists_ofProfile_iff.2 ?_
    rintro ⟨r, hr, e, he⟩
    rw [hrefuses r hr e he] at hsize
    cases hsize
  · intro e he
    cases hf : ofProfile p source with
    | ok f =>
      have hwidth : (⟨.width, .video, .computed Flag.dimensions⟩ : Rule) ∈ rules := by simp [rules]
      have hpart := part_of_ofProfile hf hwidth
      rw [Rule.part_of_some (s := ⟨p, source⟩) hv] at hpart
      have hscaled := (Flag.dimensions_eq hp hv hframe).symm.trans hpart
      rw [he] at hscaled
      cases hscaled
    | error e' =>
      obtain ⟨-, r, hr, he'⟩ := refused_of_ofProfile hf
      rw [hrefuses r hr e' he'] at he
      cases he
      rfl

end FlagSet

end

/-! ## The presets that are always there -/

namespace Registry

/-- Whether a frame is a small one, of whole steps of the modulus. -/
def isSmall (frame : UInt32 × UInt32) : Bool :=
  0 < frame.1 && 0 < frame.2 && frame.1 % frame.2 = 0 && frame.1 ≤ 1920

theorem leavesHeight_builtin_all : ∀ q ∈ builtin.toList,
    (Profile.resolve q.settings .empty).LeavesHeight ∧
      ((Profile.resolve q.settings .empty).frame?.map isSmall) = some true := by
  decide +kernel

/-- The presets that are always there leave nothing but the height to the source. -/
theorem leavesHeight_builtin {name : String} {q : Preset} (hq : builtin.lookup name = .ok q) :
    (Profile.resolve q.settings .empty).LeavesHeight ∧
      ∃ width modulus, (Profile.resolve q.settings .empty).frame? = some (width, modulus) ∧
        0 < width.toNat ∧ 0 < modulus.toNat ∧ modulus.toNat ∣ width.toNat ∧
        width.toNat ≤ 1920 := by
  have hentry : (name, q) ∈ builtin.presets.entries :=
    (NameTable.find_eq_some_iff builtin.presets.ordered).1 (lookup_eq_ok_iff.1 hq)
  obtain ⟨hopen, hframe⟩ := leavesHeight_builtin_all q (List.mem_map_of_mem hentry)
  obtain ⟨⟨width, modulus⟩, hsome, hsmall⟩ := Option.map_eq_some_iff.1 hframe
  simp only [isSmall, Bool.and_eq_true, decide_eq_true_eq, UInt32.lt_iff_toNat_lt,
    UInt32.le_iff_toNat_le, ← UInt32.toNat_inj, UInt32.toNat_mod] at hsmall
  obtain ⟨⟨⟨hwidth, hmodulus⟩, hmod⟩, hle⟩ := hsmall
  exact ⟨hopen, width, modulus, hsome, hwidth, hmodulus, Nat.dvd_of_mod_eq_zero hmod, hle⟩

end Registry

/-- With the usual recipe, a request fails as its flags do. -/
theorem Encoder.compile_of_ofProfile {e : Encoder} {r : Request} {q : Preset}
    (he : e.recipe = Recipe.standard) (hq : e.registry.lookup r.preset = .ok q) :
    (∀ f, FlagSet.ofProfile (Profile.resolve q.settings r.overrides) r.source = .ok f →
      ∃ c, e.compile r = .ok c) ∧
    ∀ err, FlagSet.ofProfile (Profile.resolve q.settings r.overrides) r.source = .error err →
      e.compile r = .error err := by
  rw [compile_eq_render hq]
  constructor
  · intro f hf
    exact ⟨_, bind_eq_ok_iff.2 ⟨f, hf, bind_eq_ok_iff.2
      ⟨_, he ▸ Recipe.assemble_standard f r.input r.output, rfl⟩⟩⟩
  · intro err herr
    exact render_eq_error_iff.2 (Or.inl herr)

theorem Source.size_eq_some {source : Source} {w h : UInt32} (hw : source.width = some w)
    (hh : source.height = some h) (hwpos : 0 < w) (hhpos : 0 < h) : source.size = some ⟨w, h⟩ := by
  rw [size, hw, hh]
  exact if_pos ⟨hwpos, hhpos⟩

namespace FrameSize

variable {source : FrameSize} {width modulus : UInt32}

theorem product_le (hsmall : width.toNat ≤ 1920) (source : FrameSize) :
    width.toNat * source.height.toNat ≤ twoTo 53 :=
  calc width.toNat * source.height.toNat ≤ 1920 * twoTo 32 :=
        Nat.mul_le_mul hsmall (toNat_lt_twoTo source.height).le
    _ ≤ twoTo 53 := by decide

/-- A source that is at most two million times as high as wide gives a small frame a
    height. -/
theorem exists_scale_of_flat (hm : 0 < modulus.toNat) (hw : 0 < width.toNat)
    (hdvd : modulus.toNat ∣ width.toNat) (hsource : 0 < source.width.toNat)
    (hsmall : width.toNat ≤ 1920) (hflat : source.height.toNat ≤ 2000000 * source.width.toNat) :
    ∃ size, scale width none (some source) modulus = .ok size := by
  obtain ⟨k, hk⟩ := id hdvd
  have hpos : 0 < k := by
    rcases Nat.eq_zero_or_pos k with rfl | hpos
    · rw [Nat.mul_zero] at hk
      exact absurd hk hw.ne'
    · exact hpos
  -- Two million widths are a whole number of steps, as one is.
  have hsteps : k * 2000000 * modulus.toNat = 2000000 * width.toNat := by
    rw [hk]
    ring
  have hsome : 0 < k * 2000000 := Nat.mul_pos hpos (by decide)
  refine exists_scale hm hw hdvd hsource (product_le hsmall source) hsome ?_ ?_
  · calc k * 2000000 * modulus.toNat = 2000000 * width.toNat := hsteps
      _ ≤ 2000000 * 1920 := Nat.mul_le_mul_left _ hsmall
      _ < twoTo 32 := by decide
  · calc width.toNat * source.height.toNat ≤ width.toNat * (2000000 * source.width.toNat) :=
          Nat.mul_le_mul_left _ hflat
      _ = k * 2000000 * modulus.toNat * source.width.toNat := by
          rw [hsteps]
          ring

theorem scale_of_unknown (hm : 0 < modulus.toNat) (hw : 0 < width.toNat)
    (hdvd : modulus.toNat ∣ width.toNat) :
    scale width none none modulus = .error (.setting .width .unknownSourceSize) := by
  unfold scale
  rw [roundDown_of_dvd hm hdvd]
  exact if_neg (ne_zero_of_toNat_pos hw)

end FrameSize

/-- **The presets that are always there compile for every source with a height.**  For a
    source of a known size, whatever its rate, the only thing that can be wrong is that
    the height it gives has more than 32 bits, which takes a source more than two
    million times as high as wide.  A source whose size is not known gives none. -/
theorem builtin_compile_for_sources {r : Request}
    (hname : Registry.builtin.contains r.preset = true) (hnone : r.overrides = .empty) :
    (∀ w h, r.source.width = some w → r.source.height = some h → 0 < w → 0 < h →
      ((∃ c, (Encoder.ofRegistry .builtin).compile r = .ok c) ∨
        ∃ p width modulus, (Encoder.ofRegistry .builtin).resolve r.preset .empty = .ok p ∧
          p.frame? = some (width, modulus) ∧ FrameSize.IsTooHigh ⟨w, h⟩ width modulus ∧
          (Encoder.ofRegistry .builtin).compile r =
            .error (.setting .height (.derivedHeight ⟨w, h⟩ width))) ∧
      (h.toNat ≤ 2000000 * w.toNat → ∃ c, (Encoder.ofRegistry .builtin).compile r = .ok c)) ∧
    (r.source.width.getD 0 = 0 ∨ r.source.height.getD 0 = 0 →
      (Encoder.ofRegistry .builtin).compile r = .error (.setting .width .unknownSourceSize)) := by
  obtain ⟨q, hq⟩ := Registry.lookup_of_contains hname
  obtain ⟨hopen, width, modulus, hframe, hwidth, hmodulus, hdvd, hsmall⟩ :=
    Registry.leavesHeight_builtin hq
  have hcompile := Encoder.compile_of_ofProfile (e := .ofRegistry .builtin) rfl hq
  rw [hnone] at hcompile
  obtain ⟨hok, herror⟩ := hcompile
  obtain ⟨hscaled, hrefused⟩ := FlagSet.ofProfile_of_leavesHeight hopen hframe r.source
  constructor
  · intro w h hw hh hwpos hhpos
    rw [Source.size_eq_some hw hh hwpos hhpos] at hscaled hrefused
    have hsource : 0 < (FrameSize.mk w h).width.toNat := UInt32.lt_iff_toNat_lt.1 hwpos
    constructor
    · rcases FrameSize.scale_of_source hmodulus hwidth hdvd hsource
        (FrameSize.product_le hsmall ⟨w, h⟩) with ⟨size, hsize⟩ | ⟨herr, hhigh⟩
      · left
        obtain ⟨f, hf⟩ := hscaled size hsize
        exact hok f hf
      · right
        refine ⟨_, width, modulus, ?_, hframe, hhigh, herror _ (hrefused _ herr)⟩
        exact map_eq_ok_iff.2 ⟨q, hq, rfl⟩
    · intro hflat
      obtain ⟨size, hsize⟩ :=
        FrameSize.exists_scale_of_flat hmodulus hwidth hdvd hsource hsmall hflat
      obtain ⟨f, hf⟩ := hscaled size hsize
      exact hok f hf
  · intro hunknown
    rw [Source.size_eq_none_iff.2 hunknown] at hrefused
    exact herror _ (hrefused _ (FrameSize.scale_of_unknown hmodulus hwidth hdvd))

/-- The smallest preset, for a source. -/
def smallest (source : Source) : Request :=
  ⟨"p192", .empty, source, "/in/clip.mov", "/out/clip.mp4"⟩

theorem builtin_compile_for_sources_smallest :
    (∃ c, (Encoder.ofRegistry .builtin).compile (smallest ⟨some 1920, some 1080, some .nan⟩) =
      .ok c) ∧
    (Encoder.ofRegistry .builtin).compile (smallest ⟨some 1, some 4294967295, none⟩) =
      .error (.setting .height (.derivedHeight ⟨1, 4294967295⟩ 192)) ∧
    (Encoder.ofRegistry .builtin).compile (smallest ⟨some 1920, none, some (.zero true)⟩) =
      .error (.setting .width .unknownSourceSize) := by
  have hname (source : Source) : Registry.builtin.contains (smallest source).preset = true := by
    show Registry.builtin.contains "p192" = true
    decide +kernel
  obtain ⟨hwide, -⟩ :=
    builtin_compile_for_sources (hname ⟨some 1920, some 1080, some .nan⟩) rfl
  obtain ⟨hhigh, -⟩ := builtin_compile_for_sources (hname ⟨some 1, some 4294967295, none⟩) rfl
  obtain ⟨-, hunknown⟩ :=
    builtin_compile_for_sources (hname ⟨some 1920, none, some (.zero true)⟩) rfl
  refine ⟨(hwide 1920 1080 rfl rfl (by decide) (by decide)).2 (by decide), ?_,
    hunknown (Or.inr rfl)⟩
  have hfails : ((Encoder.ofRegistry .builtin).compile
      (smallest ⟨some 1, some 4294967295, none⟩)).isOk = false := by decide +kernel
  rcases (hhigh 1 4294967295 rfl rfl (by decide) (by decide)).1 with
    ⟨c, hc⟩ | ⟨p, width, modulus, hp, hframe, -, herror⟩
  · rw [hc] at hfails
    cases hfails
  · have hp : (Encoder.ofRegistry .builtin).resolve "p192" .empty = .ok p := hp
    have hwidth : (((Encoder.ofRegistry .builtin).resolve "p192" .empty).toOption.bind
        Profile.frame?).map Prod.fst = some 192 := by decide +kernel
    rw [toOption_eq_some_iff.2 hp, Option.bind_some, hframe] at hwidth
    obtain rfl : width = 192 := Option.some.inj hwidth
    exact herror

end Transcode
