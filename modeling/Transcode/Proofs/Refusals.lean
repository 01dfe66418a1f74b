/-
  Transcode — which requests are refused, and why.

  A request is compiled in three stages, each with a reason of its own to fail: the
  preset is not registered, a rule refuses the profile, or a placeholder of the
  recipe stands for nothing.

  * `Rule.onlyObjects_render`: a rule fails with nothing but an objection;
  * `FlagSet.exists_ofProfile_iff`: the flags are rendered iff no rule refuses;
  * `Recipe.assemble_eq_error_iff`: a recipe fails at its first placeholder that
    stands for nothing;
  * `Encoder.compile_outcome`: the first of these reasons decides.
-/
import Transcode.Proofs.FlagOrder
import Transcode.Proofs.Objections

namespace Transcode

/-! ## Objections -/

/-- A step that fails with nothing but an objection to the profile. -/
def OnlyObjects {α : Type} (x : Except CompileError α) : Prop :=
  ∀ e, x = .error e → e.isObjection = true

theorem ObjectsAbout.onlyObjects {α : Type} {g : FlagGroup} {x : Except CompileError α}
    (h : ObjectsAbout g x) : OnlyObjects x := by
  intro e he
  exact (h e he).isObjection

/-! ## Rules that refuse -/

namespace Rule

variable {r : Rule} {s : Surroundings}

/-- **A rule fails with nothing but an objection** to the profile. -/
theorem onlyObjects_render (hr : r ∈ rules) (v : Value) (s : Surroundings) :
    OnlyObjects (r.render v s) :=
  (objectsAbout_render hr v s).onlyObjects

/-- A rule refuses the value that a profile has for its setting. -/
def Refuses (r : Rule) (s : Surroundings) (e : CompileError) : Prop :=
  ∃ v, s.profile.get? r.setting = some v ∧ r.render v s = .error e

theorem part_eq_error_iff {e : CompileError} : r.part s = .error e ↔ r.Refuses s e := by
  unfold Refuses
  cases hv : s.profile.get? r.setting with
  | none => simp [part_of_none hv]
  | some v => simp [part_of_some hv]

end Rule

/-- Some rule refuses the profile, for a source. -/
def Profile.IsRefused (p : Profile) (source : Source) : Prop :=
  ∃ r ∈ rules, ∃ e, r.Refuses ⟨p, source⟩ e

namespace FlagSet

variable {p : Profile} {source : Source}

theorem gather_eq_error_iff {s : Surroundings} {rs : List Rule} {e : CompileError} :
    gather s rs = .error e ↔ rs.mapM (·.part s) = .error e := by
  induction rs with
  | nil => simp [gather, pure, Except.pure]
  | cons r rs ih =>
    rw [gather, List.mapM_cons]
    simp only [bind_eq_error_iff, pure_ne_error, and_false, exists_false, or_false, ← ih]
    cases r.part s with
    | error e' => simp
    | ok tokens => simp [map_eq_error_iff]

/-- The flags of a profile are refused by a rule, with an objection. -/
theorem refused_of_ofProfile {e : CompileError} (h : ofProfile p source = .error e) :
    e.isObjection = true ∧ ∃ r ∈ rules, r.Refuses ⟨p, source⟩ e := by
  rw [ofProfile_eq_gather, gather_eq_error_iff] at h
  obtain ⟨before, r, after, hrules, -, hr⟩ := mapM_eq_error_iff.1 h
  have hmem : r ∈ rules := by
    rw [hrules]
    exact List.mem_append_right _ List.mem_cons_self
  obtain ⟨v, hv, hrender⟩ := Rule.part_eq_error_iff.1 hr
  exact ⟨Rule.onlyObjects_render hmem v _ e hrender, r, hmem, v, hv, hrender⟩

/-- **The flags of a profile are rendered iff no rule refuses it.** -/
theorem exists_ofProfile_iff :
    (∃ f, ofProfile p source = .ok f) ↔ ¬ p.IsRefused source := by
  constructor
  · rintro ⟨f, hf⟩ ⟨r, hr, e, he⟩
    have hpart := part_of_ofProfile hf hr
    rw [Rule.part_eq_error_iff.2 he] at hpart
    cases hpart
  · intro h
    cases hf : ofProfile p source with
    | ok f => exact ⟨f, rfl⟩
    | error e =>
      obtain ⟨-, r, hr, he⟩ := refused_of_ofProfile hf
      exact absurd ⟨r, hr, e, he⟩ h

theorem isOk_ofProfile_iff : (ofProfile p source).isOk = true ↔ ¬ p.IsRefused source := by
  rw [isOk_iff, exists_ofProfile_iff]

end FlagSet

/-! ## Placeholders that stand for nothing -/

namespace Recipe

/-- The names of the placeholders that stand for something. -/
def known : List String :=
  FlagGroup.all.map FlagGroup.name ++ ["input", "output"]

/-- The name of a placeholder that stands for nothing. -/
def IsForeign (name : String) : Prop :=
  name ≠ "" ∧ name ∉ known

/-- The leftmost placeholder of a template that stands for nothing has a name. -/
def FirstForeign (r : Recipe) (name : String) : Prop :=
  IsForeign name ∧ ∃ before after, r.tokens = before ++ slot name :: after ∧
    ∀ other, IsForeign other → slot other ∉ before

theorem toList_slot (name : String) :
    (slot name).toList = '\x7b' :: (name.toList ++ ['\x7d']) := by
  simp [slot]

theorem slot_injective {name other : String} (h : slot name = slot other) : name = other := by
  rw [← String.toList_inj, toList_slot, toList_slot] at h
  rw [← String.toList_inj]
  exact List.append_cancel_right (List.cons.inj h).2

theorem placeholder?_eq_some_iff {token name : String} :
    placeholder? token = some name ↔ token = slot name ∧ name ≠ "" := by
  constructor
  · intro h
    unfold placeholder? at h
    split at h
    · next r hr =>
      split at h
      · next n hn =>
        split at h
        · cases h
        · next hne =>
          cases h
          rw [List.reverse_eq_iff, List.reverse_cons] at hn
          constructor
          · rw [← String.toList_inj, toList_slot, hr, hn, String.toList_ofList]
          · intro he
            apply hne
            rw [← String.toList_inj, String.toList_ofList] at he
            simpa using he
      · cases h
    · cases h
  · rintro ⟨rfl, hne⟩
    have hempty : name.toList ≠ [] := fun he => hne (String.toList_inj.1 (he.trans rfl))
    unfold placeholder?
    rw [toList_slot]
    simp [hempty]

variable {f : FlagSet} {input output : Path}

theorem fragments_eq_none_iff {name : String} :
    fragments f input output name = none ↔ name ∉ known := by
  unfold fragments known
  by_cases hi : name = "input"
  · simp [hi]
  by_cases ho : name = "output"
  · simp [ho]
  rw [if_neg hi, if_neg ho, Option.map_eq_none_iff, List.find?_eq_none]
  simp [hi, ho]

theorem expandToken_eq_error_iff {token : String} {e : CompileError} :
    expandToken (fragments f input output) token = .error e ↔
      ∃ name, IsForeign name ∧ token = slot name ∧ e = .unknownPlaceholder name := by
  unfold expandToken
  cases ht : placeholder? token with
  | none =>
    dsimp only
    constructor
    · intro h
      cases h
    · rintro ⟨name, ⟨hne, -⟩, rfl, -⟩
      rw [placeholder?_eq_some_iff.2 ⟨rfl, hne⟩] at ht
      cases ht
  | some name =>
    obtain ⟨rfl, hne⟩ := placeholder?_eq_some_iff.1 ht
    dsimp only
    cases hf : fragments f input output name with
    | none =>
      constructor
      · intro h
        cases h
        exact ⟨name, ⟨hne, fragments_eq_none_iff.1 hf⟩, rfl, rfl⟩
      · rintro ⟨other, -, hslot, rfl⟩
        rw [slot_injective hslot]
    | some args =>
      constructor
      · intro h
        cases h
      · rintro ⟨other, ⟨-, hother⟩, hslot, -⟩
        have hnone : fragments f input output other = none := fragments_eq_none_iff.2 hother
        rw [← slot_injective hslot, hf] at hnone
        cases hnone

theorem expandAll_eq (fragment : String → Option (List String)) (ts : List String) :
    expandAll fragment ts = (ts.mapM (expandToken fragment)).map List.flatten := by
  induction ts with
  | nil => rfl
  | cons t ts ih =>
    rw [expandAll, List.mapM_cons]
    cases expandToken fragment t with
    | error e => rfl
    | ok args =>
      dsimp only
      rw [ih]
      cases ts.mapM (expandToken fragment) <;> rfl

/-- **A recipe fails at its first placeholder that stands for nothing.** -/
theorem assemble_eq_error_iff {r : Recipe} {e : CompileError} :
    r.assemble f input output = .error e ↔
      ∃ name, r.FirstForeign name ∧ e = .unknownPlaceholder name := by
  rw [assemble, expand, expandAll_eq, map_eq_error_iff, mapM_eq_error_iff]
  constructor
  · rintro ⟨before, t, after, htokens, hbefore, ht⟩
    obtain ⟨name, hname, rfl, rfl⟩ := expandToken_eq_error_iff.1 ht
    refine ⟨name, ⟨hname, before, after, htokens, ?_⟩, rfl⟩
    intro other hother hmem
    obtain ⟨args, hargs⟩ := hbefore _ hmem
    rw [expandToken_eq_error_iff.2 ⟨other, hother, rfl, rfl⟩] at hargs
    cases hargs
  · rintro ⟨name, ⟨hname, before, after, htokens, hbefore⟩, rfl⟩
    refine ⟨before, slot name, after, htokens, ?_,
      expandToken_eq_error_iff.2 ⟨name, hname, rfl, rfl⟩⟩
    intro t ht
    cases hargs : expandToken (fragments f input output) t with
    | ok args => exact ⟨args, rfl⟩
    | error e =>
      obtain ⟨other, hother, rfl, -⟩ := expandToken_eq_error_iff.1 hargs
      exact absurd ht (hbefore other hother)

theorem not_firstForeign_standard (name : String) : ¬ standard.FirstForeign name := by
  intro h
  have hfail : standard.assemble .empty "" "" = .error (.unknownPlaceholder name) :=
    assemble_eq_error_iff.2 ⟨name, h, rfl⟩
  rw [assemble_standard] at hfail
  cases hfail

end Recipe

/-! ## The outcome of a request -/

theorem Registry.lookup_eq_error_iff {r : Registry} {name : String} {e : CompileError} :
    r.lookup name = .error e ↔ name ∉ r.names ∧ e = .unknownPreset name := by
  unfold lookup names
  rw [NameTable.mem_names_iff]
  cases r.presets.get? name with
  | none => simp [eq_comm]
  | some p => simp

namespace Encoder

variable {e : Encoder} {r : Request} {p : Profile}

/-- The preset of a request is registered, and gives it a profile. -/
def ResolvesTo (e : Encoder) (r : Request) (p : Profile) : Prop :=
  ∃ q, e.registry.presets.get? r.preset = some q ∧ p = Profile.resolve q.settings r.overrides

theorem resolve_eq_ok_iff : e.resolve r.preset r.overrides = .ok p ↔ e.ResolvesTo r p := by
  unfold resolve ResolvesTo
  simp only [map_eq_ok_iff, Registry.lookup_eq_ok_iff, eq_comm (a := p)]

theorem resolve_eq_error_iff {err : CompileError} :
    e.resolve r.preset r.overrides = .error err ↔
      r.preset ∉ e.registry.names ∧ err = .unknownPreset r.preset := by
  rw [resolve, map_eq_error_iff, Registry.lookup_eq_error_iff]

theorem render_eq_error_iff {err : CompileError} :
    e.render p r = .error err ↔
      FlagSet.ofProfile p r.source = .error err ∨
        ¬ p.IsRefused r.source ∧ ∃ name, e.recipe.FirstForeign name ∧
          err = .unknownPlaceholder name := by
  rw [← FlagSet.exists_ofProfile_iff, render, bind_eq_error_iff]
  refine or_congr_right ?_
  simp only [bind_eq_error_iff, Recipe.assemble_eq_error_iff]
  constructor
  · rintro ⟨f, hf, h | ⟨args, -, h⟩⟩
    · exact ⟨⟨f, hf⟩, h⟩
    · cases h
  · rintro ⟨⟨f, hf⟩, h⟩
    exact ⟨f, hf, Or.inl h⟩

theorem compile_eq_error_iff {err : CompileError} :
    e.compile r = .error err ↔
      (r.preset ∉ e.registry.names ∧ err = .unknownPreset r.preset) ∨
        ∃ p, e.ResolvesTo r p ∧ e.render p r = .error err := by
  simp only [compile, bind_eq_error_iff, resolve_eq_error_iff, resolve_eq_ok_iff]

theorem compile_eq_ok_iff {c : Command} :
    e.compile r = .ok c ↔ ∃ p, e.ResolvesTo r p ∧ e.render p r = .ok c := by
  simp only [compile, bind_eq_ok_iff, resolve_eq_ok_iff]

theorem compile_eq_unknownPreset_iff {name : String} :
    e.compile r = .error (.unknownPreset name) ↔
      r.preset ∉ e.registry.names ∧ name = r.preset := by
  rw [compile_eq_error_iff]
  constructor
  · rintro (⟨hr, h⟩ | ⟨p, -, h⟩)
    · cases h
      exact ⟨hr, rfl⟩
    · rcases render_eq_error_iff.1 h with h | ⟨-, other, -, h⟩
      · cases (FlagSet.refused_of_ofProfile h).1
      · cases h
  · rintro ⟨hr, rfl⟩
    exact Or.inl ⟨hr, rfl⟩

theorem exists_objection_iff :
    (∃ err, e.compile r = .error err ∧ err.isObjection = true) ↔
      ∃ p, e.ResolvesTo r p ∧ p.IsRefused r.source := by
  simp only [compile_eq_error_iff]
  constructor
  · rintro ⟨err, ⟨-, rfl⟩ | ⟨p, hp, h⟩, herr⟩
    · cases herr
    · rcases render_eq_error_iff.1 h with h | ⟨-, name, -, rfl⟩
      · obtain ⟨-, rule, hrule, hrefuse⟩ := FlagSet.refused_of_ofProfile h
        exact ⟨p, hp, rule, hrule, err, hrefuse⟩
      · cases herr
  · rintro ⟨p, hp, hrefused⟩
    cases hf : FlagSet.ofProfile p r.source with
    | ok f => exact absurd hrefused (FlagSet.exists_ofProfile_iff.1 ⟨f, hf⟩)
    | error err =>
      exact ⟨err, Or.inr ⟨p, hp, render_eq_error_iff.2 (Or.inl hf)⟩,
        (FlagSet.refused_of_ofProfile hf).1⟩

theorem compile_eq_unknownPlaceholder_iff {name : String} :
    e.compile r = .error (.unknownPlaceholder name) ↔
      ∃ p, e.ResolvesTo r p ∧ ¬ p.IsRefused r.source ∧ e.recipe.FirstForeign name := by
  rw [compile_eq_error_iff]
  constructor
  · rintro (⟨-, h⟩ | ⟨p, hp, h⟩)
    · cases h
    · rcases render_eq_error_iff.1 h with h | ⟨hrefused, other, hother, h⟩
      · cases (FlagSet.refused_of_ofProfile h).1
      · cases h
        exact ⟨p, hp, hrefused, hother⟩
  · rintro ⟨p, hp, hrefused, hname⟩
    exact Or.inr ⟨p, hp, render_eq_error_iff.2 (Or.inr ⟨hrefused, name, hname, rfl⟩)⟩

theorem exists_compile_iff {program : String} :
    (∃ args, e.compile r = .ok ⟨program, args, p⟩) ↔
      program = e.program ∧ e.ResolvesTo r p ∧ ¬ p.IsRefused r.source ∧
        ∀ name, ¬ e.recipe.FirstForeign name := by
  simp only [compile_eq_ok_iff]
  constructor
  · rintro ⟨args, p', hp, h⟩
    have hprofile := profile_of_render h
    obtain ⟨f, hf, h'⟩ := bind_eq_ok_iff.1 h
    obtain ⟨args', hargs, h'⟩ := bind_eq_ok_iff.1 h'
    cases h'
    refine ⟨rfl, hp, FlagSet.exists_ofProfile_iff.1 ⟨f, hf⟩, ?_⟩
    intro name hname
    rw [Recipe.assemble_eq_error_iff.2 ⟨name, hname, rfl⟩] at hargs
    cases hargs
  · rintro ⟨rfl, hp, hrefused, hforeign⟩
    obtain ⟨f, hf⟩ := FlagSet.exists_ofProfile_iff.2 hrefused
    cases hargs : e.recipe.assemble f r.input r.output with
    | error err =>
      obtain ⟨name, hname, -⟩ := Recipe.assemble_eq_error_iff.1 hargs
      exact absurd hname (hforeign name)
    | ok args =>
      refine ⟨args, p, hp, ?_⟩
      exact bind_eq_ok_iff.2 ⟨f, hf, bind_eq_ok_iff.2 ⟨args, hargs, rfl⟩⟩

/-- **The first reason to refuse a request decides what becomes of it**: a preset that
    is not registered, a rule that refuses the profile, a placeholder that stands for
    nothing.  A request that none of them stops is compiled from its profile. -/
theorem compile_outcome (e : Encoder) (r : Request) :
    (∀ name, e.compile r = .error (.unknownPreset name) ↔
      r.preset ∉ e.registry.names ∧ name = r.preset) ∧
    ((∃ err, e.compile r = .error err ∧ err.isObjection = true) ↔
      ∃ p, e.ResolvesTo r p ∧ p.IsRefused r.source) ∧
    (∀ name, e.compile r = .error (.unknownPlaceholder name) ↔
      ∃ p, e.ResolvesTo r p ∧ ¬ p.IsRefused r.source ∧ e.recipe.FirstForeign name) ∧
    (∀ program p, (∃ args, e.compile r = .ok ⟨program, args, p⟩) ↔
      program = e.program ∧ e.ResolvesTo r p ∧ ¬ p.IsRefused r.source ∧
        ∀ name, ¬ e.recipe.FirstForeign name) ∧
    (∀ err, e.compile r = .error err → err = .unknownPreset r.preset ∨
      err.isObjection = true ∨ ∃ name, err = .unknownPlaceholder name) ∧
    (e.recipe = Recipe.standard → ∀ name, e.compile r ≠ .error (.unknownPlaceholder name)) := by
  refine ⟨fun _ => compile_eq_unknownPreset_iff, exists_objection_iff,
    fun _ => compile_eq_unknownPlaceholder_iff, fun _ _ => exists_compile_iff, ?_, ?_⟩
  · intro err h
    rcases compile_eq_error_iff.1 h with ⟨-, rfl⟩ | ⟨p, -, h⟩
    · exact Or.inl rfl
    · rcases render_eq_error_iff.1 h with h | ⟨-, name, -, rfl⟩
      · exact Or.inr (Or.inl (FlagSet.refused_of_ofProfile h).1)
      · exact Or.inr (Or.inr ⟨name, rfl⟩)
  · intro he name h
    obtain ⟨p, -, -, hname⟩ := compile_eq_unknownPlaceholder_iff.1 h
    rw [he] at hname
    exact Recipe.not_firstForeign_standard name hname

/-- A recipe with braces around nothing, and two placeholders that stand for nothing. -/
def captioned : Recipe :=
  ⟨["-i", Recipe.slot "input", Recipe.slot "", Recipe.slot "subtitles", Recipe.slot "chapters",
    Recipe.slot "output"]⟩

/-- A request for a preset with a width of its own. -/
def widthRequest (preset : String) (width : Int64) : Request :=
  ⟨preset, .ofList [(.width, .integer width)], ⟨some 1920, some 1080, none⟩, "in.mov", "out.mp4"⟩

theorem firstForeign_captioned : captioned.FirstForeign "subtitles" := by
  refine ⟨⟨by decide, by decide⟩, ["-i", Recipe.slot "input", Recipe.slot ""],
    [Recipe.slot "chapters", Recipe.slot "output"], rfl, ?_⟩
  rintro other ⟨hne, hknown⟩ hmem
  simp only [List.mem_cons, List.not_mem_nil, or_false] at hmem
  rcases hmem with hmem | hmem | hmem
  · have hfirst := congrArg String.toList hmem
    rw [Recipe.toList_slot] at hfirst
    cases hfirst
  · rw [Recipe.slot_injective hmem] at hknown
    exact hknown (by decide)
  · exact hne (Recipe.slot_injective hmem)

theorem compile_outcome_captioned :
    (Encoder.mk .builtin captioned "ff").compile (widthRequest "w4k" 640) =
        .error (.unknownPreset "w4k") ∧
      (∃ err, (Encoder.mk .builtin captioned "ff").compile (widthRequest "w768" 0) = .error err ∧
        err.isObjection = true) ∧
      (Encoder.mk .builtin captioned "ff").compile (widthRequest "w768" 640) =
        .error (.unknownPlaceholder "subtitles") ∧
      (∃ args p, (Encoder.mk .builtin .standard "ff").compile (widthRequest "w768" 640) =
        .ok ⟨"ff", args, p⟩) ∧
      ∀ name, (Encoder.mk .builtin .standard "ff").compile (widthRequest "w768" 640) ≠
        .error (.unknownPlaceholder name) := by
  obtain ⟨hpreset, -⟩ := compile_outcome ⟨.builtin, captioned, "ff"⟩ (widthRequest "w4k" 640)
  obtain ⟨-, hobjection, -⟩ :=
    compile_outcome ⟨.builtin, captioned, "ff"⟩ (widthRequest "w768" 0)
  obtain ⟨-, -, hplaceholder, -⟩ :=
    compile_outcome ⟨.builtin, captioned, "ff"⟩ (widthRequest "w768" 640)
  obtain ⟨-, -, -, hok, -, hstandard⟩ :=
    compile_outcome ⟨.builtin, .standard, "ff"⟩ (widthRequest "w768" 640)
  have hcheck : ((Registry.builtin.presets.get? "w768").map fun q => [640, 0].map fun width =>
      (FlagSet.ofProfile (Profile.resolve q.settings (widthRequest "w768" width).overrides)
        (widthRequest "w768" width).source).isOk) = some [true, false] := by
    decide +kernel
  obtain ⟨q, hq, hflags⟩ := Option.map_eq_some_iff.1 hcheck
  obtain ⟨hwide, hnone⟩ := List.cons.inj hflags
  have hrefused : ¬ (Profile.resolve q.settings (widthRequest "w768" 640).overrides).IsRefused
      (widthRequest "w768" 640).source := FlagSet.isOk_ofProfile_iff.1 hwide
  have hnarrow : (Profile.resolve q.settings (widthRequest "w768" 0).overrides).IsRefused
      (widthRequest "w768" 0).source := by
    refine Classical.byContradiction fun h => ?_
    have hwide := (List.cons.inj hnone).1.symm.trans (FlagSet.isOk_ofProfile_iff.2 h)
    cases hwide
  refine ⟨(hpreset _).2 ⟨by decide +kernel, rfl⟩, hobjection.2 ⟨_, ⟨q, hq, rfl⟩, hnarrow⟩,
    (hplaceholder _).2 ⟨_, ⟨q, hq, rfl⟩, hrefused, firstForeign_captioned⟩, ?_, hstandard rfl⟩
  obtain ⟨args, hargs⟩ := (hok "ff" _).2 ⟨rfl, ⟨q, hq, rfl⟩, hrefused, fun name =>
    Recipe.not_firstForeign_standard name⟩
  exact ⟨args, _, hargs⟩

end Encoder

end Transcode
