/-
  Transcode — groups that keep to themselves.

  Every setting belongs to one group of flags.  The defaults of a group follow from the
  settings of that group, its rules look at no others, and what they refuse is one of
  them.  So overrides that differ within one group cannot be told apart in another.

  * `Profile.resolve_congr`: a setting is filled from the settings of its own group;
  * `Rule.render_only`, `Rule.part_congr_of_group`: so is what a rule writes;
  * `FlagSet.isAbout_of_ofProfile`: where one of two profiles is refused, the refusal is
    about the group in which they differ;
  * `groups_isolated`: all of this for two sets of overrides, and for requests.
-/
import Transcode.Proofs.Refusals

namespace Transcode

/-- Settings that are the same outside one group. -/
def Settings.SameOutside (g : FlagGroup) (a b : Settings) : Prop :=
  ∀ t, t.group ≠ g → a.get? t = b.get? t

/-- Of two steps one fails, with this error, and the other does not. -/
def OneFails {α : Type} (x y : Except CompileError α) (e : CompileError) : Prop :=
  (∃ a, x = .ok a) ∧ y = .error e ∨ x = .error e ∧ ∃ a, y = .ok a

theorem Settings.SameOutside.symm {g : FlagGroup} {a b : Settings} (h : SameOutside g a b) :
    SameOutside g b a := by
  intro t ht
  exact (h t ht).symm

/-! ## Defaults -/

namespace Layers

variable {l l' : Layers} {t : Setting}

/-- The defaults of the video stream follow from its codec and its video profile; the
    others are always the same. -/
theorem default_congr
    (h : t.group = .video → l.given .videoCodec = l'.given .videoCodec ∧
      l.given .videoProfile = l'.given .videoProfile) : l.default t = l'.default t := by
  by_cases ht : t.group = .video
  · obtain ⟨hcodec, hprofile⟩ := h ht
    have hcopies : l.copies = l'.copies := by rw [copies, copies, hcodec]
    unfold default
    rw [hcopies, hprofile]
  · cases t with
    | videoCodec | audioCodec | threads => rfl
    | _ => simp_all [default, encodedDefault, Setting.group]

theorem value_congr (h : ∀ t', t'.group = t.group → l.given t' = l'.given t') :
    l.value t = l'.value t := by
  have hdefault : l.default t = l'.default t :=
    default_congr fun ht => ⟨h .videoCodec ht.symm, h .videoProfile ht.symm⟩
  rw [value, value, h t rfl, hdefault]

end Layers

namespace Profile

/-- **A setting is filled from the settings of its own group.** -/
theorem resolve_congr {a b : Settings} {t : Setting}
    (h : ∀ t', t'.group = t.group → a.get? t' = b.get? t') (preset : Settings) :
    (resolve preset a).get? t = (resolve preset b).get? t := by
  rw [resolve_eq_layers, resolve_eq_layers]
  have hgiven : ∀ t', t'.group = t.group →
      (Layers.mk [] a preset).given t' = (Layers.mk [] b preset).given t' := by
    intro t' ht'
    simp only [Layers.given, Layers.assigned, h t' ht']
  exact Layers.value_congr hgiven

/-- The settings of one group alone. -/
def only (p : Profile) (g : FlagGroup) : Profile :=
  ⟨⟨fun t => if t.group = g then p.get? t else none⟩⟩

variable {p p' : Profile} {g : FlagGroup}

theorem get?_only_of_group {t : Setting} (ht : t.group = g) : (p.only g).get? t = p.get? t :=
  if_pos ht

theorem only_congr (h : ∀ t, t.group = g → p.get? t = p'.get? t) : p.only g = p'.only g := by
  ext1
  ext1
  funext t
  by_cases ht : t.group = g
  · exact (get?_only_of_group ht).trans ((h t ht).trans (get?_only_of_group ht).symm)
  · exact (if_neg ht).trans (if_neg ht).symm

end Profile

/-! ## Rules -/

namespace Rule

variable {r : Rule} {s s' : Surroundings}

/-- A rule does not see the settings of another group. -/
theorem render_only (hr : r ∈ rules) (v : Value) (s : Surroundings) :
    r.render v s = r.render v ⟨s.profile.only r.group, s.source⟩ := by
  by_cases ht : r.setting ∈ encoding
  · rcases mem_encoding hr ht with rfl | rfl | rfl | rfl | rfl | rfl
    · rfl
    · rfl
    · rfl
    · rfl
    · rfl
    · rfl
  · rcases verbatim_or_mem hr ht with ⟨flag, hflag⟩ | rfl | rfl | rfl | rfl
    · rw [render, render, hflag]
    · rfl
    · rfl
    · rfl
    · rfl

theorem part_only (hr : r ∈ rules) (s : Surroundings) :
    r.part s = r.part ⟨s.profile.only r.group, s.source⟩ := by
  have hvalue : (s.profile.only r.group).get? r.setting = s.profile.get? r.setting :=
    Profile.get?_only_of_group (group_eq hr).symm
  cases hv : s.profile.get? r.setting with
  | none =>
    rw [part_of_none hv]
    exact (part_of_none (hvalue.trans hv)).symm
  | some v =>
    rw [part_of_some hv, render_only hr]
    exact (part_of_some (hvalue.trans hv)).symm

/-- **What a rule writes follows from the settings of its group**, and the source. -/
theorem part_congr_of_group {p p' : Profile} (hr : r ∈ rules)
    (h : ∀ t, t.group = r.group → p.get? t = p'.get? t) (source : Source) :
    r.part ⟨p, source⟩ = r.part ⟨p', source⟩ := by
  rw [part_only hr ⟨p, source⟩, part_only hr ⟨p', source⟩]
  dsimp only
  rw [Profile.only_congr h]

end Rule

/-! ## Flags -/

namespace FlagSet

variable {p p' : Profile} {g : FlagGroup} {source : Source} {f f' : FlagSet}

theorem group_congr (hp : ofProfile p source = .ok f) (hp' : ofProfile p' source = .ok f')
    (h : ∀ t, t.group = g → p.get? t = p'.get? t) : f.group g = f'.group g := by
  rw [group_of_ofProfile hp, group_of_ofProfile hp']
  refine List.flatMap_congr fun r hr => ?_
  obtain ⟨hr, hg⟩ := List.mem_filter.1 hr
  have hg : r.group = g := of_decide_eq_true hg
  rw [Rule.tokens, Rule.tokens, Rule.part_congr_of_group hr (hg ▸ h)]

/-- **A refusal is about what differs**: of two profiles that differ within one group,
    only an objection about that group refuses one and not the other. -/
theorem isAbout_of_ofProfile {e : CompileError}
    (h : Settings.SameOutside g p.settings p'.settings) (hp : ofProfile p source = .ok f)
    (hp' : ofProfile p' source = .error e) : e.IsAbout g := by
  obtain ⟨-, r, hr, hrefuses⟩ := refused_of_ofProfile hp'
  have hg : r.group = g := by
    refine Classical.byContradiction fun hne => ?_
    -- A rule of another group says the same of both profiles.
    have hpart : r.part ⟨p, source⟩ = r.part ⟨p', source⟩ :=
      Rule.part_congr_of_group hr (fun t ht => h t (ht.symm ▸ hne)) source
    rw [part_of_ofProfile hp hr, Rule.part_eq_error_iff.2 hrefuses] at hpart
    cases hpart
  obtain ⟨v, -, hrender⟩ := hrefuses
  exact hg ▸ Rule.objectsAbout_render hr v _ e hrender

end FlagSet

/-! ## Requests -/

namespace Profile

/-- Overrides that differ within one group give profiles that do. -/
theorem sameOutside_resolve {g : FlagGroup} {a b : Settings} (h : Settings.SameOutside g a b)
    (preset : Settings) :
    Settings.SameOutside g (resolve preset a).settings (resolve preset b).settings := by
  intro t ht
  exact resolve_congr (fun t' ht' => h t' (ht'.symm ▸ ht)) preset

end Profile

/-- So it is for requests: what refuses one of them refuses its flags, as both ask for
    one preset and one recipe. -/
theorem Encoder.isAbout_of_compile {e : Encoder} {r r' : Request} {g : FlagGroup} {c : Command}
    {err : CompileError} (hpreset : r.preset = r'.preset) (hsource : r.source = r'.source)
    (h : Settings.SameOutside g r.overrides r'.overrides) (hr : e.compile r = .ok c)
    (hr' : e.compile r' = .error err) : err.IsAbout g := by
  obtain ⟨-, ⟨q, hq, hprofile⟩, hrefused, hforeign⟩ :=
    (exists_compile_iff (p := c.profile)).1 ⟨c.args, hr⟩
  rcases compile_eq_error_iff.1 hr' with ⟨hname, -⟩ | ⟨p', ⟨q', hq', rfl⟩, hrender⟩
  · have hresolve : e.resolve r.preset r.overrides = .error (.unknownPreset r.preset) :=
      resolve_eq_error_iff.2 ⟨hpreset ▸ hname, rfl⟩
    rw [resolve_eq_ok_iff.2 ⟨q, hq, hprofile⟩] at hresolve
    cases hresolve
  · rcases render_eq_error_iff.1 hrender with hflags | ⟨-, name, hname, -⟩
    · rw [hpreset] at hq
      cases hq.symm.trans hq'
      rw [hprofile, hsource] at hrefused
      obtain ⟨f, hf⟩ := FlagSet.exists_ofProfile_iff.2 hrefused
      exact FlagSet.isAbout_of_ofProfile (Profile.sameOutside_resolve h q.settings) hf hflags
    · exact absurd hname (hforeign name)

/-- **Groups are isolated.**  Overrides that differ within one group leave the settings
    of the others as they are in the profile, and the arguments of the others where both
    profiles are rendered; and where one is refused and the other is not, with whatever
    encoder, the refusal is about a setting of that group or the codec of its medium. -/
theorem groups_isolated {g : FlagGroup} {a b : Settings} (h : Settings.SameOutside g a b)
    (preset : Settings) (source : Source) :
    (∀ t, t.group ≠ g →
      (Profile.resolve preset a).get? t = (Profile.resolve preset b).get? t) ∧
    (∀ f f', FlagSet.ofProfile (Profile.resolve preset a) source = .ok f →
      FlagSet.ofProfile (Profile.resolve preset b) source = .ok f' →
        ∀ g', g' ≠ g → f.group g' = f'.group g') ∧
    (∀ err, OneFails (FlagSet.ofProfile (Profile.resolve preset a) source)
      (FlagSet.ofProfile (Profile.resolve preset b) source) err → err.IsAbout g) ∧
    ∀ (e : Encoder) (r r' : Request) err, r.preset = r'.preset → r.source = r'.source →
      r.overrides = a → r'.overrides = b →
        OneFails (e.compile r) (e.compile r') err → err.IsAbout g := by
  have hprofiles := Profile.sameOutside_resolve h preset
  refine ⟨hprofiles, ?_, ?_, ?_⟩
  · intro f f' hf hf' g' hg'
    exact FlagSet.group_congr hf hf' fun t ht => hprofiles t (ht.symm ▸ hg')
  · rintro err (⟨⟨f, hf⟩, herr⟩ | ⟨herr, f, hf⟩)
    · exact FlagSet.isAbout_of_ofProfile hprofiles hf herr
    · exact FlagSet.isAbout_of_ofProfile hprofiles.symm hf herr
  · rintro e r r' err hpreset hsource rfl rfl (⟨⟨c, hc⟩, herr⟩ | ⟨herr, c, hc⟩)
    · exact Encoder.isAbout_of_compile hpreset hsource h hc herr
    · exact Encoder.isAbout_of_compile hpreset.symm hsource.symm h.symm hc herr

/-- A preset of sound, with a width that a copy has no use for. -/
def speech : Settings :=
  .ofList [(.audioBitRate, .integer 64000), (.width, .integer 640), (.height, .integer 360)]

/-- A copy of the video stream. -/
def copying : Settings :=
  .ofList [(.threads, .integer 2), (.videoCodec, .text "copy")]

/-- The copy with a filter, which no copy has. -/
def filteredCopy : Settings :=
  .ofList [(.threads, .integer 2), (.videoCodec, .text "copy"), (.videoFilter, .text "scale")]

/-- An encoding, from which the level and the filter follow. -/
def baseline : Settings :=
  .ofList [(.threads, .integer 2), (.videoProfile, .text "baseline")]

theorem groups_isolated_copying :
    Settings.SameOutside .video copying baseline ∧
    Settings.SameOutside .video copying filteredCopy ∧
    (∃ f f', FlagSet.ofProfile (Profile.resolve speech copying) .unknown = .ok f ∧
      FlagSet.ofProfile (Profile.resolve speech baseline) .unknown = .ok f' ∧
      f.group .video ≠ f'.group .video ∧ ∀ g', g' ≠ .video → f.group g' = f'.group g') ∧
    ∃ err, OneFails (FlagSet.ofProfile (Profile.resolve speech copying) .unknown)
      (FlagSet.ofProfile (Profile.resolve speech filteredCopy) .unknown) err ∧
      err.IsAbout .video := by
  have hsame : ∀ b ∈ [baseline, filteredCopy], ∀ t ∈ Setting.all, t.group ≠ .video →
      copying.get? t = b.get? t := by decide +kernel
  have hbaseline : Settings.SameOutside .video copying baseline :=
    fun t => hsame _ (by simp) t (Setting.mem_all t)
  have hfiltered : Settings.SameOutside .video copying filteredCopy :=
    fun t => hsame _ (by simp) t (Setting.mem_all t)
  have hok : ((FlagSet.ofProfile (Profile.resolve speech copying) .unknown).toOption.bind fun f =>
      (FlagSet.ofProfile (Profile.resolve speech baseline) .unknown).toOption.map fun f' =>
        f.group .video != f'.group .video) = some true := by decide +kernel
  have hrefused : (FlagSet.ofProfile (Profile.resolve speech filteredCopy) .unknown).isOk =
      false := by decide +kernel
  obtain ⟨f, hf, hok⟩ := Option.bind_eq_some_iff.1 hok
  obtain ⟨f', hf', hne⟩ := Option.map_eq_some_iff.1 hok
  have hf := toOption_eq_some_iff.1 hf
  have hf' := toOption_eq_some_iff.1 hf'
  obtain ⟨-, htokens, -⟩ := groups_isolated hbaseline speech .unknown
  obtain ⟨-, -, habout, -⟩ := groups_isolated hfiltered speech .unknown
  refine ⟨hbaseline, hfiltered, ⟨f, f', hf, hf', by simpa using hne, htokens f f' hf hf'⟩, ?_⟩
  cases hfail : FlagSet.ofProfile (Profile.resolve speech filteredCopy) .unknown with
  | ok f =>
    rw [hfail] at hrefused
    cases hrefused
  | error err =>
    exact ⟨err, Or.inl ⟨⟨f, hf⟩, rfl⟩, habout err (Or.inl ⟨⟨f, hf⟩, hfail⟩)⟩

end Transcode
