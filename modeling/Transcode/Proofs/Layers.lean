/-
  Transcode — where the values of a profile come from.

  A setting has the last value assigned to it, or else the configured override, or
  else the value of the preset, or else a default, or none.  `Layers.value` says so
  for one setting at a time, without the order in which a profile is filled.

  * `Layers.resolve_eq`: resolving a preset gives the profile of the layers;
  * `layers_of_studio`: that is the profile which the program compiles, plans and
    shows a preset of a configuration with.
-/
import Transcode.Program
import Transcode.Proofs.Aliases
import Transcode.Proofs.ValueText

namespace Transcode

/-- What settings get their values from, the first layer winning. -/
structure Layers where
  assignments : List Assignment
  /-- The overrides of the configuration. -/
  configured : Settings
  /-- The settings of the preset. -/
  preset : Settings

namespace Layers

/-- The default of a video stream that is encoded, by its video profile. -/
def encodedDefault (videoProfile : Value) : Setting → Option Value
  | .videoProfile => some (.text "main")
  | .videoCodecLevel => some (.text (if videoProfile = .text "baseline" then "3.0" else "3.1"))
  | .videoFilter =>
    if videoProfile = .text "baseline" then some (.text "hqdn3d=4:3:6:4.5")
    else if videoProfile = .text "main" then some (.text "hqdn3d=1.5:1.5:6:6")
    else none
  | _ => none

section
variable (l : Layers)

/-- The last value that is assigned to a setting. -/
def assigned (s : Setting) : Option Value :=
  (l.assignments.filter (·.1 = s)).getLast?.map Prod.snd

/-- The value of the first layer that has one. -/
def given (s : Setting) : Option Value :=
  (l.assigned s).or ((l.configured.get? s).or (l.preset.get? s))

/-- Whether the codec of the video stream is the text `copy`, whatever the case of
    its letters and the blanks around it. -/
def copies : Bool :=
  match (l.given .videoCodec).getD (.text "h264") with
  | .text t => Text.lower (Text.trim t) = "copy"
  | _ => false

/-- The value of a setting that no layer gives one. -/
def default : Setting → Option Value
  | .videoCodec => some (.text "h264")
  | .audioCodec => some (.text "aac")
  | .threads => some (.integer 0)
  | s =>
    if l.copies then none
    else encodedDefault ((l.given .videoProfile).getD (.text "main")) s

/-- The value of a setting. -/
def value (s : Setting) : Option Value :=
  (l.given s).or (l.default s)

/-- The profile in which every setting has its value. -/
def profile : Profile :=
  ⟨⟨l.value⟩⟩

/-- The layers as one set of settings. -/
def merged : Settings :=
  ((Settings.ofList l.assignments).layeredOn l.configured).layeredOn l.preset

end

variable {l : Layers}

theorem get?_merged (s : Setting) : l.merged.get? s = l.given s := by
  rw [merged, Settings.get?_layeredOn, Settings.get?_layeredOn, Settings.get?_ofList,
    Option.or_assoc]
  rfl

/-! ## Filling in the defaults -/

/-- The tables of defaults ask how a video profile is shown, which for their words
    is the same as which text it is. -/
theorem levelFor_plain (v : Value) :
    Profile.levelFor v.plain = if v = .text "baseline" then "3.0" else "3.1" := by
  have hb : v.plain = "baseline" ↔ v = .text "baseline" :=
    Value.plain_eq_iff (c := 'b') (by decide) (by decide)
  simp only [Profile.levelFor, hb]

theorem filterFor_plain (v : Value) :
    (Profile.filterFor v.plain).map Value.text = encodedDefault v .videoFilter := by
  have hb : v.plain = "baseline" ↔ v = .text "baseline" :=
    Value.plain_eq_iff (c := 'b') (by decide) (by decide)
  have hm : v.plain = "main" ↔ v = .text "main" :=
    Value.plain_eq_iff (c := 'm') (by decide) (by decide)
  simp only [Profile.filterFor, encodedDefault, hb, hm, apply_ite (Option.map Value.text),
    Option.map_some, Option.map_none]

/-- The level and the filter go with the video profile as it is once filled. -/
theorem get?_fillVideo (m : Settings) (s : Setting) :
    (Profile.fillVideo m).get? s =
      (m.get? s).or (encodedDefault ((m.get? .videoProfile).getD (.text "main")) s) := by
  have hp : (((m.fill .videoProfile (.text "main")).get? .videoProfile).map Value.plain).getD "" =
      ((m.get? .videoProfile).getD (.text "main")).plain := by
    cases h : m.get? .videoProfile <;> simp [h]
  generalize hv : (m.get? .videoProfile).getD (.text "main") = v at hp ⊢
  have hf := filterFor_plain v
  simp only [Profile.fillVideo, hp]
  cases hfilter : Profile.filterFor v.plain with
  | none =>
    rw [hfilter] at hf
    rw [Settings.get?_fill_or, Settings.get?_fill_or, levelFor_plain, Option.or_assoc]
    cases s with
    | videoFilter =>
      rw [← hf]
      rfl
    | _ => rfl
  | some f =>
    rw [hfilter] at hf
    rw [Settings.get?_fill_or, Settings.get?_fill_or, Settings.get?_fill_or, levelFor_plain,
      Option.or_assoc, Option.or_assoc]
    cases s with
    | videoFilter =>
      rw [← hf]
      rfl
    | _ => rfl

theorem get?_fillCodecs (m : Settings) (s : Setting) :
    (Profile.fillCodecs m).get? s =
      (m.get? s).or ((if s = .videoCodec then some (.text "h264") else none).or
        (if s = .audioCodec then some (.text "aac") else none)) := by
  rw [Profile.fillCodecs, Settings.get?_fill_or, Settings.get?_fill_or, Option.or_assoc]
  rfl

theorem copiesVideo_fillCodecs : Profile.copiesVideo (Profile.fillCodecs l.merged) = l.copies := by
  have hc : (Profile.fillCodecs l.merged).get? .videoCodec =
      some ((l.given .videoCodec).getD (.text "h264")) := by
    rw [get?_fillCodecs, get?_merged]
    cases l.given .videoCodec <;> rfl
  rw [Profile.copiesVideo, hc, copies, Option.bind_some]
  cases (l.given .videoCodec).getD (.text "h264") with
  | text t =>
    rw [Bool.eq_iff_iff, decide_eq_true_iff]
    exact Codec.isCopy_iff
  | _ => rfl

/-- **Resolving a preset gives every setting the value of its layers.** -/
theorem resolve_eq (l : Layers) :
    Profile.resolve l.preset ((Settings.ofList l.assignments).layeredOn l.configured) =
      l.profile := by
  have hcodecs : ∀ s, (Profile.fillCodecs l.merged).get? s = (l.given s).or
      ((if s = .videoCodec then some (.text "h264") else none).or
        (if s = .audioCodec then some (.text "aac") else none)) := fun s => by
    rw [get?_fillCodecs, get?_merged]
  ext1
  ext1
  funext s
  show (Profile.withDefaults l.merged).get? s = l.value s
  simp only [Profile.withDefaults, copiesVideo_fillCodecs]
  rw [Settings.get?_fill_or, value]
  cases hl : l.copies with
  | true =>
    rw [if_pos rfl, hcodecs, Option.or_assoc]
    cases s <;> simp [default, hl]
  | false =>
    have hprofile : (Profile.fillCodecs l.merged).get? .videoProfile = l.given .videoProfile := by
      rw [hcodecs]
      exact Option.or_none
    rw [if_neg (by decide), get?_fillVideo, hcodecs, hprofile, Option.or_assoc, Option.or_assoc]
    cases s <;> simp [default, hl, encodedDefault]

end Layers

namespace Profile

theorem resolve_eq_layers (preset overrides : Settings) :
    resolve preset overrides = (Layers.mk [] overrides preset).profile :=
  Layers.resolve_eq ⟨[], overrides, preset⟩

/-- The settings that every resolved profile has. -/
def settled : List Setting :=
  [.audioCodec, .videoCodec, .threads]

theorem get?_resolve_settled (preset overrides : Settings) {t : Setting} (ht : t ∈ settled) :
    (resolve preset overrides).get? t ≠ none := by
  rw [resolve_eq_layers]
  intro hnone
  obtain ⟨-, hdefault⟩ := Option.or_eq_none_iff.1 hnone
  simp only [settled, List.mem_cons, List.not_mem_nil, or_false] at ht
  rcases ht with rfl | rfl | rfl <;> cases hdefault

end Profile

/-! ## Where profiles are worked with -/

theorem Encoder.compile_eq_render {e : Encoder} {r : Request} {q : Preset}
    (h : e.registry.lookup r.preset = .ok q) :
    e.compile r = e.render (Profile.resolve q.settings r.overrides) r := by
  rw [Encoder.compile, Encoder.resolve, h]
  rfl

theorem Encoder.profile_of_render {e : Encoder} {p : Profile} {r : Request} {c : Command}
    (h : e.render p r = .ok c) : c.profile = p := by
  obtain ⟨flags, _, h⟩ := bind_eq_ok_iff.1 h
  obtain ⟨args, _, h⟩ := bind_eq_ok_iff.1 h
  cases h
  rfl

theorem Config.registry_eq_ok_iff {c : Config} {r : Registry} :
    c.registry = .ok r ↔ ∃ rows, c.entries = .ok rows ∧ Registry.extend rows = .ok r := by
  unfold Config.registry
  cases c.entries with
  | error e => simp
  | ok rows =>
    cases h : Registry.extend rows with
    | error e => simp [h]
    | ok r' => simp [h]

namespace Studio

theorem of_ofConfig {h : Host} {d : Disk} {c : Config} {s : Studio}
    (hs : ofConfig h d c = .ok s) :
    c.registry = .ok s.encoder.registry ∧ s.overrides = c.overrides := by
  obtain ⟨r, hr, rfl⟩ := map_eq_ok_iff.1 hs
  exact ⟨hr, rfl⟩

/-- A planned job has been compiled. -/
theorem compile_of_mem_plan {s : Studio} {input dir : Path} {presets : List String}
    {overrides : Settings} {source : Source} {jobs : List Job}
    (hp : s.plan input dir presets overrides source = .ok jobs) {j : Job} (hj : j ∈ jobs) :
    j.request = s.request input dir overrides source j.preset ∧
      s.encoder.compile j.request = .ok j.command := by
  obtain ⟨name, _, hname⟩ := exists_of_mem_mapM hp hj
  simp only [job] at hname
  split at hname
  · rename_i c hc
    cases hname
    exact ⟨rfl, hc⟩
  · cases hname

theorem exists_plan (h : Host) (d : Disk) (c : Config) (input outputDir : Path)
    (presets : List String) (source : Source) (check : Studio → List Job → Bool)
    (hcheck : ((ofConfig h d c).toOption.bind fun s =>
      (s.plan input outputDir presets .empty source).toOption.map (check s)) = some true) :
    ∃ s jobs, ofConfig h d c = .ok s ∧ s.plan input outputDir presets .empty source = .ok jobs ∧
      check s jobs = true := by
  obtain ⟨s, hs, hcheck⟩ := Option.bind_eq_some_iff.1 hcheck
  obtain ⟨jobs, hplan, hcheck⟩ := Option.map_eq_some_iff.1 hcheck
  exact ⟨s, jobs, toOption_eq_some_iff.1 hs, toOption_eq_some_iff.1 hplan, hcheck⟩

/-- One profile is what everything works with that is done about a preset of a
    configuration, under some assignments. -/
structure WorksWith (h : Host) (d : Disk) (c : Config) (s : Studio) (name : String)
    (sets : List Assignment) (p : Profile) : Prop where
  /-- The command that is shown is rendered from it, or the failure to do so. -/
  shown : ∀ config input output size rate json, Config.find h d config = .ok c →
    Program.compile h d config input output name sets size rate json =
      match Program.sourceOf h d s input size rate with
      | (d', none) => ⟨d', "", .brokenOff⟩
      | (d', some source) => Program.showCommand d' json
          (s.encoder.render p ⟨name, s.merged (.ofList sets), source, input, output⟩)
  /-- The command of every planned job is rendered from it. -/
  planned : ∀ input dir presets source jobs,
    s.plan input dir presets (.ofList sets) source = .ok jobs →
      ∀ j ∈ jobs, j.preset = name →
        j.command.profile = p ∧ s.encoder.render p j.request = .ok j.command
  /-- Without assignments, it is the profile that is listed. -/
  listed : sets = [] → ∀ config json, Config.find h d config = .ok c →
    ∃ q, s.encoder.registry.lookup name = .ok q ∧
      Program.presets h d config (some name) json =
        Program.say d (if json then [p.settings.toDocument.pretty] else Program.profileLines q p)

theorem worksWith_of_lookup {h : Host} {d : Disk} {c : Config} {s : Studio} {name : String}
    {q : Preset} (hs : ofConfig h d c = .ok s) (hq : s.encoder.registry.lookup name = .ok q)
    (sets : List Assignment) :
    WorksWith h d c s name sets (Layers.mk sets c.overrides q.settings).profile := by
  have hover : s.overrides = c.overrides := (of_ofConfig hs).2
  have hresolve : Profile.resolve q.settings (s.merged (.ofList sets)) =
      (Layers.mk sets c.overrides q.settings).profile := by
    rw [merged, hover]
    exact Layers.resolve_eq ⟨sets, c.overrides, q.settings⟩
  have hcompile : ∀ r : Request, r.preset = name → r.overrides = s.merged (.ofList sets) →
      s.encoder.compile r =
        s.encoder.render (Layers.mk sets c.overrides q.settings).profile r := by
    intro r hr ho
    rw [Encoder.compile_eq_render (hr ▸ hq), ho, hresolve]
  refine ⟨?_, ?_, ?_⟩
  · intro config input output size rate json hc
    simp only [Program.compile, Program.withStudio, Program.given, hc, hs]
    generalize Program.sourceOf h d s input size rate = looked
    obtain ⟨d', _ | source⟩ := looked
    · rfl
    · simp only [hcompile ⟨name, s.merged (.ofList sets), source, input, output⟩ rfl rfl]
  · intro input dir presets source jobs hp j hj hname
    obtain ⟨hreq, hjob⟩ := compile_of_mem_plan hp hj
    rw [hcompile j.request (by rw [hreq]; exact hname) (by rw [hreq]; rfl)] at hjob
    exact ⟨Encoder.profile_of_render hjob, hjob⟩
  · rintro rfl config json hc
    refine ⟨q, hq, ?_⟩
    have hlisted : s.encoder.resolve name c.overrides =
        .ok (Layers.mk [] c.overrides q.settings).profile := by
      rw [Encoder.resolve, hq, ← Layers.resolve_eq]
      rfl
    simp only [Program.presets, Program.withStudio, Program.given, hc, hs, Program.showPreset, hq,
      hlisted]

end Studio

/-- **The layers decide every setting**, in whatever is done about a preset of a
    configuration: the last assignment, the configured override, the settings that
    the aliases of the name lead to, and the default. -/
theorem layers_of_studio {h : Host} {d : Disk} {c : Config} {s : Studio} {name : String}
    (hs : Studio.ofConfig h d c = .ok s) (hn : s.encoder.registry.contains name = true)
    (sets : List Assignment) :
    ∃ rows target values p, c.entries = .ok rows ∧
      Leads (NameTable.ofList (Preset.builtin ++ rows)) name target values ∧
      (∀ t, p.get? t = (Layers.mk sets c.overrides values).value t) ∧
      Studio.WorksWith h d c s name sets p := by
  obtain ⟨hr, -⟩ := Studio.of_ofConfig hs
  obtain ⟨rows, hrows, hext⟩ := Config.registry_eq_ok_iff.1 hr
  obtain ⟨q, hq⟩ := Registry.lookup_of_contains hn
  obtain ⟨-, target, -, hleads⟩ := Registry.leads_of_lookup hext hq
  exact ⟨rows, target, q.settings, _, hrows, hleads, fun _ => rfl,
    Studio.worksWith_of_lookup hs hq sets⟩

/-- A configuration with a preset, a name for it, and an override. -/
def phoneConfig : String :=
  "[overrides]\nthreads = 4\n[presets.mobile]\nwidth = 320\nvideo_profile = \"baseline\"\n" ++
    "[presets.phone]\nalias = \"mobile\"\n"

/-- A disk with only that configuration, where it is looked for first. -/
def phoneDisk : Disk :=
  ⟨[([Text.encode "mp4forge.toml"], .file (Text.encode phoneConfig))]⟩

theorem layers_of_studio_phone :
    ∃ c s, Config.find .bare phoneDisk none = .ok c ∧
      Studio.ofConfig .bare phoneDisk c = .ok s ∧ s.encoder.registry.contains "phone" = true ∧
      ∃ rows target values p, c.entries = .ok rows ∧
        Leads (NameTable.ofList (Preset.builtin ++ rows)) "phone" target values ∧
        (∀ t, p.get? t = (Layers.mk [(.threads, .integer 2), (.width, .integer 640),
          (.threads, .integer 8)] c.overrides values).value t) ∧
        Studio.WorksWith .bare phoneDisk c s "phone"
          [(.threads, .integer 2), (.width, .integer 640), (.threads, .integer 8)] p := by
  have hphone : ((Config.find .bare phoneDisk none).toOption.bind fun c =>
      (Studio.ofConfig .bare phoneDisk c).toOption.map fun s =>
        s.encoder.registry.contains "phone") = some true := by decide +kernel
  obtain ⟨c, hc, hmap⟩ := Option.bind_eq_some_iff.1 hphone
  obtain ⟨s, hs, hn⟩ := Option.map_eq_some_iff.1 hmap
  have hs := toOption_eq_some_iff.1 hs
  exact ⟨c, s, toOption_eq_some_iff.1 hc, hs, hn, layers_of_studio hs hn _⟩

end Transcode
