/-
  Transcode — plans and the commands that are shown.

  A plan is made of the commands of its presets, each of which is also what is shown
  when it is asked for alone.  So nothing is planned that is not shown, and there is
  no plan where one of the presets cannot be shown.

  * `Studio.plan_eq_ok_iff`: the jobs of a plan are those of the presets, in order;
  * `Studio.plan_eq_error_iff`: a plan fails at the first preset that is not compiled;
  * `Program.compile_shows`: what is shown for an output;
  * `plan_as_shown`: the three together.
-/
import Transcode.Proofs.Refusals

namespace Transcode

namespace Studio

variable {s : Studio} {input dir : Path} {presets : List String} {overrides : Settings}
  {source : Source}

/-- The command of a preset, for the output that is named for it. -/
def commandOf (s : Studio) (input dir : Path) (overrides : Settings) (source : Source)
    (preset : String) : Except CompileError Command :=
  s.encoder.compile ⟨preset, s.merged overrides, source, input,
    destination input dir preset Encoder.fileExtension⟩

/-- A job goes where the output of its preset belongs, with the command for it. -/
structure MakesPreset (s : Studio) (input dir : Path) (overrides : Settings) (source : Source)
    (preset : String) (j : Job) : Prop where
  named : j.preset = preset
  requested : j.request = ⟨preset, s.merged overrides, source, input,
    destination input dir preset Encoder.fileExtension⟩
  compiled : s.commandOf input dir overrides source preset = .ok j.command

theorem job_eq (preset : String) :
    s.job input dir overrides source preset =
      match s.commandOf input dir overrides source preset with
      | .ok c => .ok ⟨preset, s.request input dir overrides source preset, c⟩
      | .error e => .error (Failure.whilst (compiling input source preset) e) :=
  rfl

theorem job_eq_ok_iff {preset : String} {j : Job} :
    s.job input dir overrides source preset = .ok j ↔
      s.MakesPreset input dir overrides source preset j := by
  rw [job_eq]
  constructor
  · intro h
    split at h
    · next c hc =>
      cases h
      exact ⟨rfl, rfl, hc⟩
    · cases h
  · rintro ⟨hname, hrequest, hcommand⟩
    obtain ⟨name, r, c⟩ := j
    obtain rfl : name = preset := hname
    obtain rfl : r = s.request input dir overrides source name := hrequest
    rw [hcommand]

theorem job_eq_error_iff {preset : String} {f : Failure} :
    s.job input dir overrides source preset = .error f ↔
      ∃ e, s.commandOf input dir overrides source preset = .error e ∧
        f = Failure.whilst (compiling input source preset) e := by
  rw [job_eq]
  cases s.commandOf input dir overrides source preset with
  | ok c => simp
  | error e => simp [eq_comm]

theorem exists_job_iff {preset : String} :
    (∃ j, s.job input dir overrides source preset = .ok j) ↔
      ∃ c, s.commandOf input dir overrides source preset = .ok c := by
  rw [job_eq]
  cases s.commandOf input dir overrides source preset with
  | ok c => simp
  | error e => simp

/-- **The jobs of a plan are those of its presets**, in the same order. -/
theorem plan_eq_ok_iff {jobs : List Job} :
    s.plan input dir presets overrides source = .ok jobs ↔
      List.Forall₂ (s.MakesPreset input dir overrides source) presets jobs := by
  simp only [plan, mapM_eq_ok_iff, job_eq_ok_iff]

theorem exists_plan_iff :
    (∃ jobs, s.plan input dir presets overrides source = .ok jobs) ↔
      ∀ preset ∈ presets, ∃ c, s.commandOf input dir overrides source preset = .ok c := by
  simp only [plan, exists_mapM_eq_ok_iff, exists_job_iff]

/-- **A plan fails at the first preset that is not compiled**, with its error, and
    whatever presets come behind it. -/
theorem plan_eq_error_iff {f : Failure} :
    s.plan input dir presets overrides source = .error f ↔
      ∃ before preset after e, presets = before ++ preset :: after ∧
        (∀ other ∈ before, ∃ c, s.commandOf input dir overrides source other = .ok c) ∧
        s.commandOf input dir overrides source preset = .error e ∧
        f = Failure.whilst (compiling input source preset) e := by
  simp only [plan, mapM_eq_error_iff, exists_job_iff, job_eq_error_iff]
  constructor
  · rintro ⟨before, preset, after, hpresets, hbefore, e, he, hf⟩
    exact ⟨before, preset, after, e, hpresets, hbefore, he, hf⟩
  · rintro ⟨before, preset, after, e, hpresets, hbefore, he, hf⟩
    exact ⟨before, preset, after, hpresets, hbefore, e, he, hf⟩

end Studio

/-- What is shown for an output that belongs to a preset is the command of the preset,
    or why there is none. -/
theorem Program.compile_shows {h : Host} {d d' : Disk} {config : Option Path} {c : Config}
    {s : Studio} {input dir : Path} {preset : String} {sets : List Assignment}
    {size : Option FrameSize} {rate : Option Binary64} {source : Source}
    (hc : Config.find h d config = .ok c) (hs : Studio.ofConfig h d c = .ok s)
    (hsource : sourceOf h d s input size rate = (d', some source)) (json : Bool) :
    compile h d config input (destination input dir preset Encoder.fileExtension) preset sets
        size rate json =
      showCommand d' json (s.commandOf input dir (.ofList sets) source preset) := by
  simp only [compile, withStudio, given, hc, hs, hsource]
  rfl

/-- **A plan is what would be shown of each preset.**  There is one iff every preset
    has a command; then each has a job, in the order of the presets, with the command
    that is shown for it.  Otherwise there is no job, and the failure is that of the
    first preset without a command. -/
theorem plan_as_shown (s : Studio) (input dir : Path) (sets : List Assignment) (source : Source) :
    (∀ presets, (∃ jobs, s.plan input dir presets (.ofList sets) source = .ok jobs) ↔
      ∀ preset ∈ presets, ∃ c, s.commandOf input dir (.ofList sets) source preset = .ok c) ∧
    (∀ presets jobs, s.plan input dir presets (.ofList sets) source = .ok jobs ↔
      List.Forall₂ (s.MakesPreset input dir (.ofList sets) source) presets jobs) ∧
    (∀ presets f, s.plan input dir presets (.ofList sets) source = .error f ↔
      ∃ before preset after e, presets = before ++ preset :: after ∧
        (∀ other ∈ before, ∃ c, s.commandOf input dir (.ofList sets) source other = .ok c) ∧
        s.commandOf input dir (.ofList sets) source preset = .error e ∧
        f = Failure.whilst (Studio.compiling input source preset) e) ∧
    ∀ h d d' config c size rate preset json, Config.find h d config = .ok c →
      Studio.ofConfig h d c = .ok s →
        Program.sourceOf h d s input size rate = (d', some source) →
          Program.compile h d config input (destination input dir preset Encoder.fileExtension)
              preset sets size rate json =
            Program.showCommand d' json (s.commandOf input dir (.ofList sets) source preset) := by
  refine ⟨fun _ => Studio.exists_plan_iff, fun _ _ => Studio.plan_eq_ok_iff,
    fun _ _ => Studio.plan_eq_error_iff, ?_⟩
  intro h d d' config c size rate preset json hc hs hsource
  exact Program.compile_shows hc hs hsource json

/-- A number of threads that is set twice. -/
def twoThreads : List Assignment :=
  [(.threads, .integer 4), (.threads, .integer 2)]

/-- A source of 1920 by 1080 pixels. -/
def wideSource : Source :=
  ⟨some 1920, some 1080, none⟩

theorem plan_as_shown_twoThreads :
    ∃ s, Studio.ofConfig .bare ⟨[]⟩ .standard = .ok s ∧
      (∃ jobs, s.plan "/in/clip.mov" "/out" ["default", "p192", "default"] (.ofList twoThreads)
          wideSource = .ok jobs ∧
        List.Forall₂ (s.MakesPreset "/in/clip.mov" "/out" (.ofList twoThreads) wideSource)
          ["default", "p192", "default"] jobs) ∧
      s.plan "/in/clip.mov" "/out" ["p192", "w4k", "w8k"] (.ofList twoThreads) wideSource =
        .error (Failure.whilst (Studio.compiling "/in/clip.mov" wideSource "w4k")
          (CompileError.unknownPreset "w4k")) ∧
      Config.find .bare ⟨[]⟩ none = .ok .standard ∧
      Program.sourceOf .bare ⟨[]⟩ s "/in/clip.mov" (some ⟨1920, 1080⟩) none =
        (⟨[]⟩, some wideSource) ∧
      Program.compile .bare ⟨[]⟩ none "/in/clip.mov"
          (destination "/in/clip.mov" "/out" "p192" Encoder.fileExtension) "p192" twoThreads
          (some ⟨1920, 1080⟩) none false =
        Program.showCommand ⟨[]⟩ false
          (s.commandOf "/in/clip.mov" "/out" (.ofList twoThreads) wideSource "p192") := by
  have hcheck : ((Studio.ofConfig .bare ⟨[]⟩ .standard).toOption.map fun s =>
      (["default", "p192"].map fun preset =>
        (s.commandOf "/in/clip.mov" "/out" (.ofList twoThreads) wideSource preset).isOk,
      s.encoder.registry.contains "w4k")) = some ([true, true], false) := by decide +kernel
  obtain ⟨s, hs, hcheck⟩ := Option.map_eq_some_iff.1 hcheck
  have hs := toOption_eq_some_iff.1 hs
  obtain ⟨hoks, hmissing⟩ := Prod.mk.inj hcheck
  obtain ⟨hdefault, hrest⟩ := List.cons.inj hoks
  obtain ⟨hsmall, -⟩ := List.cons.inj hrest
  obtain ⟨hexists, hjobs, hfails, hshown⟩ :=
    plan_as_shown s "/in/clip.mov" "/out" twoThreads wideSource
  have hunknown : s.commandOf "/in/clip.mov" "/out" (.ofList twoThreads) wideSource "w4k" =
      .error (.unknownPreset "w4k") := by
    refine Encoder.compile_eq_unknownPreset_iff.2 ⟨?_, rfl⟩
    intro hmem
    have hthere : s.encoder.registry.contains "w4k" = true := NameTable.mem_names_iff.1 hmem
    rw [hmissing] at hthere
    cases hthere
  have hplace : (Config.usualPlaces .bare).find? (Host.bare.fileExists ⟨[]⟩) = none := by
    decide +kernel
  have hfind : Config.find .bare ⟨[]⟩ none = .ok .standard := by
    rw [Config.find, Option.none_or, hplace]
  obtain ⟨jobs, hplan⟩ := (hexists ["default", "p192", "default"]).2 (by
    simp only [List.forall_mem_cons, isOk_iff.1 hdefault, isOk_iff.1 hsmall, true_and]
    exact fun _ h => absurd h List.not_mem_nil)
  refine ⟨s, hs, ⟨jobs, hplan, (hjobs _ _).1 hplan⟩, ?_, hfind, rfl, ?_⟩
  · refine (hfails _ _).2 ⟨["p192"], "w4k", ["w8k"], _, rfl, ?_, hunknown, rfl⟩
    intro other hother
    rw [List.mem_singleton.1 hother]
    exact isOk_iff.1 hsmall
  · exact hshown _ _ _ _ _ _ _ _ _ hfind hs rfl

end Transcode
