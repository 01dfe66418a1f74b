/-
  Transcode — what comes of a report.

  A prober may print anything.  What is no report is refused, and a report is turned
  into a description, whatever its texts say; but one that gives a duration of 2^64
  seconds or more passes the tests of a duration and does not fit into a clock.

  * `Media.durationOf_eq_error_iff`: the durations that no clock holds;
  * `Media.ofReportText_eq_error_iff`: so what is described, refused and given up;
  * `Tool.probe_eq_endless_iff`, `Program.endless_of_brokenOff`: a prober that gives
    such a report is the only reason why a source is not looked at, or a task broken
    off;
  * `answered_unless_endless`: all of this, for reports, sources and runs.
-/
import Transcode.Host.Script
import Transcode.Program
import Transcode.Proofs.Outcome

namespace Transcode

/-! ## Durations -/

namespace Binary64

/-- The least number of seconds that a clock does not hold. -/
def clockLimit : Binary64 :=
  .ofNat (twoTo 64)

/-- A number that counts as a duration, being finite and not negative, and does not
    fit into a clock. -/
def IsEndless (x : Binary64) : Prop :=
  x.isFinite = true ∧ x.lt clockLimit = false

instance (x : Binary64) : Decidable x.IsEndless :=
  inferInstanceAs (Decidable (_ ∧ _))

theorem key_clockLimit : clockLimit.key = some ((twoTo 64 * one : Nat) : Int) := by
  decide +kernel

theorem isEndless_finite_iff {negative : Bool} {units : Nat} {fits : Fits units} :
    (finite negative units fits).IsEndless ↔
      ¬ (negative && units ≠ 0) = true ∧ twoTo 64 * one ≤ units := by
  have hpos : 0 < twoTo 64 * one := Nat.mul_pos (twoTo_pos 64) (twoTo_pos 1074)
  rw [IsEndless, lt, key_clockLimit]
  generalize twoTo 64 * one = limit at hpos
  cases negative with
  | false => simp [isFinite, key, signed]
  | true =>
    simp [isFinite, key, signed]
    omega

end Binary64

namespace Media

/-- A text that gives a duration which no clock holds. -/
def GivesEndless (text : String) : Prop :=
  ∃ x ∈ Binary64.ofText? text, x.IsEndless

instance (text : String) : Decidable (GivesEndless text) :=
  inferInstanceAs (Decidable (∃ x ∈ Binary64.ofText? text, x.IsEndless))

/-- **A duration is given up** if no clock holds it; whatever else is written is a
    duration or none. -/
theorem durationOf_eq_error_iff {text : String} {e : ReportError} :
    durationOf text = .error e ↔ e = .endless ∧ GivesEndless text := by
  have hok : ∀ d, (Except.ok d : Except ReportError (Option Nat)) ≠ .error e := by
    intro d h
    cases h
  have hnone : ∀ x : Binary64, x.isFinite = false → ¬ x.IsEndless := by
    intro x hx h
    rw [h.1] at hx
    cases hx
  unfold durationOf GivesEndless
  cases Binary64.ofText? text with
  | none => simp
  | some x =>
    simp only [Option.mem_def, Option.some.injEq, exists_eq_left']
    cases x with
    | nan => simp [hnone .nan rfl]
    | infinite negative => simp [hnone (.infinite negative) rfl]
    | finite negative units fits =>
      rw [Binary64.isEndless_finite_iff]
      dsimp only
      by_cases hneg : (negative && units ≠ 0) = true
      · rw [if_pos hneg]
        exact ⟨fun h => absurd h (hok _), fun h => absurd hneg h.2.1⟩
      · rw [if_neg hneg]
        by_cases hlimit : twoTo 64 * Binary64.one ≤ units
        · rw [if_pos hlimit, Except.error.injEq]
          exact ⟨fun h => ⟨h.symm, hneg, hlimit⟩, fun h => h.1.symm⟩
        · rw [if_neg hlimit]
          exact ⟨fun h => absurd h (hok _), fun h => absurd h.2.2 hlimit⟩

/-! ## Reports -/

/-- The report that a text is. -/
def Report.ofText? (text : String) : Option Report :=
  (Document.ofJson? text).bind Report.ofDocument?

/-- A report of a duration which no clock holds. -/
def Report.IsEndless (r : Report) : Prop :=
  ∃ text ∈ r.container.bind (·.duration), GivesEndless text

instance (r : Report) : Decidable r.IsEndless :=
  inferInstanceAs (Decidable (∃ text ∈ r.container.bind (·.duration), GivesEndless text))

theorem Container.play_eq_error_iff {c : Container} {e : ReportError} :
    c.play = .error e ↔ e = .endless ∧ ∃ text ∈ c.duration, GivesEndless text := by
  unfold play
  cases c.duration with
  | none => simp
  | some text => simp [durationOf_eq_error_iff]

theorem ofReport_eq_error_iff {file : Path} {r : Report} {e : ReportError} :
    ofReport file r = .error e ↔ e = .endless ∧ r.IsEndless := by
  have hplay : ofReport file r = .error e ↔
      (r.container.map Container.play).getD (.ok none) = .error e := by
    unfold ofReport
    cases (r.container.map Container.play).getD (.ok none) with
    | ok duration => simp
    | error e' => simp
  rw [hplay, Report.IsEndless]
  cases r.container with
  | none => simp
  | some c => simp [Container.play_eq_error_iff]

/-- **Every text is answered**: with an error if it is no report, and else with a
    description, unless the report is endless. -/
theorem ofReportText_eq_error_iff {file : Path} {text : String} {e : ReportError} :
    ofReportText file text = .error e ↔
      e = .malformed ∧ Report.ofText? text = none ∨
        e = .endless ∧ ∃ r, Report.ofText? text = some r ∧ r.IsEndless := by
  unfold ofReportText
  rw [← Report.ofText?]
  cases Report.ofText? text with
  | none => simp [eq_comm]
  | some r => simp [ofReport_eq_error_iff]

theorem exists_ofReportText_iff {file : Path} {text : String} :
    (∃ m, ofReportText file text = .ok m) ↔
      ∃ r, Report.ofText? text = some r ∧ ¬ r.IsEndless := by
  unfold ofReportText
  rw [← Report.ofText?]
  cases Report.ofText? text with
  | none => simp
  | some r =>
    cases hr : ofReport file r with
    | ok m =>
      have hend : ¬ r.IsEndless := by
        intro hend
        rw [ofReport_eq_error_iff.2 ⟨rfl, hend⟩] at hr
        cases hr
      simp [hr, hend]
    | error e => simp [hr, (ofReport_eq_error_iff.1 hr).2]

end Media

/-! ## Probers -/

namespace Tool

/-- What a prober leaves behind that has printed an endless report. -/
def HoldsEndless (c : Completion) : Prop :=
  c.status = .code 0 ∧ ∃ text r, Text.decode c.stdout = .ok text ∧
    Media.Report.ofText? text = some r ∧ r.IsEndless

/-- Whether the answer of a prober is an endless report. -/
def GivesEndless (h : Host) (d : Disk) (program file : Path) : Prop :=
  h.fileExists d file = true ∧ ∃ c,
    (h.spawn d program (probeArgs.map Text.encode ++ [file.bytes])).2 = .ok c ∧ HoldsEndless c

theorem judgeReport_eq_endless_iff {program file : Path} {c : Completion} :
    judgeReport program file c = .endless ↔ HoldsEndless c := by
  unfold judgeReport HoldsEndless
  by_cases hstatus : c.status = .code 0
  · rw [if_neg (not_not_intro hstatus)]
    cases Text.decode c.stdout with
    | error e => simp
    | ok text =>
      have hend : Media.ofReportText file text = .error .endless ↔
          ∃ r, Media.Report.ofText? text = some r ∧ r.IsEndless := by
        simp [Media.ofReportText_eq_error_iff]
      simp only [hstatus, true_and, Except.ok.injEq, exists_and_left, exists_eq_left', ← hend]
      cases Media.ofReportText file text with
      | ok m => simp
      | error e => cases e <;> simp
  · rw [if_pos hstatus]
    simp [hstatus]

/-- **A prober gives no answer** exactly if it gives an endless report. -/
theorem probe_eq_endless_iff {h : Host} {d : Disk} {program file : Path} :
    (probe h d program file).2 = .endless ↔ GivesEndless h d program file := by
  unfold probe GivesEndless
  cases h.fileExists d file with
  | false => simp
  | true =>
    cases h.spawn d program (probeArgs.map Text.encode ++ [file.bytes]) with
    | mk d' outcome =>
      cases outcome with
      | error e => simp
      | ok c => simp [judgeReport_eq_endless_iff]

end Tool

namespace Studio

variable {h : Host} {d : Disk} {s : Studio} {file : Path}

theorem look_snd : (s.look h d file).2 = match (Tool.probe h d s.prober file).2 with
    | .described m => some m.source
    | .failed _ => some .unknown
    | .endless => none := by
  unfold look
  cases Tool.probe h d s.prober file with
  | mk d' p => cases p <;> rfl

theorem look_eq_none_iff :
    (s.look h d file).2 = none ↔ Tool.GivesEndless h d s.prober file := by
  rw [look_snd, ← Tool.probe_eq_endless_iff]
  cases (Tool.probe h d s.prober file).2 <;> simp

end Studio

/-! ## Tasks -/

namespace Program

variable {h : Host} {d : Disk} {α : Type}

@[simp] theorem ending_say (lines : List String) : (say d lines).ending = .done := rfl

@[simp] theorem ending_fail (f : Failure) : (fail d f).ending = .failed f := rfl

@[simp] theorem ending_after (before : String) (p : Performance) :
    (after before p).ending = p.ending := rfl

@[simp] theorem given_brokenOff_iff {r : Except Failure α} {f : α → Performance} :
    (given d r f).ending = .brokenOff ↔ ∃ a, r = .ok a ∧ (f a).ending = .brokenOff := by
  cases r <;> simp [given]

@[simp] theorem withStudio_brokenOff_iff {config : Option Path}
    {f : Config → Studio → Performance} :
    (withStudio h d config f).ending = .brokenOff ↔ ∃ c, Config.find h d config = .ok c ∧
      ∃ s, Studio.ofConfig h d c = .ok s ∧ (f c s).ending = .brokenOff := by
  simp [withStudio]

theorem showCommand_ne_brokenOff {json : Bool} {r : Except CompileError Command} :
    (showCommand d json r).ending ≠ .brokenOff := by
  cases r <;> simp [showCommand]

theorem runJobs_ne_brokenOff {s : Studio} {jobs : List Job} :
    (runJobs h d s jobs).ending ≠ .brokenOff := by
  unfold runJobs
  dsimp only
  split <;> simp

theorem showMedia_ne_brokenOff {m : Media} {json : Bool} :
    (showMedia d m json).ending ≠ .brokenOff := by
  unfold showMedia
  split
  · split <;> simp
  · simp

theorem showConfig_ne_brokenOff {c : Config} : (showConfig d c).ending ≠ .brokenOff := by
  simp [showConfig]

theorem endless_of_compile {config : Option Path} {input output : Path} {preset : String}
    {overrides : List Assignment} {size : Option FrameSize} {rate : Option Binary64} {json : Bool}
    (hp : (compile h d config input output preset overrides size rate json).ending = .brokenOff) :
    ∃ program, Tool.GivesEndless h d program input := by
  obtain ⟨c, -, s, -, hp⟩ := withStudio_brokenOff_iff.1 hp
  have hsource : (sourceOf h d s input size rate).2 = none := by
    cases hs : sourceOf h d s input size rate with
    | mk d' source =>
      cases source with
      | none => rfl
      | some source =>
        rw [hs] at hp
        exact absurd hp showCommand_ne_brokenOff
  unfold sourceOf at hsource
  split at hsource
  · exact ⟨s.prober, Studio.look_eq_none_iff.1 hsource⟩
  · cases hsource

theorem endless_of_encode {config : Option Path} {input : Path} {outputDir : Option Path}
    {names : List String} {overrides : List Assignment} {dryRun : Bool}
    (hp : (encode h d config input outputDir names overrides dryRun).ending = .brokenOff) :
    ∃ program, Tool.GivesEndless h d program input := by
  obtain ⟨c, -, s, -, hp⟩ := withStudio_brokenOff_iff.1 hp
  have hlook : (s.look h d input).2 = none := by
    split at hp
    · cases hp
    · cases hl : s.look h d input with
      | mk d' source =>
        cases source with
        | none => rfl
        | some source =>
          rw [hl] at hp
          obtain ⟨jobs, -, hp⟩ := given_brokenOff_iff.1 hp
          split at hp
          · cases hp
          · exact absurd hp runJobs_ne_brokenOff
  exact ⟨s.prober, Studio.look_eq_none_iff.1 hlook⟩

theorem endless_of_probe {config : Option Path} {file : Path} {json : Bool}
    (hp : (probe h d config file json).ending = .brokenOff) :
    ∃ program, Tool.GivesEndless h d program file := by
  unfold probe at hp
  split at hp
  · cases hp
  · obtain ⟨c, -, hp⟩ := given_brokenOff_iff.1 hp
    refine ⟨c.ffprobePath.getD (.ofText Tool.ffprobe.name), Tool.probe_eq_endless_iff.1 ?_⟩
    cases ha : Tool.probe h d (c.ffprobePath.getD (.ofText Tool.ffprobe.name)) file with
    | mk d' answer =>
      rw [ha] at hp
      cases answer with
      | described m => exact absurd hp showMedia_ne_brokenOff
      | failed e => cases hp
      | endless => rfl

theorem presets_ne_brokenOff {config : Option Path} {name : Option String} {json : Bool} :
    (presets h d config name json).ending ≠ .brokenOff := by
  intro hp
  obtain ⟨c, -, s, -, hp⟩ := withStudio_brokenOff_iff.1 hp
  cases name with
  | none => cases hp
  | some name =>
    dsimp only [showPreset] at hp
    split at hp <;> cases hp

theorem validate_ne_brokenOff {config : Option Path} :
    (validate h d config).ending ≠ .brokenOff := by
  cases config <;> simp [validate, showConfig_ne_brokenOff]

theorem checkTools_ne_brokenOff {config : Option Path} :
    (checkTools h d config).ending ≠ .brokenOff := by
  simp [checkTools]

/-- **A task is broken off** for no other reason than an endless report. -/
theorem endless_of_brokenOff {i : Invocation} (hp : (perform h d i).ending = .brokenOff) :
    ∃ program file, Tool.GivesEndless h d program file := by
  unfold perform at hp
  cases hi : i.task with
  | compile input =>
    rw [hi] at hp
    obtain ⟨program, h⟩ := endless_of_compile hp
    exact ⟨program, input, h⟩
  | encode input =>
    rw [hi] at hp
    obtain ⟨program, h⟩ := endless_of_encode hp
    exact ⟨program, input, h⟩
  | presets =>
    rw [hi] at hp
    exact absurd hp presets_ne_brokenOff
  | probe file =>
    rw [hi] at hp
    obtain ⟨program, h⟩ := endless_of_probe hp
    exact ⟨program, file, h⟩
  | checkTools =>
    rw [hi] at hp
    exact absurd hp checkTools_ne_brokenOff
  | validate =>
    rw [hi] at hp
    exact absurd hp validate_ne_brokenOff
  | version =>
    rw [hi] at hp
    cases hp

theorem brokenOff_of_exitCode {args : List String} (hrun : (run h d args).exitCode = 101) :
    ∃ i, Invocation.ofArgs args = .ok i ∧ (perform h d i).ending = .brokenOff := by
  unfold run at hrun
  cases hi : Invocation.ofArgs args with
  | error e =>
    rw [hi] at hrun
    cases e <;> cases hrun
  | ok i =>
    rw [hi] at hrun
    refine ⟨i, rfl, ?_⟩
    dsimp only at hrun
    split at hrun
    · cases hrun
    · cases hrun
    · assumption

end Program

/-- **Every report is answered unless it is endless.**  A text is described if it is a
    report whose duration is not too long for a clock, whatever its other texts say,
    and refused if it is no report.  So a source is looked at, and unknown where its
    prober fails, but for an endless report; and for no other reason a run of the
    program is broken off. -/
theorem answered_unless_endless (h : Host) (d : Disk) (s : Studio) (file : Path) (text : String)
    (args : List String) :
    ((∃ m, Media.ofReportText file text = .ok m) ↔
      ∃ r, Media.Report.ofText? text = some r ∧ ¬ r.IsEndless) ∧
    (Media.ofReportText file text = .error .malformed ↔ Media.Report.ofText? text = none) ∧
    ((s.look h d file).2 = none ↔ Tool.GivesEndless h d s.prober file) ∧
    (∀ source, (s.look h d file).2 = some source ↔
      (∃ m, (Tool.probe h d s.prober file).2 = .described m ∧ source = m.source) ∨
      ∃ e, (Tool.probe h d s.prober file).2 = .failed e ∧ source = .unknown) ∧
    ((Program.run h d args).exitCode = 101 →
      ∃ program input, Tool.GivesEndless h d program input) := by
  refine ⟨Media.exists_ofReportText_iff, ?_, Studio.look_eq_none_iff, ?_, ?_⟩
  · simp [Media.ofReportText_eq_error_iff]
  · intro source
    rw [Studio.look_snd]
    cases (Tool.probe h d s.prober file).2 <;> simp [eq_comm]
  · intro hrun
    obtain ⟨i, -, hp⟩ := Program.brokenOff_of_exitCode hrun
    exact Program.endless_of_brokenOff hp

/-- A report of nothing but a duration. -/
def durationReport (duration : String) : String :=
  "\x7b\"format\":\x7b\"duration\":\"" ++ duration ++ "\"\x7d\x7d"

/-- A host with a prober that prints a text. -/
def reportingHost (text : String) : Host :=
  { Host.bare with searchPath := ["/path"] }.withScripts
    [⟨false, false, Text.encode text, [], .code 0⟩]

/-- A disk with a prober and a clip. -/
def reportedClip : Disk :=
  ⟨[([Text.encode "path"], .directory),
    ([Text.encode "path", Text.encode "ffprobe"], .program 0 []),
    ([Text.encode "clip.mov"], .file [])]⟩

theorem answered_unless_endless_clip :
    (∃ m, Media.ofReportText "clip.mov" (durationReport "-1e400") = .ok m) ∧
    Media.ofReportText "clip.mov" "[" = .error .malformed ∧
    (Program.run (reportingHost (durationReport "1e20")) reportedClip
      ["probe", "clip.mov"]).exitCode = 101 ∧
    ∃ program file,
      Tool.GivesEndless (reportingHost (durationReport "1e20")) reportedClip program file := by
  let h := reportingHost (durationReport "1e20")
  let s : Studio := ⟨.ofRegistry .builtin, "ffprobe", .empty⟩
  have hrun : (Program.run h reportedClip ["probe", "clip.mov"]).exitCode = 101 := by
    decide +kernel
  obtain ⟨hdescribed, -, -, -, hruns⟩ := answered_unless_endless h reportedClip s "clip.mov"
    (durationReport "-1e400") ["probe", "clip.mov"]
  obtain ⟨-, hrefused, -⟩ := answered_unless_endless h reportedClip s "clip.mov" "[" []
  have hread : ∃ r ∈ Media.Report.ofText? (durationReport "-1e400"), ¬ r.IsEndless := by
    decide +kernel
  obtain ⟨r, hr, hend⟩ := hread
  have hnone : (Media.Report.ofText? "[").isNone = true := by decide +kernel
  exact ⟨hdescribed.2 ⟨r, hr, hend⟩, hrefused.2 (Option.isNone_iff_eq_none.1 hnone), hrun,
    hruns hrun⟩

/-- **A duration that no clock holds** is given up although it passes for a duration,
    and the command that asked for it is broken off. -/
theorem endless_report_breaks_off :
    Media.ofReportText "clip.mov" (durationReport "1e20") = .error .endless ∧
    (Program.run (reportingHost (durationReport "1e20")) reportedClip
      ["encode", "clip.mov"]).exitCode = 101 := by
  have hread : ∃ r ∈ Media.Report.ofText? (durationReport "1e20"), r.IsEndless := by
    decide +kernel
  refine ⟨Media.ofReportText_eq_error_iff.2 (Or.inr ⟨rfl, hread⟩), ?_⟩
  decide +kernel

end Transcode
