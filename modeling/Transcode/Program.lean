/-
  Transcode — the program.

  A run of the program reads its arguments, does one task on a host, and ends with
  what it has printed and an exit code: 0 when the task is done, 1 with a report
  when it fails, 2 when the arguments ask for no task, and 101 when it is broken
  off because a duration cannot be dealt with.
-/
import Transcode.CommandLine.Commands
import Transcode.Config.Load
import Transcode.Studio
import Transcode.Json.Writer

namespace Transcode

/-- How a task ends. -/
inductive Ending where
  | done
  | failed (f : Failure)
  | brokenOff

/-- What comes of a task: the disk, what has been printed, and how it ends. -/
structure Performance where
  disk : Disk
  printed : String
  ending : Ending

/-- What comes of a run of the program. -/
structure Result where
  disk : Disk
  exitCode : Nat
  stdout : String
  stderr : String

namespace Program

/-- The name and the version of the program. -/
def versionLine : String := "mp4forge 0.1.0\n"

/-! ## Printing -/

/-- Lines, each with its end. -/
def lines (ls : List String) : String :=
  String.join (ls.map (· ++ "\n"))

/-- A text with blanks behind it, at least `width` characters in all. -/
def padded (width : Nat) (s : String) : String :=
  s ++ String.ofList (List.replicate (width - s.length) ' ')

/-- A number in decimal. -/
def number (n : Nat) : String :=
  String.ofList (digitsOf n)

/-- A number of at least two digits. -/
def twoDigits (n : Nat) : String :=
  String.ofList (zeros (2 - (digitsOf n).length) ++ digitsOf n)

/-- Print lines, and be done. -/
def say (d : Disk) (ls : List String) : Performance :=
  ⟨d, lines ls, .done⟩

/-- Fail with nothing printed. -/
def fail (d : Disk) (f : Failure) : Performance :=
  ⟨d, "", .failed f⟩

/-- Go on with what is given, or fail. -/
def given {α : Type} (d : Disk) (r : Except Failure α) (f : α → Performance) : Performance :=
  match r with
  | .ok a => f a
  | .error e => fail d e

/-- Print before all else. -/
def after (before : String) (p : Performance) : Performance :=
  { p with printed := before ++ p.printed }

/-- The configuration and the studio of it. -/
def withStudio (h : Host) (d : Disk) (config : Option Path) (f : Config → Studio → Performance) :
    Performance :=
  given d (Config.find h d config) fun c => given d (Studio.ofConfig h d c) (f c)

/-- Settings as a document, in the order of their names. -/
def sortedSettings (m : Settings) : Document :=
  .table (NameTable.ofList (m.toList.map fun (s, v) => (s.name, v.toDocument))).entries

/-! ## Compiling -/

/-- A command as a document. -/
def commandDocument (c : Command) : Document :=
  .table [("args", .list (c.args.map .text)), ("profile", sortedSettings c.profile.settings),
    ("program", .text c.program)]

/-- The source: as it is described, or else as it is. -/
def sourceOf (h : Host) (d : Disk) (s : Studio) (input : Path) (size : Option FrameSize)
    (rate : Option Binary64) : Disk × Option Source :=
  if size.isNone && rate.isNone then s.look h d input
  else (d, some ⟨size.map (·.width), size.map (·.height), rate⟩)

/-- Show a command, or fail with the reason why there is none. -/
def showCommand (d : Disk) (json : Bool) : Except CompileError Command → Performance
  | .error e => fail d e
  | .ok c => say d [if json then (commandDocument c).pretty else c.line]

/-- Show the command for one output. -/
def compile (h : Host) (d : Disk) (config : Option Path) (input output : Path) (preset : String)
    (overrides : List Assignment) (size : Option FrameSize) (rate : Option Binary64)
    (json : Bool) : Performance :=
  withStudio h d config fun _ s =>
    match sourceOf h d s input size rate with
    | (d, none) => ⟨d, "", .brokenOff⟩
    | (d, some source) =>
      showCommand d json
        (s.encoder.compile ⟨preset, s.merged (.ofList overrides), source, input, output⟩)

/-! ## Encoding -/

/-- The line that announces a job. -/
def announcement (count i : Nat) (j : Job) : String :=
  s!"[{number (i + 1)}/{number count}] {j.preset} -> {j.destination.display}"

/-- The lines about jobs of which the first `done` are done; the next has failed. -/
def progress (count : Nat) : Nat → List Job → List Path → List String
  | _, [], _ => []
  | i, j :: _, [] => [announcement count i j]
  | i, j :: js, p :: ps =>
    announcement count i j :: s!"  done: {p.display}" :: progress count (i + 1) js ps

/-- Run the jobs of a plan. -/
def runJobs (h : Host) (d : Disk) (s : Studio) (jobs : List Job) : Performance :=
  let b := s.runAll h d jobs
  let told := lines (progress jobs.length 0 jobs b.done)
  match b.failure with
  | some f => ⟨b.disk, told, .failed f⟩
  | none => ⟨b.disk, told ++ "\nProcessing complete!\n", .done⟩

/-- Show the jobs of a plan. -/
def showJobs (d : Disk) (jobs : List Job) : Performance :=
  say d (jobs.map (fun j => s!"[{j.preset}] {j.command.line}") ++
    ["", s!"[DRY RUN] Would produce {number jobs.length} files"])

/-- Where outputs go: as it is said, or configured, or next to the input. -/
def outputDirOf (named configured : Option Path) (input : Path) : Path :=
  ((named.or configured).or input.parent?).getD ⟨[]⟩

/-- Make an output for each preset. -/
def encode (h : Host) (d : Disk) (config : Option Path) (input : Path) (outputDir : Option Path)
    (presets : List String) (overrides : List Assignment) (dryRun : Bool) : Performance :=
  withStudio h d config fun c s =>
    if !h.fileExists d input then
      fail d (.saying s!"Input file does not exist: {input.quoted}")
    else match s.look h d input with
      | (d, none) => ⟨d, "", .brokenOff⟩
      | (d, some source) =>
        let presets := if presets.isEmpty then c.encodePresets else presets
        let dir := outputDirOf outputDir c.outputDir input
        given d (s.plan input dir presets (.ofList overrides) source) fun jobs =>
          if dryRun then showJobs d jobs else runJobs h d s jobs

/-! ## Presets -/

/-- What stands behind a setting that the preset does not give. -/
def defaultMark : String := "  (default)"

/-- The line of a setting of a profile. -/
def settingLine (p : Preset) (row : Setting × Value) : String :=
  s!"  {padded 20 row.1.name} {row.2.plain}" ++
    if p.settings.contains row.1 then "" else defaultMark

/-- The line that names a preset. -/
def presetHeading (p : Preset) : String :=
  match p.aliasOf with
  | some target => s!"{p.name} (alias of {target})"
  | none => p.name

/-- The lines of a preset and its profile. -/
def profileLines (p : Preset) (profile : Profile) : List String :=
  presetHeading p :: profile.settings.toList.map (settingLine p)

/-- **A profile is shown whole**, and nothing but it below the heading. -/
theorem mem_profileLines_iff {p : Preset} {profile : Profile} {line : String} :
    line ∈ profileLines p profile ↔
      line = presetHeading p ∨
        ∃ s v, profile.settings.get? s = some v ∧ line = settingLine p (s, v) := by
  simp only [profileLines, List.mem_cons, List.mem_map, Prod.exists, Settings.mem_toList_iff,
    eq_comm]

theorem length_profileLines (p : Preset) (profile : Profile) :
    (profileLines p profile).length = profile.settings.size + 1 := by
  rw [profileLines, List.length_cons, List.length_map, Settings.size]

/-- The line of a preset in a list. -/
def presetLine (p : Preset) : String :=
  match p.aliasOf with
  | some target => s!"{padded 10 p.name} -> {target}"
  | none =>
    let settings := p.settings.toList.map fun (s, v) => s!"{s.name}={v.plain}"
    s!"{padded 10 p.name} " ++ " ".intercalate settings

/-- Presets as a document. -/
def registryDocument (r : Registry) : Document :=
  .table (r.presets.entries.map fun (n, p) => (n, sortedSettings p.settings))

/-- Show the profile of a preset. -/
def showPreset (d : Disk) (c : Config) (s : Studio) (name : String) (json : Bool) : Performance :=
  match s.encoder.registry.lookup name, s.encoder.resolve name c.overrides with
  | .error e, _ => fail d e
  | .ok _, .error e => fail d e
  | .ok p, .ok profile =>
    say d (if json then [profile.settings.toDocument.pretty] else profileLines p profile)

/-- List the presets, or show the profile of one. -/
def presets (h : Host) (d : Disk) (config : Option Path) (name : Option String) (json : Bool) :
    Performance :=
  withStudio h d config fun c s =>
    match name with
    | some name => showPreset d c s name json
    | none =>
      let r := s.encoder.registry
      say d (if json then [(registryDocument r).pretty] else r.toList.map presetLine)

/-! ## Probing -/

/-- A duration as hours, minutes and seconds. -/
def clock (duration : Nat) : String :=
  let seconds := duration / Media.nanosecond
  let minutes := seconds / 60
  s!"{twoDigits (minutes / 60)}:{twoDigits (minutes % 60)}:{twoDigits (seconds % 60)}"

/-- The line of a video track, the `i`-th of them. -/
def videoLine (i : Nat) (t : VideoTrack) : String :=
  s!"  [{number i}] {t.codec} {t.frame.plain}" ++
    match t.frameRate with
    | some r => s!", {String.ofList (r.fixed 3)} fps"
    | none => ""

/-- The line of an audio track, the `i`-th of them. -/
def audioLine (i : Nat) (t : AudioTrack) : String :=
  s!"  [{number i}] {t.codec} {number t.channels.toNat}ch" ++
    match t.sampleRate with
    | some r => s!" {number r.toNat} Hz"
    | none => ""

/-- The lines about a media file. -/
def mediaLines (m : Media) : List String :=
  [s!"File: {m.file.display}", s!"Container: {m.container}", s!"Size: {number m.size} bytes"] ++
    (m.duration.map fun t => s!"Duration: {clock t}").toList ++
    ["", s!"Video Tracks: {number m.video.length}"] ++ m.video.mapIdx videoLine ++
    ["", s!"Audio Tracks: {number m.audio.length}"] ++ m.audio.mapIdx audioLine

/-- Show what is in a file. -/
def showMedia (d : Disk) (m : Media) (json : Bool) : Performance :=
  if json then
    match Text.decode m.file.bytes with
    | .ok file => say d [(m.toDocument file).pretty]
    | .error _ => fail d (.saying "path contains invalid UTF-8 characters")
  else say d (mediaLines m)

/-- Ask the prober about a file. -/
def probe (h : Host) (d : Disk) (config : Option Path) (file : Path) (json : Bool) :
    Performance :=
  if !h.fileExists d file then fail d (.saying s!"File does not exist: {file.quoted}")
  else given d (Config.find h d config) fun c =>
    match Tool.probe h d (c.ffprobePath.getD (.ofText Tool.ffprobe.name)) file with
    | (d, .described m) => showMedia d m json
    | (d, .failed e) => fail d e
    | (d, .endless) => ⟨d, "", .brokenOff⟩

/-! ## Tools -/

/-- The lines about a tool. -/
def statusLines (s : Tool.Status) : List String :=
  let mark := if s.isAvailable then "✓" else "✗"
  let version := (s.version.map fun v => s!" ({v})").getD ""
  let path := (s.path.map fun p => s!" - {p.display}").getD ""
  [s!"{mark} {s.tool.name}{version}{path}", s!"    {s.tool.purpose}"]

/-- What the state of the tools comes to. -/
def verdict (statuses : List Tool.Status) : String :=
  if statuses.any fun s => s.tool.isRequired && !s.isAvailable then
    "ffmpeg is missing: encode cannot run. \x60compile\x60 still works."
  else if statuses.all (·.isAvailable) then "All tools are available!"
  else "ffprobe is missing: encode only works for presets that copy the video stream."

/-- Check the tools. -/
def checkTools (h : Host) (d : Disk) (config : Option Path) : Performance :=
  given d (Config.find h d config) fun c =>
    let (d, statuses) := Tool.checkAll h d fun
      | .ffmpeg => c.ffmpegPath
      | .ffprobe => c.ffprobePath
    say d (["Checking external tools...", ""] ++ statuses.flatMap statusLines ++
      ["", verdict statuses])

/-! ## Configurations -/

/-- The lines about a configuration. -/
def configLines (c : Config) (r : Registry) : List String :=
  [s!"  Presets: {number r.size} ({number c.presets.size} custom)",
    "  Encode presets: " ++ ", ".intercalate c.encodePresets,
    s!"  Global overrides: {number c.overrides.size}"] ++
    (c.outputDir.map fun p => s!"  Output directory: {p.display}").toList

/-- Show what is in a configuration. -/
def showConfig (d : Disk) (c : Config) : Performance :=
  given d c.registry fun r => say d (configLines c r)

/-- Validate a configuration file. -/
def validate (h : Host) (d : Disk) (config : Option Path) : Performance :=
  match config with
  | none => after "No config file specified, using defaults\n" (showConfig d .standard)
  | some p =>
    after (lines [s!"Validating config: {p.quoted}"])
      (given d (Config.load h d p) fun c =>
        after "✓ Configuration is valid\n" (showConfig d c))

/-! ## The whole program -/

/-- Do a task. -/
def perform (h : Host) (d : Disk) (i : Invocation) : Performance :=
  match i.task with
  | .compile input output preset overrides size rate json =>
    compile h d i.config input output preset overrides size rate json
  | .encode input outputDir names overrides dryRun =>
    encode h d i.config input outputDir names overrides dryRun
  | .presets name json => presets h d i.config name json
  | .probe file json => probe h d i.config file json
  | .checkTools => checkTools h d i.config
  | .validate config => validate h d config
  | .version => ⟨d, versionLine, .done⟩

/-- What the program says of itself when it is asked for help. -/
def usage : String :=
  lines (["Compile encoding presets into ffmpeg invocations for MP4 output", "",
    "Usage: mp4forge [-c FILE] [-v] COMMAND ...", "", "Commands:"] ++
    CommandLine.commandNames.map ("  " ++ ·))

/-- What is printed where the arguments ask for no task. -/
def refusal : ArgumentError → String
  | .refused message => s!"error: {message}\n"
  | .missingValue => "error: a value is required\n"
  | .surplusValue => "error: unexpected value\n"
  | .unknownArgument => "error: unexpected argument\n"
  | .unknownCommand => "error: unrecognized subcommand\n"
  | .missingArgument => "error: required arguments were not provided\n"
  | .missingCommand => "error: a subcommand is required\n"
  | .repeated => "error: an argument cannot be used multiple times\n"
  | .nothingGiven => usage
  | .help | .version => ""

/-- Run the program. -/
def run (h : Host) (d : Disk) (args : List String) : Result :=
  match Invocation.ofArgs args with
  | .error .help => ⟨d, 0, usage, ""⟩
  | .error .version => ⟨d, 0, versionLine, ""⟩
  | .error e => ⟨d, 2, "", refusal e⟩
  | .ok i =>
    let p := perform h d i
    match p.ending with
    | .done => ⟨p.disk, 0, p.printed, ""⟩
    | .failed f => ⟨p.disk, 1, p.printed, f.report ++ "\n"⟩
    | .brokenOff => ⟨p.disk, 101, p.printed, ""⟩

end Program

end Transcode
