/-
  Transcode — making several outputs of one source.

  A studio is an encoder with the tools and the overrides of a configuration.  It
  looks at a source, plans a job for each preset, and runs the jobs one by one.
  Planning is pure; a plan has a job for each preset, or there is no plan.

  A job is compiled against its destination when it is planned, and once more
  against the file in the staging directory when it is run.
-/
import Transcode.Encoder
import Transcode.Config
import Transcode.Staging
import Transcode.Tool.Run
import Transcode.Studio.Destination

namespace Transcode

/-- An encoder, the tools and the overrides of a configuration. -/
structure Studio where
  encoder : Encoder
  prober : Path
  overrides : Settings

/-- One output to make. -/
structure Job where
  preset : String
  request : Request
  /-- The command for the destination itself. -/
  command : Command

/-- Where the output of a job goes. -/
def Job.destination (j : Job) : Path :=
  j.request.output

namespace Studio

/-- The path of a tool, or its bare name if it is nowhere to be found. -/
def toolPath (h : Host) (d : Disk) (t : Tool) (configured : Option Path) : Path :=
  match t.locate h d configured with
  | .ok p => p
  | .error _ => .ofText t.name

/-- The studio of a configuration. -/
def ofConfig (h : Host) (d : Disk) (c : Config) : Except Failure Studio :=
  c.registry.map fun r =>
    ⟨⟨r, Recipe.standard, (toolPath h d .ffmpeg c.ffmpegPath).display⟩,
      toolPath h d .ffprobe c.ffprobePath, c.overrides⟩

/-- What is known about a source.  A report that cannot be had says nothing; there
    is no answer at all if its duration cannot be dealt with. -/
def look (h : Host) (d : Disk) (s : Studio) (file : Path) : Disk × Option Source :=
  match Tool.probe h d s.prober file with
  | (d', .described m) => (d', some m.source)
  | (d', .failed _) => (d', some .unknown)
  | (d', .endless) => (d', none)

/-- The overrides of the configuration under those of a caller. -/
def merged (s : Studio) (overrides : Settings) : Settings :=
  overrides.layeredOn s.overrides

/-! ## Planning -/

/-- The request for a preset. -/
def request (s : Studio) (input outputDir : Path) (overrides : Settings) (source : Source)
    (preset : String) : Request :=
  ⟨preset, s.merged overrides, source, input,
    Transcode.destination input outputDir preset Encoder.fileExtension⟩

/-- What is being attempted when a preset is compiled. -/
def compiling (input : Path) (source : Source) (preset : String) : String :=
  if source.size.isSome then s!"Preset '{preset}' does not compile"
  else s!"Preset '{preset}' does not compile for {input.quoted}: source frame size is unknown"

/-- The job of a preset. -/
def job (s : Studio) (input outputDir : Path) (overrides : Settings) (source : Source)
    (preset : String) : Except Failure Job :=
  let r := s.request input outputDir overrides source preset
  match s.encoder.compile r with
  | .ok c => .ok ⟨preset, r, c⟩
  | .error e => .error (Failure.whilst (compiling input source preset) e)

/-- A job for each preset, or the failure of the first that does not compile. -/
def plan (s : Studio) (input outputDir : Path) (presets : List String) (overrides : Settings)
    (source : Source) : Except Failure (List Job) :=
  presets.mapM (s.job input outputDir overrides source)

/-! ## Running -/

/-- Run the encoder into a staging directory. -/
def runStaged (h : Host) (d : Disk) (s : Studio) (j : Job) (st : Staging) :
    Disk × Except Failure Unit :=
  match s.encoder.compile { j.request with output := st.output } with
  | .error e => (d, .error e)
  | .ok c => match Tool.run h d (.ofText c.program) c.args with
    | (d', .ok _) => (d', .ok ())
    | (d', .error e) => (d', .error (Failure.whilst s!"Encoding preset '{j.preset}' failed" e))

/-- Run a job: the output is at its destination, or nothing has become of it. -/
def run (h : Host) (d : Disk) (s : Studio) (j : Job) : Disk × Except Failure Path :=
  match Staging.prepare h d j.destination with
  | .error e => (d, .error e)
  | .ok (d₁, st) => match s.runStaged h d₁ j st with
    | (d₂, .error e) => (st.discard h d₂, .error e)
    | (d₂, .ok ()) =>
      let (d₃, r) := st.finalize h d₂
      (d₃, r.mapError fun e => .ofCause (.tool e))

/-- What has become of a plan. -/
structure Batch where
  disk : Disk
  /-- The outputs that are at their destinations, in order. -/
  done : List Path
  failure : Option Failure

/-- Run jobs one by one, up to the first that fails. -/
def runAll (h : Host) (s : Studio) (d : Disk) : List Job → Batch
  | [] => ⟨d, [], none⟩
  | j :: js => match s.run h d j with
    | (d', .error e) => ⟨d', [], some e⟩
    | (d', .ok p) =>
      let b := s.runAll h d' js
      { b with done := p :: b.done }

end Studio

end Transcode
