/-
  Transcode — the external programs.

  One program encodes, the other reports what is in a file.  Each is taken from
  its configured path, when anything is there, and is looked for in the search
  path otherwise.  A tool is available when it answers `-version`.
-/
import Transcode.Host
import Transcode.Tool.Error
import Transcode.Text.Lines

namespace Transcode

/-- The external programs. -/
inductive Tool where
  | ffmpeg
  | ffprobe
  deriving DecidableEq, Repr

namespace Tool

/-- The two tools. -/
def all : List Tool := [ffmpeg, ffprobe]

/-- The name that a tool is looked for by. -/
def name : Tool → String
  | ffmpeg => "ffmpeg"
  | ffprobe => "ffprobe"

/-- What a tool is for. -/
def purpose : Tool → String
  | ffmpeg => "runs the compiled encode commands"
  | ffprobe => "reads source frame size and frame rate"

/-- Whether nothing can be encoded without it. -/
def isRequired : Tool → Bool
  | ffmpeg => true
  | ffprobe => false

/-! ## Where tools are -/

/-- The path of a program: the configured one, when anything is there, or else the
    one that is found by its name. -/
def pathOf (h : Host) (d : Disk) (name : String) (configured : Option Path) :
    Except ToolError Path :=
  match configured.filter (h.fileExists d), h.which? d (.ofText name) with
  | some p, _ => .ok p
  | none, some p => .ok p
  | none, none => .error (.toolNotFound name)

/-- The path of a tool. -/
def locate (h : Host) (d : Disk) (t : Tool) (configured : Option Path) : Except ToolError Path :=
  pathOf h d t.name configured

/-! ## Versions -/

/-- The word behind the first `version` that has one behind it. -/
def versionWord? : List (List Char) → Option (List Char)
  | w :: v :: ws => if w = "version".toList then some v else versionWord? (v :: ws)
  | _ => none

/-- The version in the first line of what a tool answers: the word behind
    `version`, or else the whole line. -/
def versionOf (line : String) : String :=
  String.ofList ((versionWord? (Text.words line.toList)).getD (Text.trimmed line.toList))

/-- The first line of a text. -/
def firstLine (text : String) : String :=
  String.ofList (text.toList.takeWhile (· ≠ '\n'))

/-- What is known about a tool. -/
structure Status where
  tool : Tool
  path : Option Path
  version : Option String

/-- A tool is available when it answers. -/
def Status.isAvailable (s : Status) : Bool :=
  s.version.isSome

/-- The version that the program at a path answers with. -/
def askVersion (h : Host) (d : Disk) (p : Path) : Disk × Option String :=
  match h.spawn d p [Text.encode "-version"] with
  | (d', .ok c) =>
    (d', if c.status = .code 0 then some (versionOf (firstLine (Text.decodeLossy c.stdout)))
      else none)
  | (d', .error _) => (d', none)

/-- Look for a tool, and ask it for its version. -/
def check (h : Host) (d : Disk) (t : Tool) (configured : Option Path) : Disk × Status :=
  match locate h d t configured with
  | .error _ => (d, ⟨t, none, none⟩)
  | .ok p =>
    let (d', version) := askVersion h d p
    (d', ⟨t, some p, version⟩)

/-- Check both tools. -/
def checkAll (h : Host) (d : Disk) (configured : Tool → Option Path) : Disk × List Status :=
  let (d, encoder) := check h d .ffmpeg (configured .ffmpeg)
  let (d, prober) := check h d .ffprobe (configured .ffprobe)
  (d, [encoder, prober])

end Tool

end Transcode
