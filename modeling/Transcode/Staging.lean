/-
  Transcode — outputs in the making.

  An output is written in a directory of its own, next to where it is to go, and
  is moved there when it is complete: a failed or broken-off run leaves nothing
  half done behind.

  `finalize` publishes the output.  What is at the destination is renamed first
  (`backup`), put back when the output cannot be moved, and removed at the end.
  The staging directory is gone afterwards, whatever happens.
-/
import Transcode.Host
import Transcode.Tool.Error

namespace Transcode

open Text (Bytes)

/-- A staging directory and the output that is made in it. -/
structure Staging where
  directory : Path
  destination : Path
  /-- Where the output is written. -/
  output : Path
  deriving DecidableEq, Repr

namespace Staging

/-! ## Names -/

/-- What the names of staging directories begin with. -/
def namePrefix : String := ".mp4forge-"

/-- What the staging directory of a code is called. -/
def directoryName (code : String) : Path :=
  .ofText (namePrefix ++ code)

/-- The staging directory of a code in a directory. -/
def directoryIn (parent : Path) (code : String) : Path :=
  parent.join (directoryName code)

/-! ## The life of a staging directory -/

/-- The directory that an output goes to. -/
def parentOf (destination : Path) : Path :=
  match destination.parent? with
  | some p => if p.bytes.isEmpty then "." else p
  | none => "."

/-- Make a staging directory for a destination, under a name with the code that the
    host gives to it. -/
def prepare (h : Host) (d : Disk) (destination : Path) : Except ToolError (Disk × Staging) :=
  match destination.fileName? with
  | none => .error (.namelessOutput destination)
  | some name =>
    let parent := parentOf destination
    if !h.isDirectory d parent then .error (.staging (.noDirectory parent))
    else
      let parent := h.absolute parent
      let directory := directoryIn parent (h.code d parent)
      match h.makeDirectory d directory with
      | .error e => .error (.staging (.notMade e directory))
      | .ok d' => .ok (d', ⟨directory, destination, directory.join ⟨name⟩⟩)

/-- Leave nothing of the staging directory. -/
def discard (h : Host) (d : Disk) (s : Staging) : Disk :=
  (h.removeTree d s.directory).1

/-- Where what is at the destination is kept while the output is moved. -/
def backup (s : Staging) : Path :=
  s.destination.withExtension "bak"

/-- The disk after an operation, or before one that fails. -/
def afterwards (d : Disk) : Except IoError Disk → Disk
  | .ok d' => d'
  | .error _ => d

/-- Move the output over what is at the destination. -/
def replace (h : Host) (d : Disk) (s : Staging) : Disk × Except ToolError Path :=
  match h.rename d s.destination s.backup with
  | .error e => (d, .error (.staging (.notBackedUp e)))
  | .ok d₁ => match h.rename d₁ s.output s.destination with
    | .error e =>
      (afterwards d₁ (h.rename d₁ s.backup s.destination), .error (.staging (.notMoved e)))
    | .ok d₂ => (afterwards d₂ (h.removeFile d₂ s.backup), .ok s.destination)

/-- Move the output to a destination where nothing is. -/
def place (h : Host) (d : Disk) (s : Staging) : Disk × Except ToolError Path :=
  match h.rename d s.output s.destination with
  | .error e => (d, .error (.staging (.notMoved e)))
  | .ok d' => (d', .ok s.destination)

/-- Move the output to its destination. -/
def publish (h : Host) (d : Disk) (s : Staging) : Disk × Except ToolError Path :=
  if !h.fileExists d s.output then (d, .error (.staging (.noOutput s.output)))
  else if h.fileExists d s.destination then replace h d s
  else place h d s

/-- Publish the output, and be done with the staging directory. -/
def finalize (h : Host) (d : Disk) (s : Staging) : Disk × Except ToolError Path :=
  let (d', r) := publish h d s
  (discard h d' s, r)

end Staging

end Transcode
