/-
  Transcode — the executable.

  The program itself is `Program.run`, which works on a disk that it is given.  Here
  the disk holds what the machine has at the paths that a command line asks about,
  taken once in front of the run; nothing is written back.

  No other program is started.  The tools therefore count as missing: commands are
  shown, and presets and configurations checked, but nothing is encoded or probed.
-/
import Transcode.Program

namespace Transcode.Executable

/-- The files whose content a task may ask for. -/
def configFiles (h : Host) (i : Invocation) : List Path :=
  match i.config with
  | some p => [p]
  | none => Config.usualPlaces h

/-- The paths of which a task may ask what is there. -/
def places (i : Invocation) : List Path :=
  match i.task with
  | .encode input outputDir .. => input :: outputDir.toList
  | .probe file _ => [file]
  | _ => []

/-- The location of a path, by its spelling alone. -/
def locationOf (h : Host) (p : Path) : Location :=
  (h.absolute p).pieces.foldl (fun l piece =>
    if piece = [Path.dot] then l
    else if piece = [Path.dot, Path.dot] then l.dropLast
    else l ++ [piece]) []

/-- Put a directory on a disk, with those above it. -/
def withDirectories (d : Disk) (l : Location) : Disk :=
  (List.range (l.length + 1)).foldl (fun d n => d.put (l.take n) .directory) d

/-- Put on a disk what the machine has at a path; a file with its content if that
    is asked for. -/
def glance (asked : Bool) (h : Host) (d : Disk) (p : Path) : IO Disk := do
  let file := (← IO.currentDir) / p.display
  let l := locationOf h p
  if ← file.isDir then return withDirectories d l
  if !(← file.pathExists) then return d
  let content ← if asked then IO.FS.readBinFile file else pure ByteArray.empty
  return (withDirectories d l.dropLast).put l (.file content.toList)

/-- The machine, without programs. -/
def host : IO Host := do
  let cwd := (Path.ofText (← IO.currentDir).toString).pieces
  let home := (← IO.getEnv "HOME").map Path.ofText
  return { Host.bare with cwd := cwd, home := home }

/-- The disk for a command line. -/
def disk (h : Host) (args : List String) : IO Disk :=
  match Invocation.ofArgs args with
  | .error _ => return .empty
  | .ok i => do
    let d ← (configFiles h i).foldlM (glance true h) (withDirectories .empty h.cwd)
    (places i).foldlM (glance false h) d

end Transcode.Executable

/-- Run the program on the arguments, and end with its exit code. -/
def main (args : List String) : IO UInt32 := do
  let h ← Transcode.Executable.host
  let d ← Transcode.Executable.disk h args
  let r := Transcode.Program.run h d args
  (← IO.getStdout).putStr r.stdout
  (← IO.getStderr).putStr r.stderr
  return UInt32.ofNat r.exitCode
