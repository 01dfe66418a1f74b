/-
  Transcode — what goes wrong around the tools.

  `ToolError.lines` words an error; where one error has another under it, the
  wording of that one follows as a line of its own.
-/
import Transcode.Disk.Error
import Transcode.Path

namespace Transcode

/-- Why an output cannot be staged or published. -/
inductive StagingError where
  | noDirectory (parent : Path)
  | notMade (e : IoError) (path : Path)
  | noOutput (output : Path)
  | notBackedUp (e : IoError)
  | notMoved (e : IoError)
  deriving DecidableEq, Repr

/-- The wording of a staging error. -/
def StagingError.message : StagingError → String
  | noDirectory parent => s!"output directory does not exist: {parent.quoted}"
  | notMade e path => s!"{e.message} at path {path.quoted}"
  | noOutput output => s!"output file does not exist: {output.quoted}"
  | notBackedUp e => s!"failed to back up existing output: {e.message}"
  | notMoved e => s!"failed to move output to destination: {e.message}"

/-- What goes wrong around the tools. -/
inductive ToolError where
  | toolNotFound (tool : String)
  | toolFailed (tool message : String)
  /-- What a tool printed is not text. -/
  | unreadable (tool : String) (cause : Text.NotText)
  | fileNotFound (path : Path)
  | io (e : IoError)
  /-- What a tool printed is not the report it should be. -/
  | malformedReport
  /-- An output path without a name at its end. -/
  | namelessOutput (path : Path)
  | staging (e : StagingError)
  deriving DecidableEq, Repr

namespace ToolError

/-- The wording of an error. -/
def message : ToolError → String
  | toolNotFound tool => s!"tool not found: {tool}"
  | toolFailed tool m => s!"tool execution failed: {tool}: {m}"
  | unreadable tool cause => s!"failed to parse {tool} output: Invalid UTF-8: {cause.message}"
  | fileNotFound path => s!"file not found: {path.display}"
  | io e => s!"I/O error: {e.message}"
  | malformedReport => "JSON error"
  | namelessOutput path => s!"invalid input: invalid output path: {path.quoted}"
  | staging e => s!"workspace error: {e.message}"

/-- The wording of an error and of the one under it. -/
def lines : ToolError → List String
  | io e => [(io e).message, e.message]
  | e => [e.message]

end ToolError

end Transcode
