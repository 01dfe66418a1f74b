/-
  Transcode — why a whole undertaking fails.

  A failure is a cause and, around it, what was being attempted, outermost first.
  Its lines are the wordings of all of these.
-/
import Transcode.CompileError
import Transcode.Tool.Error

namespace Transcode

/-- What a failure comes down to. -/
inductive Cause where
  | compile (e : CompileError)
  | tool (e : ToolError)
  | io (e : IoError)
  /-- A text that is not TOML, or not the TOML of a configuration. -/
  | toml
  | other (message : String)
  deriving DecidableEq

/-- A cause and what was being attempted, outermost first. -/
structure Failure where
  attempts : List String
  cause : Cause
  deriving DecidableEq

/-- The lines of a cause. -/
def Cause.lines : Cause → List String
  | compile e => [e.message]
  | tool e => e.lines
  | io e => [e.message]
  | toml => ["TOML parse error"]
  | other m => [m]

namespace Failure

/-- A failure of which only the cause is known. -/
def ofCause (c : Cause) : Failure := ⟨[], c⟩

instance : Coe CompileError Failure := ⟨fun e => ofCause (.compile e)⟩
instance : Coe ToolError Failure := ⟨fun e => ofCause (.tool e)⟩

/-- The failure of something with the given wording. -/
def saying (message : String) : Failure := ofCause (.other message)

/-- Say what was being attempted. -/
def whilst (attempt : String) (f : Failure) : Failure :=
  ⟨attempt :: f.attempts, f.cause⟩

/-- The lines of a failure, outermost first. -/
def lines (f : Failure) : List String :=
  f.attempts ++ f.cause.lines

/-! ## A report of several lines -/

/-- A text with `indent` blanks before each line but the first. -/
def indented (indent : Nat) (cs : List Char) : List Char :=
  cs.flatMap fun c => if c = '\n' then '\n' :: List.replicate indent ' ' else [c]

/-- A line under the first, by itself. -/
def soleLine (text : String) : String :=
  "    " ++ String.ofList (indented 4 text.toList)

/-- A number, right-aligned in five columns. -/
def numberColumn (n : Nat) : String :=
  String.ofList (List.replicate (5 - (digitsOf n).length) ' ' ++ digitsOf n)

/-- A line under the first, numbered among others. -/
def numberedLine (n : Nat) (text : String) : String :=
  numberColumn n ++ ": " ++ String.ofList (indented 7 text.toList)

/-- The lines under the first: numbered when there are several. -/
def underLines : List String → List String
  | [] => []
  | [line] => [soleLine line]
  | lines => lines.mapIdx numberedLine

/-- The report of a failure: what went wrong, and under it what it was caused by. -/
def report (f : Failure) : String :=
  match f.lines with
  | [] => "Error: "
  | [line] => "Error: " ++ line
  | line :: under =>
    "Error: " ++ line ++ "\n\nCaused by:\n" ++ "\n".intercalate (underLines under)

end Failure

end Transcode
