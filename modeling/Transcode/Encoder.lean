/-
  Transcode — from a request to a command.

  An encoder is a registry of presets, a recipe for arguments and a program.
  Compiling a request looks its preset up, lays the request's settings over it,
  renders the flags of the profile and fills the recipe with them; nothing is run.
-/
import Transcode.Preset.Builtin
import Transcode.Recipe
import Transcode.Shell

namespace Transcode

/-- What is to be encoded, and how. -/
structure Request where
  preset : String
  overrides : Settings
  source : Source
  input : Path
  output : Path

/-- A compiled request. -/
structure Command where
  program : String
  args : List String
  /-- The profile that the arguments were rendered from. -/
  profile : Profile

/-- The command as one line for a shell. -/
def Command.line (c : Command) : String :=
  Shell.line (c.program :: c.args)

/-- What requests are compiled with. -/
structure Encoder where
  registry : Registry
  recipe : Recipe
  program : String

namespace Encoder

/-- The program of an encoder that names none. -/
def standardProgram : String := "ffmpeg"

/-- The extension of the files that are made. -/
def fileExtension : String := "mp4"

/-- The encoder of a registry, with the usual recipe and program. -/
def ofRegistry (r : Registry) : Encoder :=
  ⟨r, Recipe.standard, standardProgram⟩

/-- The profile of a preset under a caller's settings. -/
def resolve (e : Encoder) (preset : String) (overrides : Settings) :
    Except CompileError Profile :=
  (e.registry.lookup preset).map fun p => Profile.resolve p.settings overrides

/-- The command of a request whose profile is known. -/
def render (e : Encoder) (profile : Profile) (r : Request) : Except CompileError Command := do
  let flags ← FlagSet.ofProfile profile r.source
  let args ← e.recipe.assemble flags r.input r.output
  return ⟨e.program, args, profile⟩

/-- The command of a request. -/
def compile (e : Encoder) (r : Request) : Except CompileError Command := do
  let profile ← e.resolve r.preset r.overrides
  e.render profile r

end Encoder

end Transcode
