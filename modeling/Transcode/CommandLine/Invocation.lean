/-
  Transcode — what a command line asks for.

  An invocation is a task with what holds for every task: the configuration file
  that is named, and whether to say more.
-/
import Transcode.Assignment
import Transcode.Path

namespace Transcode

/-- What is to be done. -/
inductive Task where
  /-- Show the command for one output. -/
  | compile (input output : Path) (preset : String) (overrides : List Assignment)
      (source : Option FrameSize) (rate : Option Binary64) (json : Bool)
  /-- Make an output for each preset. -/
  | encode (input : Path) (outputDir : Option Path) (presets : List String)
      (overrides : List Assignment) (dryRun : Bool)
  /-- List the presets, or show the profile of one. -/
  | presets (name : Option String) (json : Bool)
  /-- Show what is in a file. -/
  | probe (file : Path) (json : Bool)
  | checkTools
  | validate (config : Option Path)
  | version

/-- A task, and what holds for every task. -/
structure Invocation where
  config : Option Path
  verbose : Bool
  task : Task

/-- Why a command line asks for nothing that can be done: it is wrong, or asks for
    help or the version. -/
inductive ArgumentError where
  /-- A value that its option refuses, with the wording of the refusal. -/
  | refused (message : String)
  /-- An option without a value, or an empty one where that is none. -/
  | missingValue
  /-- A value for a flag. -/
  | surplusValue
  | unknownArgument
  | unknownCommand
  | missingArgument
  | missingCommand
  /-- An option that counts once, given twice. -/
  | repeated
  /-- No arguments at all. -/
  | nothingGiven
  | help
  | version
  deriving DecidableEq, Repr

end Transcode
