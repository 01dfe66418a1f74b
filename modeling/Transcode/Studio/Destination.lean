/-
  Transcode — where an output goes.

  The file is named for the input and the preset, so different presets of one
  input go to different files.
-/
import Transcode.Path

namespace Transcode

/-- The name of the output of an input without a name. -/
def namelessStem : String := "output"

/-- The file that a preset of an input is made into. -/
def destination (input outputDir : Path) (preset extension : String) : Path :=
  let stem := (input.fileStem?.map Text.decodeLossy).getD namelessStem
  outputDir.join (.ofText s!"{stem}-{preset}.{extension}")

end Transcode
