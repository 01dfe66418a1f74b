/-
  Transcode — codecs.

  A medium admits a few codec names, each of which stands for one encoder; `copy`
  stands for no encoder at all and is admitted for both.  Names are compared
  without the blanks around them and without the case of ASCII letters.
-/
import Transcode.CompileError
import Transcode.Text.Case

namespace Transcode

/-- The flag that chooses the encoder of a medium. -/
def Medium.codecFlag : Medium → String
  | audio => "-c:a"
  | video => "-c:v"

/-- What a stream is encoded with. -/
inductive Codec where
  /-- Not encoded: the stream is copied. -/
  | copy
  | aac
  | fdkAac
  | x264
  deriving DecidableEq, Repr

namespace Codec

/-- The name of the encoder. -/
def name : Codec → String
  | copy => "copy"
  | aac => "aac"
  | fdkAac => "libfdk_aac"
  | x264 => "libx264"

/-- The names that each medium admits besides `copy`. -/
def admitted : Medium → List (String × Codec)
  | .audio => [("aac", aac), ("libfaac", aac), ("mp4a", aac), ("libfdk_aac", fdkAac)]
  | .video => [("h264", x264), ("avc", x264), ("x264", x264), ("libx264", x264)]

/-- Whether a codec name asks for the stream to be copied. -/
def isCopy (value : String) : Bool :=
  Text.sameLetters (Text.trim value) "copy"

theorem isCopy_iff {value : String} :
    isCopy value = true ↔ Text.lower (Text.trim value) = "copy" := by
  have hcopy : Text.lowered "copy".toList = "copy".toList := by decide
  rw [isCopy, Text.sameLetters, beq_iff_eq, hcopy, Text.lower, ← String.toList_inj]
  simp only [String.toList_ofList]

/-- The codec that a name stands for. -/
def ofText (medium : Medium) (value : String) : Except CompileError Codec :=
  let key := Text.lower (Text.trim value)
  if key = "copy" then .ok copy
  else match (admitted medium).lookup key with
    | some c => .ok c
    | none => .error (.unsupportedCodec medium value)

/-- The codec of a profile that names none. -/
def standard : Medium → String
  | .audio => "aac"
  | .video => "h264"

end Codec

end Transcode
