/-
  Transcode — why a preset or a request is refused.

  An error is a cause.  `CompileError.message` is the only place that words one;
  an objection to the value of a setting is worded by `Objection.message`.

  `CompileError.isObjection` picks the errors raised while a resolved profile is
  rendered: an unsupported codec, or an objection to a setting.
-/
import Transcode.Settings
import Transcode.Frame.Size

namespace Transcode

/-- The two kinds of stream. -/
inductive Medium where
  | audio
  | video
  deriving DecidableEq, Repr

/-- The name of a medium. -/
def Medium.name : Medium → String
  | audio => "audio"
  | video => "video"

/-- What the value of a setting should have been. -/
inductive Expectation where
  | integer
  | number
  | flag
  | text
  | single
  | bitRate
  | numberOrList
  | level
  deriving DecidableEq, Repr

/-- The wording of an expectation. -/
def Expectation.phrase : Expectation → String
  | integer => "an integer"
  | number => "a number"
  | flag => "a boolean"
  | text => "a string"
  | single => "a single value"
  | bitRate => "a bit rate"
  | numberOrList => "a number or a list"
  | level => "a level"

/-- What is wrong with the value of a setting. -/
inductive Objection where
  | wrongType (expected : Expectation) (value : Value)
  | notPositive (n : Int64)
  | zeroModulus
  | belowModulus (modulus : UInt32)
  | derivedHeight (source : FrameSize) (width : UInt32)
  | unknownSourceSize
  | noCandidates
  | badRate (rate : Binary64)
  | noFrameBetween (gop rate : Binary64)
  | filterOnCopy
  | namelessOption (word : String)
  deriving DecidableEq

/-- The wording of an objection to a setting. -/
def Objection.message (s : Setting) : Objection → String
  | wrongType e v => s!"expected {e.phrase}, got {v.typeName} {v.plain}"
  | notPositive n => s!"must be a positive integer, got {(Value.integer n).plain}"
  | zeroModulus => "modulus must be greater than zero"
  | belowModulus m => s!"{s.name} is smaller than the modulus {FrameSize.sideText m}"
  | derivedHeight source w =>
    s!"height derived from {source.plain} at width {FrameSize.sideText w} is out of range"
  | unknownSourceSize => "source dimensions are unknown, cannot derive height"
  | noCandidates => "candidate list is empty"
  | badRate r => s!"must be positive, got {(Value.float r).plain}"
  | noFrameBetween g r =>
    s!"{(Value.float g).plain} ms at {(Value.float r).plain} fps leaves no frame between keyframes"
  | filterOnCopy => "filters cannot be applied to a copied video stream"
  | namelessOption w => s!"option without a name: {w}"

/-- Why a preset table or a request is refused. -/
inductive CompileError where
  | unknownPreset (name : String)
  | unsupportedCodec (medium : Medium) (value : String)
  | setting (setting : Setting) (objection : Objection)
  | unknownSetting (name : String)
  | invalidValue (setting : Setting) (value : String)
  | danglingAlias (name target : String)
  | aliasCycle (chain : List String)
  | unknownPlaceholder (name : String)
  deriving DecidableEq

namespace CompileError

/-- The wording of an error. -/
def message : CompileError → String
  | unknownPreset name => s!"unknown preset: {name}"
  | unsupportedCodec medium value => s!"unsupported {medium.name} codec: {value}"
  | setting s o => s!"invalid profile setting {s.name}: {o.message s}"
  | unknownSetting name => s!"unknown setting: {name}"
  | invalidValue s value => s!"invalid value for {s.name}: {value}"
  | danglingAlias name target => s!"preset alias {name} points to missing preset {target}"
  | aliasCycle chain => "preset alias cycle: " ++ " -> ".intercalate chain
  | unknownPlaceholder name => "unknown recipe placeholder: \x7b" ++ name ++ "\x7d"

/-- Raised while a resolved profile is rendered. -/
def isObjection : CompileError → Bool
  | unsupportedCodec .. | setting .. => true
  | _ => false

/-- The value of a setting is not of the expected type. -/
def wrongType (s : Setting) (expected : Expectation) (v : Value) : CompileError :=
  .setting s (.wrongType expected v)

end CompileError

end Transcode
