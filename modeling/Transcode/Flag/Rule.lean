/-
  Transcode — from settings to flags.

  Every setting that shows in an encoder's arguments has a rule: the group of
  arguments it belongs to, and how its value is rendered.  Most values are written
  verbatim behind a flag; the others look at the rest of the profile and at the
  source, or judge the value.

  * `rules` is the table, in the order in which flags are written;
  * `Rule.render` renders one value;
  * settings without a rule, such as the modulus of the frame size, are only read
    by the rules of others.
-/
import Transcode.Profile
import Transcode.Source
import Transcode.Frame.Scale
import Transcode.Frame.Rate

namespace Transcode

/-- The parts of a command that flags go into. -/
inductive FlagGroup where
  /-- How the input is analysed: in front of the input. -/
  | global
  /-- Which stretch of the input is taken. -/
  | trim
  | audio
  | video
  | threads
  deriving DecidableEq, Repr

namespace FlagGroup

/-- The groups in the order of a command. -/
def all : List FlagGroup := [global, trim, audio, video, threads]

/-- The name of a group in a template. -/
def name : FlagGroup → String
  | global => "global"
  | trim => "trim"
  | audio => "audio"
  | video => "video"
  | threads => "threads"

end FlagGroup

/-- What a rule may look at besides the value it renders. -/
structure Surroundings where
  profile : Profile
  source : Source

/-- The outcome of rendering: arguments, or why the value is refused. -/
abbrev Rendering := Except CompileError (List String)

namespace Flag

/-- The text that a value must be. -/
def textOf (s : Setting) (v : Value) : Except CompileError String :=
  match v.asText with
  | some t => .ok t
  | none => .error (.wrongType s .text v)

/-! ## Codecs -/

/-- The flag and the encoder of a medium. -/
def codec (medium : Medium) (s : Setting) (v : Value) : Rendering := do
  let c ← Codec.ofText medium (← textOf s v)
  return [medium.codecFlag, c.name]

/-! ## The frame -/

/-- A positive number of 32 bits. -/
def positive (s : Setting) (n : Int64) : Except CompileError UInt32 :=
  if 0 < n.toInt ∧ n.toInt < 4294967296 then .ok (UInt32.ofNat n.toInt.toNat)
  else .error (.setting s (.notPositive n))

/-- A positive number of 32 bits, when the setting has a value. -/
def positive? (p : Profile) (s : Setting) : Except CompileError (Option UInt32) := do
  match ← p.integer s with
  | none => return none
  | some n => return some (← positive s n)

/-- The size of the frame and its shape, which is the ratio of the size unless the
    profile names one.  They go together: a size alone may be shown stretched. -/
def dimensions (v : Value) (s : Surroundings) : Rendering := do
  if s.profile.isPassThrough then return []
  let width ← match v.asInteger with
    | some n => positive .width n
    | none => throw (.wrongType .width .integer v)
  let height ← positive? s.profile .height
  let modulus := (← positive? s.profile .dimensionsModulus).getD FrameSize.standardModulus
  let size ← FrameSize.scale width height s.source.size modulus
  let aspect := (← s.profile.text .aspectRatio).getD size.aspectRatio
  return ["-s", size.plain, "-aspect", aspect]

/-- The shape alone, unless it is written with the size. -/
def aspectRatio (v : Value) (s : Surroundings) : Rendering :=
  if s.profile.contains .width && !s.profile.isPassThrough then .ok []
  else return ["-aspect", ← textOf .aspectRatio v]

/-! ## The video stream -/

/-- Whether a value stands alone as a bit rate or a level. -/
def isScalar : Value → Bool
  | .integer _ | .float _ | .text _ => true
  | .flag _ | .list _ => false

/-- The bit rate, repeated as a bound when it is to be constant. -/
def videoBitRate (v : Value) (s : Surroundings) : Rendering := do
  if s.profile.isPassThrough then return []
  if !isScalar v then throw (.wrongType .videoBitRate .bitRate v)
  let constant ← s.profile.flag .constantBitRate
  return ["-b:v", v.plain] ++
    if constant then ["-maxrate", v.plain, "-bufsize", v.plain] else []

/-- The rate that a value means for a source. -/
def rateOf (v : Value) (source : Source) : Except CompileError Binary64 :=
  match v with
  | .list candidates => match FrameRate.select candidates source.frameRate with
    | some r => .ok r
    | none => .error (.setting .frameRate .noCandidates)
  | v => match v.asNumber with
    | some r => .ok r
    | none => .error (.wrongType .frameRate .numberOrList v)

/-- The milliseconds between keyframes of a profile that names none. -/
def standardGop : Binary64 := .ofNat 4000

/-- The frame rate and the distance between keyframes, which is fixed. -/
def frameRate (v : Value) (s : Surroundings) : Rendering := do
  if s.profile.isPassThrough then return []
  let rate ← rateOf v s.source
  if !(rate.isFinite && (Binary64.zero false).lt rate) then
    throw (.setting .frameRate (.badRate rate))
  let gop := (← s.profile.number .gopDuration).getD standardGop
  let interval := FrameRate.keyframeInterval gop rate
  if interval = 0 then throw (.setting .gopDuration (.noFrameBetween gop rate))
  let frames := String.ofList (digitsOf interval)
  return ["-r", String.ofList rate.plain, "-g", frames, "-keyint_min", frames]

/-- The video profile. -/
def videoProfile (v : Value) (s : Surroundings) : Rendering :=
  if s.profile.isPassThrough then .ok []
  else return ["-profile:v", ← textOf .videoProfile v]

/-- The codec level. -/
def videoCodecLevel (v : Value) (s : Surroundings) : Rendering :=
  if s.profile.isPassThrough then .ok []
  else if isScalar v then .ok ["-level", v.plain]
  else .error (.wrongType .videoCodecLevel .level v)

/-- The filters; a stream that is copied has none. -/
def videoFilter (v : Value) (s : Surroundings) : Rendering :=
  if s.profile.isPassThrough then .error (.setting .videoFilter .filterOnCopy)
  else return ["-vf", ← textOf .videoFilter v]

/-- One word of the encoder options: a name, which dashes in front do not count
    to, and perhaps a value behind `=`. -/
def encoderOption (word : List Char) : Rendering :=
  let (key, value) := match Text.cutAt (· == '=') word with
    | some (key, value) => (key, [String.ofList value])
    | none => (word, [])
  let key := key.dropWhile (· == '-')
  if key.isEmpty then
    .error (.setting .encoderOptions (.namelessOption (String.ofList word)))
  else .ok (String.ofList ('-' :: key) :: value)

/-- The encoder options, one or two arguments for each word. -/
def encoderOptions (v : Value) (s : Surroundings) : Rendering := do
  if s.profile.isPassThrough then return []
  let text ← textOf .encoderOptions v
  return (← (Text.words text.toList).mapM encoderOption).flatten

end Flag

/-! ## The table -/

/-- How the value of a setting is rendered. -/
inductive Manner where
  /-- The flag and the value, as it is. -/
  | verbatim (flag : String)
  | computed (render : Value → Surroundings → Rendering)

/-- The rendering of one setting. -/
structure Rule where
  setting : Setting
  group : FlagGroup
  manner : Manner

/-- Render a value of the rule's setting. -/
def Rule.render (r : Rule) (v : Value) (s : Surroundings) : Rendering :=
  match r.manner with
  | .verbatim flag => match v with
    | .flag _ | .list _ => .error (.wrongType r.setting .single v)
    | v => .ok [flag, v.plain]
  | .computed f => f v s

/-- All rules, in the order in which flags are written. -/
def rules : List Rule :=
  [⟨.analyzeDuration, .global, .verbatim "-analyzeduration"⟩,
   ⟨.probeSize, .global, .verbatim "-probesize"⟩,
   ⟨.timeOffset, .trim, .verbatim "-ss"⟩,
   ⟨.duration, .trim, .verbatim "-t"⟩,
   ⟨.audioCodec, .audio, .computed fun v _ => Flag.codec .audio .audioCodec v⟩,
   ⟨.audioSampleRate, .audio, .verbatim "-ar"⟩,
   ⟨.audioBitRate, .audio, .verbatim "-b:a"⟩,
   ⟨.audioChannels, .audio, .verbatim "-ac"⟩,
   ⟨.audioSync, .audio, .verbatim "-async"⟩,
   ⟨.videoCodec, .video, .computed fun v _ => Flag.codec .video .videoCodec v⟩,
   ⟨.width, .video, .computed Flag.dimensions⟩,
   ⟨.aspectRatio, .video, .computed Flag.aspectRatio⟩,
   ⟨.videoBitRate, .video, .computed Flag.videoBitRate⟩,
   ⟨.frameRate, .video, .computed Flag.frameRate⟩,
   ⟨.videoProfile, .video, .computed Flag.videoProfile⟩,
   ⟨.videoCodecLevel, .video, .computed Flag.videoCodecLevel⟩,
   ⟨.videoFilter, .video, .computed Flag.videoFilter⟩,
   ⟨.encoderOptions, .video, .computed Flag.encoderOptions⟩,
   ⟨.threads, .threads, .verbatim "-threads"⟩]

/-- The rule of a setting, when it has one. -/
def Rule.of? (s : Setting) : Option Rule :=
  rules.find? (·.setting = s)

end Transcode
