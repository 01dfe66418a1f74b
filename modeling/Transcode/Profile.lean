/-
  Transcode — resolved profiles.

  A profile is what one compilation works from: the caller's settings over the
  preset's, with defaults where neither says anything.  `Profile.resolve` never
  fails; values are judged when the profile is rendered.

  The defaults are layered too, because later ones depend on earlier: the two
  codecs come first, then, unless the video stream is copied, the video profile,
  its level and its filter, and last the number of threads.
-/
import Transcode.Codec

namespace Transcode

/-- The settings of one compilation. -/
@[ext] structure Profile where
  settings : Settings

namespace Profile

/-! ## Defaults -/

/-- The codec level that goes with a video profile. -/
def levelFor (videoProfile : String) : String :=
  if videoProfile = "baseline" then "3.0" else "3.1"

/-- The noise filter that goes with a video profile. -/
def filterFor (videoProfile : String) : Option String :=
  if videoProfile = "baseline" then some "hqdn3d=4:3:6:4.5"
  else if videoProfile = "main" then some "hqdn3d=1.5:1.5:6:6"
  else none

/-- Whether the video stream is to be copied. -/
def copiesVideo (m : Settings) : Bool :=
  (((m.get? .videoCodec).bind Value.asText).map Codec.isCopy).getD false

/-- The codecs, where none are named. -/
def fillCodecs (m : Settings) : Settings :=
  (m.fill .videoCodec (.text (Codec.standard .video))).fill .audioCodec
    (.text (Codec.standard .audio))

/-- The video profile, where none is named, and what goes with it. -/
def fillVideo (m : Settings) : Settings :=
  let m := m.fill .videoProfile (.text "main")
  let videoProfile := ((m.get? .videoProfile).map Value.plain).getD ""
  let m := m.fill .videoCodecLevel (.text (levelFor videoProfile))
  match filterFor videoProfile with
  | some f => m.fill .videoFilter (.text f)
  | none => m

/-- The defaults under the settings that are given. -/
def withDefaults (given : Settings) : Settings :=
  let m := fillCodecs given
  let m := if copiesVideo m then m else fillVideo m
  m.fill .threads (.integer 0)

/-- The profile of a preset and a caller's settings, which win. -/
def resolve (preset overrides : Settings) : Profile :=
  ⟨withDefaults (overrides.layeredOn preset)⟩

/-! ## Reading a profile -/

/-- The value of a setting. -/
def get? (p : Profile) (s : Setting) : Option Value :=
  p.settings.get? s

/-- Whether a setting has a value. -/
def contains (p : Profile) (s : Setting) : Bool :=
  p.settings.contains s

/-- Whether the video stream is copied without being encoded. -/
def isPassThrough (p : Profile) : Bool :=
  copiesVideo p.settings

/-- The value of a setting through a view; a value outside the view is an error. -/
def view {α : Type} (p : Profile) (s : Setting) (expected : Expectation) (f : Value → Option α) :
    Except CompileError (Option α) :=
  match p.get? s with
  | none => .ok none
  | some v => match f v with
    | some a => .ok (some a)
    | none => .error (.wrongType s expected v)

/-- The whole number that a setting is given. -/
def integer (p : Profile) (s : Setting) : Except CompileError (Option Int64) :=
  p.view s .integer Value.asInteger

/-- The number that a setting is given. -/
def number (p : Profile) (s : Setting) : Except CompileError (Option Binary64) :=
  p.view s .number Value.asNumber

/-- The flag that a setting is given; without one it is off. -/
def flag (p : Profile) (s : Setting) : Except CompileError Bool :=
  (p.view s .flag Value.asFlag).map (·.getD false)

/-- The text that a setting is given. -/
def text (p : Profile) (s : Setting) : Except CompileError (Option String) :=
  p.view s .text Value.asText

end Profile

end Transcode
