/-
  Transcode — the settings of an encoding.

  The set of settings is fixed.  `Setting.all` lists it in the order in which
  profiles show their settings; `Setting.name` is the name used in presets,
  configuration files and assignments, and `Setting.named?` reads it back
  (`named?_name`).  `Setting.kind` says how a value given as text is read.
-/
import Transcode.Text.Blank

namespace Transcode

/-- What an encoding can be told. -/
inductive Setting where
  | analyzeDuration
  | probeSize
  | timeOffset
  | duration
  | audioCodec
  | audioSampleRate
  | audioBitRate
  | audioChannels
  | audioSync
  | videoCodec
  | width
  | height
  | dimensionsModulus
  | aspectRatio
  | videoBitRate
  | constantBitRate
  | frameRate
  | gopDuration
  | videoProfile
  | videoCodecLevel
  | videoFilter
  | encoderOptions
  | threads
  deriving DecidableEq, Repr

/-- How the text of a value is read. -/
inductive ValueKind where
  /-- A whole number: bit rates, sides of a frame, milliseconds. -/
  | integer
  /-- Free text: codec names, filter chains. -/
  | text
  /-- Yes or no. -/
  | flag
  /-- One rate, or several separated by commas. -/
  | rates
  /-- Seconds as a number, or a time stamp. -/
  | time
  deriving DecidableEq, Repr

namespace Setting

/-- Every setting, in profile order. -/
def all : List Setting :=
  [analyzeDuration, probeSize, timeOffset, duration, audioCodec, audioSampleRate, audioBitRate,
   audioChannels, audioSync, videoCodec, width, height, dimensionsModulus, aspectRatio,
   videoBitRate, constantBitRate, frameRate, gopDuration, videoProfile, videoCodecLevel,
   videoFilter, encoderOptions, threads]

theorem mem_all (s : Setting) : s ∈ all := by cases s <;> decide

theorem nodup_all : all.Nodup := by decide

/-- The name of a setting. -/
def name : Setting → String
  | analyzeDuration => "analyze_duration"
  | probeSize => "probe_size"
  | timeOffset => "time_offset"
  | duration => "duration"
  | audioCodec => "audio_codec"
  | audioSampleRate => "audio_sample_rate"
  | audioBitRate => "audio_bit_rate"
  | audioChannels => "audio_channels"
  | audioSync => "audio_sync"
  | videoCodec => "video_codec"
  | width => "width"
  | height => "height"
  | dimensionsModulus => "dimensions_modulus"
  | aspectRatio => "aspect_ratio"
  | videoBitRate => "video_bit_rate"
  | constantBitRate => "constant_bit_rate"
  | frameRate => "frame_rate"
  | gopDuration => "gop_duration"
  | videoProfile => "video_profile"
  | videoCodecLevel => "video_codec_level"
  | videoFilter => "video_filter"
  | encoderOptions => "encoder_options"
  | threads => "threads"

/-- The setting of exactly this name. -/
def named? (text : String) : Option Setting :=
  all.find? (·.name == text)

theorem named?_name (s : Setting) : named? s.name = some s := by
  cases s <;> decide

theorem name_injective {s t : Setting} (h : s.name = t.name) : s = t := by
  have hs := named?_name s
  rw [h, named?_name] at hs
  exact (Option.some.inj hs).symm

/-- How a value of the setting is read from text. -/
def kind : Setting → ValueKind
  | analyzeDuration | probeSize | audioSampleRate | audioBitRate | audioChannels | audioSync
  | width | height | dimensionsModulus | videoBitRate | gopDuration | threads => .integer
  | timeOffset | duration => .time
  | constantBitRate => .flag
  | frameRate => .rates
  | audioCodec | videoCodec | aspectRatio | videoProfile | videoCodecLevel | videoFilter
  | encoderOptions => .text

/-- The place of a setting in profile order. -/
def index (s : Setting) : Nat :=
  all.idxOf s

end Setting

end Transcode
