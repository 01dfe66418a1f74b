/-
  Transcode — the presets that are always there.

  They cover the outputs usually made for playback: `p…` for phones (mono sound,
  constant bit rate), `t…` for tablets, both of the baseline profile, and `w…` for
  players on the web.  The number is the width of the frame; `default` stands for
  one of them.
-/
import Transcode.Preset.Registry

namespace Transcode

namespace Preset

/-- The preset that is used when none is named. -/
def standard : String := "default"

/-- The rates that a source is usually matched against. -/
def webRates : Value :=
  .list [.ofFraction false 2997 100, .ofNat 25]

/-- The table of presets that are always there. -/
def builtin : List (String × PresetEntry) :=
  [("p192", .settings (.ofList
     [(.videoProfile, .text "baseline"), (.constantBitRate, .flag true),
      (.videoBitRate, .integer 90000), (.audioBitRate, .integer 32000),
      (.audioSampleRate, .integer 32000), (.audioChannels, .integer 1),
      (.width, .integer 192), (.dimensionsModulus, .integer 4), (.frameRate, .integer 10)])),
   ("p480", .settings (.ofList
     [(.videoProfile, .text "baseline"), (.constantBitRate, .flag true),
      (.videoBitRate, .integer 400000), (.audioBitRate, .integer 32000),
      (.audioSampleRate, .integer 32000), (.audioChannels, .integer 1),
      (.width, .integer 480), (.dimensionsModulus, .integer 4), (.frameRate, webRates)])),
   ("t960", .settings (.ofList
     [(.videoProfile, .text "baseline"), (.constantBitRate, .flag true),
      (.videoBitRate, .integer 1800000), (.audioBitRate, .integer 96000),
      (.audioSampleRate, .integer 32000), (.width, .integer 960), (.frameRate, webRates)])),
   ("t1280", .settings (.ofList
     [(.videoProfile, .text "baseline"), (.videoBitRate, .integer 2800000),
      (.audioBitRate, .integer 128000), (.audioSampleRate, .integer 32000),
      (.width, .integer 1280), (.frameRate, webRates)])),
   ("w620", .settings (.ofList
     [(.videoBitRate, .integer 1000000), (.audioBitRate, .integer 96000),
      (.audioSampleRate, .integer 48000), (.width, .integer 620),
      (.dimensionsModulus, .integer 4), (.frameRate, webRates)])),
   ("w768", .settings (.ofList
     [(.videoBitRate, .integer 1400000), (.audioBitRate, .integer 128000),
      (.audioSampleRate, .integer 48000), (.width, .integer 768), (.frameRate, webRates)])),
   ("w1280", .settings (.ofList
     [(.videoBitRate, .integer 2800000), (.audioBitRate, .integer 192000),
      (.audioSampleRate, .integer 48000), (.width, .integer 1280), (.frameRate, webRates)])),
   ("w1920", .settings (.ofList
     [(.videoBitRate, .integer 4500000), (.audioBitRate, .integer 192000),
      (.audioSampleRate, .integer 48000), (.width, .integer 1920), (.frameRate, webRates)])),
   (standard, .aliasOf "w768")]

end Preset

namespace Registry

/-- The presets that are always there, with further entries added or put in place
    of them. -/
def extend (extra : List (String × PresetEntry)) : Except CompileError Registry :=
  ofEntries (Preset.builtin ++ extra)

theorem isOk_ofEntries_builtin : (ofEntries Preset.builtin).isOk = true := by
  decide +kernel

/-- The presets that are always there. -/
def builtin : Registry :=
  match h : ofEntries Preset.builtin with
  | .ok r => r
  | .error _ => False.elim (by simpa [h, Except.isOk, Except.toBool] using isOk_ofEntries_builtin)

theorem ofEntries_builtin : ofEntries Preset.builtin = .ok builtin := by
  unfold builtin
  split
  · assumption
  · rename_i h
    simpa [h, Except.isOk, Except.toBool] using isOk_ofEntries_builtin

end Registry

end Transcode
