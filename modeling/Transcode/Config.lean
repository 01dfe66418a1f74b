/-
  Transcode — configurations.

  A configuration names the tools, the presets that are usually encoded and where
  outputs go, settings that override those of every preset, and further presets.

  `Config.registry` puts its presets over the ones that are always there.
  `Config.validate` accepts a configuration whose presets make a registry that has
  every preset it encodes, of which there is at least one.
-/
import Transcode.Document.Settings
import Transcode.Preset.Builtin
import Transcode.Path
import Transcode.Failure

namespace Transcode

/-- A preset table as it is written: an alias, settings, or what is neither. -/
structure PresetTable where
  aliasOf : Option String
  settings : Settings

/-- A configuration. -/
structure Config where
  ffmpegPath : Option Path
  ffprobePath : Option Path
  /-- The presets that are encoded when none are named. -/
  encodePresets : List String
  /-- Where outputs go when no directory is named. -/
  outputDir : Option Path
  overrides : Settings
  presets : NameTable PresetTable

/-! ## Preset tables -/

namespace PresetTable

/-- The row of a table that makes it an alias. -/
def aliasKey : String := "alias"

/-- Read a preset table: an alias, if there is one, and settings. -/
def ofDocument? : Document → Option PresetTable
  | .table rows => do
    let given ← Record.row? rows aliasKey
    let settings ← Settings.ofRows? (rows.filter (·.1 ≠ aliasKey))
    match given with
    | none | some .null => return ⟨none, settings⟩
    | some d => return ⟨some (← d.asText), settings⟩
  | _ => none

/-- The document of a preset table. -/
def toDocument (t : PresetTable) : Document :=
  .table ((t.aliasOf.map fun a => (aliasKey, .text a)).toList ++
    t.settings.toList.map fun (s, v) => (s.name, v.toDocument))

/-- The entry that a table means: it has to be an alias or to have settings, and
    cannot be both. -/
def toEntry (name : String) (t : PresetTable) : Except Failure PresetEntry :=
  match t.aliasOf, t.settings.isEmpty with
  | some target, false =>
    .error (.saying s!"Preset '{name}' is an alias of '{target}' and cannot also define settings")
  | some target, true => .ok (.aliasOf target)
  | none, true => .error (.saying s!"Preset '{name}' defines no settings")
  | none, false => .ok (.settings t.settings)

end PresetTable

namespace Config

/-- The configuration that is used when there is none. -/
def standard : Config :=
  ⟨none, none, [Preset.standard], none, .empty, .empty⟩

/-! ## Reading -/

/-- A path in a document. -/
def asPath (d : Document) : Option Path :=
  d.asText.map .ofText

/-- The table of all rows of a document, each read. -/
def tableOf? {α : Type} (f : Document → Option α) : Document → Option (NameTable α)
  | .table rows => (rows.mapM fun row => (f row.2).map (row.1, ·)).map NameTable.ofList
  | _ => none

/-- Read a configuration, of which everything may be left out. -/
def ofDocument? (surplus : Bool) (d : Document) : Option Config := do
  let form : ListForm := ⟨false, surplus⟩
  let r ← Record.ofDocument? ["tools", "encode", "overrides", "presets"] form d
  let (ffmpeg, ffprobe) ← r.orElse "tools" (none, none) fun d => do
    let t ← Record.ofDocument? ["ffmpeg_path", "ffprobe_path"] form d
    return (← t.optional "ffmpeg_path" asPath, ← t.optional "ffprobe_path" asPath)
  let (presets, outputDir) ← r.orElse "encode" ([Preset.standard], none) fun d => do
    let t ← Record.ofDocument? ["presets", "output_dir"] form d
    return (← t.orElse "presets" [Preset.standard] (Document.asList Document.asText),
      ← t.optional "output_dir" asPath)
  return ⟨ffmpeg, ffprobe, presets, outputDir,
    ← r.orElse "overrides" .empty Settings.ofDocument?,
    ← r.orElse "presets" .empty (tableOf? PresetTable.ofDocument?)⟩

/-! ## Presets -/

/-- The entries of the preset tables, in the order of their names. -/
def entries (c : Config) : Except Failure (List (String × PresetEntry)) :=
  NameTable.mapRows PresetTable.toEntry c.presets.entries

/-- The presets of a configuration and those that are always there. -/
def registry (c : Config) : Except Failure Registry :=
  match c.entries with
  | .error e => .error e
  | .ok rows => match Registry.extend rows with
    | .error e => .error (Failure.whilst "Invalid preset table" e)
    | .ok r => .ok r

/-- Accept a configuration that can be worked with. -/
def validate (c : Config) : Except Failure Unit :=
  match c.registry with
  | .error e => .error e
  | .ok r =>
    if c.encodePresets.isEmpty then .error (.saying "[encode] presets cannot be empty")
    else match c.encodePresets.find? (!r.contains ·) with
      | some name => .error (.saying s!"[encode] names unknown preset '{name}'")
      | none => .ok ()

end Config

end Transcode
