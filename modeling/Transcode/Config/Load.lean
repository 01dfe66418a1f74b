/-
  Transcode — configuration files.

  A configuration is read from the file that is named, or else from the first of
  the usual places where anything is; without any of these it is the standard one.
-/
import Transcode.Config
import Transcode.Host
import Transcode.Toml.Reader

namespace Transcode.Config

/-- Read a configuration from its text. -/
def ofText (text : String) : Except Failure Config :=
  match (Document.ofToml? text).bind (ofDocument? true) with
  | some c => .ok c
  | none => .error (.ofCause .toml)

/-- Read and validate the configuration in a file. -/
def load (h : Host) (d : Disk) (p : Path) : Except Failure Config :=
  match h.readText d p with
  | .error e => .error (Failure.whilst s!"Failed to read config file: {p.quoted}" (.ofCause (.io e)))
  | .ok text => match ofText text with
    | .error e => .error (e.whilst s!"Failed to parse config file: {p.quoted}")
    | .ok c => match c.validate with
      | .error e => .error (e.whilst s!"Invalid config file: {p.quoted}")
      | .ok () => .ok c

/-- A path that starts with `~`, from the home directory.  It is assumed that the
    library that expands it puts the home directory in place of the `~` and changes
    nothing else, and that without one it leaves the path as it is. -/
def fromHome (h : Host) (rest : String) : Path :=
  ⟨(h.home.getD "~").bytes ++ Text.encode rest⟩

/-- Where configurations usually are. -/
def usualPlaces (h : Host) : List Path :=
  ["./mp4forge.toml", fromHome h "/.config/mp4forge/config.toml", "/etc/mp4forge/config.toml"]

/-- The configuration of a file, or of the first of the usual places, or else the
    standard one. -/
def find (h : Host) (d : Disk) (named : Option Path) : Except Failure Config :=
  match named.or ((usualPlaces h).find? (h.fileExists d)) with
  | some p => load h d p
  | none => .ok standard

end Transcode.Config
