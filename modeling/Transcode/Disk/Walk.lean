/-
  Transcode — finding what a path names.

  A path is followed piece by piece from the root or from a directory.  Every
  piece but the last has to lead to a directory; what may be at the last depends
  on the operation, so following a path ends with a `Target`: a directory that is
  there, and what the path asks for in it.

  A symbolic link on the way is followed: the path that it stands for takes its
  place, read from the directory that the link is in.  A link at the end is
  followed for some operations only: `resolve` ends where it leads, `target` at the
  link itself.
-/
import Transcode.Disk
import Transcode.Disk.Error
import Transcode.Path

namespace Transcode

open Text (Bytes)

/-- What the end of a path asks for. -/
inductive Last where
  /-- Something of this name; `asDirectory` when a slash follows. -/
  | name (n : Bytes) (asDirectory : Bool)
  /-- The directory itself: `.` is at the end, or nothing is. -/
  | here
  /-- The directory above: `..` is at the end. -/
  | up
  deriving DecidableEq, Repr

/-- Whether the end of a path demands a directory. -/
def Last.demandsDirectory : Last → Bool
  | .name _ asDirectory => asDirectory
  | _ => true

/-- Where a path leads: the directory in which its end is looked for. -/
structure Target where
  directory : Location
  last : Last
  deriving DecidableEq, Repr

/-- The location that a target means. -/
def Target.location (t : Target) : Location :=
  match t.last with
  | .name n _ => t.directory ++ [n]
  | .here => t.directory
  | .up => t.directory.dropLast

/-- The limits on the length of a name and of a path. -/
def longestName : Nat := 255

@[inherit_doc longestName]
def longestPath : Nat := 4095

/-- The limit on the number of links that are followed for one path. -/
def mostLinks : Nat := 40

/-- Whether the name at the end is longer than names can be. -/
def Target.isTooLong (t : Target) : Bool :=
  match t.last with
  | .name n _ => longestName < n.length
  | _ => false

namespace Path

/-- The pieces between slashes that are not empty. -/
def pieces (p : Path) : List Bytes :=
  (Text.pieces (· == slash) p.bytes).filter (!·.isEmpty)

/-- Whether a slash is at the end. -/
def endsInSlash (p : Path) : Bool :=
  p.bytes.getLast? == some slash

/-- Where a path starts that is read from a directory. -/
def origin (p : Path) (start : Location) : Location :=
  if p.isAbsolute then [] else start

/-- The path of a location. -/
def ofLocation (l : Location) : Path :=
  match l with
  | [] => ⟨[slash]⟩
  | _ => ⟨l.flatMap (slash :: ·)⟩

end Path

namespace Disk

/-! ## Single steps -/

/-- What is one piece further from a directory: another one, or a link. -/
inductive Step where
  | directory (l : Location)
  | link (path : Path)

/-- Go one piece further from a directory. -/
def stepTo (d : Disk) (origin : Location) (piece : Bytes) : Except OsError Step :=
  if piece = [Path.dot] then .ok (.directory origin)
  else if piece = [Path.dot, Path.dot] then .ok (.directory origin.dropLast)
  else if longestName < piece.length then .error .nameTooLong
  else match d.node? (origin ++ [piece]) with
    | none => .error .notFound
    | some .directory => .ok (.directory (origin ++ [piece]))
    | some (.link path) => .ok (.link ⟨path⟩)
    | some _ => .error .notDirectory

/-- How far one comes without following a link: to the end, or to a link in a
    directory, with some pieces behind it. -/
inductive Stretch where
  | whole (l : Location)
  | link (directory : Location) (path : Path) (rest : List Bytes)

/-- Go on from a directory, up to the first link. -/
def stretch (d : Disk) : Location → List Bytes → Except OsError Stretch
  | l, [] => .ok (.whole l)
  | l, p :: ps => match d.stepTo l p with
    | .error e => .error e
    | .ok (.directory l') => d.stretch l' ps
    | .ok (.link path) => .ok (.link l path ps)

/-- The end of a path that asks for a piece. -/
def lastOf (piece : Bytes) (asDirectory : Bool) : Last :=
  if piece = [Path.dot] then .here
  else if piece = [Path.dot, Path.dot] then .up
  else .name piece asDirectory

/-- What is at the end of a path, if anything. -/
def look (d : Disk) (t : Target) : Except OsError (Option Node) :=
  if t.isTooLong then .error .nameTooLong else .ok (d.node? t.location)

/-- What has to be at the end of a path. -/
def found (d : Disk) (t : Target) : Except OsError Node :=
  match d.look t with
  | .error e => .error e
  | .ok none => .error .notFound
  | .ok (some .directory) => .ok .directory
  | .ok (some n) => match t.last with
    | .name _ true => .error .notDirectory
    | _ => .ok n

/-! ## Whole paths -/

/-- The path that a link at the end of a path stands for. -/
def linkAt? (d : Disk) (t : Target) : Option Path :=
  match t.last, d.look t with
  | .name .., .ok (some (.link path)) => some ⟨path⟩
  | _, _ => none

/-- Go on along the path that a link stands for; an empty one leads nowhere. -/
def throughLink (path : Path) (onward : Path → Except OsError Target) : Except OsError Target :=
  if path.bytes.isEmpty then .error .notFound else onward path

/-- Follow pieces and then the end of a path, with so many links at most; a link at
    the end is followed if `follows` says so. -/
def locate (d : Disk) (follows : Bool) :
    Nat → Location → List Bytes → Last → Except OsError Target
  | links, l, before, last => match d.stretch l before with
    | .error e => .error e
    | .ok (.link directory path rest) => match links with
      | 0 => .error .tooManyLinks
      | links + 1 => throughLink path fun path =>
        d.locate follows links (path.origin directory) (path.pieces ++ rest) last
    | .ok (.whole directory) =>
      match if follows then d.linkAt? ⟨directory, last⟩ else none with
      | none => .ok ⟨directory, last⟩
      | some path => match links with
        | 0 => .error .tooManyLinks
        | links + 1 => throughLink path fun path => match path.pieces.reverse with
          | [] => .ok ⟨path.origin directory, .here⟩
          | piece :: before => d.locate follows links (path.origin directory) before.reverse
            (lastOf piece (last.demandsDirectory || path.endsInSlash))

/-- Follow a path from a directory, unless it starts at the root. -/
def locatePath (d : Disk) (follows : Bool) (start : Location) (p : Path) :
    Except IoError Target :=
  if p.bytes.contains 0 then .error .zeroInPath
  else if p.bytes.isEmpty then .error (.os .notFound)
  else if longestPath < p.bytes.length then .error (.os .nameTooLong)
  else match p.pieces.reverse with
    | [] => .ok ⟨p.origin start, .here⟩
    | piece :: before => (d.locate follows mostLinks (p.origin start) before.reverse
        (lastOf piece p.endsInSlash)).mapError .os

/-- Where a path leads, a link at the end not followed. -/
def target (d : Disk) (start : Location) (p : Path) : Except IoError Target :=
  d.locatePath false start p

/-- Where a path leads, a link at the end followed. -/
def resolve (d : Disk) (start : Location) (p : Path) : Except IoError Target :=
  d.locatePath true start p

end Disk

end Transcode
