/-
  Transcode — paths.

  A path is a row of bytes, of which only `/` and `.` mean something.  It is made
  of components: the root, the directory it starts from (`.` in front), the
  directory above (`..`) and names.  Slashes in a row count as one, and `.` counts
  only in front.

  Parts of a path are cut out of its bytes, so that what is left keeps the
  spelling it had: `marks` gives every component with the number of bytes up to
  its end, and `parent?` and `withSuffix` are prefixes found by it.
-/
import Transcode.Text.Quoted

namespace Transcode

open Text (Bytes)

/-- A path as the bytes it is written with. -/
structure Path where
  bytes : Bytes
  deriving DecidableEq, Repr

namespace Path

/-- The byte between components. -/
def slash : UInt8 := 0x2F

/-- The byte in front of an extension. -/
def dot : UInt8 := 0x2E

/-- The path of a text. -/
def ofText (s : String) : Path :=
  ⟨Text.encode s⟩

instance : Coe String Path := ⟨ofText⟩
instance : Inhabited Path := ⟨⟨[]⟩⟩

/-- The path for showing, with U+FFFD for bytes of no character. -/
def display (p : Path) : String :=
  Text.decodeLossy p.bytes

/-- The path in quotes, for messages. -/
def quoted (p : Path) : String :=
  Text.quoted p.bytes

/-- Whether the path starts at the root. -/
def isAbsolute (p : Path) : Bool :=
  p.bytes.head? == some slash

/-! ## Components -/

/-- One step of a path. -/
inductive Component where
  | root
  /-- The directory that the path starts from, written as `.` in front. -/
  | here
  /-- The directory above. -/
  | up
  | name (bytes : Bytes)
  deriving DecidableEq, Repr

/-- The step that a piece between slashes stands for; `.` and nothing stand for
    none. -/
def stepOf (piece : Bytes) : Option Component :=
  if piece.isEmpty || piece == [dot] then none
  else if piece == [dot, dot] then some .up
  else some (.name piece)

/-- The steps of some pieces, the first of which starts at byte `start`, each with
    the place of its last byte. -/
def marksFrom (start : Nat) : List Bytes → List (Component × Nat)
  | [] => []
  | p :: ps =>
    let rest := marksFrom (start + p.length + 1) ps
    match stepOf p with
    | some c => (c, start + p.length) :: rest
    | none => rest

/-- The components of a path, each with the number of bytes up to its end. -/
def marks (p : Path) : List (Component × Nat) :=
  match Text.pieces (· == slash) p.bytes with
  | [] => []
  | first :: rest =>
    if first.isEmpty && p.isAbsolute then (.root, 1) :: marksFrom 1 rest
    else if first == [dot] then (.here, 1) :: marksFrom 2 rest
    else marksFrom 0 (first :: rest)

/-- The components of a path. -/
def components (p : Path) : List Component :=
  p.marks.map Prod.fst

/-- The name at the end of a path. -/
def fileName? (p : Path) : Option Bytes :=
  match p.components.getLast? with
  | some (.name n) => some n
  | _ => none

/-- The path without its last component; the root and the empty path have none. -/
def parent? (p : Path) : Option Path :=
  match p.marks.reverse with
  | [] => none
  | (.root, _) :: _ => none
  | _ :: [] => some ⟨[]⟩
  | _ :: (_, stop) :: _ => some ⟨p.bytes.take stop⟩

/-- A path read from inside another. -/
def join (p q : Path) : Path :=
  if q.isAbsolute then q
  else if p.bytes.isEmpty || p.bytes.getLast? == some slash then ⟨p.bytes ++ q.bytes⟩
  else ⟨p.bytes ++ slash :: q.bytes⟩

/-! ## Extensions -/

/-- A name without its extension: what stands before its last dot, unless that is
    nothing. -/
def stemOf (name : Bytes) : Bytes :=
  match Text.cutAt (· == dot) name.reverse with
  | some (_, before) => if before.isEmpty then name else before.reverse
  | none => name

/-- The name at the end of a path, without its extension. -/
def fileStem? (p : Path) : Option Bytes :=
  p.fileName?.map stemOf

/-- The number of bytes of the extension at the end of a path: what stands behind
    the dot that ends the stem. -/
def extensionLength (p : Path) : Nat :=
  match p.fileName? with
  | some n => n.length - (stemOf n).length - 1
  | none => 0

/-- The path with an extension behind the stem of its last name; what follows the
    stem is dropped.  A path that does not end in a name stays as it is. -/
def withSuffix (p : Path) (extension : String) : Path :=
  match p.marks.getLast? with
  | some (.name n, stop) =>
    ⟨p.bytes.take (stop - n.length) ++ stemOf n ++ dot :: Text.encode extension⟩
  | _ => p

/-- The path with another extension.  The old one is taken off the end first, by
    its length; what then is left of a name such as `..x` is the directory above,
    which takes no extension. -/
def withExtension (p : Path) (extension : String) : Path :=
  withSuffix ⟨p.bytes.take (p.bytes.length - p.extensionLength)⟩ extension

end Path

end Transcode
