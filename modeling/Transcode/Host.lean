/-
  Transcode — the machine that everything runs on.

  A host knows where it is (`cwd`), where programs are looked for, where the home
  directory is, and what each program does.  Operations take a disk and give
  another; one that fails changes nothing, but for `removeTree`, which may fail
  when it is half done.  Looking, reading, writing and starting a program follow a
  link at the end of a path; renaming, removing and making a directory do not.

  A host may also refuse an operation that the state of the disk allows
  (`refuses`): for want of rights, of space, or for any other reason.

  The library that makes temporary directories puts a code behind the prefix that it
  is given.  Which one, is its own affair, so that `code` may be any function; all
  that is ever assumed of it is that codes are six letters or digits (`GivesCodes`).
-/
import Transcode.Disk.Walk

namespace Transcode

open Text (Bytes)

/-- How a program ended. -/
inductive ExitStatus where
  | code (n : Nat)
  /-- By a signal, which may have left an image of the program behind. -/
  | signal (n : Nat) (coreDumped : Bool)
  deriving DecidableEq, Repr

/-- What a program that has ended leaves behind besides its files. -/
structure Completion where
  stdout : Bytes
  stderr : Bytes
  status : ExitStatus
  deriving DecidableEq, Repr

/-- The operations that a host may refuse. -/
inductive Operation where
  | rename (src dst : Path)
  | removeFile (p : Path)
  | makeDirectory (p : Path)
  deriving DecidableEq, Repr

/-- A code for the name of a new directory: six letters or digits. -/
def IsCode (code : String) : Prop :=
  code.toList.length = 6 ∧ ∀ c ∈ code.toList, c.isAlphanum = true

instance (code : String) : Decidable (IsCode code) :=
  decidable_of_iff (code.toList.length = 6 ∧ code.toList.all Char.isAlphanum = true)
    (and_congr Iff.rfl List.all_eq_true)

/-- A machine, but for the state of its disk. -/
structure Host where
  cwd : Location
  /-- The directories in which programs are looked for. -/
  searchPath : List Path
  home : Option Path
  refuses : Operation → Disk → Option OsError
  /-- What a program does, given its arguments. -/
  behaviour : Nat → List Bytes → Disk → Disk × Completion
  /-- What is put behind a prefix for the name of a new directory in another. -/
  code : Disk → Path → String

namespace Host

/-- What is assumed of the library that makes temporary directories: it puts codes
    behind prefixes. -/
def GivesCodes (h : Host) : Prop :=
  ∀ d p, IsCode (h.code d p)

/-- A host without programs, on which nothing is refused, and all new directories get
    one code. -/
def bare : Host :=
  ⟨[], [], none, fun _ _ => none, fun _ _ d => (d, ⟨[], [], .code 0⟩), fun _ _ => "a1B2c3"⟩

theorem givesCodes_bare : bare.GivesCodes := by
  intro d p
  show IsCode "a1B2c3"
  decide

/-! ## Looking -/

/-- Where a path leads, a link at the end not followed. -/
def target (h : Host) (d : Disk) (p : Path) : Except IoError Target :=
  d.target h.cwd p

/-- Where a path leads, a link at the end followed. -/
def resolve (h : Host) (d : Disk) (p : Path) : Except IoError Target :=
  d.resolve h.cwd p

/-- What is at a path, or where a link there leads. -/
def stat (h : Host) (d : Disk) (p : Path) : Except IoError Node :=
  match h.resolve d p with
  | .error e => .error e
  | .ok t => (d.found t).mapError .os

/-- Whether anything is at a path. -/
def fileExists (h : Host) (d : Disk) (p : Path) : Bool :=
  (h.stat d p).isOk

/-- Whether a directory is at a path. -/
def isDirectory (h : Host) (d : Disk) (p : Path) : Bool :=
  match h.stat d p with
  | .ok .directory => true
  | _ => false

/-- The bytes of a file. -/
def read (h : Host) (d : Disk) (p : Path) : Except IoError Bytes :=
  match h.stat d p with
  | .error e => .error e
  | .ok .directory => .error (.os .isDirectory)
  | .ok (.file content) | .ok (.program _ content) => .ok content
  | .ok (.link _) => .error (.os .tooManyLinks)

/-- The text of a file. -/
def readText (h : Host) (d : Disk) (p : Path) : Except IoError String :=
  match h.read d p with
  | .error e => .error e
  | .ok bytes => (Text.decode bytes).mapError fun _ => .notText

/-- A path as it is from the root, spelled as it was behind the current directory. -/
def absolute (h : Host) (p : Path) : Path :=
  (Path.ofLocation h.cwd).join p

/-! ## Changing -/

/-- Whether the host refuses, as an outcome. -/
def allowed (h : Host) (op : Operation) (d : Disk) : Except IoError Unit :=
  match h.refuses op d with
  | some e => .error (.os e)
  | none => .ok ()

/-- Put a file where a path leads, in place of one that may be there, which can be
    executed after that if it could be before. -/
def put (d : Disk) (t : Target) (content : Bytes) : Except OsError Disk :=
  match t.last with
  | .name _ false => match d.look t with
    | .error e => .error e
    | .ok (some .directory) => .error .isDirectory
    | .ok (some (.link _)) => .error .tooManyLinks
    | .ok (some (.program id _)) => .ok (d.put t.location (.program id content))
    | .ok _ => .ok (d.put t.location (.file content))
  | _ => .error .isDirectory

/-- Write a file.  If a link is at the path, it is written where that leads; no file
    is written where a slash follows. -/
def write (h : Host) (d : Disk) (p : Path) (content : Bytes) : Except IoError Disk :=
  match h.target d p with
  | .error e => .error e
  | .ok t =>
    if t.last.demandsDirectory then .error (.os .isDirectory)
    else match h.resolve d p with
      | .error e => .error e
      | .ok t => (put d t content).mapError .os

/-- Make a directory. -/
def makeDirectory (h : Host) (d : Disk) (p : Path) : Except IoError Disk :=
  match h.target d p with
  | .error e => .error e
  | .ok t => match d.look t with
    | .error e => .error (.os e)
    | .ok (some _) => .error (.os .alreadyExists)
    | .ok none => (h.allowed (.makeDirectory p) d).map fun _ => d.put t.location .directory

/-- Remove a file or a link. -/
def removeFile (h : Host) (d : Disk) (p : Path) : Except IoError Disk :=
  match h.target d p with
  | .error e => .error e
  | .ok t => match t.last, d.found t with
    | .here, _ | .up, _ => .error (.os .isDirectory)
    | .name .., .error e => .error (.os e)
    | .name .., .ok .directory => .error (.os .isDirectory)
    | .name .., .ok _ => (h.allowed (.removeFile p) d).map fun _ => d.erase t.location

/-- Remove a directory that has nothing in it. -/
def removeDirectory (h : Host) (d : Disk) (p : Path) : Except IoError Disk :=
  match h.target d p with
  | .error e => .error e
  | .ok t => match t.last, d.found t with
    | .here, _ => .error (.os .invalidArgument)
    | .up, _ => .error (.os .notEmpty)
    | .name .., .error e => .error (.os e)
    | .name .., .ok .directory =>
      if d.isBare t.location then .ok (d.erase t.location) else .error (.os .notEmpty)
    | .name .., .ok _ => .error (.os .notDirectory)

/-- Remove a directory after all that is below it; of a link only the link.  A path
    may lead through what is below the directory, as `a/..` does: then it leads
    nowhere once that is gone, and the directory stays, which is no failure. -/
def removeTree (h : Host) (d : Disk) (p : Path) : Disk × Except IoError Unit :=
  match h.target d p with
  | .error e => (d, .error e)
  | .ok t => match d.found t with
    | .error e => (d, .error (.os e))
    | .ok .directory =>
      let emptied := d.eraseBelow t.location
      match h.removeDirectory emptied p with
      | .ok d' => (d', .ok ())
      | .error (.os .notFound) => (emptied, .ok ())
      | .error e => (emptied, .error e)
    | .ok (.link _) => match h.removeFile d p with
      | .ok d' => (d', .ok ())
      | .error e => (d, .error e)
    | .ok _ => (d, .error (.os .notDirectory))

/-- Whether a file or a directory may take the place of what is at `dst`. -/
def mayReplace (d : Disk) (dst : Location) (directory : Bool) : Except OsError Unit :=
  match d.node? dst with
  | none => .ok ()
  | some .directory =>
    if !directory then .error .isDirectory
    else if d.isBare dst then .ok ()
    else .error .notEmpty
  | some _ => if directory then .error .notDirectory else .ok ()

/-- The disk after a renaming, if the state of the disk allows it: both ends have
    to be names, the first of something that is there; no file or link can be where a
    slash follows; nothing moves below itself or onto what it is below; and what
    is replaced has to be of the same kind, a directory empty. -/
def renamed (d : Disk) (src dst : Target) : Except OsError Disk :=
  match src.last, dst.last with
  | .name .., .name .. =>
    match d.look src, d.look dst with
    | .error e, _ => .error e
    | .ok none, _ => .error .notFound
    | .ok (some _), .error e => .error e
    | .ok (some n), .ok _ =>
      let directory := n == .directory
      let (s, t) := (src.location, dst.location)
      if !directory && (src.last.demandsDirectory || dst.last.demandsDirectory) then
        .error .notDirectory
      else if s = t then .ok d
      else if s.isPrefixOf t then .error .invalidArgument
      else if t.isPrefixOf s then .error .notEmpty
      else (mayReplace d t directory).map fun _ => d.move s t
  | _, _ => .error .busy

/-- Rename something. -/
def rename (h : Host) (d : Disk) (src dst : Path) : Except IoError Disk :=
  match h.target d src, h.target d dst with
  | .error e, _ => .error e
  | .ok _, .error e => .error e
  | .ok s, .ok t => match renamed d s t with
    | .error e => .error (.os e)
    | .ok d' => (h.allowed (.rename src dst) d).map fun _ => d'

/-! ## Programs -/

/-- The executable at a path. -/
def executable (h : Host) (d : Disk) (p : Path) : Except IoError Nat :=
  match h.stat d p with
  | .error e => .error e
  | .ok (.program id _) => .ok id
  | .ok _ => .error (.os .permissionDenied)

/-- Whether the search for a program goes on in the next directory. -/
def searchGoesOn : OsError → Bool
  | .notFound | .notDirectory | .permissionDenied => true
  | _ => false

/-- Why a search fails that failed in one directory and then in another: for the
    last reason, unless something was there that cannot be executed. -/
def searchFailure (earlier later : OsError) : OsError :=
  if earlier = .permissionDenied then earlier else later

/-- Look for a program of a name in some directories, after the search has failed
    in others. -/
def search (h : Host) (d : Disk) (name : Path) (failure : OsError) : List Path → Except IoError Nat
  | [] => .error (.os failure)
  | dir :: dirs => match h.executable d (dir.join name) with
    | .ok id => .ok id
    | .error (.os e) =>
      if searchGoesOn e then h.search d name (searchFailure failure e) dirs else .error (.os e)
    | .error e => .error e

/-- The program that a path or a bare name stands for. -/
def program (h : Host) (d : Disk) (p : Path) : Except IoError Nat :=
  if p.bytes.isEmpty then .error (.os .notFound)
  else if p.bytes.contains Path.slash then h.executable d p
  else h.search d p .notFound h.searchPath

/-- Run a program to its end. -/
def spawn (h : Host) (d : Disk) (p : Path) (args : List Bytes) :
    Disk × Except IoError Completion :=
  if (p.bytes :: args).any (·.contains 0) then (d, .error .zeroInArgument)
  else match h.program d p with
    | .error e => (d, .error e)
    | .ok id =>
      let (d', c) := h.behaviour id args d
      (d', .ok c)

/-- Whether an executable is at a path. -/
def isExecutable (h : Host) (d : Disk) (p : Path) : Bool :=
  (h.executable d p).isOk

/-- A relative path in its plainest spelling, without `.` in front. -/
def plainest (p : Path) : Path :=
  ⟨[Path.slash].intercalate (p.components.filterMap fun
    | .name n => some n
    | .up => some [Path.dot, Path.dot]
    | _ => none)⟩

/-- The byte that stands for the home directory. -/
def tilde : UInt8 := 0x7E

/-- A directory of the search path in full: `~` in front is the home directory. -/
def inFull (h : Host) (dir : Path) : Path :=
  if dir.components.head? = some (.name [tilde]) then
    (h.home.getD ⟨[]⟩).join ⟨(plainest dir).bytes.drop 2⟩
  else dir

/-- Where a program is, as the library that looks for programs finds it.  It is assumed
    to look for a bare name in the search path, in order, to take anything longer from the
    current directory, and to find what is an executable file once links are followed.
    Unlike the search that starts a program, this one knows the home directory, and
    nothing stops it. -/
def which? (h : Host) (d : Disk) (p : Path) : Option Path :=
  if 1 < p.components.length then
    let p := if p.isAbsolute then p else h.absolute (plainest p)
    if h.isExecutable d p then some p else none
  else (h.searchPath.map fun dir => (h.inFull dir).join p).find? (h.isExecutable d)

end Host

end Transcode
