/-
  Transcode — programs that follow a script.

  A script says what a program does when it is run: it may write its arguments to
  the file that the last of them names, or print them; then it prints what it is
  told to, and ends as it is told to.
-/
import Transcode.Host

namespace Transcode

open Text (Bytes)

/-- What a program does when it is run. -/
structure Script where
  /-- Write the arguments to the file that the last one names. -/
  writesArgs : Bool
  /-- Print each argument on a line. -/
  printsArgs : Bool
  stdout : Bytes
  stderr : Bytes
  status : ExitStatus
  deriving DecidableEq, Repr

namespace Script

/-- The byte that ends a line. -/
def lineFeed : UInt8 := 0x0A

/-- The byte between words. -/
def space : UInt8 := 0x20

/-- The arguments on one line. -/
def argsLine (args : List Bytes) : Bytes :=
  [space].intercalate args ++ [lineFeed]

/-- The disk after the arguments have been written, if they can be. -/
def written (h : Host) (args : List Bytes) (d : Disk) : Disk :=
  match args.getLast? with
  | none => d
  | some last => match h.write d ⟨last⟩ (argsLine args) with
    | .ok d' => d'
    | .error _ => d

/-- Follow a script on a host. -/
def run (h : Host) (s : Script) (args : List Bytes) (d : Disk) : Disk × Completion :=
  let printed := if s.printsArgs then args.flatMap (· ++ [lineFeed]) else []
  (if s.writesArgs then written h args d else d, ⟨printed ++ s.stdout, s.stderr, s.status⟩)

/-- What the scripts of some programs do; other programs do nothing. -/
def behaviour (h : Host) (scripts : List Script) (id : Nat) (args : List Bytes) (d : Disk) :
    Disk × Completion :=
  match scripts[id]? with
  | some s => run h s args d
  | none => (d, ⟨[], [], .code 0⟩)

end Script

/-- The host with programs that follow scripts, by their numbers. -/
def Host.withScripts (h : Host) (scripts : List Script) : Host :=
  { h with behaviour := Script.behaviour h scripts }

end Transcode
