/-
  Transcode — why an operation on files or programs is refused.

  Most causes come from the operating system and have a number there; the others
  are found before it is asked, or in what it delivers.
-/
import Transcode.Value

namespace Transcode

/-- A refusal of the operating system. -/
inductive OsError where
  | notFound
  | permissionDenied
  | busy
  | alreadyExists
  | notDirectory
  | isDirectory
  | invalidArgument
  | nameTooLong
  | notEmpty
  | tooManyLinks
  deriving DecidableEq, Repr

namespace OsError

/-- The number of a refusal. -/
def number : OsError → Nat
  | notFound => 2
  | permissionDenied => 13
  | busy => 16
  | alreadyExists => 17
  | notDirectory => 20
  | isDirectory => 21
  | invalidArgument => 22
  | nameTooLong => 36
  | notEmpty => 39
  | tooManyLinks => 40

/-- What a refusal is called. -/
def phrase : OsError → String
  | notFound => "No such file or directory"
  | permissionDenied => "Permission denied"
  | busy => "Device or resource busy"
  | alreadyExists => "File exists"
  | notDirectory => "Not a directory"
  | isDirectory => "Is a directory"
  | invalidArgument => "Invalid argument"
  | nameTooLong => "File name too long"
  | notEmpty => "Directory not empty"
  | tooManyLinks => "Too many levels of symbolic links"

end OsError

/-- Why an operation on files or programs fails. -/
inductive IoError where
  | os (e : OsError)
  /-- A file that should be text is not. -/
  | notText
  /-- A path with a zero byte in it. -/
  | zeroInPath
  /-- A program or an argument with a zero byte in it. -/
  | zeroInArgument
  deriving DecidableEq, Repr

/-- The wording of a failed operation. -/
def IoError.message : IoError → String
  | os e => s!"{e.phrase} (os error {String.ofList (digitsOf e.number)})"
  | notText => "stream did not contain valid UTF-8"
  | zeroInPath => "file name contained an unexpected NUL byte"
  | zeroInArgument => "nul byte found in provided data"

end Transcode
