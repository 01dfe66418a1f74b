/-
  Transcode — the values of settings.

  A value is a flag, a whole number of 64 bits, a binary floating point number, a
  text or a list of rates.  The views (`asInteger`, `asNumber`, `asText`, `asFlag`)
  say which values count as what; `plain` is the text a value is shown with, which
  is also what goes into an encoder's arguments.
-/
import Transcode.Binary64.Shortest

namespace Transcode

/-- The value of a setting. -/
inductive Value where
  | flag (on : Bool)
  | integer (n : Int64)
  | float (x : Binary64)
  | text (s : String)
  | list (xs : List Binary64)
  deriving DecidableEq

namespace Value

/-- The greatest and the least whole number of 64 bits. -/
def greatest : Int := 9223372036854775807

@[inherit_doc greatest]
def least : Int := -9223372036854775808

/-- The whole number that a value is: an integer, or a float without a fraction,
    held within 64 bits. -/
def asInteger : Value → Option Int64
  | integer n => some n
  | float x => if x.isWhole then some (Int64.ofInt (x.clamp least greatest)) else none
  | _ => none

/-- The number that a value is. -/
def asNumber : Value → Option Binary64
  | integer n => some (.ofInt n.toInt)
  | float x => some x
  | _ => none

/-- The text that a value is. -/
def asText : Value → Option String
  | text s => some s
  | _ => none

/-- The flag that a value is. -/
def asFlag : Value → Option Bool
  | flag b => some b
  | _ => none

/-- What a value is called in messages. -/
def typeName : Value → String
  | flag _ => "boolean"
  | integer _ => "integer"
  | float _ => "float"
  | text _ => "string"
  | list _ => "list"

/-- A whole number in decimal. -/
def integerText (i : Int) : List Char :=
  Binary64.signText (decide (i < 0)) ++ digitsOf i.natAbs

/-- The text of a value: numbers in plain decimal, lists separated by commas. -/
def plain : Value → String
  | flag b => if b then "true" else "false"
  | integer n => String.ofList (integerText n.toInt)
  | float x => String.ofList x.plain
  | text s => s
  | list xs => ",".intercalate (xs.map fun x => String.ofList x.plain)

end Value

end Transcode
