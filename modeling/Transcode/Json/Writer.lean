/-
  Transcode — documents written as JSON.

  Two layouts: everything on one line without blanks, and one item to a line,
  indented by two spaces for each level.  They differ only in the gaps.

  * A float is written with the fewest digits that read back, and so that it does
    not look like an integer; what JSON has no number for is `null`.
  * In a text only what has to be is escaped: the quote, the backslash and the
    controls below the space.
-/
import Transcode.Document
import Transcode.Value

namespace Transcode.Json

/-! ## Numbers -/

/-- A whole exponent with its sign. -/
def exponentText (e : Int) : List Char :=
  (if e < 0 then '-' else '+') :: digitsOf e.natAbs

/-- The notation of a finite positive number: positional from 10^-5 on and below
    10^16, with a `0` behind the point of a whole number; else one digit in front
    of the point and a power of ten. -/
def decimalText (d : Decimal) : List Char :=
  if d.digits.isEmpty || (-5 < d.point && d.point ≤ 16) then
    let (whole, fraction) := d.split
    whole ++ '.' :: (if fraction.isEmpty then ['0'] else fraction)
  else
    let fraction := d.digits.drop 1
    d.digits.take 1 ++ (if fraction.isEmpty then [] else '.' :: fraction) ++
      'e' :: exponentText (d.point - 1)

/-- A float as a JSON number. -/
def floatText : Binary64 → List Char
  | .finite s n _ => Binary64.signText s ++ decimalText (Binary64.shortest .even n)
  | _ => "null".toList

/-! ## Texts -/

/-- A character inside quotes. -/
def escaped (c : Char) : List Char :=
  match c with
  | '"' => ['\\', '"']
  | '\\' => ['\\', '\\']
  | '\n' => ['\\', 'n']
  | '\t' => ['\\', 't']
  | '\r' => ['\\', 'r']
  | '\x08' => ['\\', 'b']
  | '\x0c' => ['\\', 'f']
  | c =>
    if c.toNat < 0x20 then
      ['\\', 'u', '0', '0', Nat.digitChar (c.toNat / 16), Nat.digitChar (c.toNat % 16)]
    else [c]

/-- A text in quotes. -/
def quoted (s : String) : List Char :=
  '"' :: s.toList.flatMap escaped ++ ['"']

/-! ## Trees -/

/-- The gap before an item: nothing on one line, or a new line and its indentation
    at a level. -/
def gap : Option Nat → List Char
  | none => []
  | some level => '\n' :: List.replicate (2 * level) ' '

/-- What stands between a name and its value. -/
def colon : Option Nat → List Char
  | none => [':']
  | some _ => [':', ' ']

mutual

/-- A document in a layout: on one line, or indented at a level. -/
def written (layout : Option Nat) : Document → List Char
  | .null => "null".toList
  | .flag b => (if b then "true" else "false").toList
  | .integer i => Value.integerText i
  | .float x => floatText x
  | .text s => quoted s
  | .foreign => "null".toList
  | .list [] => ['[', ']']
  | .list (d :: ds) =>
    '[' :: gap (layout.map (· + 1)) ++ written (layout.map (· + 1)) d ++
      writtenItems layout ds ++ gap layout ++ [']']
  | .table [] => ['\x7b', '\x7d']
  | .table ((k, d) :: rows) =>
    '\x7b' :: gap (layout.map (· + 1)) ++ quoted k ++ colon layout ++
      written (layout.map (· + 1)) d ++ writtenRows layout rows ++ gap layout ++ ['\x7d']

/-- Further items of a list. -/
def writtenItems (layout : Option Nat) : List Document → List Char
  | [] => []
  | d :: ds =>
    ',' :: gap (layout.map (· + 1)) ++ written (layout.map (· + 1)) d ++ writtenItems layout ds

/-- Further rows of a table. -/
def writtenRows (layout : Option Nat) : List (String × Document) → List Char
  | [] => []
  | (k, d) :: rows =>
    ',' :: gap (layout.map (· + 1)) ++ quoted k ++ colon layout ++
      written (layout.map (· + 1)) d ++ writtenRows layout rows

end

end Json

namespace Document

/-- The document on one line. -/
def compact (d : Document) : String :=
  String.ofList (Json.written none d)

/-- The document with one item to a line. -/
def pretty (d : Document) : String :=
  String.ofList (Json.written (some 0) d)

end Document

end Transcode
