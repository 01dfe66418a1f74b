/-
  Transcode — documents read from TOML.

  A text is a row of statements, each on lines of its own.  Lists go over several
  lines and may hold comments; a table among values stays on one line.  Values nest
  up to a fixed depth, which is also what the reading of values recurses on.

  This is what a library for TOML does, of which the following is assumed:

  * it takes the texts of TOML 1.0, with or without a mark of byte order in front,
    whose values and names nest no deeper than `deepest`, and no others;
  * it refuses a whole number of more than 64 bits, and a float that is written with
    digits and grows infinite;
  * a date is read as a table of one row, whose name no configuration knows;
  * in a table it gives each name once, and refuses a text that gives it twice.
-/
import Transcode.Toml.Scalar
import Transcode.Toml.Tree

namespace Transcode.Toml

/-! ## Values -/

/-- The characters behind blanks, line breaks and comments; `inComment` when a
    comment has begun. -/
def dropGaps (inComment : Bool) : List Char → List Char
  | '\n' :: r => dropGaps false r
  | '\r' :: '\n' :: r => dropGaps false r
  | c :: r =>
    if inComment then if isLineChar c then dropGaps true r else c :: r
    else if c = '#' then dropGaps true r
    else if isBlank c then dropGaps false r
    else c :: r
  | [] => []

/-- What stands next in a list. -/
def afterGaps (cs : List Char) : List Char :=
  dropGaps false cs

/-- The items of a list behind its opening bracket; a comma may follow the last. -/
def items (value : Scanner Document) : Nat → Scanner (List Document)
  | 0, _ => none
  | fuel + 1, cs =>
    match afterGaps cs with
    | ']' :: r => some ([], r)
    | cs => match value cs with
      | none => none
      | some (d, r) => match afterGaps r with
        | ']' :: r => some ([d], r)
        | ',' :: r => (items value fuel r).map fun (ds, r) => (d :: ds, r)
        | _ => none

/-- A path of names and the value behind the equals sign. -/
def assignment (value : Scanner Document) (cs : List Char) :
    Option ((List String × Document) × List Char) :=
  match path cs with
  | some (p, '=' :: r) => (value (dropBlanks r)).map fun (d, r) => ((p, d), r)
  | _ => none

/-- The assignments of a table behind its first; no comma follows the last. -/
def moreRows (value : Scanner Document) : Nat → Scanner (List (List String × Document))
  | 0, _ => none
  | fuel + 1, cs =>
    match dropBlanks cs with
    | '\x7d' :: r => some ([], r)
    | ',' :: r => match assignment value r with
      | none => none
      | some (row, r) => (moreRows value fuel r).map fun (rows, r) => (row :: rows, r)
    | _ => none

/-- The assignments of a table behind its opening brace. -/
def rows (value : Scanner Document) (cs : List Char) :
    Option (List (List String × Document) × List Char) :=
  match dropBlanks cs with
  | '\x7d' :: r => some ([], r)
  | _ => match assignment value cs with
    | none => none
    | some (row, r) => (moreRows value (r.length + 1) r).map fun (rows, r) => (row :: rows, r)

/-- A value with at most `depth` lists and tables around its parts. -/
def value : Nat → Scanner Document
  | 0, cs => scalar cs
  | depth + 1, cs =>
    match cs with
    | '[' :: r => (items (value depth) (r.length + 1) r).map fun (ds, r) => (.list ds, r)
    | '\x7b' :: r => match rows (value depth) r with
      | none => none
      | some (rs, r) => (inlineTable? rs).map (·, r)
    | cs => scalar cs

/-! ## Statements -/

/-- A statement at the start of a line, and the end of the line. -/
def statement (cs : List Char) : Option (Statement × List Char) :=
  match cs with
  | '[' :: '[' :: r => match path r with
    | some (p, ']' :: ']' :: r) => (endLine? r).map (.doubleHeader p, ·)
    | _ => none
  | '[' :: r => match path r with
    | some (p, ']' :: r) => (endLine? r).map (.header p, ·)
    | _ => none
  | cs => match assignment (value deepest) cs with
    | some ((p, d), r) => (endLine? r).map (.assign p d, ·)
    | none => none

/-- All statements of a text. -/
def statements : Nat → List Char → Option (List Statement)
  | 0, _ => none
  | fuel + 1, cs =>
    match dropBlanks cs with
    | [] => some []
    | c :: r =>
      if c = '#' || c = '\n' || c = '\r' then (endLine? (c :: r)).bind (statements fuel)
      else match statement (c :: r) with
        | none => none
        | some (s, r) => (statements fuel r).map (s :: ·)

/-- The text without the mark of byte order in front. -/
def withoutMark : List Char → List Char
  | '\uFEFF' :: r => r
  | r => r

end Toml

/-- Read a TOML text, as the library does. -/
def Document.ofToml? (text : String) : Option Document :=
  let cs := Toml.withoutMark text.toList
  (Toml.statements (cs.length + 1) cs).bind Toml.document?

end Transcode
