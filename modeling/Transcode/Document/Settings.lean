/-
  Transcode — values and settings as documents.

  Each value has a document of its own kind.  Reading goes by the kind of the
  document alone, so a text stays a text whatever it looks like; only a whole
  number with more than 64 bits becomes a float.
-/
import Transcode.Document.Record
import Transcode.Settings

namespace Transcode

namespace Document

/-- A number, rounded if it has to be. -/
def asNumber : Document → Option Binary64
  | integer i => some (.ofInt i)
  | float x => some x
  | _ => none

end Document

namespace Value

/-- The document of a value. -/
def toDocument : Value → Document
  | flag b => .flag b
  | integer n => .integer n.toInt
  | float x => .float x
  | text s => .text s
  | list xs => .list (xs.map .float)

/-- The value of a document. -/
def ofDocument? : Document → Option Value
  | .flag b => some (flag b)
  | .integer i =>
    if least ≤ i ∧ i ≤ greatest then some (integer (Int64.ofInt i)) else some (float (.ofInt i))
  | .float x => some (float x)
  | .text s => some (text s)
  | .list items => (items.mapM Document.asNumber).map list
  | _ => none

end Value

namespace Settings

/-- The document of some settings: a table in profile order. -/
def toDocument (m : Settings) : Document :=
  .table (m.toList.map fun (s, v) => (s.name, v.toDocument))

/-- A setting and its value in a row of a table. -/
def ofRow? (row : String × Document) : Option (Setting × Value) :=
  match Setting.named? row.1, Value.ofDocument? row.2 with
  | some s, some v => some (s, v)
  | _, _ => none

/-- The settings of the rows of a table; the last row of a name counts. -/
def ofRows? (rows : List (String × Document)) : Option Settings :=
  (rows.mapM ofRow?).map ofList

/-- The settings of a document. -/
def ofDocument? : Document → Option Settings
  | .table rows => ofRows? rows
  | _ => none

end Settings

end Transcode
