/-
  Transcode — documents read from JSON.

  The tokens of a text are read by a machine with a stack of what is open: lists
  with the items so far, and tables with the rows so far and the name of the one
  that is being read.

  This is what a library for JSON does, of which the following is assumed:

  * it takes the texts of the JSON grammar with nothing but blanks around the
    document, and no others;
  * a whole number of 64 bits stays whole, and any other number is the float that
    `Json.Number` makes of it;
  * a text with half of a surrogate pair, and a number that grows infinite, are
    passed over where nothing asks for them and refused elsewhere (`foreign`);
  * the rows of a table come in the order they are written in, with every row of a
    repeated name;
  * values are nested no deeper than it reads (128), unless nothing asks for them.
-/
import Transcode.Json.Token

namespace Transcode.Json

/-- A name in a table; none when it is not rightly a text. -/
abbrev Name := Option String

/-- Something open, with what has been read of it in reverse. -/
inductive Frame where
  | list (items : List Document)
  | table (rows : List (Name × Document)) (name : Name)

/-- What may come next. -/
inductive Expected where
  | value
  /-- The first item of a list, or its end. -/
  | itemOrEnd
  | name (rows : List (Name × Document))
  /-- The first name of a table, or its end. -/
  | nameOrEnd
  | colon (rows : List (Name × Document)) (name : Name)
  /-- A comma or an end, now that a value is complete. -/
  | more (value : Document)

/-- A state of the machine. -/
structure Progress where
  expected : Expected
  frames : List Frame

/-- A table of rows in reverse; a name that is no text makes it foreign. -/
def tableOf (rows : List (Name × Document)) : Document :=
  match rows.reverse.mapM fun (name, d) => name.map (·, d) with
  | some rows => .table rows
  | none => .foreign

/-- A token where a value is expected. -/
def startValue (frames : List Frame) : Token → Option Progress
  | .leaf d => some ⟨.more d, frames⟩
  | .text (some s) => some ⟨.more (.text s), frames⟩
  | .text none => some ⟨.more .foreign, frames⟩
  | .listStart => some ⟨.itemOrEnd, frames⟩
  | .tableStart => some ⟨.nameOrEnd, frames⟩
  | _ => none

/-- A token behind a complete value. -/
def goOn (value : Document) : List Frame → Token → Option Progress
  | .list items :: frames, .comma => some ⟨.value, .list (value :: items) :: frames⟩
  | .list items :: frames, .listEnd => some ⟨.more (.list (value :: items).reverse), frames⟩
  | .table rows name :: frames, .comma => some ⟨.name ((name, value) :: rows), frames⟩
  | .table rows name :: frames, .tableEnd => some ⟨.more (tableOf ((name, value) :: rows)), frames⟩
  | _, _ => none

/-- One token further. -/
def Progress.step (p : Progress) (t : Token) : Option Progress :=
  match p.expected, t with
  | .value, t => startValue p.frames t
  | .itemOrEnd, .listEnd => some ⟨.more (.list []), p.frames⟩
  | .itemOrEnd, t => startValue (.list [] :: p.frames) t
  | .nameOrEnd, .tableEnd => some ⟨.more (.table []), p.frames⟩
  | .nameOrEnd, .text name => some ⟨.colon [] name, p.frames⟩
  | .name rows, .text name => some ⟨.colon rows name, p.frames⟩
  | .colon rows name, .colon => some ⟨.value, .table rows name :: p.frames⟩
  | .more d, t => goOn d p.frames t
  | _, _ => none

/-- Some tokens further. -/
def Progress.run (p : Progress) : List Token → Option Progress
  | [] => some p
  | t :: ts => (p.step t).bind (·.run ts)

/-- The document of a whole text. -/
def Progress.result? : Progress → Option Document
  | ⟨.more d, []⟩ => some d
  | _ => none

end Json

/-- Read a JSON text, as the library does; nothing but blanks may follow the document. -/
def Document.ofJson? (text : String) : Option Document :=
  (Json.tokens? text.toList).bind fun ts =>
    ((Json.Progress.mk .value []).run ts).bind Json.Progress.result?

end Transcode
