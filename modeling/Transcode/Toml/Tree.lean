/-
  Transcode — how statements of TOML build a tree.

  A table can be made in three ways: by a header of its own, by a header of a table
  below it, or by a path of names in front of a value.  The way decides what may be
  added later:

  * a header may name a table that was only implied by other headers, once;
  * a path of names may go on in tables that such paths made, and in no others;
  * a list of tables is made and extended by double headers only, and a path
    through it leads into its last table.
-/
import Transcode.Document

namespace Transcode.Toml

/-- What a table was made by. -/
inductive Origin where
  /-- A header of its own. -/
  | header
  /-- The header of a table below it. -/
  | implied
  /-- A path of names in front of a value. -/
  | path
  deriving DecidableEq, Repr

/-- A tree that is being built. -/
inductive Item where
  | value (d : Document)
  | table (origin : Origin) (rows : List (String × Item))
  | tables (elements : List (List (String × Item)))

/-- The rows of a table that is being built. -/
abbrev Rows := List (String × Item)

/-- Put an item in place of the one of a name. -/
def Rows.replace (rows : Rows) (name : String) (item : Item) : Rows :=
  rows.map fun row => if row.1 = name then (name, item) else row

/-- Put an item in place of the one of a name, or at the end. -/
def Rows.put (rows : Rows) (name : String) (item : Item) : Rows :=
  if (rows.lookup name).isSome then rows.replace name item else rows ++ [(name, item)]

/-- Change the table at the end of a path; tables that are missing are made, by
    `making`. -/
def within (making : Origin) (f : Origin → Rows → Option Rows) :
    List String → Origin → Rows → Option Rows
  | [], origin, rows => f origin rows
  | n :: ns, _, rows =>
    match rows.lookup n with
    | none => (within making f ns making []).map fun inner => rows ++ [(n, .table making inner)]
    | some (.value _) => none
    | some (.table origin inner) =>
      if making = .path && origin = .header then none
      else (within making f ns origin inner).map fun inner => rows.replace n (.table origin inner)
    | some (.tables elements) =>
      (within making f ns .header (elements.getLast?.getD [])).map fun inner =>
        rows.replace n (.tables (elements.dropLast ++ [inner]))

/-! ## Statements -/

/-- What a line says. -/
inductive Statement where
  | assign (path : List String) (value : Document)
  | header (path : List String)
  | doubleHeader (path : List String)

/-- Give a name a value; `direct` when it is a single name. -/
def assignLast (direct : Bool) (name : String) (d : Document) (origin : Origin) (rows : Rows) :
    Option Rows :=
  if (origin == .path) == direct then none
  else if (rows.lookup name).isSome then none
  else some (rows ++ [(name, .value d)])

/-- Give a path of names a value, starting from a table. -/
def assign (path : List String) (d : Document) (origin : Origin) (rows : Rows) : Option Rows :=
  match path.getLast? with
  | none => none
  | some name =>
    let before := path.dropLast
    within .path (assignLast before.isEmpty name d) before origin rows

/-- Open the table of a header. -/
def openTable (name : String) (_ : Origin) (rows : Rows) : Option Rows :=
  match rows.lookup name with
  | none => some (rows ++ [(name, .table .header [])])
  | some (.table .implied inner) => some (rows.replace name (.table .header inner))
  | some _ => none

/-- Open another table of a list of tables. -/
def openElement (name : String) (_ : Origin) (rows : Rows) : Option Rows :=
  match rows.lookup name with
  | none => some (rows ++ [(name, .tables [[]])])
  | some (.tables elements) => some (rows.replace name (.tables (elements ++ [[]])))
  | some _ => none

/-- A tree and the path of the table that is open. -/
structure Builder where
  root : Rows
  opened : List String

/-- Open what a header names. -/
def Builder.open? (b : Builder) (f : String → Origin → Rows → Option Rows) (path : List String) :
    Option Builder :=
  match path.getLast? with
  | none => none
  | some name =>
    (within .implied (f name) path.dropLast .header b.root).map fun root => ⟨root, path⟩

/-- One statement further. -/
def Builder.step (b : Builder) : Statement → Option Builder
  | .assign path d =>
    (within .implied (assign path d) b.opened .header b.root).map fun root => ⟨root, b.opened⟩
  | .header path => b.open? openTable path
  | .doubleHeader path => b.open? openElement path

/-- The tree of some statements. -/
def Builder.run (b : Builder) : List Statement → Option Builder
  | [] => some b
  | s :: ss => (b.step s).bind (·.run ss)

/-! ## Documents -/

mutual

/-- The document of an item. -/
def Item.toDocument : Item → Document
  | .value d => d
  | .table _ rows => .table (documentRows rows)
  | .tables elements => .list (documentElements elements)

/-- The documents of rows. -/
def documentRows : List (String × Item) → List (String × Document)
  | [] => []
  | (n, i) :: r => (n, i.toDocument) :: documentRows r

/-- The documents of tables. -/
def documentElements : List (List (String × Item)) → List Document
  | [] => []
  | rows :: r => .table (documentRows rows) :: documentElements r

end

/-- The document of a table written on one line, from its assignments. -/
def inlineTable? (rows : List (List String × Document)) : Option Document :=
  (rows.foldlM (fun t (path, d) => assign path d .header t) []).map fun t =>
    .table (documentRows t)

/-- The document of some statements. -/
def document? (statements : List Statement) : Option Document :=
  ((Builder.mk [] []).run statements).map fun b => .table (documentRows b.root)

end Transcode.Toml
