/-
  Transcode — records in documents.

  A *record* has a fixed row of field names.  A document gives its fields as a
  table, in any order and among other names, or as a list, in the order of the
  names.  What a document does not give is left out: `optional` and `orElse` say
  what stands in for it.
-/
import Transcode.Document

namespace Transcode

namespace Document

/-- A text. -/
def asText : Document → Option String
  | text s => some s
  | _ => none

/-- A whole number of 32 bits, written as one. -/
def asWord : Document → Option UInt32
  | integer i => if 0 ≤ i ∧ i < 4294967296 then some (UInt32.ofNat i.toNat) else none
  | _ => none

/-- A list of what `f` reads. -/
def asList {α : Type} (f : Document → Option α) : Document → Option (List α)
  | list items => items.mapM f
  | _ => none

end Document

/-- The fields that a document gives. -/
structure Record where
  get? : String → Option Document

/-- How strict a record is where it is given as a list. -/
structure ListForm where
  /-- Every field has to be there. -/
  complete : Bool
  /-- Items behind the last field are let pass. -/
  surplus : Bool

namespace Record

/-- The rows of a name: none, one, or too many. -/
def row? (rows : List (String × Document)) (name : String) : Option (Option Document) :=
  match rows.filter (·.1 = name) with
  | [] => some none
  | [(_, d)] => some (some d)
  | _ => none

/-- The record of some names in a document. -/
def ofDocument? (names : List String) (form : ListForm) : Document → Option Record
  | .table rows =>
    if names.all fun n => (row? rows n).isSome then some ⟨fun n => ((row? rows n).getD none)⟩
    else none
  | .list items =>
    if form.complete && items.length < names.length then none
    else if !form.surplus && names.length < items.length then none
    else some ⟨fun n => (names.zip items).lookup n⟩
  | _ => none

/-- A field that may be left out, or null. -/
def optional {α : Type} (r : Record) (name : String) (f : Document → Option α) :
    Option (Option α) :=
  match r.get? name with
  | none | some .null => some none
  | some d => (f d).map some

/-- A field that is something else when it is left out. -/
def orElse {α : Type} (r : Record) (name : String) (standard : α) (f : Document → Option α) :
    Option α :=
  match r.get? name with
  | none => some standard
  | some d => f d

end Record

end Transcode
