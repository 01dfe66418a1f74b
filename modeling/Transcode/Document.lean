/-
  Transcode — trees of data, as configuration files and reports hold them.

  A document is what is left of a text in a data format once its notation is
  forgotten.  The same documents are read from both notations that are used here,
  and written in one of them.

  A leaf is `foreign` when its notation is right and its value is nothing that can
  be used: a number out of range, or half of a surrogate pair in a text.  Such a
  leaf does no harm where it is not looked at.
-/
import Transcode.Binary64.Basic

namespace Transcode

/-- A tree of data. -/
inductive Document where
  | null
  | flag (on : Bool)
  | integer (i : Int)
  | float (x : Binary64)
  | text (s : String)
  /-- Rightly written, but nothing that can be used. -/
  | foreign
  | list (items : List Document)
  /-- Rows in the order in which they are written; a name may come again. -/
  | table (rows : List (String × Document))

instance : Inhabited Document := ⟨.null⟩

end Transcode
