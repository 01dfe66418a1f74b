/-
  Transcode — values and assignments given as text.

  `Value.ofText` reads the text of a value by the kind of its setting; blanks
  around it do not count.  An assignment is a name, `=` and such a text: the first
  `=` divides it, so the text may hold others.
-/
import Transcode.CompileError
import Transcode.Text.Case

namespace Transcode

namespace Setting

/-- The setting of a name, blanks around it aside. -/
def ofText (text : String) : Except CompileError Setting :=
  match named? (Text.trim text) with
  | some s => .ok s
  | none => .error (.unknownSetting (Text.trim text))

end Setting

namespace Value

/-- A whole number of 64 bits. -/
def integerOfText? (cs : List Char) : Option Int64 :=
  (integerOf? least greatest cs).map Int64.ofInt

/-- A whole number, or else a finite number. -/
def numberOfText? (cs : List Char) : Option Value :=
  match integerOfText? cs with
  | some n => some (.integer n)
  | none => ((Binary64.ofChars? cs).filter (·.isFinite)).map .float

/-- The words for yes and no. -/
def flagOfText? (cs : List Char) : Option Bool :=
  let word := String.ofList (Text.lowered cs)
  if word = "true" || word = "yes" || word = "1" then some true
  else if word = "false" || word = "no" || word = "0" then some false
  else none

/-- Rates between commas, blanks around each aside. -/
def ratesOfText? (cs : List Char) : Option (List Binary64) :=
  (Text.pieces (· == ',') cs).mapM fun p => Binary64.ofChars? (Text.trimmed p)

/-- The value that a text without blanks around it means for a kind. -/
def ofKind? (kind : ValueKind) (cs : List Char) : Option Value :=
  match kind with
  | .integer => (integerOfText? cs).map .integer
  | .flag => (flagOfText? cs).map .flag
  | .rates => if cs.contains ',' then (ratesOfText? cs).map .list else numberOfText? cs
  | .time =>
    if cs.isEmpty then none else (numberOfText? cs).or (some (.text (String.ofList cs)))
  | .text => if cs.isEmpty then none else some (.text (String.ofList cs))

/-- Read the value of a setting. -/
def ofText (s : Setting) (text : String) : Except CompileError Value :=
  match ofKind? s.kind (Text.trimmed text.toList) with
  | some v => .ok v
  | none => .error (.invalidValue s (Text.trim text))

end Value

/-- A setting and the value it is given. -/
abbrev Assignment := Setting × Value

namespace Assignment

/-- Read a name, `=` and a value. -/
def ofText (pair : String) : Except CompileError Assignment :=
  match Text.cutAt (· == '=') pair.toList with
  | none => .error (.unknownSetting pair)
  | some (name, value) =>
    match Setting.ofText (String.ofList name) with
    | .error e => .error e
    | .ok s => match Value.ofText s (String.ofList value) with
      | .error e => .error e
      | .ok v => .ok (s, v)

end Assignment

end Transcode
