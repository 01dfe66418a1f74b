/-
  Transcode — lines in the output of programs.

  Programs write a line of progress anew after a carriage return, so that ends a line
  as much as a line feed does.  Lines are looked at without the blanks around them.
-/
import Transcode.Text.Case
import Transcode.Text.Blank

namespace Transcode.Text

/-- A character that ends a line. -/
def endsLine (c : Char) : Bool :=
  c == '\r' || c == '\n'

/-- The lines of a text, without the blanks around them. -/
def lines (cs : List Char) : List (List Char) :=
  (pieces endsLine cs).map trimmed

/-- Whether a line mentions an error, in letters of any case. -/
def mentionsError (line : List Char) : Bool :=
  holds "error".toList (lowered line)

/-- The lines that mention an error, in order. -/
def errorLines (text : String) : List String :=
  ((lines text.toList).filter mentionsError).map String.ofList

/-- The last line that is not blank. -/
def lastLine? (text : String) : Option String :=
  ((lines text.toList).filter (!·.isEmpty)).getLast?.map String.ofList

end Transcode.Text
