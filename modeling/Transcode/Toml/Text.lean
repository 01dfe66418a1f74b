/-
  Transcode — texts, names and the ends of lines in TOML.

  A text stands between quotes.  Double quotes admit escapes, single quotes hold
  every character as it is; three quotes admit line breaks.  A text is first cut
  out up to its closing quotes and then undone, so that the two questions, where it
  ends and what it means, are answered apart.
-/
import Transcode.Binary64.Reading

namespace Transcode.Toml

/-- A reader of something at the front of characters; the rest is left over. -/
abbrev Scanner (α : Type) := List Char → Option (α × List Char)

/-! ## Characters -/

/-- The blanks inside a line. -/
def isBlank (c : Char) : Bool :=
  c == ' ' || c == '\t'

/-- A character that a line may hold: no control but the tab. -/
def isLineChar (c : Char) : Bool :=
  c == '\t' || (0x20 ≤ c.toNat && c.toNat ≠ 0x7F)

/-- The characters behind blanks. -/
def dropBlanks (cs : List Char) : List Char :=
  cs.dropWhile isBlank

/-- What follows a line break at the front. -/
def newline? : List Char → Option (List Char)
  | '\n' :: r => some r
  | '\r' :: '\n' :: r => some r
  | _ => none

/-- The characters behind a comment, if one is at the front. -/
def dropComment : List Char → List Char
  | '#' :: r => r.dropWhile isLineChar
  | r => r

/-- What follows the end of a line: blanks, a comment, and a line break or the end
    of the text. -/
def endLine? (cs : List Char) : Option (List Char) :=
  match dropComment (dropBlanks cs) with
  | [] => some []
  | r => newline? r

/-! ## Where texts end -/

/-- Cut at the closing double quote; an escaped one does not close. -/
def untilQuote : Scanner (List Char)
  | '"' :: r => some ([], r)
  | '\\' :: c :: r => (untilQuote r).map fun (s, r) => ('\\' :: c :: s, r)
  | c :: r => (untilQuote r).map fun (s, r) => (c :: s, r)
  | [] => none

/-- One or two quotes in front of three belong to the text. -/
def trailingQuotes (quote : Char) : List Char → List Char × List Char
  | a :: b :: r =>
    if a = quote && b = quote then ([a, b], r)
    else if a = quote then ([a], b :: r)
    else ([], a :: b :: r)
  | [a] => if a = quote then ([a], []) else ([], [a])
  | [] => ([], [])

/-- Cut at three closing double quotes. -/
def untilQuotes : Scanner (List Char)
  | '"' :: '"' :: '"' :: r => some (trailingQuotes '"' r)
  | '\\' :: c :: r => (untilQuotes r).map fun (s, r) => ('\\' :: c :: s, r)
  | c :: r => (untilQuotes r).map fun (s, r) => (c :: s, r)
  | [] => none

/-- Cut at three closing single quotes. -/
def untilMarks : Scanner (List Char)
  | '\'' :: '\'' :: '\'' :: r => some (trailingQuotes '\'' r)
  | c :: r => (untilMarks r).map fun (s, r) => (c :: s, r)
  | [] => none

/-! ## What texts mean -/

/-- The value of a hexadecimal digit. -/
def hexValue? (c : Char) : Option Nat :=
  if isDigit c then some (c.toNat - '0'.toNat)
  else if 'a' ≤ c && c ≤ 'f' then some (c.toNat - 'a'.toNat + 10)
  else if 'A' ≤ c && c ≤ 'F' then some (c.toNat - 'A'.toNat + 10)
  else none

/-- The character of a number in hexadecimal digits. -/
def hexChar? (digits : List Char) : Option Char :=
  (digits.mapM hexValue?).bind fun ds =>
    let n := ds.foldl (fun n d => 16 * n + d) 0
    if n.isValidChar then some (Char.ofNat n) else none

/-- The character of an escape of one letter. -/
def unescaped? : Char → Option Char
  | 'b' => some '\x08'
  | 'f' => some '\x0c'
  | 'n' => some '\n'
  | 'r' => some '\r'
  | 't' => some '\t'
  | '"' => some '"'
  | '\\' => some '\\'
  | _ => none

/-- Whether a line breaks here, blanks aside. -/
def breaksHere (cs : List Char) : Bool :=
  (newline? (dropBlanks cs)).isSome

/-- Undo the escapes of a text.  Line breaks are admitted if it has several lines,
    and a backslash at the end of a line drops them and the blanks that follow
    (`dropping`). -/
def undone (severalLines : Bool) : Bool → List Char → Option (List Char)
  | _, [] => some []
  | _, '\\' :: 'u' :: a :: b :: c :: d :: r =>
    match hexChar? [a, b, c, d], undone severalLines false r with
    | some x, some s => some (x :: s)
    | _, _ => none
  | _, '\\' :: 'U' :: a :: b :: c :: d :: e :: f :: g :: h :: r =>
    match hexChar? [a, b, c, d, e, f, g, h], undone severalLines false r with
    | some x, some s => some (x :: s)
    | _, _ => none
  | _, '\\' :: c :: r =>
    if severalLines && breaksHere (c :: r) then undone severalLines true (c :: r)
    else match unescaped? c, undone severalLines false r with
      | some x, some s => some (x :: s)
      | _, _ => none
  | dropping, '\r' :: '\n' :: r =>
    if !severalLines then none
    else if dropping then undone severalLines true r
    else (undone severalLines false r).map ('\n' :: ·)
  | dropping, c :: r =>
    if dropping && (isBlank c || c == '\n') then undone severalLines true r
    else if (severalLines && c == '\n') || (isLineChar c && c ≠ '\\') then
      (undone severalLines false r).map (c :: ·)
    else none

/-- A text of several lines without escapes: its line breaks in one form. -/
def plainLines : List Char → Option (List Char)
  | [] => some []
  | '\r' :: '\n' :: r => (plainLines r).map ('\n' :: ·)
  | c :: r => if c == '\n' || isLineChar c then (plainLines r).map (c :: ·) else none

/-! ## Texts and names -/

/-- The characters of a cut text, undone. -/
def undo (f : List Char → Option (List Char)) (cut : Option (List Char × List Char)) :
    Option (String × List Char) :=
  cut.bind fun (raw, r) => (f raw).map fun s => (String.ofList s, r)

/-- The characters behind a line break, if one is at the front. -/
def dropNewline (cs : List Char) : List Char :=
  (newline? cs).getD cs

/-- A text on one line. -/
def shortText : Scanner String
  | '"' :: r => undo (undone false false) (untilQuote r)
  | '\'' :: r => undo plainLines (match r.span (· ≠ '\'') with
    | (raw, _ :: r) => if raw.contains '\n' || raw.contains '\r' then none else some (raw, r)
    | (_, []) => none)
  | _ => none

/-- A text. -/
def text : Scanner String
  | '"' :: '"' :: '"' :: r => undo (undone true false) (untilQuotes (dropNewline r))
  | '\'' :: '\'' :: '\'' :: r => undo plainLines (untilMarks (dropNewline r))
  | r => shortText r

/-- A character of a name without quotes. -/
def isNameChar (c : Char) : Bool :=
  c.isAlphanum || c == '-' || c == '_'

/-- A single name. -/
def simpleName : Scanner String
  | '"' :: r => shortText ('"' :: r)
  | '\'' :: r => shortText ('\'' :: r)
  | r =>
    let (name, r) := r.span isNameChar
    if name.isEmpty then none else some (String.ofList name, r)

/-- The greatest depth of nesting, and the greatest length of a path of names. -/
def deepest : Nat := 79

/-- Names with points between them, blanks around each. -/
def namesFrom : Nat → Scanner (List String)
  | 0, _ => none
  | fuel + 1, cs =>
    match simpleName (dropBlanks cs) with
    | none => none
    | some (n, r) => match dropBlanks r with
      | '.' :: r => (namesFrom fuel r).map fun (ns, r) => (n :: ns, r)
      | r => some ([n], r)

/-- A path of names. -/
def path (cs : List Char) : Option (List String × List Char) :=
  namesFrom deepest cs

end Transcode.Toml
