/-
  Transcode — numbers, dates and words in TOML.

  Such a value is a run of characters without blanks, and is judged as a whole.
  Digits may be grouped by underscores, each between two digits.  A whole number
  has 64 bits; a float that is too great is refused.

  A date is admitted where it is rightly written, but nothing here makes use of
  it: it becomes a table of one row.
-/
import Transcode.Toml.Text
import Transcode.Document

namespace Transcode.Toml

/-! ## Numbers -/

/-- The digits of a group, without the underscores between them. -/
def ungrouped? (admits : Char → Bool) : List Char → Option (List Char)
  | [] => none
  | [c] => if admits c then some [c] else none
  | c :: '_' :: r => if admits c then (ungrouped? admits r).map (c :: ·) else none
  | c :: r => if admits c then (ungrouped? admits r).map (c :: ·) else none

/-- The digits of a whole number: none in front of others is zero. -/
def wholeDigits? (cs : List Char) : Option (List Char) :=
  (ungrouped? isDigit cs).filter fun ds => ds.head? ≠ some '0' || ds.length = 1

/-- The value of digits in a base of two, eight or sixteen. -/
def inBase? (base : Nat) (cs : List Char) : Option Int :=
  (ungrouped? (fun c => (hexValue? c).any (· < base)) cs).bind fun ds =>
    let n := ds.foldl (fun n c => base * n + (hexValue? c).getD 0) 0
    if n ≤ 9223372036854775807 then some n else none

/-- A whole number. -/
def integer? : List Char → Option Int
  | '0' :: 'x' :: r => inBase? 16 r
  | '0' :: 'o' :: r => inBase? 8 r
  | '0' :: 'b' :: r => inBase? 2 r
  | cs =>
    let (negative, r) := takeSign cs
    (wholeDigits? r).bind fun ds =>
      let i : Int := if negative then -(valueOfDigits ds : Int) else valueOfDigits ds
      if -9223372036854775808 ≤ i ∧ i ≤ 9223372036854775807 then some i else none

/-- Whether a character begins a power of ten. -/
def startsExponent (c : Char) : Bool :=
  c == 'e' || c == 'E'

/-- The power of ten at the end of a float. -/
def exponent? : List Char → Option Int
  | [] => some 0
  | _ :: r =>
    let (negative, r) := takeSign r
    (ungrouped? isDigit r).map fun ds =>
      if negative then -(valueOfDigits ds : Int) else valueOfDigits ds

/-- The digits behind the point of a float. -/
def fractionDigits? : List Char → Option (List Char)
  | [] => some []
  | _ :: r => ungrouped? isDigit r

/-- A float with a fraction, a power of ten or both. -/
def float? (cs : List Char) : Option Binary64 :=
  let (negative, r) := takeSign cs
  let (whole, r) := r.span fun c => !(c == '.' || startsExponent c)
  let (fraction, power) := r.span fun c => !startsExponent c
  if r.isEmpty then none
  else match wholeDigits? whole, fractionDigits? fraction, exponent? power with
    | some w, some f, some e =>
      let x := Binary64.ofNumeral ⟨negative, w ++ f, e - f.length⟩
      if x = .infinite false then none else some x
    | _, _, _ => none

/-- The words for numbers without digits. -/
def specialFloat? (cs : List Char) : Option Binary64 :=
  let (negative, r) := takeSign cs
  if r = "inf".toList then some (.infinite negative)
  else if r = "nan".toList then some .nan
  else none

/-! ## Dates -/

/-- A number of two digits, at most `high`. -/
def twoDigits? (high : Nat) : Scanner Nat
  | a :: b :: r => (naturalOf? [a, b]).bind fun n => if n ≤ high then some (n, r) else none
  | _ => none

/-- How many days a month has. -/
def daysOf (year month : Nat) : Nat :=
  if month = 2 then
    if year % 4 = 0 && (year % 100 ≠ 0 || year % 400 = 0) then 29 else 28
  else if [4, 6, 9, 11].contains month then 30
  else 31

/-- What follows a date at the front. -/
def date? : List Char → Option (List Char)
  | a :: b :: c :: d :: '-' :: r =>
    match naturalOf? [a, b, c, d], twoDigits? 12 r with
    | some year, some (month, '-' :: r) => match twoDigits? 31 r with
      | some (day, r) =>
        if 1 ≤ month && 1 ≤ day && day ≤ daysOf year month then some r else none
      | none => none
    | _, _ => none
  | _ => none

/-- What follows the fraction of a second. -/
def secondFraction? : List Char → Option (List Char)
  | '.' :: r =>
    let (digits, r) := r.span isDigit
    if digits.isEmpty then none else some r
  | r => some r

/-- What follows a time of day at the front. -/
def time? (cs : List Char) : Option (List Char) :=
  match twoDigits? 23 cs with
  | some (_, ':' :: r) => match twoDigits? 59 r with
    | some (_, ':' :: r) => match twoDigits? 60 r with
      | some (_, r) => secondFraction? r
      | none => none
    | _ => none
  | _ => none

/-- Whether a row of characters is an offset from universal time, or nothing. -/
def isOffset : List Char → Bool
  | [] => true
  | ['Z'] | ['z'] => true
  | c :: r =>
    (c == '+' || c == '-') && match twoDigits? 23 r with
      | some (_, ':' :: r) => match twoDigits? 59 r with
        | some (_, []) => true
        | _ => false
      | _ => false

/-- Whether a row of characters is a time of day with an offset. -/
def isClock (cs : List Char) : Bool :=
  (time? cs).any isOffset

/-- Whether a row of characters is a date and a time, a date, or a time of day. -/
def isMoment (cs : List Char) : Bool :=
  match date? cs with
  | some [] => true
  | some (c :: r) => (c == 'T' || c == 't') && isClock r
  | none => time? cs == some []

/-- The document of a date. -/
def moment (cs : List Char) : Document :=
  .table [("date", .text (String.ofList cs))]

/-! ## Runs -/

/-- A character of a value without quotes. -/
def isRunChar (c : Char) : Bool :=
  c.isAlphanum || c == '+' || c == '-' || c == '.' || c == ':' || c == '_'

/-- The value of a run of characters. -/
def judged (run : List Char) : Option Document :=
  if run = "true".toList then some (.flag true)
  else if run = "false".toList then some (.flag false)
  else if isMoment run then some (moment run)
  else match float? run, specialFloat? run, integer? run with
    | some x, _, _ => some (.float x)
    | none, some x, _ => some (.float x)
    | none, none, some i => some (.integer i)
    | none, none, none => none

/-- A value that is neither a list nor a table.  A blank may stand between a date
    and a time. -/
def scalar (cs : List Char) : Option (Document × List Char) :=
  match cs with
  | '"' :: _ | '\'' :: _ => (text cs).map fun (s, r) => (.text s, r)
  | _ =>
    let (run, r) := cs.span isRunChar
    match date? run, r with
    | some [], ' ' :: r' =>
      let (clock, r'') := r'.span isRunChar
      if clock.isEmpty then some (moment run, r)
      else if isClock clock then some (moment (run ++ ' ' :: clock), r'')
      else none
    | _, _ => (judged run).map (·, r)

end Transcode.Toml
