/-
  Transcode — reading numbers written in decimal.

  A *numeral* is a sign, digits with at most one point among or around them, and
  an optional power of ten.  Its value is exact; `ofNumeral` rounds it once, so
  what is read is the number of the format nearest to what is written.

  * `naturalOf?` and `integerOf?` read whole numbers: ASCII digits only, with an
    optional sign where one is allowed;
  * `Numeral.ofChars?` reads a numeral, `ofText?` a numeral or one of the words
    for infinity and NaN, in any case of letters;
  * a power of ten beyond every number of the format is not computed: such a
    numeral is infinite or zero by its number of digits alone.
-/
import Transcode.Binary64.Basic
import Transcode.Text.Case
import Transcode.Text.Blank

namespace Transcode

/-! ## Whole numbers -/

/-- An ASCII decimal digit. -/
def isDigit (c : Char) : Bool :=
  '0' ≤ c && c ≤ '9'

/-- The value of a digit. -/
def digitValue (c : Char) : Nat :=
  c.toNat - '0'.toNat

/-- The value of a row of digits, the first counting most. -/
def valueOfDigits (cs : List Char) : Nat :=
  cs.foldl (fun n c => 10 * n + digitValue c) 0

/-- A row of at least one digit. -/
def naturalOf? (cs : List Char) : Option Nat :=
  if !cs.isEmpty && cs.all isDigit then some (valueOfDigits cs) else none

/-- The sign in front of a number, when one is written. -/
def takeSign : List Char → Bool × List Char
  | '-' :: r => (true, r)
  | '+' :: r => (false, r)
  | r => (false, r)

/-- A whole number with an optional sign, between `low` and `high`. -/
def integerOf? (low high : Int) (cs : List Char) : Option Int :=
  let (negative, digits) := takeSign cs
  (naturalOf? digits).bind fun n =>
    let i : Int := if negative then -(n : Int) else n
    if low ≤ i ∧ i ≤ high then some i else none

/-- A natural number at most `high`, with an optional plus sign. -/
def boundedNaturalOf? (high : Nat) (cs : List Char) : Option Nat :=
  let digits := match cs with
    | '+' :: r => r
    | r => r
  (naturalOf? digits).bind fun n => if n ≤ high then some n else none

/-! ## Numerals -/

/-- A number in decimal: `digits · 10 ^ exponent`. -/
structure Numeral where
  negative : Bool
  digits : List Char
  exponent : Int

/-- The power of ten written after the letter `e`. -/
def exponentOf? : List Char → Option Int
  | [] => some 0
  | c :: r =>
    if c == 'e' || c == 'E' then
      let (negative, digits) := takeSign r
      (naturalOf? digits).map fun n => if negative then -(n : Int) else n
    else none

/-- The digits behind a point, when there is one, and what follows them. -/
def takeFraction : List Char → List Char × List Char
  | '.' :: r => r.span isDigit
  | r => ([], r)

/-- Read a numeral: at least one digit before or after the point. -/
def Numeral.ofChars? (cs : List Char) : Option Numeral :=
  let (negative, r) := takeSign cs
  let (whole, r) := r.span isDigit
  let (fraction, r) := takeFraction r
  if whole.isEmpty && fraction.isEmpty then none
  else (exponentOf? r).map fun e => ⟨negative, whole ++ fraction, e - fraction.length⟩

namespace Binary64

/-- The number nearest to a numeral.  With `d` digits before the lowest power of
    ten that counts, the value is below `10 ^ d` and at least `10 ^ (d - 1)`. -/
def ofNumeral (n : Numeral) : Binary64 :=
  let digits := n.digits.dropWhile (· == '0')
  let value := valueOfDigits digits
  let magnitude : Int := digits.length + n.exponent
  if value = 0 then zero n.negative
  else if 310 < magnitude then infinite n.negative
  else if magnitude < -330 then zero n.negative
  else if 0 ≤ n.exponent then ofFraction n.negative (value * tenTo n.exponent.toNat) 1
  else ofFraction n.negative value (tenTo (-n.exponent).toNat)

/-- The words for numbers that have no digits. -/
def ofWord? (negative : Bool) (cs : List Char) : Option Binary64 :=
  let word := Text.lowered cs
  if word = "inf".toList || word = "infinity".toList then some (infinite negative)
  else if word = "nan".toList then some nan
  else none

/-- Read a number: a numeral, or a word with an optional sign. -/
def ofChars? (cs : List Char) : Option Binary64 :=
  match Numeral.ofChars? cs with
  | some n => some (ofNumeral n)
  | none => let (negative, r) := takeSign cs; ofWord? negative r

/-- `ofChars?` on strings. -/
def ofText? (s : String) : Option Binary64 :=
  ofChars? s.toList

end Binary64

end Transcode
