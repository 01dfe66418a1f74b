/-
  Transcode — the numbers of JSON.

  A number is a sign, digits without idle zeros in front, and perhaps a fraction
  and a power of ten.  Without the last two it is a whole number, and stays one
  when it has 64 bits.

  Any other number is a float, made from its *leading part*: the digits are taken
  one by one as long as they make a number of 64 bits, those behind them count
  only as powers of ten.  The leading part is then multiplied or divided once by
  the power of ten that is left, so the result can be off by a last digit from
  the number that is written.  A number that grows infinite in this way is
  rightly written, but no number.
-/
import Transcode.Document
import Transcode.Binary64.Reading

namespace Transcode.Json

/-- The parts of a number: `fraction` and `exponent` are there if written. -/
structure Number where
  negative : Bool
  whole : List Char
  fraction : Option (List Char)
  exponent : Option Int

namespace Number

/-! ## Notation -/

/-- Whether digits can stand in front of a point: at least one, and no zero in
    front of others. -/
def isWhole : List Char → Bool
  | [] => false
  | c :: cs => c ≠ '0' || cs.isEmpty

/-- The fraction behind a point, when there is one, and what follows it. -/
def fraction? : List Char → Option (Option (List Char) × List Char)
  | '.' :: r =>
    let (digits, r) := r.span isDigit
    if digits.isEmpty then none else some (some digits, r)
  | r => some (none, r)

/-- Read the parts of a number. -/
def ofChars? (cs : List Char) : Option Number :=
  let (negative, r) := match cs with
    | '-' :: r => (true, r)
    | r => (false, r)
  let (whole, r) := r.span isDigit
  if !isWhole whole then none
  else match fraction? r with
    | none => none
    | some (fraction, r) =>
      (exponentOf? r).map fun e => ⟨negative, whole, fraction, if r.isEmpty then none else some e⟩

/-! ## Value -/

/-- The greatest leading part. -/
def leadingLimit : Nat := 18446744073709551615

/-- Take digits into the leading part while they fit; the digits left over. -/
def absorb : Nat → List Char → Nat × List Char
  | n, [] => (n, [])
  | n, c :: cs =>
    if 10 * n + digitValue c ≤ leadingLimit then absorb (10 * n + digitValue c) cs
    else (n, c :: cs)

/-- The greatest power of ten that is a number of the format. -/
def greatestPower : Nat := 308

/-- Divide by a power of ten, in steps no greater than the greatest power. -/
def dividedByPower (x : Binary64) (n : Nat) : Binary64 :=
  if n ≤ greatestPower then x.div (.ofNat (tenTo n))
  else if x.eq (.zero false) then x
  else dividedByPower (x.div (.ofNat (tenTo greatestPower))) (n - greatestPower)
  termination_by n
  decreasing_by simp only [greatestPower] at *; omega

/-- Multiply by a power of ten, unless the product is infinite. -/
def timesPower? (x : Binary64) (n : Nat) : Option Binary64 :=
  if x.eq (.zero false) then some x
  else if n ≤ greatestPower then
    let y := x.mul (.ofNat (tenTo n))
    if y.isFinite then some y else none
  else none

/-- A leading part and the power of ten that belongs to it. -/
def scaled? (leading : Nat) (power : Int) : Option Binary64 :=
  if power < 0 then some (dividedByPower (.ofNat leading) power.natAbs)
  else timesPower? (.ofNat leading) power.toNat

/-- The float that a number is read as. -/
def float? (n : Number) : Option Binary64 :=
  let fraction := n.fraction.getD []
  let (leading, wholeRest) := absorb 0 n.whole
  let (leading, fractionRest) := absorb leading fraction
  let power : Int := wholeRest.length - (fraction.length - fractionRest.length : Nat)
    + n.exponent.getD 0
  (scaled? leading power).map fun x => if n.negative then x.neg else x

/-- The whole number that a number is, when it is written as one and has 64 bits;
    a negative zero is none. -/
def integer? (n : Number) : Option Int :=
  let value := valueOfDigits n.whole
  if n.fraction.isSome || n.exponent.isSome then none
  else if n.negative then
    if 0 < value ∧ value ≤ 9223372036854775808 then some (-(value : Int)) else none
  else if value ≤ leadingLimit then some value else none

/-- The document of a number. -/
def toDocument (n : Number) : Document :=
  match n.integer? with
  | some i => .integer i
  | none => match n.float? with
    | some x => .float x
    | none => .foreign

end Number

end Transcode.Json
