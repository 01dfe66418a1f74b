/-
  Transcode — the shortest decimal that reads back.

  A finite number stands for the interval of reals that round to it.  Among the
  decimals in that interval the ones with the fewest digits are short; `shortest`
  is the short one nearest to the number.  Of two equally near it is the greater,
  or the even one, as its reader has it (`Tie`).

  The grid of decimals with `k` digits around the number has two points next to
  it, one on either side, and if any point of the grid lies in the interval then
  one of these does: so it is enough to try them, for `k = 1, 2, …, 17`.

  * `Decimal` is a row of digits with a point: `0.d₁d₂… · 10 ^ point`;
  * `plain` writes it without an exponent, as many zeros as that takes;
  * `fixed` rounds the exact value to a number of places, a tie to the even digit.
-/
import Transcode.Binary64.Reading

namespace Transcode

/-- How many decimal digits a natural number has; zero has none. -/
def digitCount (n : Nat) : Nat :=
  if n = 0 then 0 else digitCount (n / 10) + 1

/-- The digits of a natural number. -/
def digitsOf (n : Nat) : List Char :=
  Nat.toDigits 10 n

/-- The value `0.d₁d₂… · 10 ^ point`. -/
structure Decimal where
  digits : List Char
  point : Int
  deriving DecidableEq, Repr

namespace Binary64

/-- The exponent `e` with `10 ^ (e - 1) ≤ v < 10 ^ e`, for a number of `n > 0`
    units. -/
def magnitude (n : Nat) : Int :=
  if one ≤ n then digitCount (n / one)
  else 1 - (digitCount ((one - 1) / n) : Int)

/-- Whether `d · 10 ^ e`, written as `d · p / q`, rounds to the number of `n`
    units.  The interval ends half a step above and below, a quarter below where
    the steps change width, and holds its ends when the number is even. -/
def inInterval (n p q d : Nat) : Bool :=
  let width := step n
  let below := if n = twoTo 52 * width ∧ width ≠ 1 then width else 2 * width
  let low := (4 * n - below) * q
  let high := (4 * n + 2 * width) * q
  let at4 := 4 * d * p * one
  if (n / width) % 2 = 0 then low ≤ at4 && at4 ≤ high else low < at4 && at4 < high

/-- Which of two equally near decimals is taken. -/
inductive Tie where
  | greater
  | even
  deriving DecidableEq, Repr

/-- Whether a tie goes to the lesser decimal, of which this is the significand. -/
def Tie.takesBelow : Tie → Nat → Bool
  | greater, _ => false
  | even, below => below % 2 = 0

/-- The point of the grid of `10 ^ e` that rounds to the number of `n` units: the
    nearer of the two neighbours when both do. -/
def onGrid (tie : Tie) (n : Nat) (e : Int) : Option Nat :=
  let p := tenTo e.toNat
  let q := tenTo (-e).toNat
  let below := n * q / (one * p)
  let above := below + 1
  match inInterval n p q below, inInterval n p q above with
  | true, true =>
    let middle := (below + above) * (one * p)
    if 2 * (n * q) < middle || (2 * (n * q) = middle && tie.takesBelow below) then some below
    else some above
  | true, false => some below
  | false, true => some above
  | false, false => none

/-- The first grid with a hit, from `k` digits on. -/
def searchGrids (tie : Tie) (n : Nat) (top : Int) : Nat → Nat → Option (Nat × Int)
  | 0, _ => none
  | fuel + 1, k =>
    match onGrid tie n (top - k) with
    | some d => some (d, top - k)
    | none => searchGrids tie n top fuel (k + 1)

/-- The digits without the zeros at their end. -/
def dropZeros (cs : List Char) : List Char :=
  cs.foldr (fun c r => if r.isEmpty && c == '0' then [] else c :: r) []

/-- The shortest decimal that rounds to the number of `n` units. -/
def shortest (tie : Tie) (n : Nat) : Decimal :=
  if n = 0 then ⟨[], 0⟩
  else match searchGrids tie n (magnitude n) 17 1 with
    | some (d, e) => ⟨dropZeros (digitsOf d), (digitsOf d).length + e⟩
    | none => ⟨[], 0⟩

end Binary64

/-! ## Writing -/

/-- A row of zeros. -/
def zeros (n : Nat) : List Char :=
  List.replicate n '0'

/-- The digits before and behind the point. -/
def Decimal.split (d : Decimal) : List Char × List Char :=
  let whole := d.digits.take d.point.toNat ++ zeros (d.point.toNat - d.digits.length)
  let fraction := zeros (-d.point).toNat ++ d.digits.drop d.point.toNat
  (if whole.isEmpty then ['0'] else whole, if d.digits.isEmpty then [] else fraction)

/-- The decimal without an exponent: no point where there is no fraction. -/
def Decimal.plain (d : Decimal) : List Char :=
  let (whole, fraction) := d.split
  if fraction.isEmpty then whole else whole ++ '.' :: fraction

namespace Binary64

/-- A sign in front of negative numbers. -/
def signText (negative : Bool) : List Char :=
  if negative then ['-'] else []

/-- The number in plain digits, as many as it takes to read it back. -/
def plain : Binary64 → List Char
  | nan => "NaN".toList
  | infinite s => signText s ++ "inf".toList
  | finite s n _ => signText s ++ (shortest .greater n).plain

/-- The number with the given count of places, rounded from its exact value. -/
def fixed (places : Nat) : Binary64 → List Char
  | nan => "NaN".toList
  | infinite s => signText s ++ "inf".toList
  | finite s n _ =>
    let scaled := halfEven (n * tenTo places) one
    let fraction := digitsOf (scaled % tenTo places)
    signText s ++ digitsOf (scaled / tenTo places) ++
      '.' :: (zeros (places - fraction.length) ++ fraction)

end Binary64

end Transcode
