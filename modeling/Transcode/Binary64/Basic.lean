/-
  Transcode — binary floating point of 64 bits, in exact arithmetic.

  Every finite number of the format is a whole multiple of the smallest positive
  one, 2^-1074.  A finite number is therefore a sign and a natural number of such
  units, and arithmetic is arithmetic of natural numbers followed by one rounding.

  * `Fits` says which multiples are numbers of the format: those with at most 53
    significant bits, below 2^1024;
  * `nearest negative p q` is the number nearest to `p / q` units, a tie going to
    the even neighbour, infinite from half a step beyond the largest number on;
  * the operations are `nearest` of the exact result; `div` by zero, differences
    of infinities and the like follow IEEE 754;
  * `key` orders all numbers but NaN: `lt` and `eq` compare keys, so the two zeros
    are equal and NaN is neither less than, equal to nor greater than anything.
-/

namespace Transcode

/-! ## Powers -/

/-- A power of two. -/
def twoTo (n : Nat) : Nat := Nat.pow 2 n

/-- A power of ten. -/
def tenTo (n : Nat) : Nat := Nat.pow 10 n

theorem twoTo_pos (n : Nat) : 0 < twoTo n :=
  Nat.two_pow_pos n

theorem tenTo_pos (n : Nat) : 0 < tenTo n :=
  Nat.pow_pos (by decide)

/-! ## Numbers -/

/-- Numbers of at most 53 significant bits, below 2^1024, in units of 2^-1074. -/
def Binary64.Fits (units : Nat) : Prop :=
  units % twoTo (units.log2 - 52) = 0 ∧ units < twoTo 2098

instance (units : Nat) : Decidable (Binary64.Fits units) :=
  inferInstanceAs (Decidable (_ ∧ _))

/-- A number of the format: NaN, an infinity, or a signed multiple of 2^-1074. -/
inductive Binary64 where
  | nan
  | infinite (negative : Bool)
  | finite (negative : Bool) (units : Nat) (fits : Binary64.Fits units)
  deriving DecidableEq

namespace Binary64

/-- How many units make 1. -/
def one : Nat := twoTo 1074

/-! ## Rounding -/

/-- The whole number nearest to `p / q`, a half going to the even one. -/
def halfEven (p q : Nat) : Nat :=
  if 2 * (p % q) < q then p / q
  else if q < 2 * (p % q) then p / q + 1
  else p / q + p / q % 2

/-- The distance between neighbours of the format around `n` units. -/
def step (n : Nat) : Nat :=
  twoTo (n.log2 - 52)

/-- The number nearest to `p / q` units, with the given sign. -/
def nearest (negative : Bool) (p q : Nat) : Binary64 :=
  let units := halfEven p (q * step (p / q)) * step (p / q)
  if h : Fits units then finite negative units h else infinite negative

/-- The number nearest to a whole number. -/
def ofNat (n : Nat) : Binary64 :=
  nearest false (n * one) 1

/-- The number nearest to an integer. -/
def ofInt (i : Int) : Binary64 :=
  nearest (decide (i < 0)) (i.natAbs * one) 1

/-- The number nearest to the fraction `p / q`. -/
def ofFraction (negative : Bool) (p q : Nat) : Binary64 :=
  nearest negative (p * one) q

theorem fits_zero : Fits 0 := ⟨Nat.zero_mod _, twoTo_pos 2098⟩

/-- Zero, of either sign. -/
def zero (negative : Bool) : Binary64 :=
  finite negative 0 fits_zero

instance : Inhabited Binary64 := ⟨zero false⟩

/-! ## Arithmetic -/

/-- The number with its sign turned. -/
def neg : Binary64 → Binary64
  | nan => nan
  | infinite s => infinite !s
  | finite s n h => finite (!s) n h

/-- The exact value in units of 2^-1074, signed. -/
def signed (negative : Bool) (units : Nat) : Int :=
  if negative then -(units : Int) else units

/-- The difference, rounded once; of equal numbers it is a positive zero, unless
    it is taken of a negative zero and a positive one. -/
def sub : Binary64 → Binary64 → Binary64
  | finite s m _, finite t n _ =>
    let d := signed s m - signed t n
    if d = 0 then zero (s && !t) else nearest (decide (d < 0)) d.natAbs 1
  | infinite s, infinite t => if s = t then nan else infinite s
  | infinite s, finite .. => infinite s
  | finite .., infinite t => infinite !t
  | nan, _ => nan
  | _, nan => nan

/-- The product, rounded once. -/
def mul : Binary64 → Binary64 → Binary64
  | finite s m _, finite t n _ => nearest (s != t) (m * n) one
  | infinite s, finite t n _ => if n = 0 then nan else infinite (s != t)
  | finite s m _, infinite t => if m = 0 then nan else infinite (s != t)
  | infinite s, infinite t => infinite (s != t)
  | nan, _ => nan
  | _, nan => nan

/-- The quotient, rounded once; a nonzero number over zero is infinite. -/
def div : Binary64 → Binary64 → Binary64
  | finite s m _, finite t n _ =>
    if n = 0 then (if m = 0 then nan else infinite (s != t))
    else nearest (s != t) (m * one) n
  | infinite s, finite t .. => infinite (s != t)
  | finite s .., infinite t => zero (s != t)
  | infinite _, infinite _ => nan
  | nan, _ => nan
  | _, nan => nan

/-- The number without its sign. -/
def abs : Binary64 → Binary64
  | nan => nan
  | infinite _ => infinite false
  | finite _ n h => finite false n h

/-! ## Order -/

/-- The place in the order: exact values, with the infinities beyond all of them;
    none for NaN. -/
def key : Binary64 → Option Int
  | nan => none
  | infinite s => some (signed s (twoTo 2098))
  | finite s n _ => some (signed s n)

/-- Less, as numbers. -/
def lt (x y : Binary64) : Bool :=
  match x.key, y.key with
  | some a, some b => decide (a < b)
  | _, _ => false

/-- Equal, as numbers: the two zeros are, NaN is not. -/
def eq (x y : Binary64) : Bool :=
  match x.key, y.key with
  | some a, some b => decide (a = b)
  | _, _ => false

/-- The greater of the two; NaN gives way to the other. -/
def max (x y : Binary64) : Binary64 :=
  match x, y with
  | nan, y => y
  | x, nan => x
  | x, y => if x.lt y then y else x

/-- Neither NaN nor infinite. -/
def isFinite : Binary64 → Bool
  | finite .. => true
  | _ => false

/-! ## Whole numbers -/

/-- The greatest whole number that is not greater. -/
def floor : Binary64 → Binary64
  | finite s n _ =>
    if s then nearest true ((n + (one - 1)) / one * one) 1
    else nearest false (n / one * one) 1
  | x => x

/-- The nearest whole number, a half going away from zero. -/
def round : Binary64 → Binary64
  | finite s n _ => nearest s ((2 * n + one) / (2 * one) * one) 1
  | x => x

/-- Finite and without a fraction. -/
def isWhole : Binary64 → Bool
  | finite _ n _ => n % one == 0
  | _ => false

/-- The whole part, held between `low` and `high`; NaN gives zero. -/
def clamp (low high : Int) : Binary64 → Int
  | nan => 0
  | infinite s => if s then low else high
  | finite s n _ => Max.max low (Min.min high (signed s (n / one)))

end Binary64

end Transcode
