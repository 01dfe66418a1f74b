/-
  Transcode — frame sizes.

  A side of a frame is a whole number of 32 bits.  The aspect ratio of a size is
  its two sides in lowest terms.
-/
import Transcode.Binary64.Shortest

namespace Transcode

/-- The size of a frame in pixels. -/
structure FrameSize where
  width : UInt32
  height : UInt32
  deriving DecidableEq, Repr

namespace FrameSize

/-- The greatest common divisor of two sides. -/
def gcd (a b : UInt32) : UInt32 :=
  UInt32.ofNat (Nat.gcd a.toNat b.toNat)

theorem toNat_gcd (a b : UInt32) : (gcd a b).toNat = Nat.gcd a.toNat b.toNat := by
  have h : Nat.gcd a.toNat b.toNat < 2 ^ 32 := by
    by_cases ha : a.toNat = 0
    · rw [ha, Nat.gcd_zero_left]; exact b.toNat_lt
    · exact Nat.lt_of_le_of_lt (Nat.gcd_le_left _ (Nat.pos_of_ne_zero ha)) a.toNat_lt
  exact UInt32.toNat_ofNat_of_lt h

/-- A number of pixels in decimal. -/
def sideText (n : UInt32) : String :=
  String.ofList (digitsOf n.toNat)

/-- The size with a letter between its sides. -/
def plain (s : FrameSize) : String :=
  s!"{sideText s.width}x{sideText s.height}"

/-- The sides in lowest terms; no size has a side of zero and a ratio but by
    dividing by one. -/
def aspectRatio (s : FrameSize) : String :=
  let d := max (gcd s.width s.height) 1
  s!"{sideText (s.width / d)}:{sideText (s.height / d)}"

end FrameSize

/-- The greatest multiple of the modulus that is not greater; there is none when
    the modulus is zero. -/
def roundDown (value modulus : UInt32) : Option UInt32 :=
  if modulus = 0 then none else some (value - value % modulus)

/-- The multiple of the modulus nearest to a number, at least the modulus itself;
    none when the number of steps is not finite or the multiple has more than 32
    bits. -/
def roundNearest (value : Binary64) (modulus : UInt32) : Option UInt32 :=
  let steps := ((value.div (.ofNat modulus.toNat)).round).max (.ofNat 1)
  if !steps.isFinite || (Binary64.ofNat 4294967295).lt steps then none
  else
    let n := (steps.clamp 0 4294967295).toNat * modulus.toNat
    if n < 4294967296 then some (UInt32.ofNat n) else none

end Transcode
