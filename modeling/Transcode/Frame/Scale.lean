/-
  Transcode — the frame size of an output.

  Both sides are multiples of a modulus.  The width, and a height that is given,
  are rounded down; a height that is not given follows from the shape of the
  source and is rounded to the nearest multiple.
-/
import Transcode.CompileError

namespace Transcode.FrameSize

/-- The modulus of a profile that names none. -/
def standardModulus : UInt32 := 8

/-- The height that keeps the shape of a source at a width, not yet rounded. -/
def exactHeight (source : FrameSize) (width : UInt32) : Binary64 :=
  ((Binary64.ofNat width.toNat).mul (.ofNat source.height.toNat)).div (.ofNat source.width.toNat)

/-- The frame size for a width, an optional height and an optional source. -/
def scale (width : UInt32) (height : Option UInt32) (source : Option FrameSize)
    (modulus : UInt32) : Except CompileError FrameSize :=
  match roundDown width modulus with
  | none => .error (.setting .dimensionsModulus .zeroModulus)
  | some w =>
    if w = 0 then .error (.setting .width (.belowModulus modulus))
    else match height, source with
      | some h, _ => match roundDown h modulus with
        | none => .error (.setting .dimensionsModulus .zeroModulus)
        | some h =>
          if h = 0 then .error (.setting .height (.belowModulus modulus)) else .ok ⟨w, h⟩
      | none, some src => match roundNearest (exactHeight src w) modulus with
        | some h => .ok ⟨w, h⟩
        | none => .error (.setting .height (.derivedHeight src w))
      | none, none => .error (.setting .width .unknownSourceSize)

end Transcode.FrameSize
