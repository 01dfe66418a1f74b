/-
  Transcode — what is known about a source.

  Each property may be unknown.  The frame size is known when both sides are, and
  neither is zero.
-/
import Transcode.Frame.Size

namespace Transcode

/-- The frame and the rate of a source, as far as they are known. -/
structure Source where
  width : Option UInt32
  height : Option UInt32
  frameRate : Option Binary64
  deriving DecidableEq

namespace Source

/-- The source of which nothing is known. -/
def unknown : Source := ⟨none, none, none⟩

instance : Inhabited Source := ⟨unknown⟩

/-- The frame size, when both sides are known and not zero. -/
def size (s : Source) : Option FrameSize :=
  match s.width, s.height with
  | some w, some h => if 0 < w ∧ 0 < h then some ⟨w, h⟩ else none
  | _, _ => none

end Source

end Transcode
