/-
  Transcode — frame rates.

  A profile may name several rates.  The one that fits the source is taken: the
  first that differs from the source's rate by less than the tolerance, and the
  first of all when none does or the source's rate is not known.
-/
import Transcode.Binary64.Shortest

namespace Transcode.FrameRate

/-- The difference from which on two rates are not the same: one hundredth. -/
def tolerance : Binary64 :=
  .ofFraction false 1 100

/-- Whether a candidate is the rate of the source. -/
def fits (source candidate : Binary64) : Bool :=
  (candidate.sub source).abs.lt tolerance

/-- The candidate for a source; none only when there are no candidates. -/
def select (candidates : List Binary64) (source : Option Binary64) : Option Binary64 :=
  (source.bind fun s => candidates.find? (fits s)).or candidates.head?

/-- The frames between keyframes that are `gop` milliseconds apart: the whole part
    of the seconds times the rate, as a number of 64 bits. -/
def keyframeInterval (gop rate : Binary64) : Nat :=
  (((gop.div (.ofNat 1000)).mul rate).floor.max (.zero false)).clamp 0 18446744073709551615
    |>.toNat

end Transcode.FrameRate
