/-
  Transcode — frame sizes given as text.

  A frame size is two sides with an `x` of either case between them, blanks around
  each aside.  The first such letter divides them.
-/
import Transcode.Frame.Size

namespace Transcode

/-- Why a text is no frame size; the texts are as they are given. -/
inductive FrameSizeError where
  | noDivider (text : String)
  | badWidth (text : String)
  | badHeight (text : String)
  deriving DecidableEq, Repr

/-- The wording of a frame size error. -/
def FrameSizeError.message : FrameSizeError → String
  | noDivider text => s!"expected WIDTHxHEIGHT, got '{text}'"
  | badWidth text => s!"invalid width '{text}'"
  | badHeight text => s!"invalid height '{text}'"

namespace FrameSize

/-- A letter that divides the sides. -/
def isDivider (c : Char) : Bool :=
  c == 'x' || c == 'X'

/-- A side, blanks around it aside. -/
def side? (cs : List Char) : Option UInt32 :=
  (boundedNaturalOf? 4294967295 (Text.trimmed cs)).map UInt32.ofNat

/-- Read a frame size. -/
def ofText (text : String) : Except FrameSizeError FrameSize :=
  match Text.cutAt isDivider text.toList with
  | none => .error (.noDivider text)
  | some (w, h) => match side? w, side? h with
    | none, _ => .error (.badWidth (String.ofList w))
    | some _, none => .error (.badHeight (String.ofList h))
    | some w, some h => .ok ⟨w, h⟩

end FrameSize

end Transcode
