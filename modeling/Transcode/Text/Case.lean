/-
  Transcode — letter case and occurrence in text.

  Case matters only for the 26 ASCII letters: `lower` maps those and leaves
  every other character alone, so it never changes the length of a text.
-/

namespace Transcode.Text

/-- The text with the ASCII capital letters made small. -/
def lowered (cs : List Char) : List Char :=
  cs.map Char.toLower

/-- `lowered` on strings. -/
def lower (s : String) : String :=
  String.ofList (lowered s.toList)

theorem length_lowered (cs : List Char) : (lowered cs).length = cs.length := by
  simp [lowered]

/-- Equality up to the case of ASCII letters. -/
def sameLetters (s t : String) : Bool :=
  lowered s.toList == lowered t.toList

/-- Whether `needle` stands somewhere in the text. -/
def holds (needle : List Char) : List Char → Bool
  | [] => needle.isEmpty
  | c :: cs => needle.isPrefixOf (c :: cs) || holds needle cs

theorem holds_iff {needle cs : List Char} : holds needle cs = true ↔ needle <:+: cs := by
  induction cs with
  | nil => simp [holds]
  | cons c cs ih => simp [holds, ih, List.infix_cons_iff]

end Transcode.Text
