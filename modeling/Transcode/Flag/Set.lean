/-
  Transcode — the flags of a profile.

  `FlagSet.ofProfile` renders every setting that has a rule and a value, in the
  order of the rules, and stops at the first that is refused.  The arguments of a
  group are those of its rules, in the same order.
-/
import Transcode.Flag.Rule

namespace Transcode

/-- Rendered arguments by group. -/
structure FlagSet where
  group : FlagGroup → List String

namespace FlagSet

/-- No arguments. -/
def empty : FlagSet := ⟨fun _ => []⟩

instance : Inhabited FlagSet := ⟨empty⟩

/-- All arguments, in group order. -/
def tokens (f : FlagSet) : List String :=
  FlagGroup.all.flatMap f.group

/-- The rules that apply to a profile, each with the value it renders. -/
def applicable (p : Profile) : List (Rule × Value) :=
  rules.filterMap fun r => (p.get? r.setting).map (r, ·)

/-- The arguments of some rules, each with its group, or the first refusal. -/
def renderAll (s : Surroundings) :
    List (Rule × Value) → Except CompileError (List (FlagGroup × List String))
  | [] => .ok []
  | (r, v) :: rest =>
    match r.render v s with
    | .error e => .error e
    | .ok tokens => (renderAll s rest).map ((r.group, tokens) :: ·)

/-- The set of some rendered parts. -/
def ofParts (parts : List (FlagGroup × List String)) : FlagSet :=
  ⟨fun g => (parts.filter (·.1 = g)).flatMap (·.2)⟩

/-- The flags of a profile for a source. -/
def ofProfile (p : Profile) (source : Source) : Except CompileError FlagSet :=
  (renderAll ⟨p, source⟩ (applicable p)).map ofParts

end FlagSet

end Transcode
