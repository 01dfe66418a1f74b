/-
  Transcode — the order of arguments in a command.

  A recipe is a template: tokens that are written as they are, and placeholders,
  names in braces, each of which stands for any number of arguments.  What a
  placeholder brings in is not looked at again.

  `Recipe.expand` fails exactly at the first placeholder that nothing is known
  about.
-/
import Transcode.Flag.Set
import Transcode.Path

namespace Transcode

/-- A template of arguments. -/
structure Recipe where
  tokens : List String
  deriving DecidableEq, Repr

namespace Recipe

/-- The name between braces, when the token is a placeholder. -/
def placeholder? (token : String) : Option String :=
  match token.toList with
  | '\x7b' :: r =>
    match r.reverse with
    | '\x7d' :: name => if name.isEmpty then none else some (String.ofList name.reverse)
    | _ => none
  | _ => none

/-- A placeholder of a name. -/
def slot (name : String) : String :=
  "\x7b" ++ name ++ "\x7d"

/-- How flags are ordered around the input and the output: analysis flags come
    before the input, and the trim behind it, so that it applies to the input. -/
def standard : Recipe :=
  ⟨[slot "global", "-i", slot "input", slot "trim", slot "audio", slot "video", "-y",
    slot "threads", slot "output"]⟩

/-- What one token becomes. -/
def expandToken (fragment : String → Option (List String)) (token : String) :
    Except CompileError (List String) :=
  match placeholder? token with
  | none => .ok [token]
  | some name => match fragment name with
    | some args => .ok args
    | none => .error (.unknownPlaceholder name)

/-- What some tokens become, in order. -/
def expandAll (fragment : String → Option (List String)) :
    List String → Except CompileError (List String)
  | [] => .ok []
  | t :: ts =>
    match expandToken fragment t with
    | .error e => .error e
    | .ok args => (expandAll fragment ts).map (args ++ ·)

/-- The arguments of the template, with the given fragments. -/
def expand (r : Recipe) (fragment : String → Option (List String)) :
    Except CompileError (List String) :=
  expandAll fragment r.tokens

/-- The fragments of an encoding: the groups of flags, the input and the output. -/
def fragments (flags : FlagSet) (input output : Path) (name : String) : Option (List String) :=
  if name = "input" then some [input.display]
  else if name = "output" then some [output.display]
  else (FlagGroup.all.find? (·.name = name)).map flags.group

/-- The arguments of an encoding. -/
def assemble (r : Recipe) (flags : FlagSet) (input output : Path) :
    Except CompileError (List String) :=
  r.expand (fragments flags input output)

end Recipe

end Transcode
