/-
  Transcode — reading arguments by a list of what is accepted.

  Arguments are options, their values, and what goes to one place after another.
  An option has a long name behind two dashes, and may have a letter behind one;
  letters of flags can be joined.  A value follows its option as the next argument,
  behind `=`, or right behind the letter.  Behind `--` everything goes to places.

  A value is judged only when the next option or place comes, or at the end: an
  argument that is not known at all is reported before it.
-/
import Transcode.CommandLine.Invocation

namespace Transcode.CommandLine

/-- What reading gives. -/
abbrev Outcome (α : Type) := Except ArgumentError α

/-- Put a value into what has been read so far. -/
abbrev Setter (α : Type) := String → α → Outcome α

/-- What an option does. -/
inductive Effect (α : Type) where
  | flag (set : α → Outcome α)
  | value (set : Setter α)
  /-- Nothing more is read. -/
  | stop (e : ArgumentError)

/-- An option: its names and what it does. -/
structure Accepted (α : Type) where
  letter : Option Char
  long : String
  effect : Effect α

/-- What a command accepts. -/
structure Grammar (α : Type) where
  options : List (Accepted α)
  places : List (Setter α)
  /-- What is wrong with an argument for which there is no place, behind `--` or
      not. -/
  surplus : Bool → String → ArgumentError

/-- A value that is not judged yet, or an option that waits for one. -/
structure Pending (α : Type) where
  set : Setter α
  value : Option String

/-- How far reading has come. -/
structure Reading (α : Type) where
  draft : α
  pending : Option (Pending α)
  places : List (Setter α)
  /-- Behind `--`. -/
  trailing : Bool

namespace Reading

variable {α : Type}

/-- Nothing is read yet. -/
def start (g : Grammar α) (draft : α) : Reading α :=
  ⟨draft, none, g.places, false⟩

/-- Whether the next argument can only be a value, or an option. -/
def isAwaiting (r : Reading α) : Bool :=
  r.pending.any (·.value.isNone)

/-- Judge the value that is pending. -/
def settle (r : Reading α) : Outcome (Reading α) :=
  match r.pending with
  | none => .ok r
  | some ⟨_, none⟩ => .error .missingValue
  | some ⟨set, some v⟩ => (set v r.draft).map fun d => { r with draft := d, pending := none }

/-- Have an effect on what is settled. -/
def apply (r : Reading α) (f : α → Outcome α) : Outcome (Reading α) :=
  r.settle.bind fun r => (f r.draft).map fun d => { r with draft := d }

/-- Wait for the value of an option. -/
def await (r : Reading α) (set : Setter α) : Outcome (Reading α) :=
  r.settle.map fun r => { r with pending := some ⟨set, none⟩ }

/-- Break off. -/
def breakOff (r : Reading α) (e : ArgumentError) : Outcome (Reading α) :=
  r.settle.bind fun _ => .error e

end Reading

namespace Grammar

variable {α : Type}

/-- The effect of the first option that is meant. -/
def effect? (g : Grammar α) (isMeant : Accepted α → Bool) : Option (Effect α) :=
  (g.options.find? isMeant).map (·.effect)

/-- An option by its long name, with a value if one is attached. -/
def long (g : Grammar α) (r : Reading α) (name : List Char) (value : Option (List Char)) :
    Outcome (Reading α) :=
  match g.effect? (·.long.toList = name), value with
  | none, _ => .error .unknownArgument
  | some (.value set), none => r.await set
  | some (.value set), some v => r.apply (set (String.ofList v))
  | some (.flag set), none => r.apply set
  | some (.stop e), none => r.breakOff e
  | some _, some _ => .error .surplusValue

/-- The value that is attached to a letter, when there is one. -/
def attached : List Char → Option String
  | [] => none
  | '=' :: r => some (String.ofList r)
  | r => some (String.ofList r)

/-- Options by their letters. -/
def letters (g : Grammar α) : Reading α → List Char → Outcome (Reading α)
  | r, [] => .ok r
  | r, c :: cs =>
    match g.effect? (·.letter = some c) with
    | none => .error .unknownArgument
    | some (.stop e) => r.breakOff e
    | some (.flag set) => (r.apply set).bind fun r => g.letters r cs
    | some (.value set) => match attached cs with
      | some v => r.apply (set v)
      | none => r.await set

/-- An argument that goes to a place. -/
def place (g : Grammar α) (r : Reading α) (arg : String) : Outcome (Reading α) :=
  match r.places with
  | [] => .error (g.surplus r.trailing arg)
  | set :: places =>
    r.settle.map fun r => { r with places := places, pending := some ⟨set, some arg⟩ }

/-- An argument that is no option: the value of one, or one for a place. -/
def plain (g : Grammar α) (r : Reading α) (arg : String) : Outcome (Reading α) :=
  match r.pending with
  | some ⟨set, none⟩ => .ok { r with pending := some ⟨set, some arg⟩ }
  | _ => g.place r arg

/-- One argument further. -/
def step (g : Grammar α) (r : Reading α) (arg : String) : Outcome (Reading α) :=
  if r.trailing then g.place r arg
  else match arg.toList with
    | ['-', '-'] => .ok { r with trailing := true }
    | '-' :: '-' :: cs => match Text.cutAt (· == '=') cs with
      | some (name, value) => g.long r name (some value)
      | none => g.long r cs none
    | '-' :: c :: cs => g.letters r (c :: cs)
    | _ => g.plain r arg

/-- Read arguments up to a command, if there are commands; the arguments of the
    command are left over. -/
def read (g : Grammar α) (isCommand : String → Bool) :
    Reading α → List String → Outcome (Reading α × Option (String × List String))
  | r, [] => .ok (r, none)
  | r, arg :: args =>
    if !r.trailing && !r.isAwaiting && isCommand arg then .ok (r, some (arg, args))
    else match g.step r arg with
      | .ok r => g.read isCommand r args
      | .error e => .error e

/-- Read all arguments of a command. -/
def readAll (g : Grammar α) (draft : α) (args : List String) : Outcome α :=
  match g.read (fun _ => false) (.start g draft) args with
  | .ok (r, _) => r.settle.map (·.draft)
  | .error e => .error e

end Grammar

end Transcode.CommandLine
