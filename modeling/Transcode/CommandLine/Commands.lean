/-
  Transcode — the commands and what they accept.

  Every command has a draft of its task with what has been given so far, a grammar
  that fills it, and a last step that makes the task of it or finds something
  missing.  `-c` and `-v` hold for every task, in front of the command or behind.
-/
import Transcode.CommandLine.Reader
import Transcode.Frame.Reading
import Transcode.Preset.Builtin

namespace Transcode.CommandLine

/-! ## Values -/

/-- A path, which cannot be empty. -/
def pathOf (text : String) : Outcome Path :=
  if text.isEmpty then .error .missingValue else .ok (.ofText text)

/-- A setting and its value. -/
def assignmentOf (text : String) : Outcome Assignment :=
  (Assignment.ofText text).mapError fun e => .refused e.message

/-- A frame size. -/
def sizeOf (text : String) : Outcome FrameSize :=
  (FrameSize.ofText text).mapError fun e => .refused e.message

/-- A number. -/
def rateOf (text : String) : Outcome Binary64 :=
  match Binary64.ofText? text with
  | some x => .ok x
  | none =>
    .error (.refused
      (if text.isEmpty then "cannot parse float from empty string" else "invalid float literal"))

/-- Any text. -/
def textOf (text : String) : Outcome String :=
  .ok text

/-- The value of an option that counts once. -/
def once {β : Type} (before : Option β) (f : String → Outcome β) (text : String) :
    Outcome (Option β) :=
  if before.isSome then .error .repeated else (f text).map some

/-- The values of an option that can be repeated. -/
def also {β : Type} (before : List β) (f : String → Outcome β) (text : String) :
    Outcome (List β) :=
  (f text).map fun b => before ++ [b]

/-- A flag that counts once. -/
def raised (before : Bool) : Outcome Bool :=
  if before then .error .repeated else .ok true

/-! ## What holds for every task -/

/-- What holds for every task, with the draft of one. -/
structure Draft (α : Type) where
  config : Option Path
  verbose : Bool
  own : α

namespace Draft

variable {α : Type}

/-- Nothing has been given but a draft of the task. -/
def fresh (own : α) : Draft α := ⟨none, false, own⟩

/-- Set the configuration file. -/
def setConfig : Setter (Draft α) := fun text d =>
  (once d.config pathOf text).map fun c => { d with config := c }

/-- Change the draft of the task. -/
def onOwn (f : Setter α) : Setter (Draft α) := fun text d =>
  (f text d.own).map fun own => { d with own := own }

/-- Raise a flag of the task. -/
def flagOwn (f : α → Outcome α) (d : Draft α) : Outcome (Draft α) :=
  (f d.own).map fun own => { d with own := own }

end Draft

/-- The option that names a configuration file. -/
def configOption {α : Type} : Accepted (Draft α) :=
  ⟨some 'c', "config", .value Draft.setConfig⟩

/-- The option to say more. -/
def verboseOption {α : Type} : Accepted (Draft α) :=
  ⟨some 'v', "verbose", .flag fun d => (raised d.verbose).map fun v => { d with verbose := v }⟩

/-- The option that asks for help. -/
def helpOption {α : Type} : Accepted α :=
  ⟨some 'h', "help", .stop .help⟩

/-- An option of a task that takes a value. -/
def valueOption {α : Type} (letter : Option Char) (long : String) (f : Setter α) :
    Accepted (Draft α) :=
  ⟨letter, long, .value (Draft.onOwn f)⟩

/-- A flag of a task. -/
def flagOption {α : Type} (long : String) (f : α → Outcome α) : Accepted (Draft α) :=
  ⟨none, long, .flag (Draft.flagOwn f)⟩

/-- The grammar of a command that accepts the options of every task. -/
def grammar {α : Type} (options : List (Accepted (Draft α))) (places : List (Setter α)) :
    Grammar (Draft α) :=
  ⟨options ++ [configOption, verboseOption, helpOption], places.map Draft.onOwn,
    fun _ _ => .unknownArgument⟩

/-! ## The commands -/

/-- What is read of a `compile` command. -/
structure CompileDraft where
  input : Option Path := none
  output : Option Path := none
  preset : Option String := none
  overrides : List Assignment := []
  source : Option FrameSize := none
  rate : Option Binary64 := none
  json : Bool := false

/-- What `compile` accepts. -/
def compileGrammar : Grammar (Draft CompileDraft) :=
  grammar
    [valueOption (some 'p') "preset" fun t d =>
      (once d.preset textOf t).map fun x => { d with preset := x },
     valueOption (some 's') "set" fun t d =>
      (also d.overrides assignmentOf t).map fun x => { d with overrides := x },
     valueOption none "source" fun t d =>
      (once d.source sizeOf t).map fun x => { d with source := x },
     valueOption none "source-fps" fun t d =>
      (once d.rate rateOf t).map fun x => { d with rate := x },
     flagOption "json" fun d => (raised d.json).map fun x => { d with json := x }]
    [fun t d => (once d.input pathOf t).map fun x => { d with input := x },
     fun t d => (once d.output pathOf t).map fun x => { d with output := x }]

/-- The task of a `compile` command. -/
def CompileDraft.task (d : CompileDraft) : Outcome Task :=
  match d.input, d.output with
  | some input, some output =>
    .ok (.compile input output (d.preset.getD Preset.standard) d.overrides d.source d.rate d.json)
  | _, _ => .error .missingArgument

/-- What is read of an `encode` command. -/
structure EncodeDraft where
  input : Option Path := none
  outputDir : Option Path := none
  presets : List String := []
  overrides : List Assignment := []
  dryRun : Bool := false

/-- What `encode` accepts. -/
def encodeGrammar : Grammar (Draft EncodeDraft) :=
  grammar
    [valueOption (some 'o') "output-dir" fun t d =>
      (once d.outputDir pathOf t).map fun x => { d with outputDir := x },
     valueOption (some 'p') "preset" fun t d =>
      (also d.presets textOf t).map fun x => { d with presets := x },
     valueOption (some 's') "set" fun t d =>
      (also d.overrides assignmentOf t).map fun x => { d with overrides := x },
     flagOption "dry-run" fun d => (raised d.dryRun).map fun x => { d with dryRun := x }]
    [fun t d => (once d.input pathOf t).map fun x => { d with input := x }]

/-- The task of an `encode` command. -/
def EncodeDraft.task (d : EncodeDraft) : Outcome Task :=
  match d.input with
  | some input => .ok (.encode input d.outputDir d.presets d.overrides d.dryRun)
  | none => .error .missingArgument

/-- What is read of a command with one place and the choice of JSON. -/
structure ShowDraft (β : Type) where
  subject : Option β := none
  json : Bool := false

/-- What a command with one place and the choice of JSON accepts. -/
def showGrammar {β : Type} (f : String → Outcome β) : Grammar (Draft (ShowDraft β)) :=
  grammar
    [flagOption "json" fun d => (raised d.json).map fun x => { d with json := x }]
    [fun t d => (once d.subject f t).map fun x => { d with subject := x }]

/-- What a command without options or places of its own accepts. -/
def bareGrammar : Grammar (Draft Unit) :=
  grammar [] []

/-- What `validate` accepts: its place is for the configuration file, which it has
    no option for. -/
def validateGrammar : Grammar (Draft Unit) :=
  ⟨[verboseOption, helpOption], [Draft.setConfig], fun _ _ => .unknownArgument⟩

/-- The names of the commands. -/
def commandNames : List String :=
  ["compile", "encode", "presets", "probe", "check-tools", "validate", "version"]

/-- The command that explains the others. -/
def helpCommand : String := "help"

/-- Read the arguments of a command; the task is known once the configuration file
    is. -/
def readCommand (name : String) (args : List String) : Outcome (Draft (Option Path → Task)) :=
  match name with
  | "compile" => run compileGrammar {} CompileDraft.task
  | "encode" => run encodeGrammar {} EncodeDraft.task
  | "presets" => run (showGrammar textOf) {} fun d => .ok (.presets d.subject d.json)
  | "probe" => run (showGrammar pathOf) {} fun d => match d.subject with
    | some file => .ok (.probe file d.json)
    | none => .error .missingArgument
  | "check-tools" => run bareGrammar () fun _ => .ok .checkTools
  | "validate" =>
    (validateGrammar.readAll (.fresh ()) args).map fun d => { d with own := .validate }
  | "version" => run bareGrammar () fun _ => .ok .version
  | _ => .error .unknownCommand
where
  /-- Read by a grammar and make a task. -/
  run {α : Type} (g : Grammar (Draft α)) (own : α) (task : α → Outcome Task) :
      Outcome (Draft (Option Path → Task)) :=
    (g.readAll (.fresh own) args).bind fun d =>
      (task d.own).map fun t => { d with own := fun _ => t }

/-! ## The whole command line -/

/-- Whether a word is a command. -/
def isCommand (word : String) : Bool :=
  commandNames.contains word || word == helpCommand

/-- What is accepted in front of a command. -/
def frontGrammar : Grammar (Draft Unit) :=
  ⟨[configOption, verboseOption, helpOption, ⟨some 'V', "version", .stop .version⟩], [],
    fun trailing arg => if trailing && isCommand arg then .unknownArgument else .unknownCommand⟩

/-- What the command that explains the others comes to. -/
def helpOn : List String → ArgumentError
  | [] => .help
  | [word] => if isCommand word then .help else .unknownCommand
  | _ => .unknownCommand

/-- The invocation of a command, with what was given in front of it. -/
def combined (front : Draft Unit) (d : Draft (Option Path → Task)) : Invocation :=
  let config := d.config.or front.config
  ⟨config, d.verbose || front.verbose, d.own config⟩

end CommandLine

/-- Read a command line, without the name of the program. -/
def Invocation.ofArgs (args : List String) : Except ArgumentError Invocation :=
  match CommandLine.frontGrammar.read CommandLine.isCommand
      (.start CommandLine.frontGrammar (.fresh ())) args with
  | .error e => .error e
  | .ok (front, some (name, rest)) =>
    if name = CommandLine.helpCommand then .error (CommandLine.helpOn rest)
    else match CommandLine.readCommand name rest with
      | .error e => .error e
      | .ok d => front.settle.map fun r => CommandLine.combined r.draft d
  | .ok (front, none) => match front.settle with
    | .error e => .error e
    | .ok r =>
      .error (if r.draft.config.isNone && !r.draft.verbose then .nothingGiven else .missingCommand)

end Transcode
