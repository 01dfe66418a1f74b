/-
  Transcode — command lines for a shell.

  `line` writes words so that a shell reads them back: a word of harmless
  characters as it is, any other in single quotes, with a single quote itself
  written outside them behind a backslash.

  `split?` is the reading of a shell: blanks outside quotes divide words, single
  quotes hold every character as it is, a backslash outside quotes holds the next
  one, and any other character that a shell would act on is refused, among them the
  newline that would end the command.
-/

namespace Transcode.Shell

/-! ## Writing -/

/-- A character that no shell gives a meaning to. -/
def isHarmless (c : Char) : Bool :=
  c.isAlphanum || ['-', '_', '.', '/', ':', '=', '+', ',', '@', '%'].contains c

/-- A single quote, as it is written between quoted stretches. -/
def escapedQuote : List Char := ['\'', '\\', '\'', '\'']

/-- A word as a shell reads it. -/
def word (cs : List Char) : List Char :=
  if !cs.isEmpty && cs.all isHarmless then cs
  else '\'' :: cs.flatMap (fun c => if c = '\'' then escapedQuote else [c]) ++ ['\'']

/-- Words with a space between them. -/
def line (words : List String) : String :=
  " ".intercalate (words.map fun w => String.ofList (word w.toList))

/-! ## Reading -/

/-- A blank, which divides words: a space or a tab. -/
def isDivider (c : Char) : Bool :=
  c == ' ' || c == '\t'

/-- The characters that a shell would act on, were they not quoted. -/
def activeCharacters : List Char :=
  ['\n', '|', '&', ';', '<', '>', '(', ')', '$', '\x60', '"', '*', '?', '[', ']', '#', '~',
   '\x7b', '\x7d', '!', '^']

/-- Whether a shell would act on a character. -/
def isActive (c : Char) : Bool :=
  activeCharacters.contains c

/-- Where a reader stands: between words, or in a word of which some characters
    have been read (in reverse), quoted or not. -/
inductive State where
  | between
  | bare (read : List Char)
  | quoted (read : List Char)
  /-- Behind a backslash outside quotes. -/
  | escaped (read : List Char)

/-- Read characters from a state on; the words come out in order. -/
def splitFrom : State → List Char → Option (List (List Char))
  | .between, [] => some []
  | .bare r, [] => some [r.reverse]
  | .quoted _, [] => none
  | .escaped _, [] => none
  | .quoted r, c :: cs =>
    if c = '\'' then splitFrom (.bare r) cs else splitFrom (.quoted (c :: r)) cs
  | .escaped r, c :: cs => splitFrom (.bare (c :: r)) cs
  | .between, c :: cs =>
    if isDivider c then splitFrom .between cs
    else if c = '\'' then splitFrom (.quoted []) cs
    else if c = '\\' then splitFrom (.escaped []) cs
    else if isActive c then none
    else splitFrom (.bare [c]) cs
  | .bare r, c :: cs =>
    if isDivider c then (splitFrom .between cs).map (r.reverse :: ·)
    else if c = '\'' then splitFrom (.quoted r) cs
    else if c = '\\' then splitFrom (.escaped r) cs
    else if isActive c then none
    else splitFrom (.bare (c :: r)) cs

/-- The words of a line, unless a character in it is refused or a quote is open. -/
def split? (s : String) : Option (List String) :=
  (splitFrom .between s.toList).map (·.map String.ofList)

end Transcode.Shell
