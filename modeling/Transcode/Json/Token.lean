/-
  Transcode — the tokens of JSON.

  Tokens are read by a machine that looks at one character at a time.  Numbers and
  words are runs of characters, which are judged where they end; a text is read in
  two steps: escapes are undone into code units, and units that are halves of a
  surrogate pair are put together.
-/
import Transcode.Json.Number

namespace Transcode.Json

/-- The smallest parts of a JSON text. -/
inductive Token where
  | listStart
  | listEnd
  | tableStart
  | tableEnd
  | comma
  | colon
  /-- A number or one of the three words. -/
  | leaf (d : Document)
  /-- A text; none when it holds half of a surrogate pair alone. -/
  | text (s : Option String)

/-! ## Texts -/

/-- What stands in a text: a character, or the number of a code unit. -/
inductive CodeUnit where
  | char (c : Char)
  | number (n : Nat)

/-- The first and the second half of a surrogate pair. -/
def isFirstHalf (n : Nat) : Bool := 0xD800 ≤ n && n ≤ 0xDBFF

@[inherit_doc isFirstHalf]
def isSecondHalf (n : Nat) : Bool := 0xDC00 ≤ n && n ≤ 0xDFFF

/-- The character of a surrogate pair. -/
def ofHalves (m n : Nat) : Char :=
  Char.ofNat (0x10000 + (m - 0xD800) * 1024 + (n - 0xDC00))

/-- The characters of code units, unless half of a pair stands alone. -/
def chars? : List CodeUnit → Option (List Char)
  | [] => some []
  | .char c :: r => (chars? r).map (c :: ·)
  | .number m :: .number n :: r =>
    if isFirstHalf m then
      if isSecondHalf n then (chars? r).map (ofHalves m n :: ·) else none
    else if isSecondHalf m then none
    else (chars? (.number n :: r)).map (Char.ofNat m :: ·)
  | .number m :: r =>
    if isFirstHalf m || isSecondHalf m then none
    else (chars? r).map (Char.ofNat m :: ·)

/-- The character of an escape of one letter. -/
def unescaped? : Char → Option Char
  | '"' => some '"'
  | '\\' => some '\\'
  | '/' => some '/'
  | 'b' => some '\x08'
  | 'f' => some '\x0c'
  | 'n' => some '\n'
  | 'r' => some '\r'
  | 't' => some '\t'
  | _ => none

/-- The value of a hexadecimal digit. -/
def hexValue? (c : Char) : Option Nat :=
  if isDigit c then some (c.toNat - '0'.toNat)
  else if 'a' ≤ c && c ≤ 'f' then some (c.toNat - 'a'.toNat + 10)
  else if 'A' ≤ c && c ≤ 'F' then some (c.toNat - 'A'.toNat + 10)
  else none

/-! ## The machine -/

/-- Where the machine stands.  What has been read of a token is in reverse. -/
inductive Scan where
  | between
  | number (read : List Char)
  | word (read : List Char)
  | text (read : List CodeUnit)
  /-- Behind a backslash. -/
  | escape (read : List CodeUnit)
  /-- Inside the number of a code unit, of which `owed` digits are to come. -/
  | hex (read : List CodeUnit) (value owed : Nat)

/-- The blanks of JSON. -/
def isGap (c : Char) : Bool :=
  c == ' ' || c == '\n' || c == '\t' || c == '\r'

/-- A character that numbers are made of. -/
def isNumberChar (c : Char) : Bool :=
  isDigit c || c == '-' || c == '+' || c == '.' || c == 'e' || c == 'E'

/-- The token of one character. -/
def punctuation? : Char → Option Token
  | '[' => some .listStart
  | ']' => some .listEnd
  | '\x7b' => some .tableStart
  | '\x7d' => some .tableEnd
  | ',' => some .comma
  | ':' => some .colon
  | _ => none

/-- The document of a word. -/
def word? (cs : List Char) : Option Document :=
  if cs = "null".toList then some .null
  else if cs = "true".toList then some (.flag true)
  else if cs = "false".toList then some (.flag false)
  else none

/-- The first character of a token, or one between tokens. -/
def opening (c : Char) : Option (Scan × List Token) :=
  if isGap c then some (.between, [])
  else if c = '"' then some (.text [], [])
  else if isDigit c || c = '-' then some (.number [c], [])
  else if c.isAlpha then some (.word [c], [])
  else (punctuation? c).map fun t => (.between, [t])

/-- The token of a state in which the text may end. -/
def finish : Scan → Option (List Token)
  | .between => some []
  | .number r => (Number.ofChars? r.reverse).map fun n => [.leaf n.toDocument]
  | .word r => (word? r.reverse).map fun d => [.leaf d]
  | _ => none

/-- A character of a text; the controls below the space are refused. -/
def inText (read : List CodeUnit) (c : Char) : Option (Scan × List Token) :=
  if c = '"' then some (.between, [.text ((chars? read.reverse).map String.ofList)])
  else if c = '\\' then some (.escape read, [])
  else if c.toNat < 0x20 then none
  else some (.text (.char c :: read), [])

/-- One character further: the next state, and the tokens that are complete. -/
def advance (s : Scan) (c : Char) : Option (Scan × List Token) :=
  match s with
  | .text read => inText read c
  | .escape read =>
    if c = 'u' then some (.hex read 0 4, [])
    else (unescaped? c).map fun d => (.text (.char d :: read), [])
  | .hex read value owed =>
    (hexValue? c).map fun d =>
      let value := value * 16 + d
      if owed ≤ 1 then (.text (.number value :: read), []) else (.hex read value (owed - 1), [])
  | .number read =>
    if isNumberChar c then some (.number (c :: read), []) else ended (.number read) c
  | .word read =>
    if c.isAlpha then some (.word (c :: read), []) else ended (.word read) c
  | .between => opening c
where
  /-- The character ends the token before it. -/
  ended (s : Scan) (c : Char) : Option (Scan × List Token) :=
    match finish s, opening c with
    | some before, some (s', after) => some (s', before ++ after)
    | _, _ => none

/-- The tokens of characters, from a state on. -/
def tokensFrom (s : Scan) : List Char → Option (List Token)
  | [] => finish s
  | c :: cs => match advance s c with
    | none => none
    | some (s', out) => (tokensFrom s' cs).map (out ++ ·)

/-- The tokens of a text. -/
def tokens? (cs : List Char) : Option (List Token) :=
  tokensFrom .between cs

end Transcode.Json
