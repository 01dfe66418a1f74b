/-
  Transcode — quoting of paths and texts inside messages.

  Between double quotes, a quote, a backslash and the usual controls are written
  with a backslash, every other unprintable character by its number, and a byte
  that belongs to no character by two hexadecimal digits.
-/
import Transcode.Text.Unprintable
import Transcode.Text.Utf8

namespace Transcode.Text

/-- A character as it is written between quotes. -/
def quotedChar (c : Char) : List Char :=
  match c with
  | '\x00' => ['\\', '0']
  | '\t' => ['\\', 't']
  | '\n' => ['\\', 'n']
  | '\r' => ['\\', 'r']
  | '"' => ['\\', '"']
  | '\\' => ['\\', '\\']
  | c =>
    if isUnprintable c then
      ['\\', 'u', '\x7b'] ++ Nat.toDigits 16 c.toNat ++ ['\x7d']
    else [c]

/-- The two capital hexadecimal digits of a byte. -/
def hexByte (b : UInt8) : List Char :=
  [Nat.digitChar (b.toNat / 16), Nat.digitChar (b.toNat % 16)].map Char.toUpper

/-- An item as it is written between quotes. -/
def quotedItem : Item → List Char
  | .char c => quotedChar c
  | .stray bytes _ => bytes.flatMap fun b => ['\\', 'x'] ++ hexByte b

/-- Bytes in double quotes. -/
def quoted (bs : Bytes) : String :=
  String.ofList (['"'] ++ (items bs).flatMap quotedItem ++ ['"'])

end Transcode.Text
