/-
  Transcode — bytes as text.

  Paths and the output of other programs are bytes, and need not be text.  The
  bytes are cut into characters and *stray* runs: a stray run is the longest
  start of a character that the next byte does not go on with, or one byte that
  starts none.

  * `items` is the cut, from the left, each item as long as it can be;
  * `decode` reads bytes that hold no stray run, and reports the first one
    otherwise;
  * `decodeLossy` writes U+FFFD once for each stray run.
-/

namespace Transcode.Text

/-- Octets, as they stand in files, paths and the output of programs. -/
abbrev Bytes := List UInt8

/-- The bytes of a text. -/
def encode (s : String) : Bytes :=
  s.toList.flatMap String.utf8EncodeChar

/-! ## One item -/

/-- What the bytes are cut into. -/
inductive Item where
  /-- A whole character. -/
  | char (c : Char)
  /-- Bytes of no character; `truncated` when the bytes end inside what could
      have become one. -/
  | stray (bytes : Bytes) (truncated : Bool)

/-- What the first byte of a character says: how many bytes follow, the least and
    the greatest that may come next, and its own share of the code point. -/
structure Lead where
  tail : Nat
  low : UInt8
  high : UInt8
  share : Nat

/-- The lead that a byte gives, when it can start a character of several bytes. -/
def Lead.of? (b : UInt8) : Option Lead :=
  if 0xC2 ≤ b && b ≤ 0xDF then some ⟨1, 0x80, 0xBF, b.toNat - 0xC0⟩
  else if b == 0xE0 then some ⟨2, 0xA0, 0xBF, 0⟩
  else if b == 0xED then some ⟨2, 0x80, 0x9F, 0xD⟩
  else if 0xE1 ≤ b && b ≤ 0xEF then some ⟨2, 0x80, 0xBF, b.toNat - 0xE0⟩
  else if b == 0xF0 then some ⟨3, 0x90, 0xBF, 0⟩
  else if 0xF1 ≤ b && b ≤ 0xF3 then some ⟨3, 0x80, 0xBF, b.toNat - 0xF0⟩
  else if b == 0xF4 then some ⟨3, 0x80, 0x8F, 4⟩
  else none

/-- Go on with a character of which `seen` (in reverse) has been read and `tail`
    bytes are owed, the next between `low` and `high`. -/
def continued (seen : Bytes) (code : Nat) (low high : UInt8) : Nat → Bytes → Item × Bytes
  | 0, rest => (.char (Char.ofNat code), rest)
  | _ + 1, [] => (.stray seen.reverse true, [])
  | n + 1, b :: rest =>
    if low ≤ b && b ≤ high then
      continued (b :: seen) (code * 64 + (b.toNat - 0x80)) 0x80 0xBF n rest
    else (.stray seen.reverse false, b :: rest)

/-- The item at the front of nonempty bytes, and the bytes after it. -/
def firstItem (b : UInt8) (rest : Bytes) : Item × Bytes :=
  if b < 0x80 then (.char (Char.ofNat b.toNat), rest)
  else match Lead.of? b with
    | some l => continued [b] l.share l.low l.high l.tail rest
    | none => (.stray [b] false, rest)

theorem length_continued (n : Nat) (seen : Bytes) (code : Nat) (low high : UInt8) (bs : Bytes) :
    (continued seen code low high n bs).2.length ≤ bs.length := by
  induction n generalizing seen code low high bs with
  | zero => simp [continued]
  | succ n ih =>
    cases bs with
    | nil => simp [continued]
    | cons b rest =>
      simp only [continued]
      split
      · exact Nat.le_trans (ih _ _ _ _ _) (Nat.le_succ _)
      · exact Nat.le_refl _

theorem length_firstItem (b : UInt8) (rest : Bytes) :
    (firstItem b rest).2.length ≤ rest.length := by
  unfold firstItem
  split
  · exact Nat.le_refl _
  · split
    · exact length_continued _ _ _ _ _ _
    · exact Nat.le_refl _

/-! ## All items -/

/-- The bytes as characters and stray runs, in order. -/
def items : Bytes → List Item
  | [] => []
  | b :: rest =>
    match h : firstItem b rest with
    | (item, rest') =>
      have : rest'.length < rest.length + 1 := by
        have := length_firstItem b rest
        rw [h] at this
        exact Nat.lt_succ_of_le this
      item :: items rest'
  termination_by bs => bs.length

/-- Why bytes are not text: where the first stray run starts, and how long it is
    unless the bytes end inside it. -/
structure NotText where
  index : Nat
  length : Option Nat
  deriving DecidableEq, Repr

/-- The wording of the cause. -/
def NotText.message (e : NotText) : String :=
  match e.length with
  | some n => s!"invalid utf-8 sequence of {n} bytes from index {e.index}"
  | none => s!"incomplete utf-8 byte sequence from index {e.index}"

/-- The text of items that hold no stray run; `index` counts the bytes before. -/
def textOfItems (index : Nat) : List Item → Except NotText (List Char)
  | [] => .ok []
  | .char c :: r => (textOfItems (index + c.utf8Size) r).map (c :: ·)
  | .stray bytes truncated :: _ =>
    .error ⟨index, if truncated then none else some bytes.length⟩

/-- The text that the bytes are, or the first stray run. -/
def decode (bs : Bytes) : Except NotText String :=
  (textOfItems 0 (items bs)).map String.ofList

/-- The text with U+FFFD in place of each stray run. -/
def decodeLossy (bs : Bytes) : String :=
  String.ofList ((items bs).map fun
    | .char c => c
    | .stray _ _ => '\uFFFD')

end Transcode.Text
