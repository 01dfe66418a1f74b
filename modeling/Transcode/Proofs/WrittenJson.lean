/-
  Transcode — JSON that is read back.

  A document that is written as JSON is read back as it was, in either layout.  Gaps
  make no tokens, the characters of a text are escaped so that its end is found, and a
  number or a word ends where the next token starts.

  * `Yields`: the tokens that characters are read as, once what follows ends the last;
  * `closes_quoted`, `yields_number`: texts and numbers;
  * `StandFor`: tokens that make up a document;
  * `Document.Faithful`: documents with nothing in them that JSON cannot hold;
  * `Document.ofJson?_written`: these are read back.
-/
import Transcode.Json.Reader
import Transcode.Json.Writer
import Transcode.Proofs.Digits
import Transcode.Proofs.Outcome
import Transcode.Proofs.ValueText

namespace Transcode.Json

/-! ## Characters and tokens -/

/-- No number or word goes on into these characters. -/
def EndsToken (cs : List Char) : Prop :=
  ∀ c ∈ cs.head?, isNumberChar c = false ∧ c.isAlpha = false

/-- Characters that are read as some tokens, whatever follows. -/
def Closes (cs : List Char) (ts : List Token) : Prop :=
  ∀ rest, tokensFrom .between (cs ++ rest) = (tokensFrom .between rest).map (ts ++ ·)

/-- Characters that are read as some tokens, if what follows ends the last of them. -/
def Yields (cs : List Char) (ts : List Token) : Prop :=
  ∀ rest, EndsToken rest →
    tokensFrom .between (cs ++ rest) = (tokensFrom .between rest).map (ts ++ ·)

theorem EndsToken.append {cs rest : List Char} (h : EndsToken cs) (hrest : EndsToken rest) :
    EndsToken (cs ++ rest) := by
  cases cs with
  | nil => exact hrest
  | cons c cs => exact h

theorem Closes.yields {cs : List Char} {ts : List Token} (h : Closes cs ts) : Yields cs ts :=
  fun rest _ => h rest

theorem Closes.append {cs cs' : List Char} {ts ts' : List Token} (h : Closes cs ts)
    (h' : Yields cs' ts') : Yields (cs ++ cs') (ts ++ ts') := by
  intro rest hrest
  rw [List.append_assoc, h, h' rest hrest, Option.map_map]
  congr 1
  funext x
  exact (List.append_assoc _ _ _).symm

theorem Yields.append {cs cs' : List Char} {ts ts' : List Token} (h : Yields cs ts)
    (hends : EndsToken cs') (h' : Yields cs' ts') : Yields (cs ++ cs') (ts ++ ts') := by
  intro rest hrest
  rw [List.append_assoc, h _ (hends.append hrest), h' rest hrest, Option.map_map]
  congr 1
  funext x
  exact (List.append_assoc _ _ _).symm

theorem Yields.nil : Yields [] [] := by
  intro rest _
  simp

theorem tokens?_of_yields {cs : List Char} {ts : List Token} (h : Yields cs ts) :
    tokens? cs = some ts := by
  have hend := h [] (by intro c hc; cases hc)
  rw [List.append_nil] at hend
  rw [tokens?, hend]
  simp [tokensFrom, finish]

/-! ## Gaps and marks -/

theorem tokensFrom_between_cons (c : Char) (cs : List Char) :
    tokensFrom .between (c :: cs) =
      (opening c).bind fun x => (tokensFrom x.1 cs).map (x.2 ++ ·) := by
  rw [tokensFrom, advance]
  cases opening c with
  | none => rfl
  | some x => rfl

theorem closes_of_opening {c : Char} {ts : List Token} (h : opening c = some (.between, ts)) :
    Closes [c] ts := by
  intro rest
  rw [List.singleton_append, tokensFrom_between_cons, h]
  rfl

theorem closes_gaps {cs : List Char} (h : ∀ c ∈ cs, isGap c = true) : Closes cs [] := by
  induction cs with
  | nil =>
    intro rest
    simp
  | cons c cs ih =>
    intro rest
    have hc : opening c = some (.between, []) := if_pos (h c List.mem_cons_self)
    have hcs := ih fun d hd => h d (List.mem_cons_of_mem c hd)
    rw [List.cons_append, tokensFrom_between_cons, hc, Option.bind_some, hcs]
    simp

theorem closes_gap (layout : Option Nat) : Closes (gap layout) [] := by
  refine closes_gaps ?_
  intro c hc
  cases layout with
  | none => cases hc
  | some level =>
    rcases List.mem_cons.1 hc with rfl | hc
    · rfl
    · rw [List.eq_of_mem_replicate hc]
      rfl

theorem endsToken_gap (layout : Option Nat) : EndsToken (gap layout) := by
  intro c hc
  cases layout with
  | none => cases hc
  | some level =>
    obtain rfl : '\n' = c := Option.some.inj hc
    decide

theorem closes_colon (layout : Option Nat) : Closes (colon layout) [.colon] := by
  have hcolon : Closes [':'] [.colon] := closes_of_opening rfl
  cases layout with
  | none => exact hcolon
  | some level =>
    intro rest
    have hblank : Closes [' '] [] := closes_gaps fun c hc => List.mem_singleton.1 hc ▸ rfl
    show tokensFrom .between ([':'] ++ ([' '] ++ rest)) = _
    rw [hcolon, hblank, Option.map_map]
    rfl

/-! ## Texts -/

/-- A character that completes no token. -/
theorem tokensFrom_cons {s t : Scan} {c : Char} (h : advance s c = some (t, []))
    (cs : List Char) : tokensFrom s (c :: cs) = tokensFrom t cs := by
  rw [tokensFrom, h]
  exact Option.map_id'

namespace CodeUnit

/-- A code unit that stands for a character, whatever units come behind it. -/
def Means (u : CodeUnit) (c : Char) : Prop :=
  ∀ r, chars? (u :: r) = (chars? r).map (c :: ·)

theorem means_char (c : Char) : (char c).Means c :=
  fun _ => rfl

theorem means_number {c : Char} (h : c.toNat < 0x20) : (number c.toNat).Means c := by
  intro r
  have hfirst : isFirstHalf c.toNat = false := by
    rw [isFirstHalf, Bool.and_eq_false_iff, decide_eq_false_iff_not]
    omega
  have hsecond : isSecondHalf c.toNat = false := by
    rw [isSecondHalf, Bool.and_eq_false_iff, decide_eq_false_iff_not]
    omega
  rcases r with _ | ⟨_ | n, r⟩ <;> simp [chars?, hfirst, hsecond, Char.ofNat_toNat]

end CodeUnit

/-- A character and the unit that it is read as inside a text. -/
def ReadAs (c : Char) (u : CodeUnit) : Prop :=
  u.Means c ∧ ∀ read cs,
    tokensFrom (.text read) (escaped c ++ cs) = tokensFrom (.text (u :: read)) cs

theorem readAs_of_letter {c d : Char} (he : escaped c = ['\\', d]) (hd : unescaped? d = some c)
    (hu : d ≠ 'u') : ReadAs c (.char c) := by
  refine ⟨CodeUnit.means_char c, ?_⟩
  intro read cs
  have hletter : advance (.escape read) d = some (.text (.char c :: read), []) := by
    rw [advance, if_neg hu, hd]
    rfl
  rw [he, List.cons_append, List.singleton_append, tokensFrom_cons (t := .escape read) rfl,
    tokensFrom_cons hletter]

theorem hexValue?_digitChar : ∀ n < 16, hexValue? (Nat.digitChar n) = some n := by
  decide

theorem readAs_of_control {c : Char} (hc : c.toNat < 0x20)
    (he : escaped c = ['\\', 'u', '0', '0', Nat.digitChar (c.toNat / 16),
      Nat.digitChar (c.toNat % 16)]) : ReadAs c (.number c.toNat) := by
  refine ⟨CodeUnit.means_number hc, ?_⟩
  intro read cs
  have hhigh : advance (.hex read 0 2) (Nat.digitChar (c.toNat / 16)) =
      some (.hex read (0 * 16 + c.toNat / 16) 1, []) := by
    rw [advance, hexValue?_digitChar _ (by omega)]
    rfl
  have hvalue : (0 * 16 + c.toNat / 16) * 16 + c.toNat % 16 = c.toNat := by omega
  have hlow : advance (.hex read (0 * 16 + c.toNat / 16) 1) (Nat.digitChar (c.toNat % 16)) =
      some (.text (.number c.toNat :: read), []) := by
    rw [advance, hexValue?_digitChar _ (by omega), Option.map_some, hvalue]
    rfl
  rw [he]
  simp only [List.cons_append, List.nil_append]
  rw [tokensFrom_cons (t := .escape read) rfl, tokensFrom_cons (t := .hex read 0 4) rfl,
    tokensFrom_cons (t := .hex read 0 3) rfl, tokensFrom_cons (t := .hex read 0 2) rfl,
    tokensFrom_cons hhigh, tokensFrom_cons hlow]

theorem readAs_of_plain {c : Char} (hquote : c ≠ '"') (hslash : c ≠ '\\') (hc : 0x20 ≤ c.toNat)
    (he : escaped c = [c]) : ReadAs c (.char c) := by
  refine ⟨CodeUnit.means_char c, ?_⟩
  intro read cs
  have hplain : advance (.text read) c = some (.text (.char c :: read), []) := by
    rw [advance, inText, if_neg hquote, if_neg hslash, if_neg (by omega)]
  rw [he, List.singleton_append, tokensFrom_cons hplain]

/-- Every character is read back from the way it is escaped. -/
theorem exists_readAs (c : Char) : ∃ u, ReadAs c u := by
  by_cases hletter : c ∈ ['"', '\\', '\n', '\t', '\r', '\x08', '\x0c']
  · simp only [List.mem_cons, List.not_mem_nil, or_false] at hletter
    rcases hletter with rfl | rfl | rfl | rfl | rfl | rfl | rfl <;>
      exact ⟨.char _, readAs_of_letter rfl rfl (by decide)⟩
  · have he : escaped c = if c.toNat < 0x20 then ['\\', 'u', '0', '0',
        Nat.digitChar (c.toNat / 16), Nat.digitChar (c.toNat % 16)] else [c] := by
      unfold escaped
      split <;> first | rfl | exact absurd (by decide) hletter
    by_cases hc : c.toNat < 0x20
    · exact ⟨_, readAs_of_control hc (he.trans (if_pos hc))⟩
    · refine ⟨_, readAs_of_plain ?_ ?_ (by omega) (he.trans (if_neg hc))⟩
      · rintro rfl
        exact hletter (by decide)
      · rintro rfl
        exact hletter (by decide)

theorem exists_units (cs : List Char) : ∃ us, chars? us = some cs ∧ ∀ read rest,
    tokensFrom (.text read) (cs.flatMap escaped ++ rest) =
      tokensFrom (.text (us.reverse ++ read)) rest := by
  induction cs with
  | nil => exact ⟨[], rfl, fun _ _ => rfl⟩
  | cons c cs ih =>
    obtain ⟨us, hus, hrest⟩ := ih
    obtain ⟨u, hmeans, hu⟩ := exists_readAs c
    refine ⟨u :: us, ?_, ?_⟩
    · rw [hmeans, hus]
      rfl
    · intro read rest
      rw [List.flatMap_cons, List.append_assoc, hu, hrest, List.reverse_cons, List.append_assoc]
      rfl

/-- **A text is read back from its quotes.** -/
theorem closes_quoted (s : String) : Closes (quoted s) [.text (some s)] := by
  intro rest
  obtain ⟨us, hus, htext⟩ := exists_units s.toList
  have hend : advance (.text us.reverse) '"' = some (.between, [.text (some s)]) := by
    rw [advance, inText, if_pos rfl, List.reverse_reverse, hus, Option.map_some,
      String.ofList_toList]
  show tokensFrom .between ('"' :: (s.toList.flatMap escaped ++ ['"']) ++ rest) = _
  rw [List.cons_append, List.append_assoc, tokensFrom_cons (t := .text []) rfl, htext,
    List.append_nil, List.singleton_append, tokensFrom, hend]

/-! ## Numbers and words -/

/-- A token that is ended by what follows. -/
theorem tokensFrom_of_finish {s : Scan} {ts : List Token} (hfinish : finish s = some ts)
    {rest : List Char} (hends : ∀ c ∈ rest.head?, advance s c = advance.ended s c) :
    tokensFrom s rest = (tokensFrom .between rest).map (ts ++ ·) := by
  cases rest with
  | nil =>
    rw [tokensFrom, tokensFrom, hfinish]
    simp [finish]
  | cons c cs =>
    rw [tokensFrom_between_cons, tokensFrom, hends c rfl, advance.ended, hfinish]
    cases opening c with
    | none => rfl
    | some x =>
      simp only [Option.bind_some, Option.map_map]
      congr 1
      funext y
      exact List.append_assoc _ _ _

/-- A run of characters that a token is made of. -/
theorem tokensFrom_run {f : List Char → Scan} {cs : List Char}
    (hcs : ∀ c ∈ cs, ∀ read, advance (f read) c = some (f (c :: read), [])) :
    ∀ read rest,
      tokensFrom (f read) (cs ++ rest) = tokensFrom (f (cs.reverse ++ read)) rest := by
  induction cs with
  | nil => exact fun _ _ => rfl
  | cons c cs ih =>
    intro read rest
    rw [List.cons_append, tokensFrom_cons (hcs c List.mem_cons_self read),
      ih fun d hd => hcs d (List.mem_cons_of_mem c hd), List.reverse_cons, List.append_assoc]
    rfl

section
variable {c : Char} {cs : List Char}

theorem yields_number {n : Number} (hopening : opening c = some (.number [c], []))
    (hcs : ∀ d ∈ cs, isNumberChar d = true) (hn : Number.ofChars? (c :: cs) = some n) :
    Yields (c :: cs) [.leaf n.toDocument] := by
  intro rest hrest
  rw [List.cons_append, tokensFrom_cons (show advance .between c = _ from hopening),
    tokensFrom_run (f := .number) fun d hd read => if_pos (hcs d hd)]
  refine tokensFrom_of_finish ?_ fun d hd => if_neg ?_
  · simp [finish, hn]
  · rw [(hrest d hd).1]
    exact Bool.false_ne_true

theorem yields_word {d : Document} (hopening : opening c = some (.word [c], []))
    (hcs : cs.all Char.isAlpha = true) (hd : word? (c :: cs) = some d) :
    Yields (c :: cs) [.leaf d] := by
  intro rest hrest
  rw [List.cons_append, tokensFrom_cons (show advance .between c = _ from hopening),
    tokensFrom_run (f := .word) fun d hd read => if_pos (List.all_eq_true.1 hcs d hd)]
  refine tokensFrom_of_finish ?_ fun d hd => if_neg ?_
  · simp [finish, hd]
  · rw [(hrest d hd).2]
    exact Bool.false_ne_true

end

theorem isDigit_eq (c : Char) : isDigit c = c.isDigit :=
  rfl

theorem isNumberChar_of_isDigit {c : Char} (h : c.isDigit = true) : isNumberChar c = true := by
  rw [isNumberChar, isDigit_eq, h]
  rfl

theorem opening_of_isDigit {c : Char} (h : c.isDigit = true) :
    opening c = some (.number [c], []) := by
  have hgap : isGap c = false := by
    rw [Bool.eq_false_iff]
    intro hgap
    simp only [isGap, Bool.or_eq_true, beq_iff_eq] at hgap
    rcases hgap with ((rfl | rfl) | rfl) | rfl <;> cases h
  have hquote : c ≠ '"' := by
    rintro rfl
    cases h
  rw [opening, hgap, if_neg Bool.false_ne_true, if_neg hquote, isDigit_eq, h]
  rfl

/-! ## Whole numbers -/

section
variable {cs : List Char}

theorem span_isDigit (h : ∀ c ∈ cs, c.isDigit = true) : cs.span isDigit = (cs, []) := by
  have hspan := span_isDigit_append (r := []) h (by simp)
  rwa [List.append_nil] at hspan

theorem ofChars?_of_digits {negative : Bool} (h : ∀ c ∈ cs, c.isDigit = true)
    (hwhole : Number.isWhole cs = true) :
    Number.ofChars? (Binary64.signText negative ++ cs) = some ⟨negative, cs, none, none⟩ := by
  cases negative with
  | true =>
    show Number.ofChars? ('-' :: cs) = _
    simp only [Number.ofChars?, span_isDigit h, hwhole]
    rfl
  | false =>
    show Number.ofChars? cs = _
    unfold Number.ofChars?
    split
    next negative r hsign =>
      split at hsign
      · next r => exact absurd (h '-' List.mem_cons_self) (by decide)
      · cases hsign
        simp only [span_isDigit h, hwhole]
        rfl

end

theorem isWhole_digitsOf (n : Nat) : Number.isWhole (digitsOf n) = true := by
  rcases Nat.eq_zero_or_pos n with rfl | hn
  · decide
  · obtain ⟨c, cs, hcons⟩ := List.exists_cons_of_ne_nil (digitsOf_ne_nil n)
    have hhead := head?_digitsOf hn
    rw [hcons, List.head?_cons, Ne, Option.some.injEq] at hhead
    rw [hcons, Number.isWhole, decide_eq_true hhead]
    rfl

/-- The whole numbers that JSON keeps. -/
def HasSixtyFourBits (i : Int) : Prop :=
  Value.least ≤ i ∧ i ≤ Number.leadingLimit

theorem toDocument_of_integer {i : Int} (hi : HasSixtyFourBits i) :
    (Number.mk (decide (i < 0)) (digitsOf i.natAbs) none none).toDocument = .integer i := by
  obtain ⟨hlow, hhigh⟩ := hi
  have hinteger : (Number.mk (decide (i < 0)) (digitsOf i.natAbs) none none).integer? = some i := by
    unfold Value.least at hlow
    unfold Number.leadingLimit at hhigh
    rcases Int.lt_or_le i 0 with h | h
    · have hvalue : 0 < i.natAbs ∧ i.natAbs ≤ 9223372036854775808 := by omega
      have hi : -(i.natAbs : Int) = i := by omega
      simp only [Number.integer?, valueOfDigits_digitsOf, Option.isSome_none, Bool.or_self,
        Bool.false_eq_true, if_false, decide_eq_true h, if_true, if_pos hvalue, hi]
    · have hvalue : i.natAbs ≤ Number.leadingLimit := by
        unfold Number.leadingLimit
        omega
      have hi : (i.natAbs : Int) = i := by omega
      simp only [Number.integer?, valueOfDigits_digitsOf, Option.isSome_none, Bool.or_self,
        Bool.false_eq_true, if_false, decide_eq_false (Int.not_lt.2 h), if_pos hvalue, hi]
  rw [Number.toDocument, hinteger]

/-- A number text, from its sign on. -/
def IsNumeric (cs : List Char) : Prop :=
  (∃ c r, cs = c :: r ∧ opening c = some (.number [c], [])) ∧ ∀ c ∈ cs, isNumberChar c = true

theorem isNumeric_signed {negative : Bool} {cs : List Char}
    (hhead : ∃ c r, cs = c :: r ∧ c.isDigit = true) (hcs : ∀ c ∈ cs, isNumberChar c = true) :
    IsNumeric (Binary64.signText negative ++ cs) := by
  cases negative with
  | true =>
    refine ⟨⟨'-', cs, rfl, rfl⟩, ?_⟩
    intro c hc
    rcases List.mem_cons.1 hc with rfl | hc
    · decide
    · exact hcs c hc
  | false =>
    obtain ⟨c, r, rfl, hc⟩ := hhead
    exact ⟨⟨c, r, rfl, opening_of_isDigit hc⟩, hcs⟩

theorem yields_numeric {cs : List Char} {n : Number} (h : IsNumeric cs)
    (hn : Number.ofChars? cs = some n) : Yields cs [.leaf n.toDocument] := by
  obtain ⟨⟨c, r, rfl, hopening⟩, hcs⟩ := h
  exact yields_number hopening (fun d hd => hcs d (List.mem_cons_of_mem c hd)) hn

theorem yields_integer {i : Int} (hi : HasSixtyFourBits i) :
    Yields (Value.integerText i) [.leaf (.integer i)] := by
  have hdigits : ∀ c ∈ digitsOf i.natAbs, c.isDigit = true := fun c hc => isDigit_of_mem_digitsOf hc
  rw [← toDocument_of_integer hi]
  refine yields_numeric (isNumeric_signed ?_ fun c hc => isNumberChar_of_isDigit (hdigits c hc))
    (ofChars?_of_digits hdigits (isWhole_digitsOf _))
  obtain ⟨c, r, hcons⟩ := List.exists_cons_of_ne_nil (digitsOf_ne_nil i.natAbs)
  exact ⟨c, r, hcons, hdigits c (hcons ▸ List.mem_cons_self)⟩

/-! ## Floats -/

theorem isNumberChar_of_mem_exponentText {e : Int} {c : Char} (h : c ∈ exponentText e) :
    isNumberChar c = true := by
  rcases List.mem_cons.1 h with rfl | h
  · split <;> decide
  · exact isNumberChar_of_isDigit (isDigit_of_mem_digitsOf h)

theorem isNumeric_positional {negative : Bool} {whole fraction : List Char} (hne : whole ≠ [])
    (hwhole : ∀ c ∈ whole, c.isDigit = true) (hfraction : ∀ c ∈ fraction, c.isDigit = true) :
    IsNumeric (Binary64.signText negative ++
      (whole ++ '.' :: if fraction.isEmpty then ['0'] else fraction)) := by
  obtain ⟨c, r, rfl⟩ := List.exists_cons_of_ne_nil hne
  refine isNumeric_signed ⟨c, _, rfl, hwhole c List.mem_cons_self⟩ ?_
  intro d hd
  rcases List.mem_append.1 hd with hd | hd
  · exact isNumberChar_of_isDigit (hwhole d hd)
  · rcases List.mem_cons.1 hd with rfl | hd
    · decide
    · split at hd
      · rw [List.mem_singleton.1 hd]
        decide
      · exact isNumberChar_of_isDigit (hfraction d hd)

theorem isNumeric_scientific {negative : Bool} {c : Char} {cs : List Char} {e : Int}
    (hcs : ∀ d ∈ c :: cs, d.isDigit = true) :
    IsNumeric (Binary64.signText negative ++
      ([c] ++ (if cs.isEmpty then [] else '.' :: cs) ++ 'e' :: exponentText e)) := by
  refine isNumeric_signed ⟨c, _, rfl, hcs c List.mem_cons_self⟩ ?_
  intro d hd
  simp only [List.mem_append, List.mem_cons, List.not_mem_nil, or_false] at hd
  rcases hd with (rfl | hd) | rfl | hd
  · exact isNumberChar_of_isDigit (hcs d List.mem_cons_self)
  · split at hd
    · cases hd
    · rcases List.mem_cons.1 hd with rfl | hd
      · decide
      · exact isNumberChar_of_isDigit (hcs d (List.mem_cons_of_mem c hd))
  · decide
  · exact isNumberChar_of_mem_exponentText hd

/-- A decimal is written as a number text, in either notation. -/
theorem isNumeric_decimalText {negative : Bool} {d : Decimal}
    (hd : ∀ c ∈ d.digits, c.isDigit = true) :
    IsNumeric (Binary64.signText negative ++ decimalText d) := by
  unfold decimalText
  by_cases h : (d.digits.isEmpty || (-5 < d.point && d.point ≤ 16)) = true
  · have hwhole : d.split.1 ≠ [] := by
      simp only [Decimal.split]
      split
      · exact List.cons_ne_nil _ _
      · next hsome => simpa using hsome
    rw [if_pos h]
    exact isNumeric_positional hwhole (fun c hc => Decimal.isDigit_of_mem_whole hd hc)
      fun c hc => Decimal.isDigit_of_mem_fraction hd hc
  · rw [if_neg h]
    obtain ⟨digits, point⟩ := d
    cases digits with
    | nil => simp at h
    | cons c cs => exact isNumeric_scientific hd

/-- A number text alone is one token, if it is a number. -/
theorem tokens?_numeric {cs : List Char} (h : IsNumeric cs) :
    tokens? cs = (Number.ofChars? cs).map fun n => [.leaf n.toDocument] := by
  obtain ⟨⟨c, r, rfl, hopening⟩, hcs⟩ := h
  have hr : ∀ d ∈ r, isNumberChar d = true := fun d hd => hcs d (List.mem_cons_of_mem c hd)
  have hrun := tokensFrom_run (f := .number) (fun d (hd : d ∈ r) _ => if_pos (hr d hd)) [c] []
  rw [List.append_nil] at hrun
  rw [tokens?, tokensFrom_cons (show advance .between c = _ from hopening), hrun, tokensFrom,
    finish]
  simp

end Transcode.Json

namespace Transcode

/-- A float that is read back from the JSON that is written for it. -/
def Binary64.ReadsBack (x : Binary64) : Prop :=
  Document.ofJson? (Document.float x).compact = some (.float x)

namespace Json

/-- A float that is read back alone is read back anywhere. -/
theorem yields_float {x : Binary64} (hx : x.ReadsBack) :
    Yields (floatText x) [.leaf (.float x)] := by
  unfold Binary64.ReadsBack Document.ofJson? Document.compact at hx
  rw [String.toList_ofList, written] at hx
  cases x with
  | nan => cases hx
  | infinite s => cases hx
  | finite s n hn =>
    have hnumeric : IsNumeric (floatText (.finite s n hn)) :=
      isNumeric_decimalText fun c hc => Binary64.isDigit_of_mem_shortest hc
    rw [tokens?_numeric hnumeric] at hx
    cases hnumber : Number.ofChars? (floatText (.finite s n hn)) with
    | none =>
      rw [hnumber] at hx
      cases hx
    | some number =>
      rw [hnumber] at hx
      have hfloat : number.toDocument = .float (.finite s n hn) := Option.some.inj hx
      rw [← hfloat]
      exact yields_numeric hnumeric hnumber

/-! ## Documents -/

/-- Tokens that make up a document, wherever a value or the first item of a list may
    stand. -/
structure StandFor (ts : List Token) (d : Document) : Prop where
  value : ∀ frames rest,
    (Progress.mk .value frames).run (ts ++ rest) = (Progress.mk (.more d) frames).run rest
  item : ∀ frames rest,
    (Progress.mk .itemOrEnd frames).run (ts ++ rest) =
      (Progress.mk .value (.list [] :: frames)).run (ts ++ rest)

theorem standFor_leaf (d : Document) : StandFor [.leaf d] d :=
  ⟨fun _ _ => rfl, fun _ _ => rfl⟩

theorem standFor_text (s : String) : StandFor [.text (some s)] (.text s) :=
  ⟨fun _ _ => rfl, fun _ _ => rfl⟩

/-- A document is written so that it is read back, in every layout. -/
def IsReadBack (d : Document) : Prop :=
  ∀ layout, ∃ ts, Yields (written layout d) ts ∧ StandFor ts d

/-! ### Lists -/

theorem endsToken_writtenItems (layout : Option Nat) (ds : List Document) :
    EndsToken (writtenItems layout ds) := by
  intro c hc
  cases ds with
  | nil => cases hc
  | cons d ds =>
    obtain rfl : ',' = c := Option.some.inj hc
    decide

/-- Further items, and the end of their list. -/
theorem exists_items {ds : List Document} (h : ∀ d ∈ ds, IsReadBack d) (layout : Option Nat) :
    ∃ ts, Yields (writtenItems layout ds) ts ∧ ∀ v items frames rest,
      (Progress.mk (.more v) (.list items :: frames)).run (ts ++ .listEnd :: rest) =
        (Progress.mk (.more (.list ((v :: items).reverse ++ ds))) frames).run rest := by
  induction ds with
  | nil =>
    refine ⟨[], .nil, ?_⟩
    intro v items frames rest
    rw [List.append_nil]
    rfl
  | cons d ds ih =>
    obtain ⟨ts, hts, hstand⟩ := h d List.mem_cons_self (layout.map (· + 1))
    obtain ⟨us, hus, hrun⟩ := ih fun x hx => h x (List.mem_cons_of_mem d hx)
    refine ⟨.comma :: (ts ++ us), ?_, ?_⟩
    · have hcomma : Closes [','] [.comma] := closes_of_opening rfl
      have htext : writtenItems layout (d :: ds) = [','] ++ (gap (layout.map (· + 1)) ++
          (written (layout.map (· + 1)) d ++ writtenItems layout ds)) := by
        simp [writtenItems]
      rw [htext]
      exact hcomma.append ((closes_gap _).append (hts.append (endsToken_writtenItems _ _) hus))
    · intro v items frames rest
      show (Progress.mk .value (.list (v :: items) :: frames)).run
        (ts ++ us ++ .listEnd :: rest) = _
      rw [List.append_assoc, hstand.value, hrun, List.reverse_cons, List.append_assoc]
      rfl

theorem isReadBack_list {ds : List Document} (h : ∀ d ∈ ds, IsReadBack d) :
    IsReadBack (.list ds) := by
  intro layout
  have hstart : Closes ['['] [.listStart] := closes_of_opening rfl
  have hend : Closes [']'] [.listEnd] := closes_of_opening rfl
  cases ds with
  | nil => exact ⟨_, hstart.append hend.yields, fun _ _ => rfl, fun _ _ => rfl⟩
  | cons d ds =>
    obtain ⟨ts, hts, hstand⟩ := h d List.mem_cons_self (layout.map (· + 1))
    obtain ⟨us, hus, hrun⟩ := exists_items (fun x hx => h x (List.mem_cons_of_mem d hx)) layout
    refine ⟨.listStart :: (ts ++ (us ++ [.listEnd])), ?_, ⟨?_, fun _ _ => rfl⟩⟩
    · have htext : written layout (.list (d :: ds)) = ['['] ++ (gap (layout.map (· + 1)) ++
          (written (layout.map (· + 1)) d ++
            (writtenItems layout ds ++ (gap layout ++ [']'])))) := by
        simp [written]
      have hclose : Yields (gap layout ++ [']']) ([] ++ [.listEnd]) :=
        (closes_gap layout).append hend.yields
      have hends : EndsToken (gap layout ++ [']']) :=
        (endsToken_gap layout).append fun c hc => by
          obtain rfl : ']' = c := Option.some.inj hc
          decide
      rw [htext]
      refine hstart.append ((closes_gap _).append (hts.append ?_ (hus.append hends hclose)))
      exact (endsToken_writtenItems _ _).append hends
    · intro frames rest
      show (Progress.mk .itemOrEnd frames).run (ts ++ (us ++ [.listEnd]) ++ rest) = _
      rw [List.append_assoc, hstand.item, hstand.value, List.append_assoc]
      exact hrun d [] frames rest

/-! ### Tables -/

/-- Rows whose names are texts. -/
def named (rows : List (String × Document)) : List (Name × Document) :=
  rows.map fun row => (some row.1, row.2)

theorem tableOf_named (rows : List (String × Document)) :
    tableOf (named rows) = .table rows.reverse := by
  have hreverse : (named rows).reverse = named rows.reverse := List.map_reverse.symm
  rw [tableOf, hreverse, named, mapM_map_eq_some]
  exact fun _ => rfl

theorem endsToken_writtenRows (layout : Option Nat) (rows : List (String × Document)) :
    EndsToken (writtenRows layout rows) := by
  intro c hc
  cases rows with
  | nil => cases hc
  | cons row rows =>
    obtain rfl : ',' = c := Option.some.inj hc
    decide

theorem yields_row {layout layout' : Option Nat} {k : String} {d : Document} {ts us : List Token}
    {cs : List Char} (hts : Yields (written layout' d) ts) (hends : EndsToken cs)
    (hus : Yields cs us) :
    Yields (gap layout' ++ (quoted k ++ (colon layout ++ (written layout' d ++ cs))))
      (.text (some k) :: .colon :: (ts ++ us)) :=
  (closes_gap layout').append ((closes_quoted k).append ((closes_colon layout).append
    (hts.append hends hus)))

/-- Further rows, and the end of their table. -/
theorem exists_rows {rows : List (String × Document)} (h : ∀ row ∈ rows, IsReadBack row.2)
    (layout : Option Nat) :
    ∃ ts, Yields (writtenRows layout rows) ts ∧ ∀ k v before frames rest,
      (Progress.mk (.more v) (.table (named before) (some k) :: frames)).run
          (ts ++ .tableEnd :: rest) =
        (Progress.mk (.more (.table (((k, v) :: before).reverse ++ rows))) frames).run rest := by
  induction rows with
  | nil =>
    refine ⟨[], .nil, ?_⟩
    intro k v before frames rest
    show (Progress.mk (.more (tableOf (named ((k, v) :: before)))) frames).run rest = _
    rw [tableOf_named, List.append_nil]
  | cons row rows ih =>
    obtain ⟨ts, hts, hstand⟩ := h row List.mem_cons_self (layout.map (· + 1))
    obtain ⟨us, hus, hrun⟩ := ih fun x hx => h x (List.mem_cons_of_mem row hx)
    refine ⟨.comma :: .text (some row.1) :: .colon :: (ts ++ us), ?_, ?_⟩
    · have hcomma : Closes [','] [.comma] := closes_of_opening rfl
      have htext : writtenRows layout (row :: rows) = [','] ++ (gap (layout.map (· + 1)) ++
          (quoted row.1 ++ (colon layout ++ (written (layout.map (· + 1)) row.2 ++
            writtenRows layout rows)))) := by
        obtain ⟨k, d⟩ := row
        simp [writtenRows]
      rw [htext]
      exact hcomma.append (yields_row hts (endsToken_writtenRows _ _) hus)
    · intro k v before frames rest
      show (Progress.mk .value (.table (named ((k, v) :: before)) (some row.1) :: frames)).run
        (ts ++ us ++ .tableEnd :: rest) = _
      rw [List.append_assoc, hstand.value, hrun, List.reverse_cons, List.append_assoc]
      rfl

theorem isReadBack_table {rows : List (String × Document)} (h : ∀ row ∈ rows, IsReadBack row.2) :
    IsReadBack (.table rows) := by
  intro layout
  have hstart : Closes ['\x7b'] [.tableStart] := closes_of_opening rfl
  have hend : Closes ['\x7d'] [.tableEnd] := closes_of_opening rfl
  cases rows with
  | nil => exact ⟨_, hstart.append hend.yields, fun _ _ => rfl, fun _ _ => rfl⟩
  | cons row rows =>
    obtain ⟨ts, hts, hstand⟩ := h row List.mem_cons_self (layout.map (· + 1))
    obtain ⟨us, hus, hrun⟩ := exists_rows (fun x hx => h x (List.mem_cons_of_mem row hx)) layout
    refine ⟨.tableStart :: .text (some row.1) :: .colon :: (ts ++ (us ++ [.tableEnd])), ?_,
      ⟨?_, fun _ _ => rfl⟩⟩
    · have htext : written layout (.table (row :: rows)) = ['\x7b'] ++ (gap (layout.map (· + 1)) ++
          (quoted row.1 ++ (colon layout ++ (written (layout.map (· + 1)) row.2 ++
            (writtenRows layout rows ++ (gap layout ++ ['\x7d'])))))) := by
        obtain ⟨k, d⟩ := row
        simp [written]
      have hclose : Yields (gap layout ++ ['\x7d']) ([] ++ [.tableEnd]) :=
        (closes_gap layout).append hend.yields
      have hends : EndsToken (gap layout ++ ['\x7d']) :=
        (endsToken_gap layout).append fun c hc => by
          obtain rfl : '\x7d' = c := Option.some.inj hc
          decide
      rw [htext]
      exact hstart.append (yields_row hts ((endsToken_writtenRows _ _).append hends)
        (hus.append hends hclose))
    · intro frames rest
      show (Progress.mk .value (.table (named []) (some row.1) :: frames)).run
        (ts ++ (us ++ [.tableEnd]) ++ rest) = _
      rw [List.append_assoc, hstand.value, List.append_assoc]
      exact hrun row.1 row.2 [] frames rest

end Json

namespace Document

/-- Documents with nothing in them that JSON cannot hold: whole numbers of 64 bits,
    and floats that are read back. -/
inductive Faithful : Document → Prop
  | null : Faithful .null
  | flag (b : Bool) : Faithful (.flag b)
  | integer {i : Int} (hi : Json.HasSixtyFourBits i) : Faithful (.integer i)
  | float {x : Binary64} (hx : x.ReadsBack) : Faithful (.float x)
  | text (s : String) : Faithful (.text s)
  | list {ds : List Document} (h : ∀ d ∈ ds, Faithful d) : Faithful (.list ds)
  | table {rows : List (String × Document)} (h : ∀ row ∈ rows, Faithful row.2) :
      Faithful (.table rows)

open Json in
theorem Faithful.isReadBack {d : Document} (hd : d.Faithful) : IsReadBack d := by
  induction hd with
  | null => exact fun _ => ⟨_, yields_word rfl rfl rfl, standFor_leaf _⟩
  | flag b =>
    intro layout
    cases b with
    | true => exact ⟨_, yields_word rfl rfl rfl, standFor_leaf _⟩
    | false => exact ⟨_, yields_word rfl rfl rfl, standFor_leaf _⟩
  | integer hi => exact fun _ => ⟨_, yields_integer hi, standFor_leaf _⟩
  | float hx => exact fun _ => ⟨_, yields_float hx, standFor_leaf _⟩
  | text s => exact fun _ => ⟨_, (closes_quoted s).yields, standFor_text s⟩
  | list _ ih => exact isReadBack_list ih
  | table _ ih => exact isReadBack_table ih

/-- **What is written as JSON is read back**, in every layout. -/
theorem ofJson?_written {d : Document} (hd : d.Faithful) (layout : Option Nat) :
    ofJson? (String.ofList (Json.written layout d)) = some d := by
  obtain ⟨ts, hts, hstand⟩ := hd.isReadBack layout
  have hrun := hstand.value [] []
  rw [List.append_nil] at hrun
  rw [ofJson?, String.toList_ofList, Json.tokens?_of_yields hts, Option.bind_some, hrun]
  rfl

end Document

end Transcode
