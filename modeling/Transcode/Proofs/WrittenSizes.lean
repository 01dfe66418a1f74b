/-
  Transcode — frame sizes as they are written.

  A natural number is written in its digits, with zeros in front in any number and an
  optional plus sign.  A frame size is two of 32 bits with an `x` of either case between
  them, and blanks around each.

  * `boundedNaturalOf?_eq_some_iff`: numbers are read as they are written, up to a bound;
  * `FrameSize.Writes`: the texts that write a size, and `FrameSize.Refuses`: what is wrong
    with all others (`FrameSize.writes_or_refuses`);
  * `sizes_as_written`: sizes are read from exactly the texts that write them, among them
    the one that each is shown as.
-/
import Transcode.Frame.Reading
import Transcode.Proofs.AssignmentText
import Transcode.Proofs.TextPieces

namespace Transcode

/-! ## Natural numbers -/

section
variable {cs : List Char} {n : Nat}

/-- A natural number as it is written. -/
inductive WritesNatural (n : Nat) : List Char → Prop
  | plain (j : Nat) : WritesNatural n (zeros j ++ digitsOf n)
  | plus (j : Nat) : WritesNatural n ('+' :: (zeros j ++ digitsOf n))

theorem isDigit_of_mem_zeros_append {j : Nat} {c : Char} (h : c ∈ zeros j ++ digitsOf n) :
    c.isDigit = true := by
  rcases List.mem_append.1 h with h | h
  · exact isDigit_of_mem_zeros h
  · exact isDigit_of_mem_digitsOf h

theorem WritesNatural.mem (h : WritesNatural n cs) {c : Char} (hc : c ∈ cs) :
    c = '+' ∨ c.isDigit = true := by
  cases h with
  | plain j => exact .inr (isDigit_of_mem_zeros_append hc)
  | plus j => exact (List.mem_cons.1 hc).imp_right isDigit_of_mem_zeros_append

theorem writesNatural_plus_iff :
    WritesNatural n ('+' :: cs) ↔ ∃ j, cs = zeros j ++ digitsOf n := by
  constructor
  · intro h
    generalize hcs : '+' :: cs = text at h
    cases h with
    | plain j =>
      -- a plus sign is no digit
      have hplus := isDigit_of_mem_zeros_append (hcs ▸ List.mem_cons_self)
      cases hplus
    | plus j =>
      cases hcs
      exact ⟨j, rfl⟩
  · rintro ⟨j, rfl⟩
    exact .plus j

theorem writesNatural_iff (hplus : ∀ r, cs ≠ '+' :: r) :
    WritesNatural n cs ↔ ∃ j, cs = zeros j ++ digitsOf n := by
  constructor
  · rintro (j | j)
    · exact ⟨j, rfl⟩
    · exact absurd rfl (hplus _)
  · rintro ⟨j, rfl⟩
    exact .plain j

/-- A row of digits is read as the number whose digits it has behind its zeros. -/
theorem naturalOf?_eq_some_iff_zeros :
    naturalOf? cs = some n ↔ ∃ j, cs = zeros j ++ digitsOf n := by
  rw [naturalOf?_eq_some_iff]
  constructor
  · rintro ⟨hne, hdigits, rfl⟩
    exact exists_zeros_append_digitsOf hne hdigits
  · rintro ⟨j, rfl⟩
    refine ⟨List.append_ne_nil_of_right_ne_nil _ (digitsOf_ne_nil n),
      fun c hc => isDigit_of_mem_zeros_append hc, ?_⟩
    rw [valueOfDigits_zeros_append, valueOfDigits_digitsOf]

/-- **Natural numbers are read as they are written**, up to a bound. -/
theorem boundedNaturalOf?_eq_some_iff {high : Nat} :
    boundedNaturalOf? high cs = some n ↔ WritesNatural n cs ∧ n ≤ high := by
  have hbound : ∀ digits : List Char,
      ((naturalOf? digits).bind fun m => if m ≤ high then some m else none) = some n ↔
        (∃ j, digits = zeros j ++ digitsOf n) ∧ n ≤ high := by
    intro digits
    rw [← naturalOf?_eq_some_iff_zeros, Option.bind_eq_some_iff]
    constructor
    · rintro ⟨m, hm, h⟩
      split at h
      · next hle =>
        cases h
        exact ⟨hm, hle⟩
      · cases h
    · rintro ⟨hn, hle⟩
      exact ⟨n, hn, if_pos hle⟩
  unfold boundedNaturalOf?
  dsimp only
  split
  · rw [hbound, writesNatural_plus_iff]
  · next hplus => rw [hbound, writesNatural_iff hplus]

end

namespace FrameSize

/-! ## Sides -/

section
variable {cs : List Char} {n : UInt32}

/-- A side as it is written. -/
def WritesSide (n : UInt32) (cs : List Char) : Prop :=
  ∃ w, WritesNatural n.toNat w ∧ Text.IsPadded w cs

/-- **Sides are read as they are written**: no number of more than 32 bits is one. -/
theorem side?_eq_some_iff : side? cs = some n ↔ WritesSide n cs := by
  have hread : side? cs = some n ↔
      boundedNaturalOf? 4294967295 (Text.trimmed cs) = some n.toNat := by
    rw [side?, Option.map_eq_some_iff]
    constructor
    · rintro ⟨m, hm, rfl⟩
      have hle : m ≤ 4294967295 := (boundedNaturalOf?_eq_some_iff.1 hm).2
      have hword : (UInt32.ofNat m).toNat = m := UInt32.toNat_ofNat_of_lt (Nat.lt_succ_of_le hle)
      rwa [hword]
    · intro h
      exact ⟨_, h, UInt32.ofNat_toNat⟩
  have hbound : n.toNat ≤ 4294967295 := Nat.le_of_lt_succ n.toNat_lt
  rw [hread, boundedNaturalOf?_eq_some_iff, and_iff_left hbound]
  constructor
  · intro h
    exact ⟨_, h, Text.isPadded_trimmed cs⟩
  · rintro ⟨w, hw, hpadded⟩
    -- all blanks of the text are around the number
    have hblank : ∀ c ∈ w, Text.isBlank c = false := by
      intro c hc
      rcases hw.mem hc with rfl | hdigit
      · decide
      · exact Text.isBlank_of_isDigit hdigit
    rwa [hpadded.trimmed_eq, Text.trimmed_eq_self hblank]

theorem side?_eq_none_iff : side? cs = none ↔ ¬ ∃ n, WritesSide n cs := by
  simp only [← side?_eq_some_iff, ← Option.isSome_iff_exists, Bool.not_eq_true,
    Option.isSome_eq_false_iff, Option.isNone_iff_eq_none]

theorem WritesSide.mem (h : WritesSide n cs) {c : Char} (hc : c ∈ cs) :
    Text.isBlank c = true ∨ c = '+' ∨ c.isDigit = true := by
  obtain ⟨w, hw, hpadded⟩ := h
  exact (hpadded.mem hc).imp_right hw.mem

/-- A side holds no letter, and so none that divides sides. -/
theorem WritesSide.not_mem (h : WritesSide n cs) : 'x' ∉ cs ∧ 'X' ∉ cs :=
  ⟨fun hc => absurd (h.mem hc) (by decide), fun hc => absurd (h.mem hc) (by decide)⟩

theorem writesSide_sideText (n : UInt32) : WritesSide n (sideText n).toList := by
  rw [sideText, String.toList_ofList]
  exact ⟨_, .plain 0, .refl _⟩

end

/-! ## Sizes -/

/-- A frame size as it is written. -/
inductive Writes (s : FrameSize) : List Char → Prop
  | sides {w h : List Char} {x : Char} (hw : WritesSide s.width w) (hx : x = 'x' ∨ x = 'X')
      (hh : WritesSide s.height h) : Writes s (w ++ x :: h)

/-- What is wrong with a text that writes no size: the first of three faults. -/
inductive Refuses (text : String) : FrameSizeError → Prop
  | noDivider (h : 'x' ∉ text.toList ∧ 'X' ∉ text.toList) : Refuses text (.noDivider text)
  | badWidth {w h : List Char} {x : Char} (htext : text.toList = w ++ x :: h)
      (hx : x = 'x' ∨ x = 'X') (hfirst : 'x' ∉ w ∧ 'X' ∉ w) (hw : ¬ ∃ n, WritesSide n w) :
      Refuses text (.badWidth (String.ofList w))
  | badHeight {w h : List Char} {x : Char} {n : UInt32} (htext : text.toList = w ++ x :: h)
      (hx : x = 'x' ∨ x = 'X') (hw : WritesSide n w) (hh : ¬ ∃ n, WritesSide n h) :
      Refuses text (.badHeight (String.ofList h))

section
variable {text : String} {cs w h : List Char} {x : Char} {s : FrameSize} {e : FrameSizeError}

theorem isDivider_iff : isDivider x = true ↔ x = 'x' ∨ x = 'X' := by
  rw [isDivider, Bool.or_eq_true, beq_iff_eq, beq_iff_eq]

theorem forall_isDivider_iff : (∀ c ∈ cs, isDivider c = false) ↔ 'x' ∉ cs ∧ 'X' ∉ cs := by
  constructor
  · intro h
    exact ⟨fun hc => absurd (h _ hc) (by decide), fun hc => absurd (h _ hc) (by decide)⟩
  · rintro ⟨hsmall, hcapital⟩ c hc
    rw [Bool.eq_false_iff, Ne, isDivider_iff]
    rintro (rfl | rfl)
    · exact hsmall hc
    · exact hcapital hc

theorem cutAt_isDivider (hx : x = 'x' ∨ x = 'X') (hfirst : 'x' ∉ w ∧ 'X' ∉ w) :
    Text.cutAt isDivider (w ++ x :: h) = some (w, h) :=
  Text.cutAt_append (forall_isDivider_iff.2 hfirst) (isDivider_iff.2 hx) h

theorem ofText_of_writes (hs : Writes s text.toList) : ofText text = .ok s := by
  generalize htext : text.toList = cs at hs
  obtain ⟨hw, hx, hh⟩ := hs
  simp only [ofText, htext, cutAt_isDivider hx hw.not_mem, side?_eq_some_iff.2 hw,
    side?_eq_some_iff.2 hh]

theorem ofText_of_refuses (he : Refuses text e) : ofText text = .error e := by
  cases he with
  | noDivider h => rw [ofText, Text.cutAt_eq_none_iff.2 (forall_isDivider_iff.2 h)]
  | badWidth htext hx hfirst hw =>
    simp only [ofText, htext, cutAt_isDivider hx hfirst, side?_eq_none_iff.2 hw]
  | badHeight htext hx hw hh =>
    simp only [ofText, htext, cutAt_isDivider hx hw.not_mem, side?_eq_some_iff.2 hw,
      side?_eq_none_iff.2 hh]

/-- **Every text writes a size or is refused.** -/
theorem writes_or_refuses (text : String) :
    (∃ s, Writes s text.toList) ∨ ∃ e, Refuses text e := by
  cases hcut : Text.cutAt isDivider text.toList with
  | none => exact .inr ⟨_, .noDivider (forall_isDivider_iff.1 (Text.cutAt_eq_none_iff.1 hcut))⟩
  | some p =>
    obtain ⟨x, hx, htext, hfirst⟩ := Text.cutAt_eq_some_iff.1 hcut
    rw [isDivider_iff] at hx
    rw [forall_isDivider_iff] at hfirst
    by_cases hw : ∃ n, WritesSide n p.1
    · by_cases hh : ∃ n, WritesSide n p.2
      · obtain ⟨w, hw⟩ := hw
        obtain ⟨h, hh⟩ := hh
        rw [htext]
        exact .inl ⟨⟨w, h⟩, .sides hw hx hh⟩
      · obtain ⟨w, hw⟩ := hw
        exact .inr ⟨_, .badHeight htext hx hw hh⟩
    · exact .inr ⟨_, .badWidth htext hx hfirst hw⟩

theorem ofText_eq_ok_iff : ofText text = .ok s ↔ Writes s text.toList := by
  constructor
  · intro h
    rcases writes_or_refuses text with ⟨t, ht⟩ | ⟨e, he⟩
    · rw [ofText_of_writes ht, Except.ok.injEq] at h
      exact h ▸ ht
    · rw [ofText_of_refuses he] at h
      cases h
  · exact ofText_of_writes

theorem ofText_eq_error_iff : ofText text = .error e ↔ Refuses text e := by
  constructor
  · intro h
    rcases writes_or_refuses text with ⟨t, ht⟩ | ⟨d, hd⟩
    · rw [ofText_of_writes ht] at h
      cases h
    · rw [ofText_of_refuses hd, Except.error.injEq] at h
      exact h ▸ hd
  · exact ofText_of_refuses

/-- A size is written as it is shown. -/
theorem writes_plain (s : FrameSize) : Writes s s.plain.toList := by
  have hplain : s.plain.toList = (sideText s.width).toList ++ 'x' :: (sideText s.height).toList := by
    simp [plain, toString]
  rw [hplain]
  exact .sides (writesSide_sideText _) (.inl rfl) (writesSide_sideText _)

end

end FrameSize

/-- **Frame sizes are read as they are written.**  A text is read as a size exactly if it
    writes that size, and refused for exactly what is wrong with it otherwise; what a size is
    shown as is read as that size. -/
theorem sizes_as_written (text : String) (s : FrameSize) :
    (FrameSize.ofText text = .ok s ↔ s.Writes text.toList) ∧
    (∀ e, FrameSize.ofText text = .error e ↔ FrameSize.Refuses text e) ∧
    FrameSize.ofText s.plain = .ok s :=
  ⟨FrameSize.ofText_eq_ok_iff, fun _ => FrameSize.ofText_eq_error_iff,
    FrameSize.ofText_of_writes s.writes_plain⟩

example : FrameSize.ofText " +01280 X\t720\n" = .ok ⟨1280, 720⟩ := by decide

example : FrameSize.ofText "4294967296x1x" = .error (.badWidth "4294967296") := by decide

end Transcode
