/-
  Transcode — text as bytes and back.

  Bytes below 0x80 are *plain*: each is a character of its own, and a part of no
  other (`utf8EncodeChar_cases`, `mem_encode_iff`).  So bytes are cut at a plain
  byte whatever they are read as (`shown_append`), and a plain character that is
  shown stands in the bytes (`eq_of_shown_cons`).

  Bytes of a text are read back as that text (`decodeLossy_encode`).
-/
import Mathlib.Algebra.Group.Nat.Defs
import Mathlib.Tactic.IntervalCases
import Transcode.Text.Utf8

namespace Transcode.Text

/-! ## Encoding -/

/-- A byte that is a character of its own. -/
def IsPlain (b : UInt8) : Prop :=
  b.toNat < 0x80

instance (b : UInt8) : Decidable (IsPlain b) :=
  inferInstanceAs (Decidable (_ < _))

theorem isPlain_iff {b : UInt8} : IsPlain b ↔ b < 0x80 := by
  rw [UInt8.lt_iff_toNat_lt]
  rfl

/-- The character that a plain byte is. -/
def charOf (b : UInt8) : Char :=
  Char.ofNat b.toNat

theorem encode_append (s t : String) : encode (s ++ t) = encode s ++ encode t := by
  simp [encode]

theorem toNat_ofNat {n : Nat} (h : n.isValidChar) : (Char.ofNat n).toNat = n := by
  rw [Char.ofNat, dif_pos h]
  rfl

theorem toNat_charOf {b : UInt8} (hb : IsPlain b) : (charOf b).toNat = b.toNat :=
  toNat_ofNat (Or.inl (Nat.lt_trans hb (by decide)))

theorem charOf_ofNat {c : Char} (h : c.toNat < 0x80) : charOf (UInt8.ofNat c.toNat) = c := by
  rw [charOf, UInt8.toNat_ofNat_of_lt' (Nat.lt_trans h (by decide)), Char.ofNat_toNat]

theorem charOf_injective {b b' : UInt8} (hb : IsPlain b) (hb' : IsPlain b')
    (h : charOf b = charOf b') : b = b' := by
  rw [← UInt8.toNat_inj, ← toNat_charOf hb, ← toNat_charOf hb', h]

/-- A plain byte stands for itself, and is in no character of several bytes. -/
theorem utf8EncodeChar_cases (c : Char) :
    (∃ b, IsPlain b ∧ c = charOf b ∧ String.utf8EncodeChar c = [b]) ∨
      0x80 ≤ c.toNat ∧ String.utf8EncodeChar c ≠ [] ∧
        ∀ b ∈ String.utf8EncodeChar c, ¬ IsPlain b := by
  have hhigh : ∀ n, 0x80 ≤ n → n < 0x100 → ¬ IsPlain (UInt8.ofNat n) := by
    intro n h₁ h₂ h
    rw [IsPlain, UInt8.toNat_ofNat_of_lt' h₂] at h
    omega
  rw [String.utf8EncodeChar, show c.val.toNat = c.toNat from rfl]
  split
  · next h =>
    refine Or.inl ⟨_, ?_, (charOf_ofNat (by omega)).symm, rfl⟩
    rw [IsPlain, UInt8.toNat_ofNat_of_lt' (Nat.lt_of_le_of_lt h (by decide))]
    omega
  · refine Or.inr ⟨by omega, ?_⟩
    split
    · refine ⟨by simp, ?_⟩
      simp only [List.forall_mem_cons]
      exact ⟨hhigh _ (by omega) (by omega), hhigh _ (by omega) (by omega), by simp⟩
    · split
      · refine ⟨by simp, ?_⟩
        simp only [List.forall_mem_cons]
        exact ⟨hhigh _ (by omega) (by omega), hhigh _ (by omega) (by omega),
          hhigh _ (by omega) (by omega), by simp⟩
      · refine ⟨by simp, ?_⟩
        simp only [List.forall_mem_cons]
        exact ⟨hhigh _ (by omega) (by omega), hhigh _ (by omega) (by omega),
          hhigh _ (by omega) (by omega), hhigh _ (by omega) (by omega), by simp⟩

theorem utf8EncodeChar_charOf {b : UInt8} (hb : IsPlain b) :
    String.utf8EncodeChar (charOf b) = [b] := by
  rcases utf8EncodeChar_cases (charOf b) with ⟨b', hb', hc, h⟩ | ⟨h, -⟩
  · rw [h, charOf_injective hb hb' hc]
  · rw [toNat_charOf hb] at h
    exact absurd hb (Nat.not_lt.2 h)

/-- **A plain byte in a text** is the character that it is. -/
theorem mem_encode_iff {b : UInt8} (hb : IsPlain b) {s : String} :
    b ∈ encode s ↔ charOf b ∈ s.toList := by
  rw [encode, List.mem_flatMap]
  constructor
  · rintro ⟨c, hc, hmem⟩
    rcases utf8EncodeChar_cases c with ⟨b', -, rfl, h⟩ | ⟨-, -, h⟩
    · rw [h, List.mem_singleton] at hmem
      exact hmem ▸ hc
    · exact absurd hb (h b hmem)
  · intro hmem
    refine ⟨charOf b, hmem, ?_⟩
    rw [utf8EncodeChar_charOf hb]
    exact List.mem_singleton_self b

/-! ## Showing -/

/-- The character that an item is shown as. -/
def Item.shown : Item → Char
  | .char c => c
  | .stray _ _ => '\uFFFD'

/-- The characters that bytes are shown as. -/
def shown (bs : Bytes) : List Char :=
  (items bs).map Item.shown

theorem toList_decodeLossy (bs : Bytes) : (decodeLossy bs).toList = shown bs := by
  rw [decodeLossy, String.toList_ofList]
  rfl

@[simp] theorem shown_nil : shown [] = [] := by
  rw [shown, items, List.map_nil]

theorem shown_cons (a : UInt8) (rest : Bytes) :
    shown (a :: rest) = (firstItem a rest).1.shown :: shown (firstItem a rest).2 := by
  rw [shown, items, List.map_cons, shown]

/-- Bytes are none, or those of a first item and others behind them. -/
@[elab_as_elim]
theorem byItems {motive : Bytes → Prop} (nil : motive [])
    (cons : ∀ a rest, motive (firstItem a rest).2 → motive (a :: rest)) (bs : Bytes) :
    motive bs := by
  cases bs with
  | nil => exact nil
  | cons a rest => exact cons a rest (byItems nil cons (firstItem a rest).2)
  termination_by bs.length
  decreasing_by exact Nat.lt_succ_of_le (length_firstItem a rest)

theorem firstItem_of_isPlain {b : UInt8} (hb : IsPlain b) (rest : Bytes) :
    firstItem b rest = (.char (charOf b), rest) := by
  rw [firstItem, if_pos (isPlain_iff.1 hb)]
  rfl

theorem shown_plain_cons {b : UInt8} (hb : IsPlain b) (rest : Bytes) :
    shown (b :: rest) = charOf b :: shown rest := by
  rw [shown_cons, firstItem_of_isPlain hb]
  rfl

theorem firstItem_of_not_isPlain {a : UInt8} (ha : ¬ IsPlain a) (rest : Bytes) :
    firstItem a rest = match Lead.of? a with
      | some l => continued [a] l.share l.low l.high l.tail rest
      | none => (.stray [a] false, rest) := by
  unfold firstItem
  exact if_neg (mt isPlain_iff.2 ha)

/-- What a lead allows next is not plain, and no code point below 0x80 is spelled
    with one. -/
theorem Lead.bounds_of {b : UInt8} {l : Lead} (h : Lead.of? b = some l) :
    0x80 ≤ l.low.toNat ∧ ∃ n, l.tail = n + 1 ∧
      0x80 ≤ (l.share * 64 + (l.low.toNat - 0x80)) * 64 ^ n := by
  have key : ∀ {low high : UInt8} {share : Nat} (n : Nat), some ⟨n + 1, low, high, share⟩ = some l →
      0x80 ≤ low.toNat ∧ 0x80 ≤ (share * 64 + (low.toNat - 0x80)) * 64 ^ n →
      0x80 ≤ l.low.toNat ∧ ∃ n, l.tail = n + 1 ∧
        0x80 ≤ (l.share * 64 + (l.low.toNat - 0x80)) * 64 ^ n := by
    rintro low high share n h ⟨hlow, hbound⟩
    cases h
    exact ⟨hlow, n, rfl, hbound⟩
  -- Where a lead of itself stands for less than 0x80, its bound on the next byte does the rest.
  simp only [Lead.of?, Bool.and_eq_true, decide_eq_true_eq, beq_iff_eq,
    UInt8.le_iff_toNat_le] at h
  split at h
  · next hb =>
    simp only [UInt8.reduceToNat] at hb
    refine key 0 h ⟨by decide, ?_⟩
    simp only [UInt8.reduceToNat, Nat.sub_self, Nat.add_zero, Nat.pow_zero, Nat.mul_one]
    omega
  split at h
  · exact key 1 h (by decide)
  split at h
  · exact key 1 h (by decide)
  split at h
  · next hb =>
    simp only [UInt8.reduceToNat] at hb
    refine key 1 h ⟨by decide, ?_⟩
    simp only [UInt8.reduceToNat, Nat.sub_self, Nat.add_zero, Nat.pow_one]
    omega
  split at h
  · exact key 2 h (by decide)
  split at h
  · next hb =>
    simp only [UInt8.reduceToNat] at hb
    refine key 2 h ⟨by decide, ?_⟩
    simp only [UInt8.reduceToNat, Nat.sub_self, Nat.add_zero, Nat.reducePow]
    omega
  split at h
  · exact key 2 h (by decide)
  · cases h

/-- A plain byte ends what comes before it. -/
theorem continued_append {b : UInt8} (hb : IsPlain b) (n : Nat) (seen : Bytes) (code : Nat)
    {low : UInt8} (hlow : 0x80 ≤ low.toNat) (high : UInt8) (xs ys : Bytes) :
    (continued seen code low high n (xs ++ b :: ys)).1.shown =
        (continued seen code low high n xs).1.shown ∧
      (continued seen code low high n (xs ++ b :: ys)).2 =
        (continued seen code low high n xs).2 ++ b :: ys := by
  -- By induction on the continuation bytes that are still to come; `b` is none of them.
  induction n generalizing seen code low high xs with
  | zero => simp [continued]
  | succ n ih =>
    cases xs with
    | nil =>
      have hstop : (low ≤ b && b ≤ high) = false := by
        have hlt : ¬ low ≤ b := fun h =>
          Nat.not_lt.2 (Nat.le_trans hlow (UInt8.le_iff_toNat_le.1 h)) hb
        simp [hlt]
      simp [continued, hstop, Item.shown]
    | cons x xs =>
      simp only [continued, List.cons_append]
      split
      · exact ih _ _ (by decide) _ _
      · exact ⟨rfl, rfl⟩

theorem firstItem_append {b : UInt8} (hb : IsPlain b) (a : UInt8) (xs ys : Bytes) :
    (firstItem a (xs ++ b :: ys)).1.shown = (firstItem a xs).1.shown ∧
      (firstItem a (xs ++ b :: ys)).2 = (firstItem a xs).2 ++ b :: ys := by
  by_cases ha : IsPlain a
  · rw [firstItem_of_isPlain ha, firstItem_of_isPlain ha]
    exact ⟨rfl, rfl⟩
  · rw [firstItem_of_not_isPlain ha, firstItem_of_not_isPlain ha]
    cases hl : Lead.of? a with
    | none => exact ⟨rfl, rfl⟩
    | some l => exact continued_append hb _ _ _ (Lead.bounds_of hl).1 _ _ _

/-- **A plain byte cuts** what is shown. -/
theorem shown_append {b : UInt8} (hb : IsPlain b) (xs ys : Bytes) :
    shown (xs ++ b :: ys) = shown xs ++ charOf b :: shown ys := by
  induction xs using byItems with
  | nil => rw [shown_nil, List.nil_append, List.nil_append, shown_plain_cons hb]
  | cons a xs ih =>
    obtain ⟨hitem, hrest⟩ := firstItem_append hb a xs ys
    rw [List.cons_append, shown_cons, hitem, hrest, ih, shown_cons a xs, List.cons_append]

/-- Continuation bytes only add to a code point. -/
theorem continued_char {n : Nat} {seen : Bytes} {code : Nat} {low high : UInt8} {bs : Bytes}
    {c : Char} (hcode : 0x80 ≤ code * 64 ^ n)
    (h : (continued seen code low high n bs).1 = .char c) : ∃ k, 0x80 ≤ k ∧ c = Char.ofNat k := by
  induction n generalizing seen code low high bs with
  | zero =>
    rw [continued] at h
    exact ⟨code, by simpa only [Nat.pow_zero, Nat.mul_one] using hcode, (Item.char.inj h).symm⟩
  | succ n ih =>
    cases bs with
    | nil =>
      rw [continued] at h
      cases h
    | cons b bs =>
      rw [continued] at h
      split at h
      · refine ih ?_ h
        calc 0x80 ≤ code * 64 ^ (n + 1) := hcode
          _ = code * 64 * 64 ^ n := by rw [Nat.pow_succ', Nat.mul_assoc]
          _ ≤ (code * 64 + (b.toNat - 0x80)) * 64 ^ n :=
            Nat.mul_le_mul_right _ (Nat.le_add_right _ _)
      · cases h

theorem continued_lead_char {b : UInt8} {l : Lead} {bs : Bytes} {c : Char}
    (hl : Lead.of? b = some l)
    (h : (continued [b] l.share l.low l.high l.tail bs).1 = .char c) :
    ∃ k, 0x80 ≤ k ∧ c = Char.ofNat k := by
  obtain ⟨-, n, htail, hbound⟩ := Lead.bounds_of hl
  rw [htail] at h
  cases bs with
  | nil =>
    rw [continued] at h
    cases h
  | cons x bs =>
    rw [continued] at h
    split at h
    · next hrange =>
      refine continued_char (Nat.le_trans hbound (Nat.mul_le_mul_right _ ?_)) h
      have hlow : l.low.toNat ≤ x.toNat := by
        simp only [Bool.and_eq_true, decide_eq_true_eq] at hrange
        exact UInt8.le_iff_toNat_le.1 hrange.1
      omega
    · cases h

theorem continued_suffix (n : Nat) (seen : Bytes) (code : Nat) (low high : UInt8) (bs : Bytes) :
    (continued seen code low high n bs).2 <:+ bs := by
  induction n generalizing seen code low high bs with
  | zero =>
    unfold continued
    exact List.suffix_rfl
  | succ n ih =>
    cases bs with
    | nil =>
      unfold continued
      exact List.suffix_rfl
    | cons b rest =>
      unfold continued
      split
      · exact (ih _ _ _ _ _).trans (List.suffix_cons b rest)
      · exact List.suffix_rfl

theorem firstItem_suffix (a : UInt8) (rest : Bytes) : (firstItem a rest).2 <:+ rest := by
  unfold firstItem
  split
  · exact List.suffix_rfl
  · split
    · exact continued_suffix _ _ _ _ _ _
    · exact List.suffix_rfl

/-- No code point from 0x80 on is a plain character; where a number is no code point,
    U+0000 takes its place. -/
theorem ofNat_ne_charOf {k : Nat} (hk : 0x80 ≤ k) {b : UInt8} (hb : IsPlain b) (hne : b ≠ 0) :
    Char.ofNat k ≠ charOf b := by
  intro e
  have hcode := congrArg Char.toNat e
  rw [toNat_charOf hb] at hcode
  by_cases hvalid : k.isValidChar
  · rw [toNat_ofNat hvalid] at hcode
    exact absurd hb (Nat.not_lt.2 (hcode ▸ hk))
  · rw [Char.ofNat, dif_neg hvalid] at hcode
    exact hne (UInt8.toNat_inj.1 hcode.symm)

/-- **A plain character that is shown stands there** as its byte. -/
theorem eq_of_firstItem {a b : UInt8} {rest : Bytes} (hb : IsPlain b) (hne : b ≠ 0)
    (h : (firstItem a rest).1.shown = charOf b) : a = b := by
  by_cases ha : IsPlain a
  · rw [firstItem_of_isPlain ha] at h
    exact charOf_injective ha hb h
  · exfalso
    have hstray : '\uFFFD' ≠ charOf b := ofNat_ne_charOf (k := 0xFFFD) (by decide) hb hne
    rw [firstItem_of_not_isPlain ha] at h
    cases hl : Lead.of? a with
    | none =>
      rw [hl] at h
      exact hstray h
    | some l =>
      rw [hl] at h
      dsimp only at h
      cases hi : (continued [a] l.share l.low l.high l.tail rest).1 with
      | stray bytes truncated =>
        rw [hi] at h
        exact hstray h
      | char c =>
        rw [hi] at h
        obtain ⟨k, hk, rfl⟩ := continued_lead_char hl hi
        exact ofNat_ne_charOf hk hb hne h

theorem eq_of_shown_cons {bs : Bytes} {b : UInt8} {cs : List Char} (hb : IsPlain b) (hne : b ≠ 0)
    (h : shown bs = charOf b :: cs) : ∃ rest, bs = b :: rest ∧ shown rest = cs := by
  cases bs with
  | nil =>
    rw [shown_nil] at h
    cases h
  | cons a rest =>
    rw [shown_cons] at h
    obtain ⟨hitem, hrest⟩ := List.cons.inj h
    obtain rfl := eq_of_firstItem hb hne hitem
    rw [firstItem_of_isPlain hb] at hrest
    exact ⟨rest, rfl, hrest⟩

theorem mem_of_mem_shown {bs : Bytes} {b : UInt8} (hb : IsPlain b) (hne : b ≠ 0)
    (h : charOf b ∈ shown bs) : b ∈ bs := by
  induction bs using byItems with
  | nil =>
    rw [shown_nil] at h
    cases h
  | cons a rest ih =>
    rw [shown_cons] at h
    rcases List.mem_cons.1 h with h | h
    · rw [eq_of_firstItem hb hne h.symm]
      exact List.mem_cons_self
    · exact List.mem_cons_of_mem _ ((firstItem_suffix a rest).subset (ih h))

/-! ## Reading back -/

theorem Lead.of?_two {n : Nat} (h : 0xC2 ≤ n) (h' : n ≤ 0xDF) :
    Lead.of? (UInt8.ofNat n) = some ⟨1, 0x80, 0xBF, n - 0xC0⟩ := by
  interval_cases n <;> rfl

theorem Lead.of?_three {n : Nat} (h : 0xE0 ≤ n) (h' : n ≤ 0xEF) :
    Lead.of? (UInt8.ofNat n) =
      some ⟨2, if n = 0xE0 then 0xA0 else 0x80, if n = 0xED then 0x9F else 0xBF, n - 0xE0⟩ := by
  interval_cases n <;> rfl

theorem Lead.of?_four {n : Nat} (h : 0xF0 ≤ n) (h' : n ≤ 0xF4) :
    Lead.of? (UInt8.ofNat n) =
      some ⟨3, if n = 0xF0 then 0x90 else 0x80, if n = 0xF4 then 0x8F else 0xBF, n - 0xF0⟩ := by
  interval_cases n <;> rfl

theorem continued_ofNat {k : Nat} {low high : UInt8} (hlow : low.toNat ≤ k) (hhigh : k ≤ high.toNat)
    (n : Nat) (seen : Bytes) (code : Nat) (rest : Bytes) :
    continued seen code low high (n + 1) (UInt8.ofNat k :: rest) =
      continued (UInt8.ofNat k :: seen) (code * 64 + (k - 0x80)) 0x80 0xBF n rest := by
  have hk : (UInt8.ofNat k).toNat = k :=
    UInt8.toNat_ofNat_of_lt' (Nat.lt_of_le_of_lt hhigh high.toNat_lt)
  rw [continued, hk, if_pos]
  rw [Bool.and_eq_true, decide_eq_true_eq, decide_eq_true_eq, UInt8.le_iff_toNat_le, UInt8.le_iff_toNat_le, hk]
  exact ⟨hlow, hhigh⟩

theorem firstItem_ofNat {k : Nat} {l : Lead} (h : 0x80 ≤ k) (h' : k < 0x100)
    (hl : Lead.of? (UInt8.ofNat k) = some l) (rest : Bytes) :
    firstItem (UInt8.ofNat k) rest = continued [UInt8.ofNat k] l.share l.low l.high l.tail rest := by
  have hplain : ¬ IsPlain (UInt8.ofNat k) := by
    rw [IsPlain, UInt8.toNat_ofNat_of_lt' h']
    exact Nat.not_lt.2 h
  rw [firstItem_of_not_isPlain hplain, hl]

/-- **A character is read back** from the front of its bytes. -/
theorem firstItem_utf8EncodeChar (c : Char) : ∃ b bs, String.utf8EncodeChar c = b :: bs ∧
    ∀ rest, firstItem b (bs ++ rest) = (.char c, rest) := by
  have hc : ∀ n, n = c.toNat → Char.ofNat n = c := by
    rintro n rfl
    exact Char.ofNat_toNat c
  have hvalid : c.toNat < 0xD800 ∨ 0xDFFF < c.toNat ∧ c.toNat < 0x110000 := c.valid
  -- One case a length of the character; the bounds of its lead keep out what is no character.
  rw [String.utf8EncodeChar, show c.val.toNat = c.toNat from rfl]
  generalize c.toNat = v at hc hvalid
  split
  · next h =>
    refine ⟨_, [], rfl, fun rest => ?_⟩
    have hv : (UInt8.ofNat v).toNat = v := UInt8.toNat_ofNat_of_lt' (Nat.lt_of_le_of_lt h (by decide))
    have hplain : IsPlain (UInt8.ofNat v) := by
      rw [IsPlain, hv]
      omega
    rw [List.nil_append, firstItem_of_isPlain hplain, charOf, hv, hc v rfl]
  · split
    · refine ⟨_, _, rfl, fun rest => ?_⟩
      rw [firstItem_ofNat (by omega) (by omega) (Lead.of?_two (by omega) (by omega))]
      dsimp only [List.cons_append, List.nil_append]
      rw [continued_ofNat (by simp) (by simp; omega), continued, hc _ (by omega)]
    · split
      · refine ⟨_, _, rfl, fun rest => ?_⟩
        rw [firstItem_ofNat (by omega) (by omega) (Lead.of?_three (by omega) (by omega))]
        dsimp only [List.cons_append, List.nil_append]
        rw [continued_ofNat, continued_ofNat (by simp) (by simp; omega), continued, hc _ (by omega)]
        · split <;> simp
          omega
        · split <;> simp <;> omega
      · refine ⟨_, _, rfl, fun rest => ?_⟩
        rw [firstItem_ofNat (by omega) (by omega) (Lead.of?_four (by omega) (by omega))]
        dsimp only [List.cons_append, List.nil_append]
        rw [continued_ofNat, continued_ofNat (by simp) (by simp; omega),
          continued_ofNat (by simp) (by simp; omega), continued, hc _ (by omega)]
        · split <;> simp
          omega
        · split <;> simp <;> omega

theorem items_cons (a : UInt8) (rest : Bytes) :
    items (a :: rest) = (firstItem a rest).1 :: items (firstItem a rest).2 := by
  rw [items]

theorem items_utf8EncodeChar_append (c : Char) (rest : Bytes) :
    items (String.utf8EncodeChar c ++ rest) = .char c :: items rest := by
  obtain ⟨b, bs, hbytes, hfirst⟩ := firstItem_utf8EncodeChar c
  rw [hbytes, List.cons_append, items_cons, hfirst]

theorem items_encode (s : String) : items (encode s) = s.toList.map .char := by
  rw [encode]
  induction s.toList with
  | nil => rw [List.flatMap_nil, items, List.map_nil]
  | cons c cs ih => rw [List.flatMap_cons, items_utf8EncodeChar_append, ih, List.map_cons]

theorem decodeLossy_encode (s : String) : decodeLossy (encode s) = s := by
  rw [decodeLossy, items_encode, List.map_map]
  simp [Function.comp_def]

end Transcode.Text
