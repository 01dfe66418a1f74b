/-
  Transcode — the characters that values are shown with.

  Numbers are shown in digits, with a sign and a point, or as `inf` or `NaN`; flags
  and lists add few characters to these.  So a word with any other character in it
  is shown by a text alone (`plain_eq_iff`).
-/
import Transcode.Value

namespace Transcode

theorem isDigit_of_mem_digitsOf {n : Nat} {c : Char} (h : c ∈ digitsOf n) : c.isDigit = true :=
  Nat.isDigit_of_mem_toDigits (by decide) (by decide) h

/-! ## Numbers -/

namespace Binary64

theorem mem_of_mem_dropZeros {cs : List Char} {c : Char} (h : c ∈ dropZeros cs) : c ∈ cs := by
  induction cs with
  | nil => exact h
  | cons d cs ih =>
    have hcons : dropZeros (d :: cs) =
        if (dropZeros cs).isEmpty && d == '0' then [] else d :: dropZeros cs := rfl
    rw [hcons] at h
    split at h
    · cases h
    · rcases List.mem_cons.1 h with rfl | h
      · exact List.mem_cons_self
      · exact List.mem_cons_of_mem _ (ih h)

theorem isDigit_of_mem_shortest {tie : Tie} {n : Nat} {c : Char}
    (h : c ∈ (shortest tie n).digits) : c.isDigit = true := by
  unfold shortest at h
  split at h
  · cases h
  · split at h
    · exact isDigit_of_mem_digitsOf (mem_of_mem_dropZeros h)
    · cases h

end Binary64

theorem isDigit_of_mem_zeros {n : Nat} {c : Char} (h : c ∈ zeros n) : c.isDigit = true := by
  rw [List.eq_of_mem_replicate h]
  decide

namespace Decimal

variable {d : Decimal} {c : Char}

theorem isDigit_of_mem_whole (hd : ∀ c ∈ d.digits, c.isDigit = true) (h : c ∈ d.split.1) :
    c.isDigit = true := by
  simp only [split] at h
  split at h
  · rw [List.mem_singleton.1 h]
    decide
  · rcases List.mem_append.1 h with h | h
    · exact hd c (List.mem_of_mem_take h)
    · exact isDigit_of_mem_zeros h

theorem isDigit_of_mem_fraction (hd : ∀ c ∈ d.digits, c.isDigit = true) (h : c ∈ d.split.2) :
    c.isDigit = true := by
  simp only [split] at h
  split at h
  · cases h
  · rcases List.mem_append.1 h with h | h
    · exact isDigit_of_mem_zeros h
    · exact hd c (List.mem_of_mem_drop h)

theorem mem_plain (hd : ∀ c ∈ d.digits, c.isDigit = true) (h : c ∈ d.plain) :
    c.isDigit = true ∨ c = '.' := by
  simp only [plain] at h
  split at h
  · exact Or.inl (isDigit_of_mem_whole hd h)
  · rcases List.mem_append.1 h with h | h
    · exact Or.inl (isDigit_of_mem_whole hd h)
    · rcases List.mem_cons.1 h with rfl | h
      · exact Or.inr rfl
      · exact Or.inl (isDigit_of_mem_fraction hd h)

end Decimal

namespace Binary64

/-- A character that a number is shown with. -/
def isMark (c : Char) : Bool :=
  c.isDigit || "-.NaNinf".toList.contains c

theorem isMark_of_isDigit {c : Char} (h : c.isDigit = true) : isMark c = true := by
  rw [isMark, h, Bool.true_or]

theorem isMark_of_mem_signText {negative : Bool} {c : Char} (h : c ∈ signText negative) :
    isMark c = true := by
  cases negative with
  | false => cases h
  | true =>
    rw [List.mem_singleton.1 h]
    decide

theorem isMark_of_mem_plain {x : Binary64} {c : Char} (h : c ∈ x.plain) : isMark c = true := by
  have hmarks : ("NaN".toList ++ "inf".toList).all isMark = true := by decide
  rw [List.all_eq_true] at hmarks
  cases x with
  | nan => exact hmarks c (List.mem_append_left _ h)
  | infinite s =>
    rcases List.mem_append.1 h with h | h
    · exact isMark_of_mem_signText h
    · exact hmarks c (List.mem_append_right _ h)
  | finite s n hn =>
    rcases List.mem_append.1 h with h | h
    · exact isMark_of_mem_signText h
    · rcases Decimal.mem_plain (fun _ => isDigit_of_mem_shortest) h with h | rfl
      · exact isMark_of_isDigit h
      · decide

end Binary64

theorem isMark_of_mem_integerText {i : Int} {c : Char} (h : c ∈ Value.integerText i) :
    Binary64.isMark c = true := by
  rcases List.mem_append.1 h with h | h
  · exact Binary64.isMark_of_mem_signText h
  · exact Binary64.isMark_of_isDigit (isDigit_of_mem_digitsOf h)

/-! ## Values -/

namespace Value

/-- A character that a value other than a text may be shown with. -/
def isMark (c : Char) : Bool :=
  c.isDigit || "-.,NaNinftruefalse".toList.contains c

theorem isMark_of_isDigit {c : Char} (h : c.isDigit = true) : isMark c = true := by
  rw [isMark, h, Bool.true_or]

theorem isMark_of_number {c : Char} (h : Binary64.isMark c = true) : isMark c = true := by
  rcases Bool.or_eq_true_iff.1 h with h | h
  · exact isMark_of_isDigit h
  · have hmarks : ("-.NaNinf".toList).all isMark = true := by decide
    exact List.all_eq_true.1 hmarks c (List.contains_iff_mem.1 h)

theorem isMark_of_mem_float {x : Binary64} {c : Char} (h : c ∈ x.plain) : isMark c = true :=
  isMark_of_number (Binary64.isMark_of_mem_plain h)

theorem isMark_of_mem_list {xs : List Binary64} {c : Char}
    (h : c ∈ (Value.list xs).plain.toList) : isMark c = true := by
  rw [plain, String.toList_intercalate] at h
  induction xs with
  | nil => cases h
  | cons x xs ih =>
    cases xs with
    | nil =>
      rw [List.map_singleton, List.map_singleton, List.intercalate_singleton,
        String.toList_ofList] at h
      exact isMark_of_mem_float h
    | cons y ys =>
      rw [List.map_cons, List.map_cons, List.map_cons, List.map_cons, List.intercalate_cons_cons,
        List.append_assoc] at h
      rcases List.mem_append.1 h with h | h
      · rw [String.toList_ofList] at h
        exact isMark_of_mem_float h
      · rcases List.mem_append.1 h with h | h
        · rw [List.mem_singleton.1 h]
          decide
        · exact ih h

theorem isMark_of_mem_plain {v : Value} (hv : v.asText = none) {c : Char}
    (h : c ∈ v.plain.toList) : isMark c = true := by
  cases v with
  | flag b =>
    have hmarks : ("true".toList ++ "false".toList).all isMark = true := by decide
    rw [List.all_eq_true] at hmarks
    cases b with
    | true => exact hmarks c (List.mem_append_left _ h)
    | false => exact hmarks c (List.mem_append_right _ h)
  | integer n =>
    rw [plain, String.toList_ofList] at h
    exact isMark_of_number (isMark_of_mem_integerText h)
  | float x =>
    rw [plain, String.toList_ofList] at h
    exact isMark_of_mem_float h
  | text s => cases hv
  | list xs => exact isMark_of_mem_list h

/-- **Only a text is shown as a word** that no number, list or flag could be shown
    with. -/
theorem plain_eq_iff {v : Value} {w : String} {c : Char} (hc : c ∈ w.toList)
    (hw : isMark c = false) : v.plain = w ↔ v = .text w := by
  constructor
  · intro h
    cases hv : v.asText with
    | none =>
      rw [← h] at hc
      rw [isMark_of_mem_plain hv hc] at hw
      cases hw
    | some s =>
      cases v with
      | text t => rw [← h]; rfl
      | _ => cases hv
  · rintro rfl
    rfl

end Value

end Transcode
