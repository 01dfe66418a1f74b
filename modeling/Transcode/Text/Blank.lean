/-
  Transcode — blank characters, and the cuts that depend on them.

  A character is blank when it has the Unicode property `White_Space`: 25
  characters, of which the six ASCII ones are tab to carriage return and space.

  * `isBlank` is the table; every character that core calls whitespace is in it
    (`isBlank_of_isWhitespace`);
  * `trimmed` drops the blanks at both ends (`trimmed_trimmed`), `words` lists the
    maximal runs of other characters in order;
  * `pieces` cuts at every separator, keeping empty pieces (`pieces_intercalate`), so
    `words` is what it leaves between blanks once the empty pieces are dropped;
  * `cutAt` cuts once, at the first place that a test accepts (`eq_of_cutAt`,
    `cutAt_eq_none_iff`).
-/

namespace Transcode.Text

/-! ## The table -/

/-- The ranges of the Unicode property `White_Space`, ends included. -/
def blankRanges : List (Nat × Nat) :=
  [(0x09, 0x0D), (0x20, 0x20), (0x85, 0x85), (0xA0, 0xA0), (0x1680, 0x1680), (0x2000, 0x200A),
   (0x2028, 0x2029), (0x202F, 0x202F), (0x205F, 0x205F), (0x3000, 0x3000)]

/-- Whether some range of a table holds the code point. -/
def inRanges (ranges : List (Nat × Nat)) (n : Nat) : Bool :=
  ranges.any fun r => r.1 ≤ n && n ≤ r.2

/-- A character of the Unicode property `White_Space`. -/
def isBlank (c : Char) : Bool :=
  inRanges blankRanges c.toNat

theorem isBlank_of_isWhitespace {c : Char} (h : c.isWhitespace = true) : isBlank c = true := by
  simp only [Char.isWhitespace, Bool.or_eq_true, decide_eq_true_eq] at h
  rcases h with ((h | h) | h) | h <;> subst h <;> decide

/-! ## Trimming -/

/-- The text without the blanks at its end. -/
def trimmedEnd (cs : List Char) : List Char :=
  cs.foldr (fun c r => if r.isEmpty && isBlank c then [] else c :: r) []

/-- The text without the blanks at its start. -/
def trimmedStart (cs : List Char) : List Char :=
  cs.dropWhile isBlank

/-- The text without the blanks at both ends. -/
def trimmed (cs : List Char) : List Char :=
  trimmedEnd (trimmedStart cs)

theorem trimmedEnd_cons (c : Char) (cs : List Char) :
    trimmedEnd (c :: cs) =
      if (trimmedEnd cs).isEmpty && isBlank c then [] else c :: trimmedEnd cs := rfl

theorem trimmedEnd_trimmedEnd (cs : List Char) : trimmedEnd (trimmedEnd cs) = trimmedEnd cs := by
  induction cs with
  | nil => rfl
  | cons c cs ih =>
    rw [trimmedEnd_cons]
    split
    · rfl
    · next h => rw [trimmedEnd_cons, ih, if_neg h]

theorem head?_trimmedEnd {cs : List Char} {c : Char} (h : c ∈ (trimmedEnd cs).head?) :
    c ∈ cs.head? := by
  cases cs with
  | nil => exact h
  | cons d cs =>
    rw [trimmedEnd_cons] at h
    split at h
    · cases h
    · exact h

theorem head?_trimmedStart {cs : List Char} {c : Char} (h : c ∈ (trimmedStart cs).head?) :
    isBlank c = false := by
  have hhead := List.head?_dropWhile_not isBlank cs
  rw [trimmedStart, Option.mem_def] at h
  rwa [h] at hhead

theorem trimmedStart_eq_self {cs : List Char} (h : ∀ c ∈ cs.head?, isBlank c = false) :
    trimmedStart cs = cs := by
  cases cs with
  | nil => rfl
  | cons c cs => exact List.dropWhile_cons_of_neg (by simp [h c rfl])

theorem trimmedEnd_eq_self {cs : List Char} (h : ∀ c ∈ cs, isBlank c = false) :
    trimmedEnd cs = cs := by
  induction cs with
  | nil => rfl
  | cons c cs ih =>
    rw [trimmedEnd_cons, h c List.mem_cons_self, Bool.and_false, if_neg Bool.false_ne_true,
      ih fun d hd => h d (List.mem_cons_of_mem c hd)]

theorem mem_trimmedEnd_iff {cs : List Char} {c : Char} (hc : isBlank c = false) :
    c ∈ trimmedEnd cs ↔ c ∈ cs := by
  induction cs with
  | nil => rfl
  | cons d cs ih =>
    rw [trimmedEnd_cons, List.mem_cons, ← ih]
    split
    · next h =>
      obtain ⟨hempty, hd⟩ := Bool.and_eq_true_iff.1 h
      rw [List.isEmpty_iff.1 hempty]
      constructor
      · rintro ⟨⟩
      · rintro (rfl | h)
        · rw [hc] at hd
          cases hd
        · exact h
    · exact List.mem_cons

/-- Trimming drops blanks only. -/
theorem mem_trimmed_iff {cs : List Char} {c : Char} (hc : isBlank c = false) :
    c ∈ trimmed cs ↔ c ∈ cs := by
  have hcut : c ∈ cs ↔ c ∈ cs.takeWhile isBlank ∨ c ∈ trimmedStart cs := by
    rw [← List.mem_append, trimmedStart, List.takeWhile_append_dropWhile]
  have hblank : c ∉ cs.takeWhile isBlank := by
    intro h
    rw [List.all_eq_true.1 List.all_takeWhile c h] at hc
    cases hc
  rw [trimmed, mem_trimmedEnd_iff hc, hcut, or_iff_right hblank]

/-- A trimmed text has no blanks to trim. -/
theorem trimmed_trimmed (cs : List Char) : trimmed (trimmed cs) = trimmed cs := by
  have hstart : trimmedStart (trimmed cs) = trimmed cs :=
    trimmedStart_eq_self fun c hc => head?_trimmedStart (head?_trimmedEnd hc)
  rw [trimmed, hstart, trimmed, trimmedEnd_trimmedEnd]

/-- Nor has a text without blanks. -/
theorem trimmed_eq_self {cs : List Char} (h : ∀ c ∈ cs, isBlank c = false) : trimmed cs = cs := by
  rw [trimmed, trimmedStart_eq_self fun c hc => h c (List.mem_of_mem_head? hc),
    trimmedEnd_eq_self h]

/-- `trimmed` on strings. -/
def trim (s : String) : String :=
  String.ofList (trimmed s.toList)

@[simp] theorem toList_trim (s : String) : (trim s).toList = trimmed s.toList := by
  simp [trim]

/-! ## Cutting -/

section
variable {α : Type} {f : α → Bool}

/-- One more element at the front of the first piece. -/
def ontoFirst (c : α) : List (List α) → List (List α)
  | [] => [[c]]
  | p :: ps => (c :: p) :: ps

/-- The pieces between separators: one more than there are separators, empty
    ones included. -/
def pieces (isSeparator : α → Bool) (cs : List α) : List (List α) :=
  cs.foldr (fun c ps => if isSeparator c then [] :: ps else ontoFirst c ps) [[]]

@[simp] theorem pieces_nil (f : α → Bool) : pieces f [] = [[]] := rfl

theorem pieces_cons (f : α → Bool) (c : α) (cs : List α) :
    pieces f (c :: cs) = if f c then [] :: pieces f cs else ontoFirst c (pieces f cs) := rfl

theorem ontoFirst_append (c : α) {ps qs : List (List α)} (h : ps ≠ []) :
    ontoFirst c (ps ++ qs) = ontoFirst c ps ++ qs := by
  cases ps with
  | nil => exact absurd rfl h
  | cons p ps => rfl

theorem pieces_ne_nil (cs : List α) : pieces f cs ≠ [] := by
  cases cs with
  | nil => simp
  | cons c cs =>
    rw [pieces_cons]
    split
    · simp
    · cases pieces f cs <;> simp [ontoFirst]

theorem pieces_append {c : α} (hc : f c = true) (xs ys : List α) :
    pieces f (xs ++ c :: ys) = pieces f xs ++ pieces f ys := by
  induction xs with
  | nil => simp [pieces_cons, hc]
  | cons x xs ih =>
    rw [List.cons_append, pieces_cons, pieces_cons, ih]
    split
    · rfl
    · exact ontoFirst_append x (pieces_ne_nil xs)

theorem pieces_of_none {cs : List α} (h : ∀ x ∈ cs, f x = false) : pieces f cs = [cs] := by
  induction cs with
  | nil => rfl
  | cons c cs ih =>
    rw [pieces_cons, ih fun x hx => h x (List.mem_cons_of_mem _ hx), h c List.mem_cons_self]
    rfl

/-- Pieces that are joined are cut where they were. -/
theorem pieces_intercalate {c : α} (hc : f c = true) {ps : List (List α)} (hne : ps ≠ [])
    (hps : ∀ p ∈ ps, ∀ x ∈ p, f x = false) : pieces f ([c].intercalate ps) = ps := by
  induction ps with
  | nil => exact absurd rfl hne
  | cons p ps ih =>
    have hp := pieces_of_none (hps p List.mem_cons_self)
    cases ps with
    | nil => rw [List.intercalate_singleton, hp]
    | cons q qs =>
      rw [List.intercalate_cons_cons, List.append_assoc, List.singleton_append, pieces_append hc,
        hp, ih (List.cons_ne_nil q qs) fun r hr => hps r (List.mem_cons_of_mem p hr)]
      rfl

/-- The two sides of the first element that stops, which belongs to neither;
    nothing when none does. -/
def cutAt (stops : α → Bool) : List α → Option (List α × List α)
  | [] => none
  | c :: cs => if stops c then some ([], cs) else (cutAt stops cs).map fun p => (c :: p.1, p.2)

/-- A cut puts the text back together around the character it removed. -/
theorem eq_of_cutAt {f : α → Bool} {cs a b : List α} (h : cutAt f cs = some (a, b)) :
    ∃ c, f c = true ∧ cs = a ++ c :: b ∧ ∀ x ∈ a, f x = false := by
  induction cs generalizing a b with
  | nil => simp [cutAt] at h
  | cons x cs ih =>
    by_cases hx : f x = true
    · simp only [cutAt, hx, if_true, Option.some.injEq, Prod.mk.injEq] at h
      obtain ⟨rfl, rfl⟩ := h
      exact ⟨x, hx, rfl, by simp⟩
    · simp only [cutAt, hx, Bool.false_eq_true, if_false, Option.map_eq_some_iff,
        Prod.mk.injEq] at h
      obtain ⟨⟨a', b'⟩, h', rfl, rfl⟩ := h
      obtain ⟨c, hc, rfl, hall⟩ := ih h'
      exact ⟨c, hc, rfl, by simpa [hx] using hall⟩

theorem cutAt_eq_none_iff {f : α → Bool} {cs : List α} :
    cutAt f cs = none ↔ ∀ c ∈ cs, f c = false := by
  induction cs with
  | nil => simp [cutAt]
  | cons x cs ih => by_cases hx : f x = true <;> simp [cutAt, hx, ih]

theorem cutAt_append {c : α} {xs : List α} (hxs : ∀ x ∈ xs, f x = false) (hc : f c = true)
    (ys : List α) : cutAt f (xs ++ c :: ys) = some (xs, ys) := by
  induction xs with
  | nil => simp [cutAt, hc]
  | cons x xs ih =>
    have hx : f x = false := hxs x List.mem_cons_self
    simp [cutAt, hx, ih fun y hy => hxs y (List.mem_cons_of_mem _ hy)]

end

/-- The maximal runs of characters that are not blank. -/
def words (cs : List Char) : List (List Char) :=
  (pieces isBlank cs).filter (!·.isEmpty)

end Transcode.Text
