/-
  Transcode — what texts are cut into.

  * `IsCut`: a text is its pieces with a separator between each two, and can be cut in
    one way only (`isCut_iff`);
  * `filter_pieces_append`: between two texts, separators in any number do not change
    which pieces are kept, as long as empty ones are not;
  * `cutAt_eq_some_iff`: a text that is cut once is cut at the first separator;
  * `HasWords`: a text is its words with blanks around them, whatever blanks and however
    many, and has no other words (`hasWords_iff`);
  * `IsPadded`: a text with blanks around it is trimmed as without them
    (`IsPadded.trimmed_eq`), and every text is one that was trimmed (`isPadded_trimmed`).
-/
import Mathlib.Data.List.TakeWhile
import Transcode.Text.Blank

namespace Transcode.Text

/-! ## Pieces -/

section
variable {α : Type} {f : α → Bool} {keep : List α → Bool} {cs sep : List α}
  {ps : List (List α)}

/-- A text is its pieces, which hold no separator, with one separator between each two. -/
inductive IsCut (f : α → Bool) : List α → List (List α) → Prop where
  | last {p : List α} (hp : ∀ x ∈ p, f x = false) : IsCut f p [p]
  | cut {p cs : List α} {c : α} {ps : List (List α)} (hp : ∀ x ∈ p, f x = false)
      (hc : f c = true) (h : IsCut f cs ps) : IsCut f (p ++ c :: cs) (p :: ps)

theorem isCut_pieces (cs : List α) : IsCut f cs (pieces f cs) := by
  induction cs with
  | nil => exact .last (by simp)
  | cons c cs ih =>
    rw [pieces_cons]
    split
    · next hc => exact .cut (p := []) (by simp) hc ih
    · next hc =>
      -- one more element for the first piece, whether it is the last or not
      rw [Bool.not_eq_true] at hc
      generalize pieces f cs = ps at ih
      cases ih with
      | last hp => exact .last (List.forall_mem_cons.2 ⟨hc, hp⟩)
      | cut hp hc' h => exact .cut (List.forall_mem_cons.2 ⟨hc, hp⟩) hc' h

/-- **A text is cut in one way.** -/
theorem isCut_iff : IsCut f cs ps ↔ pieces f cs = ps := by
  constructor
  · intro h
    induction h with
    | last hp => exact pieces_of_none hp
    | cut hp hc _ ih =>
      rw [pieces_append hc, pieces_of_none hp, ih]
      rfl
  · rintro rfl
    exact isCut_pieces cs

theorem IsCut.of_mem (h : IsCut f cs ps) {p : List α} (hp : p ∈ ps) : ∀ x ∈ p, f x = false := by
  induction h with
  | last hq =>
    rw [List.mem_singleton.1 hp]
    exact hq
  | cut hq _ _ ih =>
    rcases List.mem_cons.1 hp with rfl | hp
    · exact hq
    · exact ih hp

theorem filter_pieces_of_separators (hnil : keep [] = false) (hsep : ∀ c ∈ sep, f c = true)
    (ys : List α) : (pieces f (sep ++ ys)).filter keep = (pieces f ys).filter keep := by
  induction sep with
  | nil => rfl
  | cons c sep ih =>
    obtain ⟨hc, hsep⟩ := List.forall_mem_cons.1 hsep
    rw [List.cons_append, pieces_cons, if_pos hc, List.filter_cons_of_neg (by simp [hnil]), ih hsep]

/-- **Separators between two texts** keep their pieces apart, and add none that are kept. -/
theorem filter_pieces_append (hnil : keep [] = false) (hne : sep ≠ [])
    (hsep : ∀ c ∈ sep, f c = true) (xs ys : List α) :
    (pieces f (xs ++ sep ++ ys)).filter keep =
      (pieces f xs).filter keep ++ (pieces f ys).filter keep := by
  obtain ⟨c, sep, rfl⟩ := List.exists_cons_of_ne_nil hne
  obtain ⟨hc, hsep⟩ := List.forall_mem_cons.1 hsep
  rw [List.append_assoc, List.cons_append, pieces_append hc, List.filter_append,
    filter_pieces_of_separators hnil hsep]

/-- **Where a text is cut once**: at its first separator. -/
theorem cutAt_eq_some_iff {a b : List α} :
    cutAt f cs = some (a, b) ↔ ∃ c, f c = true ∧ cs = a ++ c :: b ∧ ∀ x ∈ a, f x = false := by
  constructor
  · exact eq_of_cutAt
  · rintro ⟨c, hc, rfl, ha⟩
    exact cutAt_append ha hc b

end

/-! ## Words -/

variable {cs gap : List Char} {ws : List (List Char)}

/-- A text is its words, which are not empty and hold no blank, with blanks around them,
    of which there is one at least between two words. -/
inductive HasWords : List Char → List (List Char) → Prop where
  | none {g : List Char} (hgap : ∀ c ∈ g, isBlank c = true) : HasWords g []
  | word {g w rest : List Char} {ws : List (List Char)} (hgap : ∀ c ∈ g, isBlank c = true)
      (hne : w ≠ []) (hw : ∀ c ∈ w, isBlank c = false)
      (hrest : ∀ c ∈ rest.head?, isBlank c = true) (h : HasWords rest ws) :
      HasWords (g ++ w ++ rest) (w :: ws)

theorem words_of_blanks (hgap : ∀ c ∈ gap, isBlank c = true) (ys : List Char) :
    words (gap ++ ys) = words ys :=
  filter_pieces_of_separators rfl hgap ys

/-- **Blanks between two texts** keep their words apart. -/
theorem words_append (hne : gap ≠ []) (hgap : ∀ c ∈ gap, isBlank c = true) (xs ys : List Char) :
    words (xs ++ gap ++ ys) = words xs ++ words ys :=
  filter_pieces_append rfl hne hgap xs ys

theorem words_of_word {w : List Char} (hne : w ≠ []) (hw : ∀ c ∈ w, isBlank c = false) :
    words w = [w] := by
  rw [words, pieces_of_none hw]
  simp [hne]

theorem exists_hasWords (cs : List Char) : ∃ ws, HasWords cs ws := by
  induction cs with
  | nil => exact ⟨[], .none (by simp)⟩
  | cons c cs ih =>
    obtain ⟨ws, h⟩ := ih
    cases hc : isBlank c with
    | true =>
      refine ⟨ws, ?_⟩
      cases h with
      | none hgap => exact .none (List.forall_mem_cons.2 ⟨hc, hgap⟩)
      | word hgap hne hw hrest h =>
        exact .word (g := c :: _) (List.forall_mem_cons.2 ⟨hc, hgap⟩) hne hw hrest h
    | false =>
      have hsole : ∀ x ∈ [c], isBlank x = false := List.forall_mem_singleton.2 hc
      by_cases hrest : ∀ x ∈ cs.head?, isBlank x = true
      · exact ⟨[c] :: ws, .word (g := []) (by simp) (by simp) hsole hrest h⟩
      · -- what comes next is of a word, which `c` is the first character of
        cases h with
        | none hgap => exact absurd (fun x hx => hgap x (List.mem_of_mem_head? hx)) hrest
        | @word gap w rest ws hgap hne hw hrest' h =>
          cases gap with
          | cons d gap =>
            refine absurd ?_ hrest
            rintro x ⟨⟩
            exact hgap d List.mem_cons_self
          | nil =>
            exact ⟨(c :: w) :: ws, .word (g := []) (by simp) (by simp)
              (List.forall_mem_cons.2 ⟨hc, hw⟩) hrest' h⟩

/-- **A text has one row of words.** -/
theorem hasWords_iff : HasWords cs ws ↔ words cs = ws := by
  have hwords : ∀ {cs ws}, HasWords cs ws → words cs = ws := by
    intro cs ws h
    induction h with
    | @none gap hgap =>
      rw [← List.append_nil gap, words_of_blanks hgap]
      rfl
    | @word gap w rest ws hgap hne hw hrest _ ih =>
      rw [List.append_assoc, words_of_blanks hgap, ← ih]
      cases rest with
      | nil =>
        rw [List.append_nil, words_of_word hne hw]
        rfl
      | cons c rest =>
        have hc : ∀ x ∈ [c], isBlank x = true := List.forall_mem_singleton.2 (hrest c rfl)
        have hleft := words_append (List.cons_ne_nil c []) hc w rest
        rw [List.append_assoc, List.singleton_append, words_of_word hne hw] at hleft
        rw [hleft, ← words_of_blanks hc rest]
        rfl
  constructor
  · exact hwords
  · rintro rfl
    obtain ⟨ws, h⟩ := exists_hasWords cs
    rwa [hwords h]

theorem HasWords.of_mem (h : HasWords cs ws) {w : List Char} (hw : w ∈ ws) :
    w ≠ [] ∧ ∀ c ∈ w, isBlank c = false := by
  induction h with
  | none => cases hw
  | word _ hne hblank _ _ ih =>
    rcases List.mem_cons.1 hw with rfl | hw
    · exact ⟨hne, hblank⟩
    · exact ih hw

/-! ## Blanks around a text -/

variable {b w : List Char}

/-- A text with blanks in front of it and behind, or with none. -/
inductive IsPadded (w : List Char) : List Char → Prop where
  | around {a b : List Char} (ha : ∀ c ∈ a, isBlank c = true) (hb : ∀ c ∈ b, isBlank c = true) :
      IsPadded w (a ++ w ++ b)

theorem IsPadded.refl (w : List Char) : IsPadded w w := by
  have h : IsPadded w ([] ++ w ++ []) := .around (by simp) (by simp)
  rwa [List.append_nil] at h

theorem IsPadded.mem (h : IsPadded w cs) {c : Char} (hc : c ∈ cs) : isBlank c = true ∨ c ∈ w := by
  obtain ⟨ha, hb⟩ := h
  rcases List.mem_append.1 hc with hc | hc
  · exact (List.mem_append.1 hc).imp_left (ha c)
  · exact .inl (hb c hc)

theorem IsPadded.isInfix (h : IsPadded w cs) : w <:+: cs := by
  obtain @⟨a, b, -, -⟩ := h
  exact ⟨a, b, rfl⟩

theorem trimmedEnd_append (hb : ∀ c ∈ b, isBlank c = true) (cs : List Char) :
    trimmedEnd (cs ++ b) = trimmedEnd cs := by
  have hblanks : trimmedEnd b = [] := by
    induction b with
    | nil => rfl
    | cons c b ih =>
      obtain ⟨hc, hb⟩ := List.forall_mem_cons.1 hb
      rw [trimmedEnd_cons, ih hb, hc]
      rfl
  induction cs with
  | nil => exact hblanks
  | cons c cs ih => rw [List.cons_append, trimmedEnd_cons, ih, trimmedEnd_cons]

theorem exists_trimmedEnd_append (cs : List Char) :
    ∃ b, (∀ c ∈ b, isBlank c = true) ∧ cs = trimmedEnd cs ++ b := by
  induction cs with
  | nil => exact ⟨[], by simp, rfl⟩
  | cons c cs ih =>
    obtain ⟨b, hb, hcs⟩ := ih
    rw [trimmedEnd_cons]
    split
    · next h =>
      -- nothing but blanks from here on
      obtain ⟨hempty, hc⟩ := Bool.and_eq_true_iff.1 h
      rw [List.isEmpty_iff.1 hempty, List.nil_append] at hcs
      exact ⟨c :: cs, List.forall_mem_cons.2 ⟨hc, hcs ▸ hb⟩, rfl⟩
    · exact ⟨b, hb, congrArg (c :: ·) hcs⟩

/-- What trimming drops is blanks at both ends. -/
theorem isPadded_trimmed (cs : List Char) : IsPadded (trimmed cs) cs := by
  obtain ⟨b, hb, hend⟩ := exists_trimmedEnd_append (trimmedStart cs)
  have ha : ∀ c ∈ cs.takeWhile isBlank, isBlank c = true := List.all_eq_true.1 List.all_takeWhile
  have hcs : cs = cs.takeWhile isBlank ++ trimmed cs ++ b := by
    rw [List.append_assoc, trimmed, ← hend, trimmedStart, List.takeWhile_append_dropWhile]
  have hpadded := IsPadded.around (w := trimmed cs) ha hb
  rwa [← hcs] at hpadded

/-- **Blanks around a text** are trimmed with those that it has itself. -/
theorem IsPadded.trimmed_eq (h : IsPadded w cs) : trimmed cs = trimmed w := by
  obtain @⟨a, b, ha, hb⟩ := h
  rw [trimmed, trimmedStart, List.append_assoc, List.dropWhile_append_of_pos ha,
    List.dropWhile_append]
  split
  · next hw =>
    rw [List.dropWhile_eq_nil_iff.2 hb, trimmed, trimmedStart, List.isEmpty_iff.1 hw]
  · exact trimmedEnd_append hb _

end Transcode.Text
