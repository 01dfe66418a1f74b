/-
  Transcode — the words of a command line.

  A shell reads a written line back as the words it was written from, whatever
  characters they are made of.

  * `splitFrom_word`: from between two words, a written word leaves the reader in
    a bare word of its characters;
  * `split?_line`: so a line is read as its words, and lines of different words
    differ (`line_injective`).
-/
import Transcode.Encoder

namespace Transcode.Shell

/-! ## Reading one word -/

/-- A harmless character neither ends a word nor quotes nor is refused. -/
theorem plain_of_isHarmless {c : Char} (h : isHarmless c = true) :
    isDivider c = false ∧ c ≠ '\'' ∧ c ≠ '\\' ∧ isActive c = false := by
  refine ⟨?_, ?_, ?_, ?_⟩
  · rw [Bool.eq_false_iff]
    intro hd
    simp only [isDivider, Bool.or_eq_true, beq_iff_eq] at hd
    rcases hd with rfl | rfl <;> exact absurd h (by decide)
  · rintro rfl
    exact absurd h (by decide)
  · rintro rfl
    exact absurd h (by decide)
  · rw [Bool.eq_false_iff]
    intro ha
    simp only [isActive, List.contains_eq_mem, decide_eq_true_eq] at ha
    have hharmful : activeCharacters.all (!isHarmless ·) = true := by decide
    rw [List.all_eq_true] at hharmful
    exact absurd (hharmful c ha) (by rw [h]; exact Bool.false_ne_true)

theorem splitFrom_bare_cons {c : Char} (h : isHarmless c = true) (r cs : List Char) :
    splitFrom (.bare r) (c :: cs) = splitFrom (.bare (c :: r)) cs := by
  obtain ⟨hd, hq, hb, ha⟩ := plain_of_isHarmless h
  simp [splitFrom, hd, hq, hb, ha]

theorem splitFrom_between_cons {c : Char} (h : isHarmless c = true) (cs : List Char) :
    splitFrom .between (c :: cs) = splitFrom (.bare [c]) cs := by
  obtain ⟨hd, hq, hb, ha⟩ := plain_of_isHarmless h
  simp [splitFrom, hd, hq, hb, ha]

theorem splitFrom_bare_harmless {w : List Char} (hw : ∀ c ∈ w, isHarmless c = true)
    (r cs : List Char) : splitFrom (.bare r) (w ++ cs) = splitFrom (.bare (w.reverse ++ r)) cs := by
  induction w generalizing r with
  | nil => rfl
  | cons c w ih =>
    have hc : isHarmless c = true := hw c List.mem_cons_self
    rw [List.cons_append, splitFrom_bare_cons hc, ih fun x hx => hw x (List.mem_cons_of_mem _ hx),
      List.reverse_cons, List.append_assoc]
    rfl

/-- A quoted stretch adds its characters to the word.  A quote among them leaves
    the quotes, comes back escaped, and enters them again. -/
theorem splitFrom_quoted_body (w r cs : List Char) :
    splitFrom (.quoted r)
        (w.flatMap (fun c => if c = '\'' then escapedQuote else [c]) ++ '\'' :: cs) =
      splitFrom (.bare (w.reverse ++ r)) cs := by
  induction w generalizing r with
  | nil => rfl
  | cons c w ih =>
    rw [List.flatMap_cons, List.append_assoc, List.reverse_cons, List.append_assoc]
    by_cases hc : c = '\''
    · subst hc
      exact ih ('\'' :: r)
    · rw [if_neg hc, List.cons_append, List.nil_append, splitFrom, if_neg hc]
      exact ih (c :: r)

/-- **A written word is read back**, and the reader stands at its end. -/
theorem splitFrom_word (w cs : List Char) :
    splitFrom .between (word w ++ cs) = splitFrom (.bare w.reverse) cs := by
  unfold word
  split
  · rename_i h
    rw [Bool.and_eq_true, List.all_eq_true] at h
    obtain ⟨hne, hall⟩ := h
    cases w with
    | nil => exact absurd hne (by decide)
    | cons c w =>
      rw [List.cons_append, splitFrom_between_cons (hall c List.mem_cons_self),
        splitFrom_bare_harmless fun x hx => hall x (List.mem_cons_of_mem _ hx), List.reverse_cons]
  · -- the first quote opens an empty word, so the body is all there is
    have hbody := splitFrom_quoted_body w [] cs
    rw [List.append_nil] at hbody
    rw [← hbody, List.cons_append, List.cons_append, List.append_assoc]
    rfl

/-! ## Reading a line -/

/-- Words behind a first one, each with the space in front of it. -/
theorem toList_line_cons (w : String) (ws : List String) :
    (line (w :: ws)).toList = word w.toList ++ ws.flatMap fun v => ' ' :: word v.toList := by
  induction ws generalizing w with
  | nil => simp [line]
  | cons v ws ih =>
    have hline : line (w :: v :: ws) = String.ofList (word w.toList) ++ " " ++ line (v :: ws) := by
      simp only [line, List.map_cons, String.intercalate_cons_cons]
    rw [hline, String.toList_append, String.toList_append, String.toList_ofList, ih,
      List.append_assoc]
    rfl

theorem splitFrom_bare_words (r : List Char) (ws : List String) :
    splitFrom (.bare r) (ws.flatMap fun w => ' ' :: word w.toList) =
      some (r.reverse :: ws.map String.toList) := by
  induction ws generalizing r with
  | nil => rfl
  | cons w ws ih =>
    rw [List.flatMap_cons, List.cons_append, splitFrom, if_pos (by decide), splitFrom_word, ih,
      List.reverse_reverse]
    rfl

/-- **A line is read as the words it was written from.** -/
theorem split?_line (ws : List String) : split? (line ws) = some ws := by
  cases ws with
  | nil => decide
  | cons w ws =>
    rw [split?, toList_line_cons, splitFrom_word, splitFrom_bare_words, List.reverse_reverse]
    simp

theorem line_injective {ws vs : List String} (h : line ws = line vs) : ws = vs := by
  have hw := split?_line ws
  rw [h, split?_line] at hw
  exact (Option.some.inj hw).symm

/-- **A program and its arguments survive the command line**: a shell reads them
    back, and no other program and arguments are written the same. -/
theorem split?_line_program (program : String) (args : List String) :
    split? (line (program :: args)) = some (program :: args) ∧
      ∀ program' args', line (program' :: args') = line (program :: args) →
        program' = program ∧ args' = args := by
  refine ⟨split?_line _, fun program' args' h => ?_⟩
  exact List.cons.inj (line_injective h)

/-- Blanks, quotes, a backslash at the end, a word of quotes alone, the empty word
    and what a shell would act on. -/
example : split? (line ["my tool", "it's", "a\\", "''", "", "$(x)\n", "ü"]) =
    some ["my tool", "it's", "a\\", "''", "", "$(x)\n", "ü"] := by
  decide +kernel

/-- Words on two lines are two commands, which the reader refuses. -/
example : split? "my\ttool\nrm clip.mp4" = none := by
  decide +kernel

end Transcode.Shell
