/-
  Transcode — what a template of arguments becomes.

  A token of a template is read once, without looking at what there is to put in, and
  what it brings in is put in whole: arguments that look like placeholders stay as they
  are.

  * `exists_reads_iff`: a token can be read unless it is a placeholder that stands for
    nothing;
  * `expandAll_eq_ok_iff`: a template becomes the arguments of what its tokens are read
    as, one after another;
  * `expandAll_append`: a template is assembled part by part;
  * `assemble_splices`: which templates are assembled, and what they become, also in
    another order.
-/
import Mathlib.Data.List.Perm.Basic
import Transcode.Proofs.Refusals

namespace Transcode

namespace Recipe

/-- What a token of a template is read as. -/
inductive Piece where
  /-- A token that is written as it is. -/
  | literal (token : String)
  | group (g : FlagGroup)
  | input
  | output

/-- The arguments that a piece brings in. -/
def Piece.args (flags : FlagSet) (input output : Path) : Piece → List String
  | .literal token => [token]
  | .group g => flags.group g
  | .input => [input.display]
  | .output => [output.display]

/-- A token is read as a piece. -/
inductive Reads : String → Piece → Prop
  /-- Braces around nothing are no placeholder. -/
  | literal {token : String} : (∀ name, token = slot name → name = "") →
      Reads token (.literal token)
  | group (g : FlagGroup) : Reads (slot g.name) (.group g)
  | input : Reads (slot "input") .input
  | output : Reads (slot "output") .output

variable {f : FlagSet} {input output : Path} {r : Recipe} {token name : String}
  {tokens args : List String} {p : Piece} {pieces : List Piece}

/-! ## Single tokens -/

theorem placeholder?_eq_none_iff :
    placeholder? token = none ↔ ∀ name, token = slot name → name = "" := by
  rw [Option.eq_none_iff_forall_ne_some]
  constructor
  · intro h name htoken
    by_contra hne
    exact h name (placeholder?_eq_some_iff.2 ⟨htoken, hne⟩)
  · intro h name hname
    obtain ⟨htoken, hne⟩ := placeholder?_eq_some_iff.1 hname
    exact hne (h name htoken)

theorem exists_reads_slot (h : name ∈ known) : ∃ p, Reads (slot name) p := by
  rcases List.mem_append.1 h with h | h
  · obtain ⟨g, -, rfl⟩ := List.mem_map.1 h
    exact ⟨.group g, .group g⟩
  · rcases List.mem_pair.1 h with rfl | rfl
    · exact ⟨.input, .input⟩
    · exact ⟨.output, .output⟩

theorem expandToken_slot (hne : name ≠ "") (h : fragments f input output name = some args) :
    expandToken (fragments f input output) (slot name) = .ok args := by
  rw [expandToken, placeholder?_eq_some_iff.2 ⟨rfl, hne⟩]
  dsimp only
  rw [h]

theorem expandToken_of_reads (h : Reads token p) :
    expandToken (fragments f input output) token = .ok (p.args f input output) := by
  cases h with
  | literal htoken =>
    rw [expandToken, placeholder?_eq_none_iff.2 htoken]
    rfl
  | group g =>
    have hne : g.name ≠ "" := by cases g <;> decide
    have hfragment : fragments f input output g.name = some (f.group g) := by cases g <;> rfl
    exact expandToken_slot hne hfragment
  | input => exact expandToken_slot (by decide) rfl
  | output => exact expandToken_slot (by decide) rfl

/-- **A token can be read** unless it is a placeholder that stands for nothing. -/
theorem exists_reads_iff : (∃ p, Reads token p) ↔ ∀ name, IsForeign name → token ≠ slot name := by
  constructor
  · rintro ⟨p, hp⟩ name hname htoken
    have hok : expandToken (fragments .empty "" "") token = .ok (p.args .empty "" "") :=
      expandToken_of_reads hp
    rw [expandToken_eq_error_iff.2 ⟨name, hname, htoken, rfl⟩] at hok
    cases hok
  · intro h
    cases ht : placeholder? token with
    | none => exact ⟨_, .literal (placeholder?_eq_none_iff.1 ht)⟩
    | some name =>
      obtain ⟨rfl, hne⟩ := placeholder?_eq_some_iff.1 ht
      refine exists_reads_slot ?_
      by_contra hknown
      exact h name ⟨hne, hknown⟩ rfl

theorem expandToken_eq_ok_iff :
    expandToken (fragments f input output) token = .ok args ↔
      ∃ p, Reads token p ∧ p.args f input output = args := by
  constructor
  · intro h
    obtain ⟨p, hp⟩ : ∃ p, Reads token p := by
      rw [exists_reads_iff]
      intro name hname htoken
      rw [expandToken_eq_error_iff.2 ⟨name, hname, htoken, rfl⟩] at h
      cases h
    refine ⟨p, hp, ?_⟩
    rw [expandToken_of_reads hp] at h
    cases h
    rfl
  · rintro ⟨p, hp, rfl⟩
    exact expandToken_of_reads hp

/-! ## Templates -/

theorem expandAll_cons_eq_ok_iff {fragment : String → Option (List String)} :
    expandAll fragment (token :: tokens) = .ok args ↔
      ∃ xs ys, expandToken fragment token = .ok xs ∧ expandAll fragment tokens = .ok ys ∧
        xs ++ ys = args := by
  rw [expandAll]
  cases expandToken fragment token with
  | error e => simp
  | ok xs => simp [map_eq_ok_iff]

/-- **A template becomes the arguments of what its tokens are read as**, in order. -/
theorem expandAll_eq_ok_iff :
    expandAll (fragments f input output) tokens = .ok args ↔
      ∃ pieces, List.Forall₂ Reads tokens pieces ∧
        pieces.flatMap (Piece.args f input output) = args := by
  induction tokens generalizing args with
  | nil => simp [expandAll, List.forall₂_nil_left_iff]
  | cons token tokens ih =>
    simp only [expandAll_cons_eq_ok_iff, expandToken_eq_ok_iff, ih, List.forall₂_cons_left_iff]
    constructor
    · rintro ⟨xs, ys, ⟨p, hp, rfl⟩, ⟨pieces, hpieces, rfl⟩, rfl⟩
      exact ⟨p :: pieces, ⟨p, pieces, hp, hpieces, rfl⟩, List.flatMap_cons⟩
    · rintro ⟨_, ⟨p, pieces, hp, hpieces, rfl⟩, rfl⟩
      exact ⟨_, _, ⟨p, hp, rfl⟩, ⟨pieces, hpieces, rfl⟩, List.flatMap_cons.symm⟩

/-- **A template is assembled** iff none of its placeholders stands for nothing, whatever
    there is to put in. -/
theorem exists_assemble_iff :
    (∃ args, r.assemble f input output = .ok args) ↔
      ∀ name, name ≠ "" → slot name ∈ r.tokens → name ∈ known := by
  have hread : (∃ args, r.assemble f input output = .ok args) ↔
      ∃ pieces, List.Forall₂ Reads r.tokens pieces := by
    simp only [assemble, expand, expandAll_eq_ok_iff]
    constructor
    · rintro ⟨_, pieces, hpieces, -⟩
      exact ⟨pieces, hpieces⟩
    · rintro ⟨pieces, hpieces⟩
      exact ⟨_, pieces, hpieces, rfl⟩
  simp only [hread, exists_forall₂_iff, exists_reads_iff]
  constructor
  · intro h name hne hmem
    by_contra hknown
    exact h _ hmem name ⟨hne, hknown⟩ rfl
  · rintro h _ hmem name ⟨hne, hknown⟩ rfl
    exact hknown (h name hne hmem)

/-- **A template is assembled part by part**, and stops at the first that fails. -/
theorem expandAll_append (fragment : String → Option (List String)) (xs ys : List String) :
    expandAll fragment (xs ++ ys) = do
      let front ← expandAll fragment xs
      let back ← expandAll fragment ys
      return front ++ back := by
  induction xs with
  | nil =>
    rw [List.nil_append, expandAll]
    cases expandAll fragment ys <;> rfl
  | cons x xs ih =>
    rw [List.cons_append, expandAll, expandAll, ih]
    cases expandToken fragment x with
    | error e => rfl
    | ok args =>
      cases expandAll fragment xs with
      | error e => rfl
      | ok front =>
        cases expandAll fragment ys with
        | error e => rfl
        | ok back => simp [bind, Except.bind, pure, Except.pure, Except.map]

/-- **What a template becomes.**  It fails at the leftmost placeholder that stands for
    nothing, and becomes the arguments of what its tokens are read as otherwise.  As they
    are read without regard to what is put in, nothing of that is read again; in another
    order, the same pieces are put together in that order. -/
theorem assemble_splices (r : Recipe) (f : FlagSet) (input output : Path) :
    known = ["global", "trim", "audio", "video", "threads", "input", "output"] ∧
    ((∃ args, r.assemble f input output = .ok args) ↔
      ∀ name, name ≠ "" → slot name ∈ r.tokens → name ∈ known) ∧
    (∀ e, r.assemble f input output = .error e ↔
      ∃ name, r.FirstForeign name ∧ e = .unknownPlaceholder name) ∧
    (∀ args, r.assemble f input output = .ok args →
      ∃ pieces, List.Forall₂ Reads r.tokens pieces ∧
        args = pieces.flatMap (Piece.args f input output) ∧
        (∀ f' input' output', r.assemble f' input' output' =
          .ok (pieces.flatMap (Piece.args f' input' output'))) ∧
        ∀ tokens, tokens.Perm r.tokens →
          ∃ pieces', pieces'.Perm pieces ∧ List.Forall₂ Reads tokens pieces' ∧
            assemble ⟨tokens⟩ f input output =
              .ok (pieces'.flatMap (Piece.args f input output))) ∧
    ∀ tokens, assemble ⟨r.tokens ++ tokens⟩ f input output = do
      let front ← r.assemble f input output
      let back ← assemble ⟨tokens⟩ f input output
      return front ++ back := by
  refine ⟨rfl, exists_assemble_iff, fun e => assemble_eq_error_iff, fun args hargs => ?_,
    expandAll_append _ r.tokens⟩
  obtain ⟨pieces, hpieces, rfl⟩ := expandAll_eq_ok_iff.1 hargs
  refine ⟨pieces, hpieces, rfl, fun f' input' output' => ?_, fun tokens hperm => ?_⟩
  · exact expandAll_eq_ok_iff.2 ⟨pieces, hpieces, rfl⟩
  · obtain ⟨pieces', hpieces', hperm'⟩ := List.perm_comp_forall₂ hperm hpieces
    exact ⟨pieces', hperm', hpieces', expandAll_eq_ok_iff.2 ⟨pieces', hpieces', rfl⟩⟩

/-- Braces in odd places, and a placeholder given twice. -/
def oddTokens : List String :=
  ["\x7b", slot "", slot "input", slot "video", slot "input"]

/-- Flags that look like placeholders. -/
def oddFlags : FlagSet :=
  ⟨fun g => if g = .video then [slot "output", slot "gone"] else []⟩

theorem assemble_splices_odd :
    assemble ⟨oddTokens⟩ oddFlags (slot "output") "film.mp4" =
      .ok ["\x7b", slot "", slot "output", slot "output", slot "gone", slot "output"] ∧
    (∀ name, name ≠ "" → slot name ∈ oddTokens → name ∈ known) ∧
    (∃ args, assemble ⟨oddTokens.reverse⟩ oddFlags (slot "output") "film.mp4" = .ok args) ∧
    assemble ⟨oddTokens ++ [slot (slot "input"), slot "gone"]⟩ oddFlags "film.mkv" "film.mp4" =
      .error (.unknownPlaceholder (slot "input")) := by
  have hargs : assemble ⟨oddTokens⟩ oddFlags (slot "output") "film.mp4" =
      .ok ["\x7b", slot "", slot "output", slot "output", slot "gone", slot "output"] := by
    decide +kernel
  obtain ⟨-, hok, -, hspliced, -⟩ :=
    assemble_splices ⟨oddTokens⟩ oddFlags (slot "output") "film.mp4"
  obtain ⟨-, -, herror, -, -⟩ :=
    assemble_splices ⟨oddTokens ++ [slot (slot "input"), slot "gone"]⟩ oddFlags "film.mkv"
      "film.mp4"
  have hknown := hok.1 ⟨_, hargs⟩
  obtain ⟨pieces, -, -, -, hperm⟩ := hspliced _ hargs
  obtain ⟨pieces', -, -, hreverse⟩ := hperm _ (List.reverse_perm _)
  refine ⟨hargs, hknown, ⟨_, hreverse⟩, (herror _).2 ⟨slot "input", ⟨⟨?_, ?_⟩, ?_⟩, rfl⟩⟩
  · decide
  · decide
  · exact ⟨oddTokens, [slot "gone"], rfl, fun other hother hmem =>
      hother.2 (hknown other hother.1 hmem)⟩

end Recipe

end Transcode
