/-
  Transcode — paths as other programs are given them.

  A path is given as a text, in which U+FFFD stands for bytes of no character.
  That may be another path, but it has the same shape: the same steps, of which
  only names may differ (`steps_shown`).  So it leads as deep as the path itself
  (`length_place_shown`).
-/
import Transcode.Proofs.EncodedText
import Transcode.Proofs.Places

namespace Transcode

open Text (Bytes IsPlain)

namespace Path

/-- The path that a path is shown as. -/
def shown (p : Path) : Path :=
  .ofText p.display

/-- What bytes are shown as, as bytes again. -/
def shownBytes (bs : Bytes) : Bytes :=
  Text.encode (Text.decodeLossy bs)

/-- A step as it is shown. -/
def Component.shown : Component → Component
  | .name n => .name (shownBytes n)
  | c => c

theorem shownBytes_eq (bs : Bytes) :
    shownBytes bs = (Text.shown bs).flatMap String.utf8EncodeChar := by
  rw [shownBytes, Text.encode, Text.toList_decodeLossy]

theorem shownBytes_nil : shownBytes [] = [] := by
  rw [shownBytes_eq, Text.shown_nil]
  rfl

theorem shownBytes_append {b : UInt8} (hb : IsPlain b) (xs ys : Bytes) :
    shownBytes (xs ++ b :: ys) = shownBytes xs ++ b :: shownBytes ys := by
  rw [shownBytes_eq, Text.shown_append hb, List.flatMap_append, List.flatMap_cons,
    Text.utf8EncodeChar_charOf hb, shownBytes_eq, shownBytes_eq]
  rfl

theorem shownBytes_cons {b : UInt8} (hb : IsPlain b) (bs : Bytes) :
    shownBytes (b :: bs) = b :: shownBytes bs := by
  have h := shownBytes_append hb [] bs
  rwa [shownBytes_nil] at h

theorem eq_of_shownBytes_cons {bs rest : Bytes} {b : UInt8} (hb : IsPlain b) (hne : b ≠ 0)
    (h : shownBytes bs = b :: rest) : ∃ bs', bs = b :: bs' ∧ shownBytes bs' = rest := by
  rw [shownBytes_eq] at h
  cases hs : Text.shown bs with
  | nil =>
    rw [hs] at h
    cases h
  | cons c cs =>
    rw [hs, List.flatMap_cons] at h
    rcases Text.utf8EncodeChar_cases c with ⟨b', -, rfl, hc⟩ | ⟨-, hnil, hhigh⟩
    · rw [hc] at h
      obtain ⟨rfl, hrest⟩ := List.cons.inj h
      obtain ⟨bs', rfl, hbs⟩ := Text.eq_of_shown_cons hb hne hs
      exact ⟨bs', rfl, by rw [shownBytes_eq, hbs, ← hrest]; rfl⟩
    · obtain ⟨b', bs', hc⟩ := List.exists_cons_of_ne_nil hnil
      rw [hc, List.cons_append] at h
      obtain ⟨rfl, -⟩ := List.cons.inj h
      exact absurd hb (hhigh b' (hc ▸ List.mem_cons_self))

/-- **Plain bytes** are shown as they are, and nothing else is shown as them. -/
theorem shownBytes_eq_iff {bs n : Bytes} (hn : ∀ b ∈ n, IsPlain b ∧ b ≠ 0) :
    shownBytes bs = n ↔ bs = n := by
  induction n generalizing bs with
  | nil =>
    cases bs with
    | nil => exact ⟨fun _ => rfl, fun _ => shownBytes_nil⟩
    | cons b bs =>
      have hne : shownBytes (b :: bs) ≠ [] := by
        rw [shownBytes_eq, Text.shown_cons, List.flatMap_cons]
        simp
      simp [hne]
  | cons b n ih =>
    obtain ⟨⟨hb, hne⟩, hn⟩ := List.forall_mem_cons.1 hn
    constructor
    · intro h
      obtain ⟨bs', rfl, hbs⟩ := eq_of_shownBytes_cons hb hne h
      rw [(ih hn).1 hbs]
    · rintro rfl
      rw [shownBytes_cons hb, (ih hn).2 rfl]

theorem not_mem_shownBytes {bs : Bytes} (h : slash ∉ bs) : slash ∉ shownBytes bs := by
  rw [shownBytes, Text.mem_encode_iff (by decide), Text.toList_decodeLossy]
  exact fun hmem => h (Text.mem_of_mem_shown (by decide) (by decide) hmem)

theorem stepOf_shownBytes (piece : Bytes) :
    stepOf (shownBytes piece) = (stepOf piece).map Component.shown := by
  have hplain : IsPlain dot ∧ dot ≠ 0 := by decide
  have hnil : shownBytes piece = [] ↔ piece = [] := shownBytes_eq_iff (by simp)
  have hdot : shownBytes piece = [dot] ↔ piece = [dot] :=
    shownBytes_eq_iff (by simpa using hplain)
  have hup : shownBytes piece = [dot, dot] ↔ piece = [dot, dot] :=
    shownBytes_eq_iff (by simpa using hplain)
  by_cases h₀ : piece = []
  · rw [h₀, shownBytes_nil]
    rfl
  · rcases stepOf_cases h₀ with ⟨h, hs⟩ | ⟨h, hs⟩ | ⟨h₁, h₂, hs⟩
    · rw [hdot.2 h, hs]
      rfl
    · rw [hup.2 h, hs]
      rfl
    · rw [hs]
      exact stepOf_eq_name_iff.2 ⟨rfl, mt hnil.1 h₀, mt hdot.1 h₁, mt hup.1 h₂⟩

theorem stepsOf_shownBytes (bs : Bytes) :
    stepsOf (shownBytes bs) = (stepsOf bs).map Component.shown := by
  have hpiece : ∀ p, slash ∉ p → stepsOf (shownBytes p) = (stepsOf p).map Component.shown := by
    intro p hp
    rw [stepsOf_piece hp, stepsOf_piece (not_mem_shownBytes hp), stepOf_shownBytes]
    cases stepOf p <;> rfl
  induction bs using byPieces with
  | piece p hp => exact hpiece p hp
  | append p rest hp ih =>
    rw [shownBytes_append (by decide), stepsOf_append, stepsOf_append, List.map_append, ih,
      hpiece p hp]

/-- **A path is shown step by step.** -/
theorem steps_shown (p : Path) : p.shown.steps = p.steps.map Component.shown :=
  stepsOf_shownBytes p.bytes

theorem isAbsolute_shown (p : Path) : p.shown.isAbsolute = p.isAbsolute := by
  have hiff : ∀ bs : Bytes, bs.head? = some slash ↔ ∃ rest, bs = slash :: rest := by
    intro bs
    cases bs <;> simp
  rw [isAbsolute, isAbsolute, Bool.eq_iff_iff, beq_iff_eq, beq_iff_eq, hiff, hiff]
  constructor
  · rintro ⟨rest, h⟩
    obtain ⟨bs, h, -⟩ := eq_of_shownBytes_cons (by decide) (by decide) h
    exact ⟨bs, h⟩
  · rintro ⟨rest, h⟩
    exact ⟨shownBytes rest, (congrArg shownBytes h).trans (shownBytes_cons (by decide) rest)⟩

theorem isIn_shown {p q : Path} {n : Bytes} (hin : q.IsIn p n) :
    q.shown.IsIn p.shown (shownBytes n) := by
  refine ⟨?_, ?_⟩
  · rw [isAbsolute_shown, isAbsolute_shown, hin.isAbsolute_eq]
  · rw [steps_shown, steps_shown, hin.steps_eq, List.map_append]
    rfl

theorem length_follow_shown {l k : Location} (h : l.length = k.length) (cs : List Component) :
    (follow l (cs.map Component.shown)).length = (follow k cs).length := by
  induction cs generalizing l k with
  | nil => exact h
  | cons c cs ih =>
    refine ih ?_
    cases c <;> simp [Component.shown, stepFrom, h]

end Path

/-- **A path is shown as one that leads as deep.** -/
theorem Host.length_place_shown (h : Host) (p : Path) :
    (h.place p.shown).length = (h.place p).length := by
  rw [place, place, Path.origin, Path.origin, Path.isAbsolute_shown, Path.steps_shown]
  exact Path.length_follow_shown rfl p.steps

end Transcode
