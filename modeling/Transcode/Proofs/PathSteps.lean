/-
  Transcode — the steps of a path.

  `Path.steps` reads a path as the row of steps between its slashes, without the
  marks that components carry.  What is cut out of a path and what is joined to it
  has the steps of its part:

  * `steps_join`, `steps_parentOf`, `steps_withExtension`: the steps of a path in
    a directory, of the directory of a path, and of a path with another extension;
  * `cut_of_marksFrom`: the mark of a component is a cut of the bytes behind it.
-/
import Transcode.Staging

namespace Transcode

open Text (Bytes)

namespace Path

/-! ## Steps -/

/-- The steps between the slashes of some bytes. -/
def stepsOf (bs : Bytes) : List Component :=
  (Text.pieces (· == slash) bs).filterMap stepOf

/-- The steps of a path, wherever it starts. -/
def steps (p : Path) : List Component :=
  stepsOf p.bytes

/-- What a file can be called: it has no slash, and is neither nothing nor `.` nor
    `..`. -/
def IsName (n : Bytes) : Prop :=
  slash ∉ n ∧ stepOf n = some (.name n)

instance (n : Bytes) : Decidable (IsName n) :=
  inferInstanceAs (Decidable (_ ∧ _))

theorem stepOf_eq_name_iff {piece n : Bytes} :
    stepOf piece = some (.name n) ↔
      piece = n ∧ n ≠ [] ∧ n ≠ [dot] ∧ n ≠ [dot, dot] := by
  unfold stepOf
  by_cases h₁ : piece.isEmpty || piece == [dot]
  · rw [if_pos h₁]
    simp only [Bool.or_eq_true, List.isEmpty_iff, beq_iff_eq] at h₁
    grind
  · rw [if_neg h₁]
    simp only [Bool.or_eq_true, List.isEmpty_iff, beq_iff_eq, not_or] at h₁
    by_cases h₂ : piece = [dot, dot] <;> grind

theorem isName_iff {n : Bytes} :
    IsName n ↔ slash ∉ n ∧ n ≠ [] ∧ n ≠ [dot] ∧ n ≠ [dot, dot] := by
  rw [IsName, stepOf_eq_name_iff]
  simp

/-- Three bytes are enough to be neither `.` nor `..`. -/
theorem isName_of_length {n : Bytes} (hslash : slash ∉ n) (h : 3 ≤ n.length) : IsName n := by
  refine isName_iff.2 ⟨hslash, ?_, ?_, ?_⟩ <;>
    · rintro rfl
      exact absurd h (by decide)

@[simp] theorem stepsOf_nil : stepsOf [] = [] := rfl

theorem stepsOf_append (xs ys : Bytes) :
    stepsOf (xs ++ slash :: ys) = stepsOf xs ++ stepsOf ys := by
  rw [stepsOf, Text.pieces_append (by simp), List.filterMap_append]
  rfl

theorem stepsOf_slash_cons (ys : Bytes) : stepsOf (slash :: ys) = stepsOf ys :=
  stepsOf_append [] ys

theorem stepsOf_piece {piece : Bytes} (h : slash ∉ piece) :
    stepsOf piece = (stepOf piece).toList := by
  have hnone : ∀ x ∈ piece, (x == slash) = false := by
    intro x hx
    exact beq_false_of_ne fun e => h (e ▸ hx)
  rw [stepsOf, Text.pieces_of_none hnone]
  cases hs : stepOf piece <;> simp [hs]

theorem stepsOf_name {n : Bytes} (h : IsName n) : stepsOf n = [.name n] := by
  rw [stepsOf_piece h.1, h.2]
  rfl

/-- Bytes that a piece can follow: they end in a slash, if they are any. -/
def EndsPiece (bs : Bytes) : Prop :=
  bs = [] ∨ ∃ r, bs = r ++ [slash]

/-- Bytes that can follow a piece: they start with a slash, if they are any. -/
def StartsPiece (bs : Bytes) : Prop :=
  bs = [] ∨ ∃ r, bs = slash :: r

theorem stepsOf_append_left {pre : Bytes} (h : EndsPiece pre) (bs : Bytes) :
    stepsOf (pre ++ bs) = stepsOf pre ++ stepsOf bs := by
  rcases h with rfl | ⟨r, rfl⟩
  · rfl
  · rw [List.append_assoc, List.singleton_append, stepsOf_append, stepsOf_append, stepsOf_nil,
      List.append_nil]

theorem stepsOf_append_right {post : Bytes} (h : StartsPiece post) (bs : Bytes) :
    stepsOf (bs ++ post) = stepsOf bs ++ stepsOf post := by
  rcases h with rfl | ⟨r, rfl⟩
  · simp
  · rw [stepsOf_append, stepsOf_slash_cons]

/-! ## Marks -/

theorem map_fst_marksFrom (start : Nat) (ps : List Bytes) :
    (marksFrom start ps).map Prod.fst = ps.filterMap stepOf := by
  induction ps generalizing start with
  | nil => rfl
  | cons p ps ih => cases hs : stepOf p <;> simp [marksFrom, hs, ih]

/-- Bytes are one piece, or a piece with a slash and more bytes behind it. -/
@[elab_as_elim]
theorem byPieces {motive : Bytes → Prop} (piece : ∀ p, slash ∉ p → motive p)
    (append : ∀ p rest, slash ∉ p → motive rest → motive (p ++ slash :: rest)) (bs : Bytes) :
    motive bs := by
  cases h : Text.cutAt (· == slash) bs with
  | none =>
    have hnone := Text.cutAt_eq_none_iff.1 h
    exact piece bs fun hmem => by simpa using hnone slash hmem
  | some c =>
    obtain ⟨x, hx, hbs, hall⟩ := Text.eq_of_cutAt h
    obtain rfl : x = slash := by simpa using hx
    rw [hbs]
    exact append c.1 c.2 (fun hmem => by simpa using hall slash hmem)
      (byPieces piece append c.2)
  termination_by bs.length
  decreasing_by
    rw [hbs, List.length_append, List.length_cons]
    omega

/-- The mark of a piece that ends at `stop`, if it stands for a step. -/
def markAt (stop : Nat) (piece : Bytes) : List (Component × Nat) :=
  (stepOf piece).toList.map (·, stop)

theorem marksFrom_cons (start : Nat) (p : Bytes) (ps : List Bytes) :
    marksFrom start (p :: ps) =
      markAt (start + p.length) p ++ marksFrom (start + p.length + 1) ps := by
  cases hs : stepOf p <;> simp [marksFrom, markAt, hs]

/-- A mark among those of a piece and of what follows is of the one or the other. -/
theorem markAt_append_cases {stop : Nat} {piece : Bytes} {m : Component × Nat}
    {ms ms' rest : List (Component × Nat)} (h : markAt stop piece ++ rest = ms ++ m :: ms') :
    (∃ ms₂, ms = markAt stop piece ++ ms₂ ∧ rest = ms₂ ++ m :: ms') ∨
      ms = [] ∧ m.2 = stop ∧ stepOf piece = some m.1 ∧ rest = ms' := by
  cases hs : stepOf piece with
  | none => exact Or.inl ⟨ms, by simpa [markAt, hs] using h⟩
  | some c =>
    rw [markAt, hs] at h ⊢
    cases ms with
    | nil =>
      obtain ⟨rfl, rfl⟩ := List.cons.inj h
      exact Or.inr ⟨rfl, rfl, rfl, rfl⟩
    | cons m' ms =>
      obtain ⟨rfl, hrest⟩ := List.cons.inj h
      exact Or.inl ⟨ms, rfl, hrest⟩

theorem pieces_of_not_mem {piece : Bytes} (h : slash ∉ piece) :
    Text.pieces (· == slash) piece = [piece] :=
  Text.pieces_of_none fun _ hx => beq_false_of_ne fun e => h (e ▸ hx)

theorem pieces_append_slash {piece : Bytes} (h : slash ∉ piece) (rest : Bytes) :
    Text.pieces (· == slash) (piece ++ slash :: rest) =
      piece :: Text.pieces (· == slash) rest := by
  rw [Text.pieces_append (by simp), pieces_of_not_mem h]
  rfl

/-- **A mark cuts the bytes** at the end of its piece: in front and behind stand
    the steps of the other marks. -/
theorem cut_of_marksFrom {start stop : Nat} {bs : Bytes} {c : Component}
    {ms ms' : List (Component × Nat)}
    (h : marksFrom start (Text.pieces (· == slash) bs) = ms ++ (c, stop) :: ms') :
    ∃ pre piece post, bs = pre ++ piece ++ post ∧ stop = start + (pre ++ piece).length ∧
      slash ∉ piece ∧ stepOf piece = some c ∧ EndsPiece pre ∧ StartsPiece post ∧
      stepsOf pre = ms.map Prod.fst ∧ stepsOf post = ms'.map Prod.fst := by
  induction bs using byPieces generalizing start ms with
  | piece bs hp =>
    rw [pieces_of_not_mem hp, marksFrom_cons] at h
    rcases markAt_append_cases h with ⟨ms₂, -, h₂⟩ | ⟨rfl, rfl, hc, rfl⟩
    · -- behind the only piece there are no marks
      exact absurd h₂ (by simp [marksFrom])
    · exact ⟨[], bs, [], by simp, by simp, hp, hc, Or.inl rfl, Or.inl rfl, rfl, rfl⟩
  | append p rest hp ih =>
    rw [pieces_append_slash hp, marksFrom_cons] at h
    rcases markAt_append_cases h with ⟨ms₂, rfl, h₂⟩ | ⟨rfl, rfl, hc, hrest⟩
    · obtain ⟨pre, piece, post, rfl, rfl, hpiece, hc, hpre, hpost, hms, hms'⟩ := ih h₂
      refine ⟨p ++ slash :: pre, piece, post, by simp, by simp; omega, hpiece, hc, ?_, hpost, ?_,
        hms'⟩
      · rcases hpre with rfl | ⟨r, rfl⟩
        · exact Or.inr ⟨p, rfl⟩
        · exact Or.inr ⟨p ++ slash :: r, by simp⟩
      · rw [stepsOf_append, stepsOf_piece hp, hms, List.map_append, markAt, List.map_map]
        simp [Function.comp_def]
    · refine ⟨[], p, slash :: rest, by simp, by simp, hp, hc, Or.inl rfl, Or.inr ⟨rest, rfl⟩,
        rfl, ?_⟩
      rw [stepsOf_slash_cons, stepsOf, ← map_fst_marksFrom (start + p.length + 1), hrest]

/-- The marks of a path are those of its pieces; one more stands in front when the
    path starts with a slash or a dot. -/
theorem marks_eq (p : Path) :
    ∃ start, p.marks = start ++ marksFrom 0 (Text.pieces (· == slash) p.bytes) ∧
      (start = [] ∧ p.isAbsolute = false ∨
        ∃ c b bs, start = [(c, 1)] ∧ (∀ n, c ≠ .name n) ∧ p.bytes = b :: bs ∧
          stepsOf [b] = []) := by
  obtain ⟨bs⟩ := p
  unfold marks
  cases bs with
  | nil => exact ⟨[], rfl, Or.inl ⟨rfl, rfl⟩⟩
  | cons b bs =>
    by_cases hb : b = slash
    · subst hb
      have habs : (Path.mk (slash :: bs)).isAbsolute = true := by simp [isAbsolute]
      refine ⟨[(.root, 1)], ?_, Or.inr ⟨.root, slash, bs, rfl, by simp, rfl, rfl⟩⟩
      simp [Text.pieces_cons, habs, marksFrom_cons, markAt, stepOf]
    · have habs : (Path.mk (b :: bs)).isAbsolute = false := by simp [isAbsolute, hb]
      obtain ⟨piece, ps, hps⟩ := List.exists_cons_of_ne_nil
        (Text.pieces_ne_nil (f := (· == slash)) (b :: bs))
      simp only [hps, habs, Bool.and_false, Bool.false_eq_true, if_false, beq_iff_eq]
      split
      · rename_i hdot
        subst hdot
        obtain rfl : b = dot := by
          rw [Text.pieces_cons, if_neg (by simpa using hb)] at hps
          cases hq : Text.pieces (· == slash) bs <;> simp_all [Text.ontoFirst]
        refine ⟨[(.here, 1)], ?_, Or.inr ⟨.here, dot, bs, rfl, by simp, rfl, rfl⟩⟩
        simp [marksFrom_cons, markAt, stepOf]
      · exact ⟨[], rfl, Or.inl ⟨rfl, trivial⟩⟩

theorem getLast?_steps_of_fileName? {p : Path} {n : Bytes} (h : p.fileName? = some n) :
    p.steps.getLast? = some (.name n) := by
  obtain ⟨start, hmarks, hstart⟩ := p.marks_eq
  have hcomponents : p.components = start.map Prod.fst ++ p.steps := by
    rw [components, hmarks, List.map_append, map_fst_marksFrom]
    rfl
  unfold fileName? at h
  rw [hcomponents] at h
  cases hs : p.steps.getLast? with
  | some c =>
    rw [List.getLast?_append, hs] at h
    cases c <;> simp_all
  | none =>
    rw [List.getLast?_append, hs] at h
    rcases hstart with ⟨rfl, -⟩ | ⟨c, -, -, rfl, hc, -⟩
    · cases h
    · cases c <;> simp_all

theorem marks_of_getLast?_steps {p : Path} {c : Component} (h : p.steps.getLast? = some c) :
    ∃ ms stop, marksFrom 0 (Text.pieces (· == slash) p.bytes) = ms ++ [(c, stop)] ∧
      ms.map Prod.fst = p.steps.dropLast := by
  obtain ⟨init, hinit⟩ := List.getLast?_eq_some_iff.1 h
  have hfst : (marksFrom 0 (Text.pieces (· == slash) p.bytes)).map Prod.fst = p.steps :=
    map_fst_marksFrom _ _
  rw [hinit] at hfst
  obtain ⟨ms, ms', hms, hms₁, hms₂⟩ := List.map_eq_append_iff.1 hfst
  obtain ⟨⟨c, stop⟩, rfl, rfl⟩ := List.map_eq_singleton_iff.1 hms₂
  exact ⟨ms, stop, hms, by rw [hms₁, hinit, List.dropLast_concat]⟩

/-- A path that ends in a name is cut at it, with no steps behind it. -/
theorem cut_of_getLast?_steps {p : Path} {n : Bytes} (h : p.steps.getLast? = some (.name n)) :
    ∃ pre post, p.bytes = pre ++ n ++ post ∧ IsName n ∧ EndsPiece pre ∧ StartsPiece post ∧
      stepsOf pre = p.steps.dropLast ∧ stepsOf post = [] ∧
      p.marks.getLast? = some (.name n, (pre ++ n).length) := by
  obtain ⟨start, hmarks, -⟩ := p.marks_eq
  obtain ⟨ms, stop, hms, hsteps₀⟩ := marks_of_getLast?_steps h
  obtain ⟨pre, piece, post, hbytes, hstop, hpiece, hc, hpre, hpost, hsteps, hsteps'⟩ :=
    cut_of_marksFrom hms
  obtain ⟨rfl, hne⟩ := stepOf_eq_name_iff.1 hc
  refine ⟨pre, post, hbytes, isName_iff.2 ⟨hpiece, hne⟩, hpre, hpost, ?_, hsteps', ?_⟩
  · rw [hsteps, hsteps₀]
  · rw [hmarks, hms, hstop, Nat.zero_add]
    simp

/-! ## Joining -/

theorem isAbsolute_join {p q : Path} (hq : q.isAbsolute = false) :
    (p.join q).isAbsolute = p.isAbsolute := by
  rw [join, hq]
  cases hp : p.bytes with
  | nil => simpa [isAbsolute, hp] using hq
  | cons b bs =>
    simp only [Bool.false_eq_true, if_false, List.isEmpty_cons, Bool.false_or]
    split <;> simp [isAbsolute, hp]

theorem steps_join {p q : Path} (hq : q.isAbsolute = false) :
    (p.join q).steps = p.steps ++ q.steps := by
  rw [join, if_neg (by simp [hq])]
  by_cases hp : (p.bytes.isEmpty || p.bytes.getLast? == some slash) = true
  · rw [if_pos hp]
    refine stepsOf_append_left ?_ q.bytes
    simp only [Bool.or_eq_true, List.isEmpty_iff, beq_iff_eq] at hp
    rcases hp with hp | hp
    · exact Or.inl hp
    · exact Or.inr (List.getLast?_eq_some_iff.1 hp)
  · rw [if_neg hp]
    exact stepsOf_append p.bytes q.bytes

theorem isAbsolute_append_name (pre : Bytes) {n : Bytes} (h : IsName n) (post : Bytes) :
    (Path.mk (pre ++ n ++ post)).isAbsolute = (Path.mk pre).isAbsolute := by
  obtain ⟨hslash, hne, -⟩ := isName_iff.1 h
  cases pre with
  | cons b bs => rfl
  | nil =>
    cases n with
    | nil => exact absurd rfl hne
    | cons b bs =>
      have hb : b ≠ slash := fun e => hslash (e ▸ List.mem_cons_self)
      simp [isAbsolute, hb]

theorem isAbsolute_of_isName {n : Bytes} (h : IsName n) : (Path.mk n).isAbsolute = false := by
  have := isAbsolute_append_name [] h []
  rwa [List.nil_append, List.append_nil] at this

theorem stepsOf_flatMap_slash {l : List Bytes} (h : ∀ n ∈ l, IsName n) :
    stepsOf (l.flatMap (slash :: ·)) = l.map .name := by
  induction l with
  | nil => rfl
  | cons n l ih =>
    have hrest : StartsPiece (l.flatMap (slash :: ·)) := by
      cases l with
      | nil => exact Or.inl rfl
      | cons m l => exact Or.inr ⟨m ++ l.flatMap (slash :: ·), rfl⟩
    rw [List.flatMap_cons, List.cons_append, stepsOf_slash_cons, stepsOf_append_right hrest,
      stepsOf_name (h n List.mem_cons_self), ih fun m hm => h m (List.mem_cons_of_mem _ hm)]
    rfl

theorem steps_ofLocation {l : Location} (h : ∀ n ∈ l, IsName n) :
    (ofLocation l).steps = l.map .name := by
  cases l with
  | nil => rfl
  | cons n l => exact stepsOf_flatMap_slash h

theorem isAbsolute_ofLocation (l : Location) : (ofLocation l).isAbsolute = true := by
  cases l <;> simp [ofLocation, isAbsolute]

/-! ## The directory of a path -/

theorem isAbsolute_take {bs : Bytes} {k : Nat} (h : bs.take k ≠ []) :
    (Path.mk (bs.take k)).isAbsolute = (Path.mk bs).isAbsolute := by
  cases bs with
  | nil => exact absurd List.take_nil h
  | cons b bs =>
    cases k with
    | zero => exact absurd rfl h
    | succ k => rfl

theorem parent?_of_sole_mark {p : Path} {n : Bytes} {stop : Nat}
    (h : p.marks = [(.name n, stop)]) : p.parent? = some ⟨[]⟩ := by
  simp [parent?, h]

theorem parent?_of_marks {p : Path} {n : Bytes} {c : Component} {stop stop' : Nat}
    {ms : List (Component × Nat)} (h : p.marks.reverse = (.name n, stop) :: (c, stop') :: ms) :
    p.parent? = some ⟨p.bytes.take stop'⟩ := by
  simp [parent?, h]

/-- **The parent of a path has its steps but for the last.** -/
theorem steps_parent? {p : Path} {n : Bytes} (h : p.fileName? = some n) :
    ∃ q, p.parent? = some q ∧ q.steps = p.steps.dropLast ∧
      if q.bytes = [] then p.isAbsolute = false else q.isAbsolute = p.isAbsolute := by
  obtain ⟨start, hmarks, hstart⟩ := p.marks_eq
  obtain ⟨ms, stop, hms, hsteps⟩ := marks_of_getLast?_steps (getLast?_steps_of_fileName? h)
  rw [hms] at hmarks
  rw [← hsteps]
  -- The parent ends at the mark before the last, if there is one.
  cases hlast : ms.getLast? with
  | none =>
    obtain rfl := List.getLast?_eq_none_iff.1 hlast
    rcases hstart with ⟨rfl, habs⟩ | ⟨c, b, bs, rfl, -, hbs, hb⟩
    · exact ⟨⟨[]⟩, parent?_of_sole_mark hmarks, rfl, by simpa using habs⟩
    · refine ⟨⟨p.bytes.take 1⟩, parent?_of_marks (by rw [hmarks]; rfl), ?_, ?_⟩
      · rw [hbs]
        exact hb
      · rw [if_neg (by simp [hbs])]
        exact isAbsolute_take (by simp [hbs])
  | some m =>
    obtain ⟨c, stop'⟩ := m
    obtain ⟨ms₀, rfl⟩ := List.getLast?_eq_some_iff.1 hlast
    rw [List.append_assoc, List.cons_append, List.nil_append] at hms
    obtain ⟨pre, piece, post, hbytes, hstop, hpiece, hc, hpre, -, hsteps, -⟩ :=
      cut_of_marksFrom hms
    have htake : p.bytes.take stop' = pre ++ piece := by
      rw [hbytes, hstop, Nat.zero_add, List.take_left]
    have hne : piece ≠ [] := by
      rintro rfl
      cases hc
    have hrev : p.marks.reverse = (.name n, stop) :: (c, stop') :: (start ++ ms₀).reverse := by
      simp [hmarks]
    refine ⟨⟨p.bytes.take stop'⟩, parent?_of_marks hrev, ?_, ?_⟩
    · rw [steps, htake, stepsOf_append_left hpre, hsteps, stepsOf_piece hpiece, hc]
      simp
    · rw [if_neg (by simp [htake, hne])]
      exact isAbsolute_take (by simp [htake, hne])

theorem steps_parentOf {p : Path} {n : Bytes} (h : p.fileName? = some n) :
    (Staging.parentOf p).steps = p.steps.dropLast ∧
      (Staging.parentOf p).isAbsolute = p.isAbsolute := by
  obtain ⟨q, hq, hsteps, hstart⟩ := steps_parent? h
  rw [Staging.parentOf, hq]
  simp only [List.isEmpty_iff]
  by_cases hbytes : q.bytes = []
  · rw [if_pos hbytes] at hstart ⊢
    have hnil : q.steps = [] := by rw [steps, hbytes, stepsOf_nil]
    exact ⟨hnil.symm.trans hsteps ▸ rfl, hstart ▸ rfl⟩
  · rw [if_neg hbytes] at hstart ⊢
    exact ⟨hsteps, hstart⟩

/-! ## Extensions -/

/-- A name is its stem, or has a dot and an extension behind it. -/
theorem stemOf_cases (n : Bytes) :
    stemOf n = n ∨ ∃ ext, n = stemOf n ++ dot :: ext ∧ stemOf n ≠ [] ∧ dot ∉ ext := by
  unfold stemOf
  cases h : Text.cutAt (· == dot) n.reverse with
  | none => exact Or.inl rfl
  | some c =>
    obtain ⟨x, hx, hn, hall⟩ := Text.eq_of_cutAt h
    obtain rfl : x = dot := by simpa using hx
    dsimp only
    split
    · exact Or.inl rfl
    · rename_i hne
      refine Or.inr ⟨c.1.reverse, ?_, by simpa using hne, ?_⟩
      · rw [← List.reverse_inj, hn]
        simp
      · intro hmem
        simpa using hall dot (List.mem_reverse.1 hmem)

theorem stemOf_ne_nil {n : Bytes} (hn : IsName n) : stemOf n ≠ [] := by
  rcases stemOf_cases n with h | ⟨-, -, h, -⟩
  · rw [h]
    exact (isName_iff.1 hn).2.1
  · exact h

theorem mem_of_mem_stemOf {n : Bytes} {b : UInt8} (hb : b ∈ stemOf n) : b ∈ n := by
  rcases stemOf_cases n with h | ⟨ext, h, -⟩
  · rwa [h] at hb
  · rw [h]
    exact List.mem_append_left _ hb

theorem slash_not_mem_fileStem? {p : Path} {stem : Bytes} (h : p.fileStem? = some stem) :
    slash ∉ stem := by
  obtain ⟨n, hn, rfl⟩ := Option.map_eq_some_iff.1 h
  obtain ⟨-, -, -, hname, -⟩ := cut_of_getLast?_steps (getLast?_steps_of_fileName? hn)
  exact fun hslash => hname.1 (mem_of_mem_stemOf hslash)

theorem stemOf_append {stem ext : Bytes} (hs : stem ≠ []) (he : dot ∉ ext) :
    stemOf (stem ++ dot :: ext) = stem := by
  have hcut : Text.cutAt (· == dot) (stem ++ dot :: ext).reverse =
      some (ext.reverse, stem.reverse) := by
    have hall : ∀ x ∈ ext.reverse, (x == dot) = false := fun x hx =>
      beq_false_of_ne fun e => he (e ▸ List.mem_reverse.1 hx)
    rw [List.reverse_append, List.reverse_cons, List.append_assoc, List.singleton_append]
    exact Text.cutAt_append hall (by simp) _
  rw [stemOf, hcut]
  simp [hs]

theorem isName_stemOf_append {n ext : Bytes} (hn : IsName n) (he : slash ∉ ext) (hne : ext ≠ []) :
    IsName (stemOf n ++ dot :: ext) := by
  refine isName_of_length ?_ ?_
  · simp only [List.mem_append, List.mem_cons, not_or]
    exact ⟨fun hmem => hn.1 (mem_of_mem_stemOf hmem), by decide, he⟩
  · have := List.length_pos_iff.2 (stemOf_ne_nil hn)
    have := List.length_pos_iff.2 hne
    rw [List.length_append, List.length_cons]
    omega

theorem stepsOf_take_piece {piece : Bytes} (hp : slash ∉ piece) (hs : stepOf piece = none)
    (k : Nat) : stepsOf (piece.take k) = [] := by
  have hshort : piece = [] ∨ piece = [dot] := by
    unfold stepOf at hs
    split at hs
    · rename_i hd
      simpa using hd
    · split at hs <;> cases hs
  have hall : stepOf (piece.take k) = none := by
    rcases hshort with rfl | rfl
    · rw [List.take_nil]
      rfl
    · cases k with
      | zero => rfl
      | succ k =>
        rw [List.take_succ_cons, List.take_nil]
        rfl
  rw [stepsOf_piece fun hmem => hp (List.mem_of_mem_take hmem), hall]
  rfl

theorem stepsOf_take_of_nil {bs : Bytes} (h : stepsOf bs = []) (k : Nat) :
    stepsOf (bs.take k) = [] := by
  induction bs using byPieces generalizing k with
  | piece p hp =>
    rw [stepsOf_piece hp] at h
    exact stepsOf_take_piece hp (by simpa using h) k
  | append p rest hp ih =>
    rw [stepsOf_append, stepsOf_piece hp, List.append_eq_nil_iff] at h
    obtain ⟨hs, hrest⟩ := h
    have hs := stepsOf_take_piece hp (by simpa using hs)
    rw [List.take_append]
    cases hk : k - p.length with
    | zero => simpa using hs k
    | succ j =>
      rw [List.take_succ_cons, stepsOf_append, ih hrest j, hs k]
      rfl

/-- What stands in place of the last name once an extension has been put behind
    its stem. -/
theorem steps_withSuffix {p : Path} {n : Bytes} {e : String}
    (h : p.steps.getLast? = some (.name n)) (hname : IsName (stemOf n ++ dot :: Text.encode e)) :
    (p.withSuffix e).isAbsolute = p.isAbsolute ∧
      (p.withSuffix e).steps = p.steps.dropLast ++ [.name (stemOf n ++ dot :: Text.encode e)] := by
  obtain ⟨pre, post, hbytes, hn, hpre, -, hsteps, -, hmark⟩ := cut_of_getLast?_steps h
  have hsuffix : p.withSuffix e = ⟨pre ++ (stemOf n ++ dot :: Text.encode e)⟩ := by
    rw [withSuffix, hmark, hbytes]
    simp
  rw [hsuffix]
  constructor
  · have habs := isAbsolute_append_name pre hn post
    have habs' := isAbsolute_append_name pre hname []
    rw [List.append_nil] at habs'
    rw [habs', ← habs, ← hbytes]
  · rw [steps, stepsOf_append_left hpre, hsteps, stepsOf_name hname]

theorem withSuffix_of_up {p : Path} {e : String} (h : p.steps.getLast? = some .up) :
    p.withSuffix e = p := by
  obtain ⟨start, hmarks, -⟩ := p.marks_eq
  obtain ⟨ms, stop, hms, -⟩ := marks_of_getLast?_steps h
  have hlast : p.marks.getLast? = some (.up, stop) := by
    rw [hmarks, hms]
    simp
  rw [withSuffix, hlast]

/-- A name of which the end has been cut off, but not its stem and the dot. -/
theorem stepsOf_cut_name {n stem ext : Bytes} (hn : IsName n) (h : n = stem ++ dot :: ext)
    (hs : stem ≠ []) (he : dot ∉ ext) (k : Nat) :
    (∃ m, stepsOf (stem ++ dot :: ext.take k) = [.name m] ∧ stemOf m = stemOf n) ∨
      stepsOf (stem ++ dot :: ext.take k) = [.up] := by
  have hslash : slash ∉ stem ++ dot :: ext.take k := by
    intro hmem
    apply hn.1
    rw [h]
    simp only [List.mem_append, List.mem_cons] at hmem ⊢
    exact hmem.imp_right (Or.imp_right List.mem_of_mem_take)
  have hstem : stemOf (stem ++ dot :: ext.take k) = stemOf n := by
    rw [h, stemOf_append hs he, stemOf_append hs fun hmem => he (List.mem_of_mem_take hmem)]
  by_cases hup : stem ++ dot :: ext.take k = [dot, dot]
  · rw [hup]
    exact Or.inr rfl
  · refine Or.inl ⟨_, stepsOf_name (isName_iff.2 ⟨hslash, by simp, ?_, hup⟩), hstem⟩
    intro hdot
    cases stem with
    | nil => exact hs rfl
    | cons b bs => simp at hdot

theorem extensionLength_of_fileName? {p : Path} {n : Bytes} (h : p.fileName? = some n) :
    stemOf n = n ∧ p.extensionLength = 0 ∨ ∃ ext, n = stemOf n ++ dot :: ext ∧ stemOf n ≠ [] ∧
      dot ∉ ext ∧ p.extensionLength = ext.length := by
  rw [extensionLength, h]
  dsimp only
  rcases stemOf_cases n with hstem | ⟨ext, hsplit, hs, he⟩
  · exact Or.inl ⟨hstem, by rw [hstem]; omega⟩
  · have hlen := congrArg List.length hsplit
    rw [List.length_append, List.length_cons] at hlen
    exact Or.inr ⟨ext, hsplit, hs, he, by omega⟩

theorem take_behind_name (pre n : Bytes) {post : Bytes} {k : Nat} (h : k ≤ post.length) :
    (pre ++ n ++ post).take ((pre ++ n ++ post).length - k) =
      pre ++ n ++ post.take (post.length - k) := by
  have hlen : (pre ++ n ++ post).length - k = (pre ++ n).length + (post.length - k) := by
    simp only [List.length_append]
    omega
  rw [hlen, List.take_length_add_append]

/-- What is cut off the end of a path by the length of its extension leaves the stem
    and the dot. -/
theorem take_behind_stem (pre stem : Bytes) {ext post : Bytes} (h : post.length ≤ ext.length) :
    (pre ++ (stem ++ dot :: ext) ++ post).take
        ((pre ++ (stem ++ dot :: ext) ++ post).length - ext.length) =
      pre ++ (stem ++ dot :: ext.take post.length) := by
  have hjoined : pre ++ (stem ++ dot :: ext) ++ post = pre ++ (stem ++ dot :: (ext ++ post)) := by
    simp
  have hlen : (pre ++ (stem ++ dot :: (ext ++ post))).length - ext.length =
      pre.length + (stem.length + (post.length + 1)) := by
    simp only [List.length_append, List.length_cons]
    omega
  rw [hjoined, hlen, List.take_length_add_append, List.take_length_add_append,
    List.take_succ_cons, List.take_append_of_le_length h]

/-- What is left of a path when its extension is taken off the end by its length:
    a name with the same stem, or the directory above. -/
theorem steps_withoutExtension {p : Path} {n : Bytes} (h : p.fileName? = some n) :
    (Path.mk (p.bytes.take (p.bytes.length - p.extensionLength))).isAbsolute = p.isAbsolute ∧
      ((∃ m, stepsOf (p.bytes.take (p.bytes.length - p.extensionLength)) =
          p.steps.dropLast ++ [.name m] ∧ stemOf m = stemOf n) ∨
        stepsOf (p.bytes.take (p.bytes.length - p.extensionLength)) =
          p.steps.dropLast ++ [.up]) := by
  obtain ⟨pre, post, hbytes, hn, hpre, hpost, hsteps, hsteps', -⟩ :=
    cut_of_getLast?_steps (getLast?_steps_of_fileName? h)
  have hne : n ≠ [] := (isName_iff.1 hn).2.1
  by_cases hle : p.extensionLength ≤ post.length
  · have htake := take_behind_name pre n hle
    rw [← hbytes] at htake
    have hrest : StartsPiece (post.take (post.length - p.extensionLength)) := by
      rcases hpost with rfl | ⟨r, rfl⟩
      · exact Or.inl (by simp)
      · cases (slash :: r).length - p.extensionLength with
        | zero => exact Or.inl rfl
        | succ k => exact Or.inr ⟨r.take k, rfl⟩
    refine ⟨isAbsolute_take (by rw [htake]; simp [hne]), Or.inl ⟨n, ?_, rfl⟩⟩
    rw [htake, stepsOf_append_right hrest, stepsOf_append_left hpre, hsteps, stepsOf_name hn,
      stepsOf_take_of_nil hsteps', List.append_nil]
  · -- The cut goes into the extension, so there is one.
    rcases extensionLength_of_fileName? h with ⟨-, hnone⟩ | ⟨ext, hsplit, hs, he, hext⟩
    · omega
    have hshort : post.length ≤ ext.length := by omega
    have htake := take_behind_stem pre (stemOf n) hshort
    rw [← hsplit, ← hbytes, ← hext] at htake
    refine ⟨isAbsolute_take (by rw [htake]; simp), ?_⟩
    rw [htake, stepsOf_append_left hpre, hsteps]
    refine (stepsOf_cut_name hn hsplit hs he post.length).imp ?_ ?_
    · rintro ⟨m, hm, hstem⟩
      exact ⟨m, by rw [hm], hstem⟩
    · intro hup
      rw [hup]

/-- **The path with another extension** has the stem of the last name with the
    extension behind it for its last step, or goes up there. -/
theorem steps_withExtension {p : Path} {n : Bytes} {e : String} (h : p.fileName? = some n)
    (he : slash ∉ Text.encode e) (hne : Text.encode e ≠ []) :
    (p.withExtension e).isAbsolute = p.isAbsolute ∧
      ((p.withExtension e).steps =
          p.steps.dropLast ++ [.name (stemOf n ++ dot :: Text.encode e)] ∨
        (p.withExtension e).steps = p.steps.dropLast ++ [.up]) := by
  obtain ⟨habs, ⟨m, hsteps, hstem⟩ | hsteps⟩ := steps_withoutExtension h
  · have hm : (Path.mk (p.bytes.take (p.bytes.length - p.extensionLength))).steps.getLast? =
        some (.name m) := by
      rw [steps, hsteps, List.getLast?_concat]
    obtain ⟨-, -, -, hmn, -⟩ := cut_of_getLast?_steps hm
    obtain ⟨habs', hsteps'⟩ := steps_withSuffix hm (isName_stemOf_append hmn he hne)
    refine ⟨habs'.trans habs, Or.inl ?_⟩
    rw [withExtension, hsteps', steps, hsteps, List.dropLast_concat, hstem]
  · have hup : (Path.mk (p.bytes.take (p.bytes.length - p.extensionLength))).steps.getLast? =
        some .up := by
      rw [steps, hsteps, List.getLast?_concat]
    rw [withExtension, withSuffix_of_up hup]
    exact ⟨habs, Or.inr hsteps⟩

end Path

end Transcode
