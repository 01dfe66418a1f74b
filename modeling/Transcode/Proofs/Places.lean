/-
  Transcode — where paths lead.

  The place of a path is the location that its steps lead to, whatever is on the
  disk.  A disk only decides whether one gets there: every directory that is
  entered on the way has to be there.

  * `location_of_target`: a path that leads somewhere leads to its place, if no link on
    the way leads elsewhere;
  * `target_congr`: it leads there on every disk with the same directories on the
    way;
  * `mem_entered_of_above`: from the root, one enters every directory above a
    directory that one enters.
-/
import Transcode.Proofs.Outcome
import Transcode.Proofs.PathSteps

namespace Transcode

open Text (Bytes)

namespace Path

/-! ## Following steps -/

/-- The location one step further. -/
def stepFrom (l : Location) : Component → Location
  | .name n => l ++ [n]
  | .up => l.dropLast
  | .root | .here => l

/-- The location that some steps lead to. -/
def follow (l : Location) (cs : List Component) : Location :=
  cs.foldl stepFrom l

/-- The directories that are entered by name on the way. -/
def entered (l : Location) : List Component → List Location
  | [] => []
  | .name n :: cs => (l ++ [n]) :: entered (l ++ [n]) cs
  | c :: cs => entered (stepFrom l c) cs

theorem follow_append (l : Location) (cs cs' : List Component) :
    follow l (cs ++ cs') = follow (follow l cs) cs' :=
  List.foldl_append

theorem follow_concat_name (l : Location) (cs : List Component) (n : Bytes) :
    follow l (cs ++ [.name n]) = follow l cs ++ [n] :=
  follow_append l cs _

theorem follow_names (l : Location) (ns : List Bytes) :
    follow l (ns.map .name) = l ++ ns := by
  induction ns generalizing l with
  | nil => simp [follow]
  | cons n ns ih =>
    have hstep : follow l ((n :: ns).map .name) = follow (l ++ [n]) (ns.map .name) := rfl
    rw [hstep, ih, List.append_assoc]
    rfl

theorem entered_append (l : Location) (cs cs' : List Component) :
    entered l (cs ++ cs') = entered l cs ++ entered (follow l cs) cs' := by
  induction cs generalizing l with
  | nil => rfl
  | cons c cs ih =>
    cases c with
    | name n => exact congrArg _ (ih _)
    | _ => exact ih _

/-- **Above a directory that is entered**, every directory is entered too, or is
    one that the way starts in. -/
theorem mem_entered_of_above {l u v : Location} {cs : List Component} (hv : v ∈ entered l cs)
    (hu : u <+: v) : u ∈ entered l cs ∨ u <+: l := by
  induction cs generalizing l with
  | nil => cases hv
  | cons c cs ih =>
    cases c with
    | name n =>
      have hconcat : u <+: l ++ [n] → u ∈ entered l (.name n :: cs) ∨ u <+: l := by
        intro h
        rcases List.prefix_concat_iff.1 h with rfl | h
        · exact Or.inl List.mem_cons_self
        · exact Or.inr h
      rcases List.mem_cons.1 hv with rfl | hv
      · exact hconcat hu
      · rcases ih hv with h | h
        · exact Or.inl (List.mem_cons_of_mem _ h)
        · exact hconcat h
    | up =>
      -- what is above the directory above is above this one, too
      exact (ih hv).imp_right fun h => h.trans (List.dropLast_prefix l)
    | root => exact ih hv
    | here => exact ih hv

end Path

/-! ## Following paths on a disk -/

/-- The end of a path asks for a name. -/
def Target.IsNamed (t : Target) : Prop :=
  ∃ n b, t.last = .name n b

theorem Target.IsNamed.location_ne_nil {t : Target} (h : t.IsNamed) : t.location ≠ [] := by
  obtain ⟨n, b, hlast⟩ := h
  simp [location, hlast]

namespace Path

theorem filterMap_pieces (p : Path) : p.pieces.filterMap stepOf = p.steps := by
  rw [pieces, List.filterMap_filter, steps, stepsOf]
  congr 1
  funext piece
  cases piece <;> rfl

theorem stepOf_cases {piece : Bytes} (h : piece ≠ []) :
    piece = [dot] ∧ stepOf piece = none ∨ piece = [dot, dot] ∧ stepOf piece = some .up ∨
      piece ≠ [dot] ∧ piece ≠ [dot, dot] ∧ stepOf piece = some (.name piece) := by
  by_cases h₁ : piece = [dot]
  · subst h₁
    exact Or.inl ⟨rfl, rfl⟩
  · by_cases h₂ : piece = [dot, dot]
    · subst h₂
      exact Or.inr (Or.inl ⟨rfl, rfl⟩)
    · exact Or.inr (Or.inr ⟨h₁, h₂, stepOf_eq_name_iff.2 ⟨rfl, h, h₁, h₂⟩⟩)

/-- Whether a path can be followed at all. -/
def isFollowable (p : Path) : Bool :=
  !p.bytes.contains 0 && !p.bytes.isEmpty && p.bytes.length ≤ longestPath

theorem ne_nil_of_mem_pieces {p : Path} {piece : Bytes} (h : piece ∈ p.pieces) : piece ≠ [] := by
  simpa using (List.mem_filter.1 h).2

/-- The steps of a path in front of its last piece, and the one of that. -/
theorem steps_of_pieces {p : Path} {before : List Bytes} {piece : Bytes}
    (h : p.pieces = before ++ [piece]) :
    p.steps = before.filterMap stepOf ++ (stepOf piece).toList := by
  rw [← filterMap_pieces, h, List.filterMap_append]
  cases hs : stepOf piece <;> simp [hs]

theorem ne_nil_of_pieces {p : Path} {before : List Bytes} {piece : Bytes}
    (h : p.pieces = before ++ [piece]) : (∀ q ∈ before, q ≠ []) ∧ piece ≠ [] :=
  ⟨fun _ hq => ne_nil_of_mem_pieces (h ▸ List.mem_append_left _ hq),
    ne_nil_of_mem_pieces (h ▸ List.mem_append_right _ List.mem_cons_self)⟩

end Path

namespace Disk

open Path

/-- Every directory that some steps enter is there, and no name is too long. -/
def IsOpen (d : Disk) (l : Location) (cs : List Component) : Prop :=
  (∀ v ∈ entered l cs, d.node? v = some .directory) ∧
    ∀ n, .name n ∈ cs → n.length ≤ longestName

/-- No link is where some steps enter. -/
def IsClear (d : Disk) (l : Location) (cs : List Component) : Prop :=
  ∀ v ∈ entered l cs, ∀ path, d.node? v ≠ some (.link path)

/-- Whether a link is at a location. -/
def isLink (d : Disk) (l : Location) : Bool :=
  match d.node? l with
  | some (.link _) => true
  | _ => false

variable {d : Disk} {l l' : Location}

theorem isLink_eq_false_iff : d.isLink l = false ↔ ∀ path, d.node? l ≠ some (.link path) := by
  unfold isLink
  split <;> simp_all

theorem isOpen_append {cs cs' : List Component} :
    d.IsOpen l (cs ++ cs') ↔ d.IsOpen l cs ∧ d.IsOpen (follow l cs) cs' := by
  simp only [IsOpen, entered_append, List.mem_append, or_imp, forall_and]
  exact and_and_and_comm

theorem isClear_append {cs cs' : List Component} :
    d.IsClear l (cs ++ cs') ↔ d.IsClear l cs ∧ d.IsClear (follow l cs) cs' := by
  simp only [IsClear, entered_append, List.mem_append, or_imp, forall_and]

theorem stepTo_eq_directory_iff {piece : Bytes} (hp : piece ≠ []) :
    d.stepTo l piece = .ok (.directory l') ↔
      l' = follow l (stepOf piece).toList ∧ d.IsOpen l (stepOf piece).toList := by
  unfold stepTo
  rcases stepOf_cases hp with ⟨rfl, hs⟩ | ⟨rfl, hs⟩ | ⟨h₁, h₂, hs⟩
  · simp [hs, follow, IsOpen, entered, eq_comm]
  · rw [if_neg (by decide), if_pos rfl, hs]
    simp [follow, stepFrom, IsOpen, entered, eq_comm]
  · rw [if_neg h₁, if_neg h₂, hs]
    by_cases hlong : longestName < piece.length
    · simp [hlong, IsOpen]
    · have hlong' : piece.length ≤ longestName := Nat.le_of_not_lt hlong
      cases hn : d.node? (l ++ [piece]) with
      | none => simp [hlong, IsOpen, entered, hn]
      | some n => cases n <;> simp [hlong, hlong', follow, stepFrom, IsOpen, entered, hn, eq_comm]

theorem not_isClear_of_stepTo {piece : Bytes} {path : Path} (hp : piece ≠ [])
    (h : d.stepTo l piece = .ok (.link path)) : ¬ d.IsClear l (stepOf piece).toList := by
  unfold stepTo at h
  rcases stepOf_cases hp with ⟨rfl, hs⟩ | ⟨rfl, hs⟩ | ⟨h₁, h₂, hs⟩
  · cases h
  · rw [if_neg (by decide), if_pos rfl] at h
    cases h
  · rw [if_neg h₁, if_neg h₂] at h
    split at h
    · cases h
    split at h
    · cases h
    · cases h
    · next hlink =>
      rw [hs]
      exact fun hclear => hclear _ List.mem_cons_self _ hlink
    · cases h

theorem filterMap_stepOf_cons (piece : Bytes) (ps : List Bytes) :
    (piece :: ps).filterMap stepOf = (stepOf piece).toList ++ ps.filterMap stepOf := by
  cases hs : stepOf piece <;> simp [hs]

/-- **Without a link on the way** one comes to the place that the steps lead to. -/
theorem stretch_eq_whole_iff {ps : List Bytes} (hps : ∀ p ∈ ps, p ≠ []) :
    d.stretch l ps = .ok (.whole l') ↔
      l' = follow l (ps.filterMap stepOf) ∧ d.IsOpen l (ps.filterMap stepOf) := by
  induction ps generalizing l with
  | nil => simp [stretch, follow, IsOpen, entered, eq_comm]
  | cons p ps ih =>
    have hp := hps p List.mem_cons_self
    rw [filterMap_stepOf_cons, follow_append, isOpen_append, stretch]
    have hclosed : (∀ m, d.stepTo l p ≠ .ok (.directory m)) → ¬ d.IsOpen l (stepOf p).toList :=
      fun hne hopen => hne _ ((stepTo_eq_directory_iff hp).2 ⟨rfl, hopen⟩)
    cases hstep : d.stepTo l p with
    | error e => simp [hclosed fun m => by simp [hstep]]
    | ok step =>
      cases step with
      | link path => simp [hclosed fun m => by simp [hstep]]
      | directory m =>
        obtain ⟨rfl, hopen⟩ := (stepTo_eq_directory_iff hp).1 hstep
        simp [ih fun q hq => hps q (List.mem_cons_of_mem _ hq), hopen]

theorem stretch_ne_link {ps : List Bytes} (hps : ∀ p ∈ ps, p ≠ [])
    (hclear : d.IsClear l (ps.filterMap stepOf)) (m : Location) (path : Path) (rest : List Bytes) :
    d.stretch l ps ≠ .ok (.link m path rest) := by
  induction ps generalizing l with
  | nil => simp [stretch]
  | cons p ps ih =>
    have hp := hps p List.mem_cons_self
    rw [filterMap_stepOf_cons, isClear_append] at hclear
    rw [stretch]
    cases hstep : d.stepTo l p with
    | error e => simp
    | ok step =>
      cases step with
      | link path => exact absurd hclear.1 (not_isClear_of_stepTo hp hstep)
      | directory m =>
        obtain ⟨rfl, -⟩ := (stepTo_eq_directory_iff hp).1 hstep
        exact ih (fun q hq => hps q (List.mem_cons_of_mem _ hq)) hclear.2

theorem lastOf_eq_name {piece n : Bytes} {b b' : Bool} (hp : piece ≠ [])
    (h : lastOf piece b = .name n b') : stepOf piece = some (.name n) ∧ b' = b := by
  unfold lastOf at h
  rcases stepOf_cases hp with ⟨rfl, -⟩ | ⟨rfl, -⟩ | ⟨h₁, h₂, hs⟩
  · rw [if_pos rfl] at h
    cases h
  · rw [if_neg (by decide), if_pos rfl] at h
    cases h
  · rw [if_neg h₁, if_neg h₂] at h
    cases h
    exact ⟨hs, rfl⟩

/-! ## Links -/

section
variable {links : Nat} {before : List Bytes} {last : Last} {t : Target}

theorem linkAt?_eq_some {path : Path} (h : d.linkAt? t = some path) :
    t.IsNamed ∧ t.isTooLong = false ∧ d.node? t.location = some (.link path.bytes) := by
  unfold linkAt? at h
  split at h
  · next n b content hlast hlook =>
    cases h
    unfold look at hlook
    split at hlook
    · cases hlook
    next hlong =>
    exact ⟨⟨n, b, hlast⟩, eq_false_of_ne_true hlong, Except.ok.inj hlook⟩
  · cases h

/-- Links on the way change where the end of a path is looked for, but not what it asks
    for. -/
theorem last_of_locate (h : d.locate false links l before last = .ok t) : t.last = last := by
  induction links generalizing l before with
  | zero =>
    unfold locate at h
    split at h <;> cases h
    rfl
  | succ links ih =>
    unfold locate at h
    split at h
    · cases h
    · simp only [throughLink] at h
      split at h
      · cases h
      · exact ih h
    · cases h
      rfl

/-- What is found by following a link at the end is found at the link otherwise. -/
theorem locate_of_follows (h : d.locate true links l before last = .ok t) :
    ∃ t', d.locate false links l before last = .ok t' ∧
      (t' = t ∨ ∃ path, d.linkAt? t' = some path) := by
  induction links generalizing l before with
  | zero =>
    unfold locate at h ⊢
    split at h
    · cases h
    · cases h
    · next m hm =>
      refine ⟨⟨m, last⟩, by simp, ?_⟩
      simp only [if_true] at h
      split at h
      · cases h
        exact Or.inl rfl
      · cases h
  | succ links ih =>
    unfold locate at h ⊢
    split at h
    · cases h
    · next m path rest hm =>
      simp only [throughLink] at h ⊢
      split at h
      · cases h
      · next hne =>
        rw [if_neg hne]
        exact ih h
    · next m hm =>
      refine ⟨⟨m, last⟩, by simp, ?_⟩
      simp only [if_true] at h
      split at h
      · cases h
        exact Or.inl rfl
      · next path hpath => exact Or.inr ⟨path, hpath⟩

/-- **Where no link is on the way**, none is followed. -/
theorem locate_eq_ok_iff (hbefore : ∀ p ∈ before, p ≠ [])
    (hclear : d.IsClear l (before.filterMap stepOf)) :
    d.locate false links l before last = .ok t ↔
      t = ⟨follow l (before.filterMap stepOf), last⟩ ∧ d.IsOpen l (before.filterMap stepOf) := by
  have hlink := stretch_ne_link hbefore hclear
  have hwhole : ∀ m, d.stretch l before = .ok (.whole m) ↔ _ :=
    fun m => stretch_eq_whole_iff hbefore
  unfold locate
  cases hs : d.stretch l before with
  | error e =>
    have hclosed : ¬ d.IsOpen l (before.filterMap stepOf) := fun hopen => by
      have h := (hwhole _).2 ⟨rfl, hopen⟩
      rw [hs] at h
      cases h
    simp [hclosed]
  | ok stretch =>
    cases stretch with
    | link m path rest => exact absurd hs (hlink m path rest)
    | whole m =>
      obtain ⟨rfl, hopen⟩ := (hwhole m).1 hs
      simp [hopen, eq_comm]

end

variable {d' : Disk} {start : Location} {p : Path} {t : Target} {follows : Bool}

theorem isFollowable_of_locatePath (h : d.locatePath follows start p = .ok t) :
    p.isFollowable = true := by
  unfold locatePath at h
  split at h
  · cases h
  split at h
  · cases h
  split at h
  · cases h
  rename_i h₁ h₂ h₃
  rw [Path.isFollowable, eq_false_of_ne_true h₁, eq_false_of_ne_true h₂,
    decide_eq_true (Nat.le_of_not_lt h₃)]
  rfl

theorem locatePath_of_isFollowable (h : p.isFollowable = true) :
    d.locatePath follows start p = match p.pieces.reverse with
      | [] => .ok ⟨p.origin start, .here⟩
      | piece :: before => (d.locate follows mostLinks (p.origin start) before.reverse
          (lastOf piece p.endsInSlash)).mapError .os := by
  simp only [Path.isFollowable, Bool.and_eq_true, Bool.not_eq_true', decide_eq_true_eq] at h
  obtain ⟨⟨h₁, h₂⟩, h₃⟩ := h
  unfold locatePath
  refine (if_neg ?_).trans ((if_neg ?_).trans (if_neg (Nat.not_lt.2 h₃)))
  · rw [h₁]
    exact Bool.false_ne_true
  · rw [h₂]
    exact Bool.false_ne_true

theorem locatePath_eq_ok_iff : d.locatePath follows start p = .ok t ↔ p.isFollowable = true ∧
    (p.pieces = [] ∧ t = ⟨p.origin start, .here⟩ ∨
      ∃ before piece, p.pieces = before ++ [piece] ∧
        d.locate follows mostLinks (p.origin start) before (lastOf piece p.endsInSlash) =
          .ok t) := by
  cases hp : p.isFollowable with
  | false =>
    have hne : d.locatePath follows start p ≠ .ok t := fun h => by
      rw [isFollowable_of_locatePath h] at hp
      cases hp
    simp [hne]
  | true =>
    rw [locatePath_of_isFollowable hp]
    -- The last piece is not entered, so the path is taken apart from its end.
    cases hrev : p.pieces.reverse with
    | nil =>
      have hnil : p.pieces = [] := List.reverse_eq_nil_iff.1 hrev
      constructor
      · rintro ⟨⟩
        exact ⟨rfl, Or.inl ⟨hnil, rfl⟩⟩
      · rintro ⟨-, ⟨-, rfl⟩ | ⟨before, piece, h, -⟩⟩
        · rfl
        · simp [hnil] at h
    | cons piece before =>
      have happ : p.pieces = before.reverse ++ [piece] := by
        rw [← List.reverse_reverse p.pieces, hrev, List.reverse_cons]
      rw [happ]
      simp only [mapError_eq_ok_iff, true_and]
      constructor
      · exact fun h => Or.inr ⟨_, _, rfl, h⟩
      · rintro (⟨h, -⟩ | ⟨before', piece', h, h'⟩)
        · simp at h
        · obtain ⟨rfl, hpiece⟩ := List.append_inj' h rfl
          cases hpiece
          exact h'

theorem target_eq_ok_iff : d.target start p = .ok t ↔ p.isFollowable = true ∧
    (p.pieces = [] ∧ t = ⟨p.origin start, .here⟩ ∨
      ∃ before piece, p.pieces = before ++ [piece] ∧
        d.locate false mostLinks (p.origin start) before (lastOf piece p.endsInSlash) = .ok t) :=
  locatePath_eq_ok_iff

/-- A path that leads to a name ends in it. -/
theorem steps_of_target {n : Bytes} {b : Bool} (h : d.target start p = .ok t)
    (hlast : t.last = .name n b) :
    p.steps = p.steps.dropLast ++ [.name n] ∧ b = p.endsInSlash ∧
      ∃ before piece, p.pieces = before ++ [piece] ∧ stepOf piece = some (.name n) ∧
        p.steps.dropLast = before.filterMap stepOf ∧
        d.locate false mostLinks (p.origin start) before (lastOf piece p.endsInSlash) = .ok t := by
  obtain ⟨-, ⟨-, rfl⟩ | ⟨before, piece, happ, hlocate⟩⟩ := target_eq_ok_iff.1 h
  · cases hlast
  · obtain ⟨hbefore, hpiece⟩ := ne_nil_of_pieces happ
    obtain ⟨hs, rfl⟩ := lastOf_eq_name hpiece ((last_of_locate hlocate).symm.trans hlast)
    have hsteps : p.steps = before.filterMap stepOf ++ [.name n] := by
      rw [steps_of_pieces happ, hs]
      rfl
    rw [hsteps, List.dropLast_concat]
    exact ⟨rfl, rfl, before, piece, happ, hs, rfl, hlocate⟩

/-- Without a link on the way, the way to a name is open and leads to its place. -/
theorem isOpen_of_target (h : d.target start p = .ok t) (hname : t.IsNamed)
    (hclear : d.IsClear (p.origin start) p.steps.dropLast) :
    d.IsOpen (p.origin start) p.steps.dropLast ∧
      t.directory = follow (p.origin start) p.steps.dropLast := by
  obtain ⟨n, b, hlast⟩ := hname
  obtain ⟨-, -, before, piece, happ, -, hsteps, hlocate⟩ := steps_of_target h hlast
  rw [hsteps] at hclear ⊢
  obtain ⟨rfl, hopen⟩ := (locate_eq_ok_iff (ne_nil_of_pieces happ).1 hclear).1 hlocate
  exact ⟨hopen, rfl⟩

/-- **A path that leads to a name leads to its place**, if no link is on the way. -/
theorem location_of_target (h : d.target start p = .ok t) (hname : t.IsNamed)
    (hclear : d.IsClear (p.origin start) p.steps.dropLast) :
    t.location = follow (p.origin start) p.steps := by
  obtain ⟨-, hdir⟩ := isOpen_of_target h hname hclear
  obtain ⟨n, b, hlast⟩ := hname
  obtain ⟨hsteps, -⟩ := steps_of_target h hlast
  rw [Target.location, hlast, hdir, hsteps, List.dropLast_concat, follow_concat_name]

/-- **The directories on the way decide** whether a path leads to its place. -/
theorem target_congr (h : d.target start p = .ok t) (hname : t.IsNamed)
    (hclear : d.IsClear (p.origin start) p.steps.dropLast)
    (hway : ∀ v ∈ entered (p.origin start) p.steps.dropLast, d'.node? v = some .directory) :
    d'.target start p = .ok t := by
  have hopen : d'.IsOpen (p.origin start) p.steps.dropLast :=
    ⟨hway, (isOpen_of_target h hname hclear).1.2⟩
  have hclear' : d'.IsClear (p.origin start) p.steps.dropLast := fun v hv path => by
    simp [hway v hv]
  obtain ⟨n, b, hlast⟩ := hname
  obtain ⟨-, -, before, piece, happ, -, hsteps, hlocate⟩ := steps_of_target h hlast
  have hbefore := (ne_nil_of_pieces happ).1
  rw [hsteps] at hclear hclear' hopen
  obtain ⟨ht, -⟩ := (locate_eq_ok_iff hbefore hclear).1 hlocate
  exact target_eq_ok_iff.2 ⟨isFollowable_of_locatePath h, Or.inr ⟨before, piece, happ,
    (locate_eq_ok_iff hbefore hclear').2 ⟨ht, hopen⟩⟩⟩

/-- **What a path leads to when links are followed** is at its end, or else a link is. -/
theorem target_of_resolve (h : d.resolve start p = .ok t) :
    ∃ t', d.target start p = .ok t' ∧ (t' = t ∨ ∃ path, d.linkAt? t' = some path) := by
  obtain ⟨hp, ⟨hnil, rfl⟩ | ⟨before, piece, happ, hlocate⟩⟩ := locatePath_eq_ok_iff.1 h
  · exact ⟨_, target_eq_ok_iff.2 ⟨hp, Or.inl ⟨hnil, rfl⟩⟩, Or.inl rfl⟩
  · obtain ⟨t', hlocate', ht'⟩ := locate_of_follows hlocate
    exact ⟨t', target_eq_ok_iff.2 ⟨hp, Or.inr ⟨before, piece, happ, hlocate'⟩⟩, ht'⟩

theorem pieces_join {q : Path} (hq : q.isAbsolute = false) :
    (p.join q).pieces = p.pieces ++ q.pieces := by
  have hslash : ∀ xs ys : Bytes, (Path.mk (xs ++ slash :: ys)).pieces =
      (Path.mk xs).pieces ++ (Path.mk ys).pieces := by
    intro xs ys
    simp only [Path.pieces]
    rw [Text.pieces_append (by simp), List.filter_append]
  rw [join, if_neg (by simp [hq])]
  by_cases hp : (p.bytes.isEmpty || p.bytes.getLast? == some slash) = true
  · rw [if_pos hp]
    simp only [Bool.or_eq_true, List.isEmpty_iff, beq_iff_eq] at hp
    obtain ⟨bs⟩ := p
    rcases hp with hp | hp
    · obtain rfl : bs = [] := hp
      rfl
    · obtain ⟨r, rfl⟩ := List.getLast?_eq_some_iff.1 hp
      have hend := hslash r []
      rw [List.append_assoc, List.singleton_append, hslash, hend]
      simp [Path.pieces, Text.pieces]
  · rw [if_neg hp]
    exact hslash p.bytes q.bytes

/-- A path that ends in a name with no slash behind it asks for that name. -/
theorem last_of_target_join {n : Bytes} (hn : IsName n) (h : d.target start (p.join ⟨n⟩) = .ok t) :
    t.last = .name n false := by
  obtain ⟨hslash, hnil, hdot, hup⟩ := isName_iff.1 hn
  have hpieces : (p.join ⟨n⟩).pieces = p.pieces ++ [n] := by
    rw [pieces_join (isAbsolute_of_isName hn)]
    simp only [Path.pieces]
    rw [pieces_of_not_mem hslash]
    simp [hnil]
  have hend : (p.join ⟨n⟩).endsInSlash = false := by
    obtain ⟨init, b, rfl⟩ : ∃ init b, n = init ++ [b] :=
      ⟨_, _, (List.dropLast_concat_getLast hnil).symm⟩
    have hb : b ≠ slash := fun e => hslash (e ▸ List.mem_append_right _ List.mem_cons_self)
    have hjoin : ∃ pre, (p.join ⟨init ++ [b]⟩).bytes = pre ++ [b] := by
      rw [join, if_neg (by simp [isAbsolute_of_isName hn])]
      split
      · exact ⟨p.bytes ++ init, by simp⟩
      · exact ⟨p.bytes ++ slash :: init, by simp⟩
    obtain ⟨pre, hpre⟩ := hjoin
    rw [endsInSlash, hpre, List.getLast?_concat]
    simpa using hb
  obtain ⟨-, ⟨h, -⟩ | ⟨before, piece, happ, hlocate⟩⟩ := target_eq_ok_iff.1 h
  · simp [hpieces] at h
  · rw [hpieces] at happ
    obtain ⟨-, hpiece⟩ := List.append_inj' happ rfl
    cases hpiece
    rw [last_of_locate hlocate, hend, lastOf, if_neg hdot, if_neg hup]

end Disk

/-! ## Paths in a directory -/

namespace Path

/-- A path leads to a name in the directory that another leads to. -/
structure IsIn (q p : Path) (n : Bytes) : Prop where
  isAbsolute_eq : q.isAbsolute = p.isAbsolute
  steps_eq : q.steps = p.steps ++ [.name n]

theorem isIn_join (p : Path) {n : Bytes} (hn : IsName n) : (p.join ⟨n⟩).IsIn p n := by
  have hrel := isAbsolute_of_isName hn
  refine ⟨isAbsolute_join hrel, ?_⟩
  rw [steps_join hrel]
  exact congrArg _ (stepsOf_name hn)

theorem fileName?_of_steps {p : Path} {n : Bytes} (h : p.steps.getLast? = some (.name n)) :
    p.fileName? = some n := by
  obtain ⟨pre, post, -, -, -, -, -, -, hlast⟩ := cut_of_getLast?_steps h
  rw [fileName?, components, List.getLast?_map, hlast]
  rfl

theorem fileName?_join (p : Path) {n : Bytes} (hn : IsName n) :
    (p.join ⟨n⟩).fileName? = some n := by
  refine fileName?_of_steps ?_
  rw [(isIn_join p hn).steps_eq, List.getLast?_concat]

theorem IsIn.origin_eq {q p : Path} {n : Bytes} (hin : q.IsIn p n) (start : Location) :
    q.origin start = p.origin start := by
  rw [origin, origin, hin.isAbsolute_eq]

end Path

/-! ## Places on a host -/

namespace Host

open Path

/-- Whether the current directory is a place that files can have. -/
def IsPlaced (h : Host) : Prop :=
  ∀ n ∈ h.cwd, IsName n

/-- The location that a path means. -/
def place (h : Host) (p : Path) : Location :=
  follow (p.origin h.cwd) p.steps

/-- The directories that are entered on the way to a path, itself included, when
    one starts at the root. -/
def way (h : Host) (p : Path) : List Location :=
  entered [] (h.absolute p).steps

/-- Every directory on the way to a path is there, and the path leads to one. -/
def IsWayOpen (h : Host) (d : Disk) (p : Path) : Prop :=
  ∀ v ∈ h.way p, d.node? v = some .directory

/-- No link is on the way to a path, or where it leads. -/
def IsDirect (h : Host) (d : Disk) (p : Path) : Prop :=
  ∀ v ∈ h.way p, ∀ path, d.node? v ≠ some (.link path)

instance (h : Host) (d : Disk) (p : Path) : Decidable (h.IsDirect d p) :=
  decidable_of_iff (∀ v ∈ h.way p, d.isLink v = false) <| by
    simp only [IsDirect, Disk.isLink_eq_false_iff]

/-- No link is in front of the end of a path, on the way from where it starts. -/
def IsLed (h : Host) (d : Disk) (p : Path) : Prop :=
  d.IsClear (p.origin h.cwd) p.steps.dropLast

variable {h : Host} {d d' : Disk} {p q : Path} {n : Bytes} {t : Target}

theorem place_of_isIn (hin : q.IsIn p n) : h.place q = h.place p ++ [n] := by
  rw [place, place, hin.origin_eq, hin.steps_eq, follow_concat_name]

theorem isAbsolute_absolute (h : Host) (p : Path) : (h.absolute p).isAbsolute = true := by
  cases hp : p.isAbsolute with
  | true => rw [absolute, join, if_pos hp, hp]
  | false => rw [absolute, isAbsolute_join hp, isAbsolute_ofLocation]

theorem absolute_of_isAbsolute (hp : p.isAbsolute = true) : h.absolute p = p := by
  rw [absolute, join, if_pos hp]

/-- A path from the root first leads to where the path itself starts. -/
theorem steps_absolute (hcwd : h.IsPlaced) (p : Path) :
    (h.absolute p).steps = (p.origin h.cwd).map .name ++ p.steps := by
  cases hp : p.isAbsolute with
  | true => rw [absolute_of_isAbsolute hp, origin, if_pos hp, List.map_nil, List.nil_append]
  | false =>
    rw [absolute, steps_join hp, steps_ofLocation hcwd, origin, hp, if_neg Bool.false_ne_true]

theorem follow_steps_absolute (hcwd : h.IsPlaced) (p : Path) :
    follow [] (h.absolute p).steps = h.place p := by
  rw [steps_absolute hcwd, follow_append, follow_names, List.nil_append]
  rfl

theorem place_absolute (hcwd : h.IsPlaced) (p : Path) : h.place (h.absolute p) = h.place p := by
  rw [place, origin, isAbsolute_absolute, if_pos rfl, follow_steps_absolute hcwd]

theorem way_absolute (h : Host) (p : Path) : h.way (h.absolute p) = h.way p := by
  rw [way, way, absolute_of_isAbsolute (isAbsolute_absolute h p)]

theorem way_of_isIn (hcwd : h.IsPlaced) (hin : q.IsIn p n) :
    h.way q = h.way p ++ [h.place q] := by
  have hsteps : (h.absolute q).steps = (h.absolute p).steps ++ [.name n] := by
    rw [steps_absolute hcwd, steps_absolute hcwd, hin.origin_eq, hin.steps_eq, List.append_assoc]
  rw [way, hsteps, entered_append, follow_steps_absolute hcwd, place_of_isIn hin]
  rfl

/-- A path is in one directory only, however that is spelled. -/
theorem same_of_isIn (hcwd : h.IsPlaced) {p' : Path} {n' : Bytes} (hin : q.IsIn p n)
    (hin' : q.IsIn p' n') : n = n' ∧ h.place p = h.place p' ∧ h.way p = h.way p' := by
  obtain ⟨hsteps, hn⟩ := List.append_inj' (hin.steps_eq.symm.trans hin'.steps_eq) rfl
  have horigin : p.origin h.cwd = p'.origin h.cwd := by
    rw [← hin.origin_eq, hin'.origin_eq]
  refine ⟨by simpa using hn, ?_, ?_⟩
  · rw [place, place, horigin, hsteps]
  · rw [way, way, steps_absolute hcwd, steps_absolute hcwd, horigin, hsteps]

/-- On the way from the root one enters all that is entered from where a path
    starts. -/
theorem mem_way_of_mem_entered (hcwd : h.IsPlaced) {v : Location}
    (hv : v ∈ entered (p.origin h.cwd) p.steps) : v ∈ h.way p := by
  rw [way, steps_absolute hcwd, entered_append, follow_names, List.nil_append]
  exact List.mem_append_right _ hv

/-- A path that ends in a name leads to the last place that it enters. -/
theorem place_mem_way (hcwd : h.IsPlaced) {cs : List Component} (hp : p.steps = cs ++ [.name n]) :
    h.place p ∈ h.way p := by
  refine mem_way_of_mem_entered hcwd ?_
  rw [place, hp, entered_append, follow_concat_name]
  exact List.mem_append_right _ List.mem_cons_self

theorem mem_way_of_above {u v : Location} (hv : v ∈ h.way p) (hu : u <+: v) (hne : u ≠ []) :
    u ∈ h.way p := by
  rcases mem_entered_of_above hv hu with hmem | hnil
  · exact hmem
  · exact absurd (List.prefix_nil.1 hnil) hne

theorem IsWayOpen.isDirect (hopen : h.IsWayOpen d p) : h.IsDirect d p := by
  intro v hv path hlink
  rw [hopen v hv] at hlink
  cases hlink

theorem isDirect_absolute : h.IsDirect d (h.absolute p) ↔ h.IsDirect d p := by
  rw [IsDirect, IsDirect, way_absolute]

theorem isDirect_of_isIn (hcwd : h.IsPlaced) (hin : q.IsIn p n) (hq : h.IsDirect d q) :
    h.IsDirect d p := by
  rw [IsDirect, way_of_isIn hcwd hin] at hq
  exact fun v hv => hq v (List.mem_append_left _ hv)

theorem IsDirect.ne_link (hcwd : h.IsPlaced) (hq : h.IsDirect d q) (hin : q.IsIn p n)
    (path : Bytes) : d.node? (h.place q) ≠ some (.link path) :=
  hq _ (place_mem_way hcwd hin.steps_eq) path

theorem IsDirect.isClear (hcwd : h.IsPlaced) (hp : h.IsDirect d p) :
    d.IsClear (p.origin h.cwd) p.steps :=
  fun v hv => hp v (mem_way_of_mem_entered hcwd hv)

/-- What is in a directory that no link is on the way to is led to. -/
theorem IsDirect.isLed (hcwd : h.IsPlaced) (hp : h.IsDirect d p) (hin : q.IsIn p n) :
    h.IsLed d q := by
  rw [IsLed, hin.steps_eq, List.dropLast_concat, hin.origin_eq]
  exact fun v hv => hp v (mem_way_of_mem_entered hcwd hv)

theorem location_of_target (ht : h.target d p = .ok t) (hname : t.IsNamed) (hled : h.IsLed d p) :
    t.location = h.place p :=
  Disk.location_of_target ht hname hled

/-- **Without a link on the way or at the end** it does not matter whether links are
    followed. -/
theorem target_of_resolve (hcwd : h.IsPlaced) (hdirect : h.IsDirect d p)
    (ht : h.resolve d p = .ok t) : h.target d p = .ok t := by
  obtain ⟨t', ht', rfl | ⟨path, hlink⟩⟩ := Disk.target_of_resolve ht
  · exact ht'
  · obtain ⟨hname, -, hnode⟩ := Disk.linkAt?_eq_some hlink
    have hclear := hdirect.isClear hcwd
    obtain ⟨m, b, hlast⟩ := hname
    have hsteps := (Disk.steps_of_target ht' hlast).1
    rw [hsteps, Disk.isClear_append] at hclear
    rw [Disk.location_of_target ht' ⟨m, b, hlast⟩ hclear.1] at hnode
    exact absurd hnode (hdirect _ (place_mem_way hcwd hsteps) path.bytes)

/-- A path from the root that leads into a directory shows that the way is open, if
    no link is on it. -/
theorem isWayOpen_of_target (hp : p.isAbsolute = true) (hin : q.IsIn p n)
    (hdirect : h.IsDirect d p) (ht : h.target d q = .ok t) (hname : t.IsNamed) :
    h.IsWayOpen d p := by
  have hway : h.way p = entered (q.origin h.cwd) q.steps.dropLast := by
    rw [way, absolute_of_isAbsolute hp, hin.steps_eq, List.dropLast_concat, hin.origin_eq, origin,
      if_pos hp]
  rw [IsDirect, hway] at hdirect
  rw [IsWayOpen, hway]
  exact (Disk.isOpen_of_target ht hname hdirect).1.1

/-- **While the way is open**, a path into a directory leads where it led. -/
theorem target_of_isWayOpen (hcwd : h.IsPlaced) (hin : q.IsIn p n) (ht : h.target d q = .ok t)
    (hname : t.IsNamed) (hled : h.IsLed d q) (hopen : h.IsWayOpen d' p) :
    h.target d' q = .ok t := by
  refine Disk.target_congr ht hname hled fun v hv => hopen v (mem_way_of_mem_entered hcwd ?_)
  rwa [hin.steps_eq, List.dropLast_concat, hin.origin_eq] at hv

end Host

end Transcode
