/-
  Transcode — what operations do to a disk.

  Each operation that goes well says what was there before and which change it is
  on the disk: `found_eq_ok_iff`, `renamed_eq_ok_iff`, `rename_eq_ok_iff`,
  `removeFile_eq_ok_iff` and `makeDirectory_eq_ok_iff`.  Where no link
  leads elsewhere (`Host.IsLed`), the changes are at the places of the paths.

  `Disk.under` is what is at a location with all below it: a move carries it
  along (`under_move`), and leaves everything apart from its two ends alone
  (`node?_move_of_not_below`).
-/
import Transcode.Proofs.Outcome
import Transcode.Proofs.Places

namespace Transcode

open Text (Bytes)

/-! ## Locations apart -/

/-- Neither of two locations is at the other or below it. -/
def Apart (l k : Location) : Prop :=
  ¬ l <+: k ∧ ¬ k <+: l

namespace Apart

variable {l k m : Location}

theorem symm (h : Apart l k) : Apart k l := And.symm h

/-- What is at or below one of two locations is not at or below the other. -/
theorem not_below (h : Apart l k) (hm : l <+: m) : ¬ k <+: m := by
  intro hk
  rcases List.prefix_or_prefix_of_prefix hm hk with hlk | hkl
  · exact h.1 hlk
  · exact h.2 hkl

theorem ne_nil (h : Apart l k) : l ≠ [] := by
  rintro rfl
  exact h.1 List.nil_prefix

theorem not_below_of_ne {m n : Bytes} (h : m ≠ n) (l x : Location) :
    ¬ l ++ [m] <+: l ++ n :: x := by
  simpa [List.prefix_append_right_inj, List.cons_prefix_cons] using h

/-- Whatever is below different locations of the same depth is apart. -/
theorem of_length (hlen : l.length = k.length) (hne : l ≠ k) (x y : Location) :
    Apart (l ++ x) (k ++ y) := by
  have key : ∀ {l k x y : Location}, l.length = k.length → l ≠ k → ¬ l ++ x <+: k ++ y := by
    intro l k x y hlen hne h
    have hl : l <+: k ++ y := (List.prefix_append l x).trans h
    exact hne ((List.prefix_of_prefix_length_le hl (List.prefix_append k y)
      (Nat.le_of_eq hlen)).eq_of_length hlen)
  exact ⟨key hlen hne, key hlen.symm hne.symm⟩

end Apart

namespace Disk

/-! ## What is at a location, with all below it -/

/-- What is at a location and below it, by the way that leads there from it. -/
def under (d : Disk) (l : Location) (way : Location) : Option Node :=
  d.node? (l ++ way)

variable {d d' : Disk} {l k s t : Location}

theorem under_congr (h : ∀ m, l <+: m → d'.node? m = d.node? m) : d'.under l = d.under l :=
  funext fun x => h _ (List.prefix_append l x)

/-- What is at a location is at the top of what is under it. -/
theorem node?_of_under (h : d'.under l = d.under k) : d'.node? l = d.node? k := by
  have htop := congrFun h []
  simpa only [under, List.append_nil] using htop

theorem node?_move_of_not_below (h : Apart s t) (hs : ¬ s <+: k) (ht : ¬ t <+: k) :
    (d.move s t).node? k = d.node? k := by
  rw [node?_move h.1 h.2, moved, if_neg (mt List.isPrefixOf_iff_prefix.1 ht),
    if_neg (mt List.isPrefixOf_iff_prefix.1 hs)]
  rfl

/-- **A move carries along** what is below. -/
theorem under_move (h : Apart s t) : (d.move s t).under t = d.under s := by
  funext x
  have ht : t.isPrefixOf (t ++ x) = true := List.isPrefixOf_iff_prefix.2 (List.prefix_append t x)
  rw [under, node?_move h.1 h.2, moved, if_pos ht, List.drop_left]
  rfl

theorem node?_move_target (h : Apart s t) : (d.move s t).node? t = d.node? s :=
  node?_of_under (under_move h)

/-- Nothing is left where a move starts. -/
theorem node?_move_source (h : Apart s t) (hk : s <+: k) : (d.move s t).node? k = none := by
  have ht : ¬ t <+: k := h.not_below hk
  rw [node?_move h.1 h.2, moved, if_neg (mt List.isPrefixOf_iff_prefix.1 ht),
    if_pos (List.isPrefixOf_iff_prefix.2 hk)]
  rfl

theorem under_move_back (h : Apart s t) : ((d.move s t).move t s).under s = d.under s := by
  rw [under_move h.symm, under_move h]

theorem isBare_eraseBelow (d : Disk) (l : Location) : (d.eraseBelow l).isBare l = true := by
  simp only [isBare, eraseBelow, List.all_eq_true, List.mem_filter]
  intro e he
  simpa [or_comm] using he.2

theorem eq_none_of_isBare (h : d.isBare l = true) (hk : l <+: k) (hne : k ≠ l) (hnil : k ≠ []) :
    d.node? k = none := by
  rw [node?_eq_lookup hnil, List.lookup_eq_none_iff]
  intro e he
  have hbare := List.all_eq_true.1 h e he
  simp only [Bool.or_eq_true, Bool.not_eq_true', beq_iff_eq] at hbare ⊢
  rcases hbare with hpre | rfl
  · simp only [bne_iff_ne, ne_eq]
    rintro rfl
    rw [List.isPrefixOf_iff_prefix.2 hk] at hpre
    cases hpre
  · simpa using hne

/-- Whether all that is there is in a directory. -/
def IsTree (d : Disk) : Prop :=
  ∀ l n, d.node? (l ++ [n]) ≠ none → d.node? l = some .directory

theorem IsTree.isDirectory (h : d.IsTree) {x : Location} (hx : x ≠ [])
    (hsome : d.node? (l ++ x) ≠ none) : d.node? l = some .directory := by
  induction x generalizing l with
  | nil => exact absurd rfl hx
  | cons n x ih =>
    rw [List.append_cons] at hsome
    refine h l n ?_
    by_cases hx : x = []
    · simpa [hx] using hsome
    · rw [ih hx hsome]
      simp

/-- One disk comes from another by losing some of what is there. -/
def Loses (d d' : Disk) : Prop :=
  ∀ k, d'.node? k = none ∨ d'.node? k = d.node? k

theorem Loses.rfl : d.Loses d := fun _ => Or.inr (Eq.refl _)

theorem Loses.trans {e : Disk} (h₁ : d.Loses e) (h₂ : e.Loses d') : d.Loses d' := by
  intro k
  rcases h₂ k with hnone | hsame
  · exact Or.inl hnone
  · rw [hsame]
    exact h₁ k

theorem Loses.ne_link {path : Bytes} (h : d.Loses d') (hk : d.node? k ≠ some (.link path)) :
    d'.node? k ≠ some (.link path) := by
  rcases h k with hnone | hsame
  · simp [hnone]
  · rwa [hsame]

/-- What is moved and moved back is where it was; what it had replaced is lost. -/
theorem loses_move_back (h : Apart s t) : d.Loses ((d.move s t).move t s) := by
  intro k
  by_cases ht : t <+: k
  · exact Or.inl (node?_move_source h.symm ht)
  refine Or.inr ?_
  by_cases hs : s <+: k
  · obtain ⟨x, rfl⟩ := hs
    exact congrFun (under_move_back h) x
  · rw [node?_move_of_not_below h.symm ht hs, node?_move_of_not_below h hs ht]

theorem loses_erase (d : Disk) (hl : l ≠ []) : d.Loses (d.erase l) := by
  intro k
  rw [node?_erase hl]
  split
  · exact Or.inl rfl
  · exact Or.inr rfl

theorem loses_eraseBelow (d : Disk) (l : Location) : d.Loses (d.eraseBelow l) := by
  intro k
  rw [node?_eraseBelow]
  split
  · exact Or.inl rfl
  · exact Or.inr rfl

end Disk

/-! ## What is at the end of a path -/

namespace Disk

variable {d d' : Disk} {t : Target} {x : Node}

theorem look_eq_ok_iff {o : Option Node} :
    d.look t = .ok o ↔ t.isTooLong = false ∧ d.node? t.location = o := by
  unfold look
  cases t.isTooLong <;> simp

theorem found_eq_ok_iff : d.found t = .ok x ↔ t.isTooLong = false ∧
    d.node? t.location = some x ∧ (x = .directory ∨ ∀ n, t.last ≠ .name n true) := by
  unfold found look
  cases t.isTooLong with
  | true => simp
  | false =>
    cases hx : d.node? t.location with
    | none => simp
    | some y =>
      cases y with
      | directory => simpa using fun (e : Node.directory = x) => Or.inl e.symm
      | file content | program id content | link path =>
        cases hl : t.last with
        | name n b =>
          cases b with
          | false => simp
          | true =>
            simp only [reduceCtorEq, if_false, Option.some.injEq, true_and, false_iff]
            rintro ⟨rfl, hdir | hslash⟩
            · cases hdir
            · exact hslash n rfl
        | here | up => simp

end Disk

namespace Host

open Disk

variable {h : Host} {d d' : Disk} {p src dst : Path}

theorem stat_eq_ok_iff {x : Node} :
    h.stat d p = .ok x ↔ ∃ t, h.resolve d p = .ok t ∧ d.found t = .ok x := by
  unfold stat
  cases h.resolve d p with
  | error e => simp
  | ok t => simp only [mapError_eq_ok_iff, Except.ok.injEq, exists_eq_left']

theorem fileExists_iff :
    h.fileExists d p = true ↔ ∃ t x, h.resolve d p = .ok t ∧ d.found t = .ok x := by
  rw [fileExists]
  cases hs : h.stat d p with
  | error e =>
    have hnone : ∀ x, ¬ ∃ t, h.resolve d p = .ok t ∧ d.found t = .ok x := fun x hx => by
      rw [stat_eq_ok_iff.2 hx] at hs
      cases hs
    simp only [Except.isOk, Except.toBool, Bool.false_eq_true, false_iff]
    rintro ⟨t, x, hx⟩
    exact hnone x ⟨t, hx⟩
  | ok x =>
    obtain ⟨t, ht⟩ := stat_eq_ok_iff.1 hs
    exact ⟨fun _ => ⟨t, x, ht⟩, fun _ => rfl⟩

/-- What a path leads to, or a link at the end of it, is at its target. -/
theorem exists_of_fileExists (hexists : h.fileExists d p = true) :
    ∃ t x, h.target d p = .ok t ∧ t.isTooLong = false ∧ d.node? t.location = some x := by
  obtain ⟨t, x, ht, hx⟩ := fileExists_iff.1 hexists
  obtain ⟨t', ht', rfl | ⟨path, hlink⟩⟩ := Disk.target_of_resolve ht
  · obtain ⟨hlong, hnode, -⟩ := found_eq_ok_iff.1 hx
    exact ⟨t', x, ht', hlong, hnode⟩
  · obtain ⟨-, hlong, hnode⟩ := linkAt?_eq_some hlink
    exact ⟨t', _, ht', hlong, hnode⟩

theorem map_allowed_eq_ok_iff {op : Operation} {e : Disk} :
    ((h.allowed op d).map fun _ => e) = .ok d' ↔ h.refuses op d = none ∧ e = d' := by
  unfold allowed
  cases h.refuses op d <;> simp [Except.map]

/-! ## Renaming -/

theorem named_of_renamed {s t : Target} (hr : renamed d s t = .ok d') :
    s.IsNamed ∧ t.IsNamed ∧ s.isTooLong = false ∧ t.isTooLong = false ∧
      ∃ x, d.node? s.location = some x := by
  unfold renamed at hr
  split at hr
  · next n b m c hs ht =>
    split at hr
    · cases hr
    · cases hr
    · cases hr
    · next x o hx ho =>
      obtain ⟨hsl, hx⟩ := look_eq_ok_iff.1 hx
      exact ⟨⟨n, b, hs⟩, ⟨m, c, ht⟩, hsl, (look_eq_ok_iff.1 ho).1, x, hx⟩
  · cases hr

/-- Only a directory takes the place of a directory, and only of an empty one. -/
theorem of_mayReplace {l : Location} {b : Bool} (hm : mayReplace d l b = .ok ())
    (hl : d.node? l = some .directory) : b = true ∧ d.isBare l = true := by
  unfold mayReplace at hm
  rw [hl] at hm
  cases b with
  | false => cases hm
  | true =>
    cases hb : d.isBare l with
    | false =>
      rw [hb] at hm
      cases hm
    | true => exact ⟨rfl, rfl⟩

/-- Between names, what decides is where they are and what is there. -/
theorem renamed_of_named {s t : Target} {x : Node} (hs : s.IsNamed) (ht : t.IsNamed)
    (hsl : s.isTooLong = false) (htl : t.isTooLong = false)
    (hx : d.node? s.location = some x) :
    renamed d s t =
      if !(x == .directory) && (s.last.demandsDirectory || t.last.demandsDirectory) then
        .error .notDirectory
      else if s.location = t.location then .ok d
      else if s.location.isPrefixOf t.location then .error .invalidArgument
      else if t.location.isPrefixOf s.location then .error .notEmpty
      else (mayReplace d t.location (x == .directory)).map fun _ =>
        d.move s.location t.location := by
  obtain ⟨n, b, hs⟩ := hs
  obtain ⟨m, c, ht⟩ := ht
  rw [renamed, look_eq_ok_iff.2 ⟨hsl, hx⟩, look_eq_ok_iff.2 ⟨htl, rfl⟩]
  simp only [hs, ht]

/-- **What a renaming does**: something with a name moves to a name apart from it,
    unless it is called that already. -/
theorem renamed_eq_ok_iff {s t : Target} :
    renamed d s t = .ok d' ↔ s.IsNamed ∧ t.IsNamed ∧ s.isTooLong = false ∧ t.isTooLong = false ∧
      ∃ x, d.node? s.location = some x ∧
        (x = .directory ∨ s.last.demandsDirectory = false ∧ t.last.demandsDirectory = false) ∧
        (s.location = t.location ∧ d' = d ∨
          Apart s.location t.location ∧ mayReplace d t.location (x == .directory) = .ok () ∧
            d' = d.move s.location t.location) := by
  have hguard : ∀ x : Node, (x = .directory ∨
      s.last.demandsDirectory = false ∧ t.last.demandsDirectory = false) ↔
      ¬ (!(x == .directory) && (s.last.demandsDirectory || t.last.demandsDirectory)) = true := by
    intro x
    cases x <;> simp
  constructor
  · intro hr
    obtain ⟨hs, ht, hsl, htl, x, hx⟩ := named_of_renamed hr
    refine ⟨hs, ht, hsl, htl, x, hx, ?_⟩
    rw [renamed_of_named hs ht hsl htl hx] at hr
    split at hr
    · cases hr
    next hdir =>
    refine ⟨(hguard x).2 hdir, ?_⟩
    split at hr
    · next heq =>
      cases hr
      exact Or.inl ⟨heq, rfl⟩
    next heq =>
    split at hr
    · cases hr
    next hst =>
    split at hr
    · cases hr
    next hts =>
    obtain ⟨u, hmay, rfl⟩ := map_eq_ok_iff.1 hr
    exact Or.inr ⟨⟨mt List.isPrefixOf_iff_prefix.2 hst, mt List.isPrefixOf_iff_prefix.2 hts⟩,
      hmay, rfl⟩
  · rintro ⟨hs, ht, hsl, htl, x, hx, hdir, h⟩
    rw [renamed_of_named hs ht hsl htl hx, if_neg ((hguard x).1 hdir)]
    rcases h with ⟨heq, rfl⟩ | ⟨hapart, hmay, rfl⟩
    · rw [if_pos heq]
    · have heq : s.location ≠ t.location := fun e => hapart.1 (e ▸ List.prefix_rfl)
      rw [if_neg heq, if_neg (mt List.isPrefixOf_iff_prefix.1 hapart.1),
        if_neg (mt List.isPrefixOf_iff_prefix.1 hapart.2), hmay]
      rfl

theorem rename_eq_ok_iff :
    h.rename d src dst = .ok d' ↔ ∃ s t, h.target d src = .ok s ∧ h.target d dst = .ok t ∧
      renamed d s t = .ok d' ∧ h.refuses (.rename src dst) d = none := by
  unfold rename
  cases h.target d src with
  | error e => simp
  | ok s =>
    cases h.target d dst with
    | error e => simp
    | ok t =>
      cases hr : renamed d s t with
      | error e => simp [hr]
      | ok d₁ => simp [hr, map_allowed_eq_ok_iff, and_comm]

/-- Between two places what is renamed moves, and takes the place of what it may;
    nothing happens if both paths mean one place. -/
theorem rename_cases (hsrc : h.IsLed d src) (hdst : h.IsLed d dst)
    (hr : h.rename d src dst = .ok d') :
    h.place src = h.place dst ∧ d' = d ∨ Apart (h.place src) (h.place dst) ∧
      (∃ x, d.node? (h.place src) = some x ∧
        mayReplace d (h.place dst) (x == .directory) = .ok ()) ∧
      d' = d.move (h.place src) (h.place dst) := by
  obtain ⟨s, t, hs, ht, hr, -⟩ := rename_eq_ok_iff.1 hr
  obtain ⟨hsn, htn, -, -, x, hx, -, h⟩ := renamed_eq_ok_iff.1 hr
  rw [location_of_target hs hsn hsrc] at hx h
  rw [location_of_target ht htn hdst] at h
  exact h.imp_right fun ⟨hapart, hmay, hd'⟩ => ⟨hapart, ⟨x, hx, hmay⟩, hd'⟩

/-- **What is renamed moves**, unless the two paths mean one place. -/
theorem move_of_rename (hsrc : h.IsLed d src) (hdst : h.IsLed d dst)
    (hr : h.rename d src dst = .ok d') (hne : h.place src ≠ h.place dst) :
    Apart (h.place src) (h.place dst) ∧ d' = d.move (h.place src) (h.place dst) := by
  rcases rename_cases hsrc hdst hr with ⟨heq, -⟩ | ⟨hapart, -, hd'⟩
  · exact absurd heq hne
  · exact ⟨hapart, hd'⟩

/-- **A directory on an open way stays** when something is renamed, unless it goes with
    that: only an empty directory can be replaced, and only by another. -/
theorem directory_of_rename {v : Location} (hopen : h.IsWayOpen d p) (hsrc : h.IsLed d src)
    (hdst : h.IsLed d dst) (hr : h.rename d src dst = .ok d') (hv : v ∈ h.way p)
    (hoff : ¬ h.place src <+: v) : d'.node? v = some .directory := by
  rcases rename_cases hsrc hdst hr with ⟨-, rfl⟩ | ⟨hapart, ⟨x, hx, hmay⟩, rfl⟩
  · exact hopen v hv
  by_cases hpre : h.place dst <+: v
  · obtain ⟨hdir, hbare⟩ := of_mayReplace hmay
      (hopen _ (mem_way_of_above hv hpre hapart.symm.ne_nil))
    obtain rfl : x = .directory := by simpa using hdir
    -- What was replaced had nothing in it, so the way ends there.
    by_cases hv' : v = h.place dst
    · rw [hv', node?_move_target hapart, hx]
    · have hnil : v ≠ [] := fun e => hapart.symm.ne_nil (List.prefix_nil.1 (e ▸ hpre))
      have hnode := hopen v hv
      rw [eq_none_of_isBare hbare hpre hv' hnil] at hnode
      cases hnode
  · rw [node?_move_of_not_below hapart hoff hpre]
    exact hopen v hv

theorem isWayOpen_of_rename (hopen : h.IsWayOpen d p) (hsrc : h.IsLed d src)
    (hdst : h.IsLed d dst) (hr : h.rename d src dst = .ok d')
    (hoff : ∀ v ∈ h.way p, ¬ h.place src <+: v) : h.IsWayOpen d' p :=
  fun v hv => directory_of_rename hopen hsrc hdst hr hv (hoff v hv)

/-- No link gets on an open way by a renaming. -/
theorem isDirect_of_rename (hopen : h.IsWayOpen d p) (hsrc : h.IsLed d src)
    (hdst : h.IsLed d dst) (hr : h.rename d src dst = .ok d') : h.IsDirect d' p := by
  intro v hv path hlink
  by_cases hpre : h.place src <+: v
  · rcases rename_cases hsrc hdst hr with ⟨-, rfl⟩ | ⟨hapart, -, rfl⟩
    · exact hopen.isDirect v hv path hlink
    · rw [node?_move_source hapart hpre] at hlink
      cases hlink
  · rw [directory_of_rename hopen hsrc hdst hr hv hpre] at hlink
    cases hlink

/-! ## What is kept -/

/-- A path leads to what it led to: all that was at its place is there, and no link is
    on the way. -/
structure IsKept (h : Host) (d d' : Disk) (p : Path) : Prop where
  isDirect : h.IsDirect d' p
  under_eq : d'.under (h.place p) = d.under (h.place p)

theorem IsLed.of_loses (hled : h.IsLed d p) (hd : d.Loses d') : h.IsLed d' p :=
  fun v hv path => hd.ne_link (hled v hv path)

theorem IsDirect.of_loses (hdirect : h.IsDirect d p) (hd : d.Loses d') : h.IsDirect d' p :=
  fun v hv path => hd.ne_link (hdirect v hv path)

/-! ## Removing -/

theorem removeFile_eq_ok_iff :
    h.removeFile d p = .ok d' ↔ ∃ t x, h.target d p = .ok t ∧ t.IsNamed ∧ d.found t = .ok x ∧
      x ≠ .directory ∧ h.refuses (.removeFile p) d = none ∧ d' = d.erase t.location := by
  unfold removeFile
  cases h.target d p with
  | error e => simp
  | ok t =>
    cases hl : t.last with
    | here | up => simp [Target.IsNamed, hl]
    | name n b =>
      have hname : t.IsNamed := ⟨n, b, hl⟩
      cases hx : d.found t with
      | error e => simp [hl, hx]
      | ok x => cases x <;> simp [hname, hl, hx, map_allowed_eq_ok_iff, eq_comm (b := d')]

theorem loses_of_removeFile (hr : h.removeFile d p = .ok d') : d.Loses d' := by
  obtain ⟨t, x, -, hname, -, -, -, rfl⟩ := removeFile_eq_ok_iff.1 hr
  exact loses_erase d hname.location_ne_nil

/-- What is removed was at the place of the path, and was no directory. -/
theorem erase_of_removeFile (hled : h.IsLed d p) (hr : h.removeFile d p = .ok d') :
    h.place p ≠ [] ∧ d.node? (h.place p) ≠ some .directory ∧ d' = d.erase (h.place p) := by
  obtain ⟨t, x, ht, hname, hx, hdir, -, rfl⟩ := removeFile_eq_ok_iff.1 hr
  have hnode := (found_eq_ok_iff.1 hx).2.1
  rw [location_of_target ht hname hled] at hnode ⊢
  have hne : d.node? (h.place p) ≠ some .directory := by
    rw [hnode]
    exact fun e => hdir (Option.some.inj e)
  refine ⟨fun e => hne ?_, hne, rfl⟩
  rw [e, node?_nil]

theorem node?_removeFile {l : Location} (hled : h.IsLed d p) (hr : h.removeFile d p = .ok d')
    (hl : l ≠ h.place p) : d'.node? l = d.node? l := by
  obtain ⟨hne, -, rfl⟩ := erase_of_removeFile hled hr
  rw [node?_erase hne, if_neg hl]

theorem directory_of_removeFile {l : Location} (hled : h.IsLed d p)
    (hr : h.removeFile d p = .ok d') (hl : d.node? l = some .directory) :
    d'.node? l = some .directory := by
  obtain ⟨-, hdir, -⟩ := erase_of_removeFile hled hr
  rw [node?_removeFile hled hr, hl]
  rintro rfl
  exact hdir hl

theorem removeDirectory_eq_ok_iff :
    h.removeDirectory d p = .ok d' ↔ ∃ t, h.target d p = .ok t ∧ t.IsNamed ∧
      d.found t = .ok .directory ∧ d.isBare t.location = true ∧ d' = d.erase t.location := by
  unfold removeDirectory
  cases h.target d p with
  | error e => simp
  | ok t =>
    cases hl : t.last with
    | here | up => simp [Target.IsNamed, hl]
    | name n b =>
      have hname : t.IsNamed := ⟨n, b, hl⟩
      cases hx : d.found t with
      | error e => simp [hl, hx]
      | ok x =>
        cases x with
        | directory =>
          cases hb : d.isBare t.location <;>
            simp [hname, hl, hx, hb, eq_comm (b := d')]
        | file content | program id content | link path => simp [hl, hx]

theorem loses_removeTree (h : Host) (d : Disk) (p : Path) : d.Loses (h.removeTree d p).1 := by
  unfold removeTree
  cases h.target d p with
  | error e => exact .rfl
  | ok t =>
    dsimp only
    cases d.found t with
    | error e => exact .rfl
    | ok x =>
      cases x with
      | file content | program id content => exact .rfl
      | link path =>
        dsimp only
        split
        · next hr => exact loses_of_removeFile hr
        · exact .rfl
      | directory =>
        have hemptied := loses_eraseBelow d t.location
        dsimp only
        split
        · next hr =>
          obtain ⟨t', -, hname, -, -, rfl⟩ := removeDirectory_eq_ok_iff.1 hr
          exact hemptied.trans (loses_erase _ hname.location_ne_nil)
        · exact hemptied
        · exact hemptied

/-- **What `removeTree` leaves**: all is as it was apart from the place of the path. -/
theorem node?_removeTree {l : Location} (hled : h.IsLed d p)
    (hname : ∀ t, h.target d p = .ok t → t.IsNamed) (hl : ¬ h.place p <+: l) :
    (h.removeTree d p).1.node? l = d.node? l := by
  unfold removeTree
  cases ht : h.target d p with
  | error e => rfl
  | ok t =>
    have hloc : t.location = h.place p := location_of_target ht (hname t ht) hled
    have hne : l ≠ h.place p := fun e => hl (e ▸ List.prefix_rfl)
    have hnil : h.place p ≠ [] := fun e => hl (e ▸ List.nil_prefix)
    have hemptied : (d.eraseBelow t.location).node? l = d.node? l := by
      rw [node?_eraseBelow, if_neg fun h => hl (hloc ▸ h.1)]
    dsimp only
    cases hx : d.found t with
    | error e => rfl
    | ok x =>
      cases x with
      | file content | program id content => rfl
      | link path =>
        dsimp only
        split
        · next hr => exact node?_removeFile hled hr hne
        · rfl
      | directory =>
        dsimp only
        split
        · next d' hr =>
          obtain ⟨t', ht', hname', -, -, rfl⟩ := removeDirectory_eq_ok_iff.1 hr
          have hled' := hled.of_loses (loses_eraseBelow d t.location)
          rw [location_of_target ht' hname' hled', node?_erase hnil, if_neg hne, hemptied]
        · exact hemptied
        · exact hemptied

/-- **A directory is removed with all that is in it**, when the way to it does not
    lead through it. -/
theorem removeTree_directory {t : Target} (hled : h.IsLed d p) (ht : h.target d p = .ok t)
    (hname : t.IsNamed) (hx : d.found t = .ok .directory)
    (hway : ∀ v ∈ Path.entered (p.origin h.cwd) p.steps.dropLast, ¬ h.place p <+: v)
    {l : Location} (hl : h.place p <+: l) : (h.removeTree d p).1.node? l = none := by
  have hloc := location_of_target ht hname hled
  have hnil := hname.location_ne_nil
  have hkept : ∀ v, ¬ h.place p <+: v → (d.eraseBelow t.location).node? v = d.node? v := by
    intro v hv
    rw [node?_eraseBelow, if_neg fun h => hv (hloc ▸ h.1)]
  -- The path leads to the directory still when that is empty, for it was not on the way.
  have ht' : h.target (d.eraseBelow t.location) p = .ok t := by
    refine target_congr ht hname hled fun v hv => ?_
    rw [hkept v (hway v hv)]
    exact (isOpen_of_target ht hname hled).1.1 v hv
  have hx' : (d.eraseBelow t.location).found t = .ok .directory := by
    obtain ⟨hlong, hnode, hdir⟩ := found_eq_ok_iff.1 hx
    refine found_eq_ok_iff.2 ⟨hlong, ?_, hdir⟩
    rw [node?_eraseBelow, if_neg fun h => h.2.1 rfl, hnode]
  have hr : h.removeDirectory (d.eraseBelow t.location) p =
      .ok ((d.eraseBelow t.location).erase t.location) :=
    removeDirectory_eq_ok_iff.2 ⟨t, ht', hname, hx', isBare_eraseBelow d t.location, rfl⟩
  have hall : h.removeTree d p = ((d.eraseBelow t.location).erase t.location, .ok ()) := by
    unfold removeTree
    simp only [ht, hx, hr]
  rw [hall, node?_erase hnil]
  split
  · rfl
  · next hne =>
    have hl' : l ≠ [] := fun e => hnil (List.prefix_nil.1 (e ▸ hloc ▸ hl))
    rw [node?_eraseBelow, if_pos ⟨hloc ▸ hl, hne, hl'⟩]

/-! ## Making directories -/

theorem makeDirectory_eq_ok_iff :
    h.makeDirectory d p = .ok d' ↔ ∃ t, h.target d p = .ok t ∧ t.isTooLong = false ∧
      d.node? t.location = none ∧ h.refuses (.makeDirectory p) d = none ∧
      d' = d.put t.location .directory := by
  unfold makeDirectory
  cases h.target d p with
  | error e => simp
  | ok t =>
    cases hl : t.isTooLong with
    | true => simp [look, hl]
    | false =>
      cases hx : d.node? t.location with
      | some x => simp [look, hl, hx]
      | none => simp [look, hl, hx, map_allowed_eq_ok_iff, eq_comm (b := d')]

end Host

end Transcode
