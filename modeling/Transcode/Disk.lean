/-
  Transcode — the files of a machine.

  A disk says what is at a location: a directory, a file, an executable program,
  a symbolic link, or nothing.  A location is the row of names that leads there from
  the root; the root is always a directory.  A link counts as what is at its own
  location, wherever it leads.

  The view is `node?`.  `put` and `erase` change one location, `eraseBelow` all that
  is below one, and `move` everything from a location downwards: `node?_put`,
  `node?_erase`, `node?_eraseBelow` and `node?_move` say what is where afterwards.
-/
import Transcode.Text.Utf8

namespace Transcode

open Text (Bytes)

/-- The names that lead to a place, from the root on. -/
abbrev Location := List Bytes

/-- What can be at a location. -/
inductive Node where
  | directory
  | file (content : Bytes)
  /-- A file that can be executed; what it does is known by a number. -/
  | program (id : Nat) (content : Bytes)
  /-- A symbolic link, with the bytes of the path that it stands for. -/
  | link (target : Bytes)
  deriving DecidableEq, Repr

/-- The files of a machine.  Of two entries for a location the first counts. -/
structure Disk where
  entries : List (Location × Node)

namespace Disk

/-- The disk with nothing on it but the root. -/
def empty : Disk := ⟨[]⟩

instance : Inhabited Disk := ⟨empty⟩

/-- What is at a location. -/
def node? (d : Disk) (l : Location) : Option Node :=
  if l = [] then some .directory else d.entries.lookup l

/-- Whether there is a directory at a location. -/
def isDirectory (d : Disk) (l : Location) : Bool :=
  d.node? l == some .directory

/-- Put something at a location, in place of what may be there. -/
def put (d : Disk) (l : Location) (n : Node) : Disk :=
  ⟨(l, n) :: d.entries⟩

/-- Leave nothing below a location. -/
def eraseBelow (d : Disk) (l : Location) : Disk :=
  ⟨d.entries.filter fun e => e.1 == l || !l.isPrefixOf e.1⟩

/-- Leave nothing at a location. -/
def erase (d : Disk) (l : Location) : Disk :=
  ⟨d.entries.filter fun e => e.1 ≠ l⟩

/-- Where something is once `src` has been moved to `dst`; nothing that was at
    `dst` or below it is left. -/
def moved (src dst l : Location) : Option Location :=
  if src.isPrefixOf l then some (dst ++ l.drop src.length)
  else if dst.isPrefixOf l then none
  else some l

/-- Move what is at a location, and all below it, to another. -/
def move (d : Disk) (src dst : Location) : Disk :=
  ⟨d.entries.filterMap fun e => (moved src dst e.1).map (·, e.2)⟩

/-- Whether nothing is below a location. -/
def isBare (d : Disk) (l : Location) : Bool :=
  d.entries.all fun e => !l.isPrefixOf e.1 || e.1 == l

/-- The locations at which something is, each once. -/
def locations (d : Disk) : List Location :=
  (d.entries.map Prod.fst).eraseDups

/-! ## The view of each operation -/

@[simp] theorem node?_nil (d : Disk) : d.node? [] = some .directory := rfl

theorem node?_eq_lookup {l : Location} (h : l ≠ []) (d : Disk) :
    d.node? l = d.entries.lookup l := if_neg h

theorem node?_put {l : Location} (h : l ≠ []) (d : Disk) (n : Node) (k : Location) :
    (d.put l n).node? k = if k = l then some n else d.node? k := by
  by_cases hk : k = []
  · simp [hk, h.symm]
  · by_cases hl : k = l
    · simp [node?, put, hl, h]
    · simp [node?, hk, put, hl, List.lookup_cons, beq_false_of_ne hl]

/-- Keep some entries, by their locations. -/
theorem lookup_filter (p : Location → Bool) (k : Location) (es : List (Location × Node)) :
    (es.filter fun e => p e.1).lookup k = if p k then es.lookup k else none := by
  induction es with
  | nil => simp
  | cons e es ih =>
    obtain ⟨l, n⟩ := e
    by_cases hk : k = l
    · subst hk
      by_cases hp : p k <;> simp [hp, ih]
    · by_cases hp : p l <;> simp [hp, ih, List.lookup_cons, beq_false_of_ne hk]

theorem node?_erase {l : Location} (h : l ≠ []) (d : Disk) (k : Location) :
    (d.erase l).node? k = if k = l then none else d.node? k := by
  by_cases hk : k = []
  · simp [hk, h.symm]
  · rw [node?_eq_lookup hk, node?_eq_lookup hk, erase, lookup_filter (· ≠ l)]
    by_cases hl : k = l <;> simp [hl]

theorem node?_eraseBelow (d : Disk) (l k : Location) :
    (d.eraseBelow l).node? k = if l <+: k ∧ k ≠ l ∧ k ≠ [] then none else d.node? k := by
  by_cases hk : k = []
  · simp [hk]
  · rw [node?_eq_lookup hk, node?_eq_lookup hk, eraseBelow,
      lookup_filter fun m => m == l || !l.isPrefixOf m]
    by_cases hl : k = l
    · simp [hl]
    · by_cases hp : l <+: k
      · simp [hl, hk, hp, List.isPrefixOf_iff_prefix.2 hp]
      · simp [hp]

/-- Moving there and moving back are inverse, unless one end is below the other. -/
theorem moved_eq_some_iff {src dst : Location} (h : ¬ src <+: dst) (h' : ¬ dst <+: src)
    (l k : Location) : moved src dst l = some k ↔ moved dst src k = some l := by
  have key : ∀ {src dst l k : Location}, ¬ src <+: dst → ¬ dst <+: src →
      moved src dst l = some k → moved dst src k = some l := by
    intro src dst l k h h' hm
    unfold moved at hm
    split at hm
    · next hs =>
      obtain ⟨r, rfl⟩ := List.isPrefixOf_iff_prefix.1 hs
      obtain rfl := Option.some.inj hm
      simp [moved]
    · next hs =>
      split at hm
      · cases hm
      · next hd =>
        obtain rfl := Option.some.inj hm
        simp [moved, hs, hd]
  exact ⟨key h h', key h' h⟩

/-- Entries at new locations are found by where they were. -/
theorem lookup_filterMap {f g : Location → Option Location}
    (h : ∀ l k, f l = some k ↔ g k = some l) (k : Location) (es : List (Location × Node)) :
    (es.filterMap fun e => (f e.1).map (·, e.2)).lookup k = (g k).bind (es.lookup ·) := by
  induction es with
  | nil => cases g k <;> simp
  | cons e es ih =>
    obtain ⟨l, n⟩ := e
    cases hf : f l with
    | none =>
      have hg : g k ≠ some l := fun hg => by simp [(h l k).2 hg] at hf
      rw [List.filterMap_cons, hf]
      simp only [Option.map_none, ih]
      cases hk : g k with
      | none => rfl
      | some m =>
        have hm : m ≠ l := fun e => hg (e ▸ hk)
        simp [List.lookup_cons, beq_false_of_ne hm]
    | some m =>
      rw [List.filterMap_cons, hf]
      simp only [Option.map_some, List.lookup_cons, ih]
      by_cases hk : k = m
      · subst hk
        simp [(h l k).1 hf]
      · have hg : g k ≠ some l := fun hg => hk (by simpa [hf] using ((h l k).2 hg).symm)
        rw [beq_false_of_ne hk]
        cases hgk : g k with
        | none => rfl
        | some m' =>
          have hm : m' ≠ l := fun e => hg (e ▸ hgk)
          simp [beq_false_of_ne hm]

/-- What is at a location after a move was at the location that it leads back to. -/
theorem node?_move {src dst : Location} (h : ¬ src <+: dst) (h' : ¬ dst <+: src) (d : Disk)
    (k : Location) : (d.move src dst).node? k = (moved dst src k).bind d.node? := by
  have hs : src ≠ [] := fun e => h (e ▸ List.nil_prefix)
  have hd : dst ≠ [] := fun e => h' (e ▸ List.nil_prefix)
  by_cases hk : k = []
  · simp [hk, moved, hs, hd]
  · rw [node?_eq_lookup hk, move, lookup_filterMap (moved_eq_some_iff h h')]
    cases hm : moved dst src k with
    | none => rfl
    | some l =>
      have hl : l ≠ [] := by
        rintro rfl
        have := (moved_eq_some_iff h h' [] k).2 hm
        simp [moved, hs, hd] at this
        exact hk this
      simp [node?_eq_lookup hl]

end Disk

end Transcode
