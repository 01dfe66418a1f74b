/-
  Transcode — tables by name.

  A `NameTable` holds one value for each of finitely many names, in increasing
  order of the names (by code points).  The order is part of the type, so two
  tables with the same values are equal and listing needs no sorting.

  * `get?` is the view: `get?_insert` and `get?_ofList` say what the operations
    do to it;
  * in `ofList` the last value of a name counts, so of two tables one over the other
    the upper does (`get?_ofList_append`);
  * `mem_names_iff`: the names listed are those that have a value.
-/

namespace Transcode

/-- Values by name, in increasing order of the names. -/
structure NameTable (α : Type) where
  entries : List (String × α)
  ordered : entries.Pairwise fun a b => a.1 < b.1

namespace NameTable

variable {α β : Type}

/-! ## Rows -/

/-- The value of a name in a list of rows, the first counting. -/
def find (name : String) : List (String × α) → Option α
  | [] => none
  | (k, v) :: r => if k = name then some v else find name r

/-- Put a row at its place in an increasing list. -/
def place (name : String) (value : α) : List (String × α) → List (String × α)
  | [] => [(name, value)]
  | (k, v) :: r =>
    if name < k then (name, value) :: (k, v) :: r
    else if name = k then (name, value) :: r
    else (k, v) :: place name value r

theorem mem_place {name : String} {value : α} {rows : List (String × α)} {x : String × α}
    (h : x ∈ place name value rows) : x = (name, value) ∨ x ∈ rows := by
  induction rows with
  | nil => simpa [place] using h
  | cons row rows ih =>
    obtain ⟨k, v⟩ := row
    simp only [place] at h
    split at h
    · simpa using h
    · split at h
      · rcases List.mem_cons.1 h with h | h
        · exact Or.inl h
        · exact Or.inr (List.mem_cons_of_mem _ h)
      · rcases List.mem_cons.1 h with h | h
        · exact Or.inr (h ▸ List.mem_cons_self)
        · exact (ih h).imp id (List.mem_cons_of_mem _)

theorem lt_of_not_lt_of_ne {a b : String} (h : ¬ a < b) (hne : a ≠ b) : b < a :=
  Std.lt_of_le_of_ne (String.not_lt.1 h) (Ne.symm hne)

theorem ordered_place {name : String} {value : α} {rows : List (String × α)}
    (h : rows.Pairwise fun a b => a.1 < b.1) :
    (place name value rows).Pairwise fun a b => a.1 < b.1 := by
  induction rows with
  | nil => simp [place]
  | cons row rows ih =>
    obtain ⟨k, v⟩ := row
    obtain ⟨hk, hr⟩ := List.pairwise_cons.1 h
    simp only [place]
    split
    · rename_i hlt
      refine List.pairwise_cons.2 ⟨fun x hx => ?_, h⟩
      rcases List.mem_cons.1 hx with rfl | hx
      · exact hlt
      · exact String.lt_trans hlt (hk x hx)
    · rename_i hlt
      split
      · rename_i heq
        subst heq
        exact List.pairwise_cons.2 ⟨hk, hr⟩
      · rename_i hne
        refine List.pairwise_cons.2 ⟨fun x hx => ?_, ih hr⟩
        rcases mem_place hx with rfl | hx
        · exact lt_of_not_lt_of_ne hlt hne
        · exact hk x hx

theorem find_eq_none_of_lt {name : String} {rows : List (String × α)}
    (h : ∀ x ∈ rows, name < x.1) : find name rows = none := by
  induction rows with
  | nil => rfl
  | cons row rows ih =>
    obtain ⟨k, v⟩ := row
    have hk : name < k := h (k, v) List.mem_cons_self
    have hne : k ≠ name := fun e => String.lt_irrefl _ (e ▸ hk)
    simp only [find, hne, if_false]
    exact ih fun x hx => h x (List.mem_cons_of_mem _ hx)

theorem find_place {name other : String} {value : α} {rows : List (String × α)}
    (h : rows.Pairwise fun a b => a.1 < b.1) :
    find other (place name value rows) = if name = other then some value else find other rows := by
  induction rows with
  | nil => simp [place, find]
  | cons row rows ih =>
    obtain ⟨k, v⟩ := row
    obtain ⟨hk, hr⟩ := List.pairwise_cons.1 h
    simp only [place]
    split
    · simp [find]
    · split
      · rename_i heq
        subst heq
        by_cases ho : name = other <;> simp [find, ho]
      · rename_i hne
        by_cases hko : k = other
        · subst hko
          simp [find, hne]
        · simp [find, hko, ih hr]

theorem find_eq_some_iff {name : String} {value : α} {rows : List (String × α)}
    (h : rows.Pairwise fun a b => a.1 < b.1) :
    find name rows = some value ↔ (name, value) ∈ rows := by
  induction rows with
  | nil => simp [find]
  | cons row rows ih =>
    obtain ⟨k, v⟩ := row
    obtain ⟨hk, hr⟩ := List.pairwise_cons.1 h
    by_cases hkn : k = name
    · subst hkn
      have hnot : (k, value) ∉ rows := fun hx => String.lt_irrefl k (hk (k, value) hx)
      simp [find, hnot, eq_comm]
    · simp [find, hkn, Ne.symm hkn, ih hr]

theorem find_isSome_iff {name : String} {rows : List (String × α)} :
    (find name rows).isSome = true ↔ name ∈ rows.map Prod.fst := by
  induction rows with
  | nil => simp [find]
  | cons row rows ih =>
    obtain ⟨k, v⟩ := row
    by_cases h : k = name
    · simp [find, h]
    · simp [find, h, ih, Ne.symm h]

theorem find_append (name : String) (xs ys : List (String × α)) :
    find name (xs ++ ys) = (find name xs).or (find name ys) := by
  induction xs with
  | nil => simp [find]
  | cons x xs ih => by_cases hx : x.1 = name <;> simp [find, hx, ih]

theorem mem_of_find {name : String} {value : α} {rows : List (String × α)}
    (h : find name rows = some value) : (name, value) ∈ rows := by
  induction rows with
  | nil => cases h
  | cons row rows ih =>
    simp only [find] at h
    split at h
    · next hk =>
      cases h
      cases hk
      exact List.mem_cons_self
    · exact List.mem_cons_of_mem _ (ih h)

/-- Of different names, no row hides another. -/
theorem find_reverse {name : String} {rows : List (String × α)}
    (h : rows.Pairwise fun a b => a.1 < b.1) : find name rows.reverse = find name rows := by
  induction rows with
  | nil => rfl
  | cons row rows ih =>
    obtain ⟨k, v⟩ := row
    obtain ⟨hk, hr⟩ := List.pairwise_cons.1 h
    rw [List.reverse_cons, find_append, ih hr]
    by_cases hn : k = name
    · subst hn
      simp [find, find_eq_none_of_lt hk]
    · simp [find, hn]

/-! ## Tables -/

/-- The table without names. -/
def empty : NameTable α := ⟨[], .nil⟩

instance : EmptyCollection (NameTable α) := ⟨empty⟩

/-- The value of a name. -/
def get? (t : NameTable α) (name : String) : Option α :=
  find name t.entries

/-- Whether the name has a value. -/
def contains (t : NameTable α) (name : String) : Bool :=
  (t.get? name).isSome

/-- Give a name a value, in place of the one it may have. -/
def insert (t : NameTable α) (name : String) (value : α) : NameTable α :=
  ⟨place name value t.entries, ordered_place t.ordered⟩

/-- Insert rows one after another. -/
def insertAll (t : NameTable α) (rows : List (String × α)) : NameTable α :=
  rows.foldl (fun t row => t.insert row.1 row.2) t

/-- The table of some rows; the last row of a name counts. -/
def ofList (rows : List (String × α)) : NameTable α :=
  empty.insertAll rows

/-- The names that have a value, in increasing order. -/
def names (t : NameTable α) : List String :=
  t.entries.map Prod.fst

/-- How many names have a value. -/
def size (t : NameTable α) : Nat :=
  t.entries.length

theorem get?_insert (t : NameTable α) (name other : String) (value : α) :
    (t.insert name value).get? other = if name = other then some value else t.get? other :=
  find_place t.ordered

@[simp] theorem get?_empty (name : String) : (empty : NameTable α).get? name = none := rfl

theorem get?_insertAll (t : NameTable α) (rows : List (String × α)) (name : String) :
    (t.insertAll rows).get? name = (find name rows.reverse).or (t.get? name) := by
  induction rows generalizing t with
  | nil => simp [insertAll, find]
  | cons row rows ih =>
    rw [show t.insertAll (row :: rows) = (t.insert row.1 row.2).insertAll rows from rfl, ih,
      get?_insert, List.reverse_cons, find_append, Option.or_assoc]
    by_cases h : row.1 = name <;> simp [find, h]

/-- **The last row of a name counts.** -/
theorem get?_ofList (rows : List (String × α)) (name : String) :
    (ofList rows).get? name = find name rows.reverse := by
  simp [ofList, get?_insertAll]

theorem get?_ofList_filter (rows : List (String × α)) (name : String) :
    (ofList rows).get? name = (rows.filter (·.1 = name)).getLast?.map Prod.snd := by
  rw [get?_ofList, List.getLast?_eq_head?_reverse, ← List.filter_reverse]
  generalize rows.reverse = rs
  induction rs with
  | nil => rfl
  | cons row rs ih => by_cases h : row.1 = name <;> simp [find, h, ih]

theorem place_of_lt {name : String} {value : α} {rows : List (String × α)}
    (h : ∀ x ∈ rows, x.1 < name) : place name value rows = rows ++ [(name, value)] := by
  induction rows with
  | nil => rfl
  | cons row rows ih =>
    obtain ⟨hk, hr⟩ := List.forall_mem_cons.1 h
    have hnot : ¬ name < row.1 := fun hlt => String.lt_irrefl _ (String.lt_trans hlt hk)
    have hne : name ≠ row.1 := fun he => String.lt_irrefl _ (he ▸ hk)
    rw [place, if_neg hnot, if_neg hne, ih hr, List.cons_append]

theorem entries_insertAll {t : NameTable α} {rows : List (String × α)}
    (h : (t.entries ++ rows).Pairwise fun a b => a.1 < b.1) :
    (t.insertAll rows).entries = t.entries ++ rows := by
  induction rows generalizing t with
  | nil => simp [insertAll]
  | cons row rows ih =>
    have hlast : (t.insert row.1 row.2).entries = t.entries ++ [row] := by
      obtain ⟨-, -, hbefore⟩ := List.pairwise_append.1 h
      exact place_of_lt fun x hx => hbefore x hx row List.mem_cons_self
    have hrows : t.entries ++ row :: rows = (t.insert row.1 row.2).entries ++ rows := by
      rw [hlast, List.append_assoc, List.singleton_append]
    rw [hrows] at h ⊢
    exact ih h

/-- Rows in increasing order are the table that is made of them. -/
theorem ofList_of_ordered {rows : List (String × α)} (h : rows.Pairwise fun a b => a.1 < b.1) :
    ofList rows = ⟨rows, h⟩ := by
  have hentries : (ofList rows).entries = rows := entries_insertAll (t := empty) h
  generalize ofList rows = u at hentries
  subst hentries
  rfl

theorem mem_names_iff {t : NameTable α} {name : String} :
    name ∈ t.names ↔ (t.get? name).isSome = true :=
  find_isSome_iff.symm

theorem mem_names_iff_exists {t : NameTable α} {name : String} :
    name ∈ t.names ↔ ∃ value, t.get? name = some value := by
  rw [mem_names_iff, Option.isSome_iff_exists]

theorem mem_of_get?_ofList {rows : List (String × α)} {name : String} {value : α}
    (h : (ofList rows).get? name = some value) : (name, value) ∈ rows := by
  rw [get?_ofList] at h
  exact List.mem_reverse.1 (mem_of_find h)

theorem mem_names_ofList_iff {rows : List (String × α)} {name : String} :
    name ∈ (ofList rows).names ↔ name ∈ rows.map Prod.fst := by
  rw [mem_names_iff, get?_ofList, find_isSome_iff, List.map_reverse, List.mem_reverse]

theorem get?_ofList_eq_none_iff {rows : List (String × α)} {name : String} :
    (ofList rows).get? name = none ↔ name ∉ rows.map Prod.fst := by
  rw [← mem_names_ofList_iff, mem_names_iff, Option.not_isSome_iff_eq_none]

/-- **Of two tables one over the other**, the upper counts where it has a value. -/
theorem get?_ofList_append (xs ys : List (String × α)) (name : String) :
    (ofList (xs ++ ys)).get? name = ((ofList ys).get? name).or ((ofList xs).get? name) := by
  rw [get?_ofList, get?_ofList, get?_ofList, List.reverse_append, find_append]

theorem get?_ofList_append_of_not_mem {xs ys : List (String × α)} {name : String}
    (h : name ∉ ys.map Prod.fst) : (ofList (xs ++ ys)).get? name = (ofList xs).get? name := by
  rw [get?_ofList_append, get?_ofList_eq_none_iff.2 h, Option.none_or]

theorem get?_ofList_append_of_some {xs ys : List (String × α)} {name : String} {value : α}
    (h : (ofList ys).get? name = some value) : (ofList (xs ++ ys)).get? name = some value := by
  rw [get?_ofList_append, h, Option.some_or]

/-! ## Mapping -/

/-- The rows with their values changed, stopping at the first failure. -/
def mapRows {ε : Type} (f : String → α → Except ε β) :
    List (String × α) → Except ε (List (String × β))
  | [] => .ok []
  | (k, v) :: r =>
    match f k v, mapRows f r with
    | .error e, _ => .error e
    | .ok _, .error e => .error e
    | .ok w, .ok r' => .ok ((k, w) :: r')

theorem names_mapRows {ε : Type} {f : String → α → Except ε β} {rows : List (String × α)}
    {out : List (String × β)} (h : mapRows f rows = .ok out) :
    out.map Prod.fst = rows.map Prod.fst := by
  induction rows generalizing out with
  | nil => cases h; rfl
  | cons row rows ih =>
    obtain ⟨k, v⟩ := row
    simp only [mapRows] at h
    split at h
    · cases h
    · cases h
    · rename_i w r' _ hr
      cases h
      simp [ih hr]

theorem ordered_mapRows {ε : Type} {f : String → α → Except ε β} {rows : List (String × α)}
    {out : List (String × β)} (h : mapRows f rows = .ok out)
    (ho : rows.Pairwise fun a b => a.1 < b.1) : out.Pairwise fun a b => a.1 < b.1 := by
  have hp : (rows.map Prod.fst).Pairwise (· < ·) := List.pairwise_map.2 ho
  rw [← names_mapRows h] at hp
  exact List.pairwise_map.1 hp

/-- Change every value, in order of the names, stopping at the first failure. -/
def mapM {ε : Type} (t : NameTable α) (f : String → α → Except ε β) : Except ε (NameTable β) :=
  match h : mapRows f t.entries with
  | .ok rows => .ok ⟨rows, ordered_mapRows h t.ordered⟩
  | .error e => .error e

theorem names_of_mapM {ε : Type} {t : NameTable α} {f : String → α → Except ε β}
    {u : NameTable β} (h : t.mapM f = .ok u) : u.names = t.names := by
  unfold mapM at h
  split at h
  · rename_i rows hr
    cases h
    exact names_mapRows hr
  · cases h

theorem find_mapRows {ε : Type} {f : String → α → Except ε β} {rows : List (String × α)}
    {out : List (String × β)} (h : mapRows f rows = .ok out) (name : String) (w : β) :
    find name out = some w ↔ ∃ v, find name rows = some v ∧ f name v = .ok w := by
  induction rows generalizing out with
  | nil => cases h; simp [find]
  | cons row rows ih =>
    obtain ⟨k, v⟩ := row
    simp only [mapRows] at h
    split at h
    · cases h
    · cases h
    · rename_i w' r' hf hr
      cases h
      by_cases hk : k = name
      · subst hk
        simp [find, hf]
      · simp only [find, hk, if_false]
        exact ih hr

/-- **The values of a changed table** are those that the change makes. -/
theorem get?_of_mapM {ε : Type} {t : NameTable α} {f : String → α → Except ε β}
    {u : NameTable β} (h : t.mapM f = .ok u) (name : String) (w : β) :
    u.get? name = some w ↔ ∃ v, t.get? name = some v ∧ f name v = .ok w := by
  unfold mapM at h
  split at h
  · rename_i rows hr
    cases h
    exact find_mapRows hr name w
  · cases h

theorem exists_mapRows_iff {ε : Type} {f : String → α → Except ε β} {rows : List (String × α)} :
    (∃ out, mapRows f rows = .ok out) ↔ ∀ x ∈ rows, ∃ w, f x.1 x.2 = .ok w := by
  induction rows with
  | nil => simp [mapRows]
  | cons row rows ih =>
    obtain ⟨k, v⟩ := row
    rw [List.forall_mem_cons, ← ih]
    cases hf : f k v <;> cases hr : mapRows f rows <;> simp [mapRows, hf, hr]

theorem mapM_eq_map {ε : Type} (t : NameTable α) (f : String → α → Except ε β) :
    t.mapM f = (mapRows f t.entries).map ofList := by
  unfold mapM
  split
  · rename_i rows hr
    rw [← ofList_of_ordered (ordered_mapRows hr t.ordered), hr]
    rfl
  · rename_i e he
    rw [he]
    rfl

/-- A table can be changed iff each of its values can. -/
theorem exists_mapM_iff {ε : Type} {t : NameTable α} {f : String → α → Except ε β} :
    (∃ u, t.mapM f = .ok u) ↔ ∀ name v, t.get? name = some v → ∃ w, f name v = .ok w := by
  have hrows : (∃ u, t.mapM f = .ok u) ↔ ∃ out, mapRows f t.entries = .ok out := by
    unfold mapM
    constructor
    · rintro ⟨u, h⟩
      split at h
      · rename_i rows hr
        exact ⟨rows, hr⟩
      · cases h
    · rintro ⟨out, hout⟩
      split
      · exact ⟨_, rfl⟩
      · rename_i e he
        rw [hout] at he
        cases he
  rw [hrows, exists_mapRows_iff]
  constructor
  · intro h name v hv
    exact h (name, v) ((find_eq_some_iff t.ordered).1 hv)
  · intro h x hx
    exact h x.1 x.2 ((find_eq_some_iff t.ordered).2 hx)

end NameTable

end Transcode
