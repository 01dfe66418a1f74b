/-
  Transcode — presets by name.

  An entry of a preset table has settings of its own or is an alias, a name that
  stands for another entry.  `Registry.ofEntries` resolves every alias once and
  for all; it fails, at the first name whose aliases lead nowhere, with the step
  that leaves the table or with the chain that comes back to itself.

  * `chase` follows the aliases from an entry: it ends because no name comes twice;
  * `Registry.lookup` finds the resolved preset of a name.
-/
import Transcode.NameTable
import Transcode.CompileError

namespace Transcode

/-- One entry of a preset table. -/
inductive PresetEntry where
  | settings (values : Settings)
  | aliasOf (target : String)

/-- A preset whose aliases have been followed. -/
structure Preset where
  /-- The name that it is found by. -/
  name : String
  /-- The entry at the end of the aliases, when the name is one. -/
  aliasOf : Option String
  settings : Settings

/-- The names of a table that are not among those seen. -/
def unseen (t : NameTable PresetEntry) (seen : List String) : List String :=
  t.names.filter (· ∉ seen)

theorem unseen_cons (t : NameTable PresetEntry) (seen : List String) (name : String) :
    unseen t (name :: seen) = (unseen t seen).filter (· ≠ name) := by
  simp only [unseen, List.filter_filter]
  congr 1
  funext x
  simp [not_or]

theorem length_unseen_cons {t : NameTable PresetEntry} {seen : List String} {name : String}
    (h : name ∉ seen) (ht : name ∈ t.names) :
    (unseen t (name :: seen)).length < (unseen t seen).length := by
  rw [unseen_cons, List.length_filter_lt_length_iff_exists]
  exact ⟨name, by simp [unseen, h, ht], by simp⟩

/-- Follow the aliases from the entry of `current`, which was reached by way of
    `seen`, the latest first: the name and the settings at the end. -/
def chase (t : NameTable PresetEntry) (seen : List String) (current : String) :
    PresetEntry → Except CompileError (String × Settings)
  | .settings values => .ok (current, values)
  | .aliasOf target =>
    if _hs : target ∈ current :: seen then
      .error (.aliasCycle (target :: current :: seen).reverse)
    else match _h : t.get? target with
      | none => .error (.danglingAlias current target)
      | some entry => chase t (current :: seen) target entry
  termination_by (unseen t (current :: seen)).length
  decreasing_by exact length_unseen_cons _hs (NameTable.mem_names_iff.2 (by simp [_h]))

/-- The preset of an entry of a table. -/
def Preset.ofEntry (t : NameTable PresetEntry) (name : String) (entry : PresetEntry) :
    Except CompileError Preset :=
  (chase t [] name entry).map fun (target, values) =>
    ⟨name, if target = name then none else some target, values⟩

/-- Resolved presets by name. -/
structure Registry where
  presets : NameTable Preset

namespace Registry

/-- The registry of some entries; the last entry of a name counts. -/
def ofEntries (rows : List (String × PresetEntry)) : Except CompileError Registry :=
  let t := NameTable.ofList rows
  (t.mapM (Preset.ofEntry t)).map Registry.mk

/-- The preset of a name. -/
def lookup (r : Registry) (name : String) : Except CompileError Preset :=
  match r.presets.get? name with
  | some p => .ok p
  | none => .error (.unknownPreset name)

/-- Whether a name has a preset. -/
def contains (r : Registry) (name : String) : Bool :=
  r.presets.contains name

theorem lookup_eq_ok_iff {r : Registry} {name : String} {p : Preset} :
    r.lookup name = .ok p ↔ r.presets.get? name = some p := by
  unfold lookup
  cases r.presets.get? name <;> simp

theorem lookup_of_contains {r : Registry} {name : String} (h : r.contains name = true) :
    ∃ p, r.lookup name = .ok p := by
  obtain ⟨p, hp⟩ := Option.isSome_iff_exists.1 h
  exact ⟨p, lookup_eq_ok_iff.2 hp⟩

/-- The names of the presets, in increasing order. -/
def names (r : Registry) : List String :=
  r.presets.names

/-- The presets, in the order of their names. -/
def toList (r : Registry) : List Preset :=
  r.presets.entries.map Prod.snd

/-- How many presets there are. -/
def size (r : Registry) : Nat :=
  r.presets.size

end Registry

end Transcode
