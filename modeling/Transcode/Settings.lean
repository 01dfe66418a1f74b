/-
  Transcode — partial sets of settings.

  A `Settings` gives some of the settings a value: it is what a preset, a
  configuration and a caller each contribute.  The view is `get?`, and two sets
  with the same view are equal (`Settings.ext`).

  * `layeredOn` lays one set on another: `get?_layeredOn`;
  * `fill` gives a value to a setting that has none: `get?_fill`;
  * `toList` lists the settings that have a value, in profile order.
-/
import Transcode.Setting
import Transcode.Value

namespace Transcode

/-- Values for some of the settings. -/
@[ext] structure Settings where
  get? : Setting → Option Value

namespace Settings

/-- No values. -/
def empty : Settings := ⟨fun _ => none⟩

instance : EmptyCollection Settings := ⟨empty⟩
instance : Inhabited Settings := ⟨empty⟩

/-- Whether a setting has a value. -/
def contains (m : Settings) (s : Setting) : Bool :=
  (m.get? s).isSome

/-- Give a setting a value, in place of the one it may have. -/
def insert (m : Settings) (s : Setting) (v : Value) : Settings :=
  ⟨fun t => if t = s then some v else m.get? t⟩

/-- The values of pairs; the last pair of a setting counts. -/
def ofList (pairs : List (Setting × Value)) : Settings :=
  pairs.foldl (fun m p => m.insert p.1 p.2) empty

/-- The first set where it has values, the second elsewhere. -/
def layeredOn (upper lower : Settings) : Settings :=
  ⟨fun s => (upper.get? s).or (lower.get? s)⟩

/-- Give a setting a value unless it has one. -/
def fill (m : Settings) (s : Setting) (v : Value) : Settings :=
  ⟨fun t => if t = s then (m.get? t).or (some v) else m.get? t⟩

/-- The settings that have a value, in profile order. -/
def toList (m : Settings) : List (Setting × Value) :=
  Setting.all.filterMap fun s => (m.get? s).map (s, ·)

/-- How many settings have a value. -/
def size (m : Settings) : Nat :=
  m.toList.length

/-- Whether no setting has a value. -/
def isEmpty (m : Settings) : Bool :=
  m.toList.isEmpty

/-! ## The view of each operation -/

@[simp] theorem get?_empty (s : Setting) : empty.get? s = none := rfl

@[simp] theorem get?_insert (m : Settings) (s t : Setting) (v : Value) :
    (m.insert s v).get? t = if t = s then some v else m.get? t := rfl

@[simp] theorem get?_layeredOn (upper lower : Settings) (s : Setting) :
    (upper.layeredOn lower).get? s = (upper.get? s).or (lower.get? s) := rfl

@[simp] theorem get?_fill (m : Settings) (s t : Setting) (v : Value) :
    (m.fill s v).get? t = if t = s then (m.get? t).or (some v) else m.get? t := rfl

theorem get?_fill_or (m : Settings) (s t : Setting) (v : Value) :
    (m.fill s v).get? t = (m.get? t).or (if t = s then some v else none) := by
  rw [get?_fill]
  by_cases h : t = s <;> simp [h]

theorem get?_foldl_insert (pairs : List (Setting × Value)) (m : Settings) (s : Setting) :
    (pairs.foldl (fun m p => m.insert p.1 p.2) m).get? s =
      ((pairs.filter (·.1 = s)).getLast?.map Prod.snd).or (m.get? s) := by
  induction pairs generalizing m with
  | nil => rfl
  | cons p pairs ih =>
    rw [List.foldl_cons, ih, get?_insert, List.filter_cons]
    by_cases hp : s = p.1
    · subst hp
      cases h : (pairs.filter (·.1 = p.1)).getLast? <;> simp [List.getLast?_cons, h]
    · simp [hp, Ne.symm hp]

/-- **The last pair of a setting counts.** -/
theorem get?_ofList (pairs : List (Setting × Value)) (s : Setting) :
    (ofList pairs).get? s = (pairs.filter (·.1 = s)).getLast?.map Prod.snd := by
  rw [ofList, get?_foldl_insert, get?_empty, Option.or_none]

theorem mem_toList_iff {m : Settings} {s : Setting} {v : Value} :
    (s, v) ∈ m.toList ↔ m.get? s = some v := by
  simp only [toList, List.mem_filterMap, Option.map_eq_some_iff, Prod.mk.injEq]
  constructor
  · rintro ⟨t, _, w, hw, rfl, rfl⟩
    exact hw
  · intro h
    exact ⟨s, Setting.mem_all s, v, h, rfl, rfl⟩

theorem isEmpty_iff {m : Settings} : m.isEmpty = true ↔ m = empty := by
  rw [isEmpty, List.isEmpty_iff, List.eq_nil_iff_forall_not_mem]
  constructor
  · intro h
    ext1
    funext s
    exact Option.eq_none_iff_forall_ne_some.2 fun v hv => h (s, v) (mem_toList_iff.2 hv)
  · rintro rfl ⟨s, v⟩ hsv
    cases mem_toList_iff.1 hsv

theorem layeredOn_assoc (a b c : Settings) :
    (a.layeredOn b).layeredOn c = a.layeredOn (b.layeredOn c) := by
  ext1
  funext s
  simp [Option.or_assoc]

end Settings

end Transcode
