/-
  Transcode — settings that are read back.

  A value is written without its kind, and its kind is told from the notation: a float
  is written with a point or an exponent, a whole number with neither, a text in quotes
  and a list in brackets.  So settings are read back from JSON as they were written, and
  a preset table with them, whose alias is a row like theirs.

  * `Value.ofDocument?_toDocument`, `Settings.ofDocument?_toDocument`,
    `PresetTable.ofDocument?_toDocument`: what is read from a document;
  * `Settings.faithful_toDocument`: the documents of settings lose nothing in JSON, if
    the floats in them do not;
  * `settings_read_back`: so both are read back.
-/
import Transcode.Config
import Transcode.Proofs.WrittenJson

namespace Transcode

/-! ## Floats -/

/-- The float that a document is. -/
def Document.float? : Document → Option Binary64
  | .float x => some x
  | _ => none

theorem Binary64.readsBack_iff (x : Binary64) :
    (Document.ofJson? (Document.float x).compact).bind Document.float? = some x ↔ x.ReadsBack := by
  unfold ReadsBack
  cases Document.ofJson? (Document.float x).compact with
  | none => simp
  | some d => cases d <;> simp [Document.float?]

instance (x : Binary64) : Decidable x.ReadsBack :=
  decidable_of_iff _ x.readsBack_iff

/-! ## Values -/

namespace Value

/-- The floats in a value. -/
def floats : Value → List Binary64
  | float x => [x]
  | list xs => xs
  | _ => []

theorem ofDocument?_toDocument (v : Value) : ofDocument? v.toDocument = some v := by
  cases v with
  | flag b => rfl
  | integer n =>
    have hlow : least ≤ n.toInt := n.le_toInt
    have hhigh : n.toInt ≤ greatest := Int.le_of_lt_add_one n.toInt_lt
    rw [toDocument, ofDocument?, if_pos ⟨hlow, hhigh⟩, Int64.ofInt_toInt]
  | float x => rfl
  | text s => rfl
  | list xs =>
    rw [toDocument, ofDocument?, mapM_map_eq_some (f := Document.float) fun _ => rfl]
    rfl

theorem faithful_toDocument {v : Value} (h : ∀ x ∈ v.floats, x.ReadsBack) :
    v.toDocument.Faithful := by
  cases v with
  | flag b => exact .flag b
  | integer n =>
    have hlow : least ≤ n.toInt := n.le_toInt
    have hhigh : n.toInt < greatest + 1 := n.toInt_lt
    refine .integer ⟨hlow, ?_⟩
    unfold greatest at hhigh
    unfold Json.Number.leadingLimit
    omega
  | float x => exact .float (h x List.mem_cons_self)
  | text s => exact .text s
  | list xs =>
    refine .list ?_
    intro d hd
    obtain ⟨x, hx, rfl⟩ := List.mem_map.1 hd
    exact .float (h x hx)

end Value

/-! ## Settings -/

namespace Settings

/-- The floats in some settings. -/
def floats (m : Settings) : List Binary64 :=
  m.toList.flatMap fun entry => entry.2.floats

/-- Pairs that are the values of some settings, in whatever order, make those settings. -/
theorem ofList_of_mem_iff {pairs : List (Setting × Value)} {m : Settings}
    (h : ∀ s v, (s, v) ∈ pairs ↔ m.get? s = some v) : ofList pairs = m := by
  ext1
  funext t
  have hvalue : ∀ q ∈ pairs.filter (·.1 = t), m.get? t = some q.2 := by
    rintro ⟨s, v⟩ hq
    obtain ⟨hmem, heq⟩ := List.mem_filter.1 hq
    obtain rfl : s = t := of_decide_eq_true heq
    exact (h s v).1 hmem
  rw [get?_ofList]
  cases hlast : (pairs.filter (·.1 = t)).getLast? with
  | some q => exact (hvalue q (List.mem_of_getLast? hlast)).symm
  | none =>
    rw [List.getLast?_eq_none_iff] at hlast
    cases hget : m.get? t with
    | none => rfl
    | some v =>
      have hmem : (t, v) ∈ pairs.filter (·.1 = t) :=
        List.mem_filter.2 ⟨(h t v).2 hget, decide_eq_true rfl⟩
      rw [hlast] at hmem
      cases hmem

theorem ofList_toList (m : Settings) : ofList m.toList = m :=
  ofList_of_mem_iff fun _ _ => mem_toList_iff

/-- The rows of some settings. -/
def rows (m : Settings) : List (String × Document) :=
  m.toList.map fun entry => (entry.1.name, entry.2.toDocument)

theorem ofRow?_row (entry : Setting × Value) :
    ofRow? (entry.1.name, entry.2.toDocument) = some entry := by
  simp only [ofRow?, Setting.named?_name, Value.ofDocument?_toDocument]

theorem ofRows?_rows (m : Settings) : ofRows? m.rows = some m := by
  rw [ofRows?, rows, mapM_map_eq_some ofRow?_row, Option.map_some, ofList_toList]

theorem ofDocument?_toDocument (m : Settings) : ofDocument? m.toDocument = some m :=
  ofRows?_rows m

theorem faithful_rows {m : Settings} (h : ∀ x ∈ m.floats, x.ReadsBack) :
    ∀ row ∈ m.rows, row.2.Faithful := by
  intro row hrow
  obtain ⟨entry, hentry, rfl⟩ := List.mem_map.1 hrow
  exact Value.faithful_toDocument fun x hx => h x (List.mem_flatMap.2 ⟨entry, hentry, hx⟩)

theorem faithful_toDocument {m : Settings} (h : ∀ x ∈ m.floats, x.ReadsBack) :
    m.toDocument.Faithful :=
  .table (faithful_rows h)

end Settings

/-! ## Preset tables -/

namespace PresetTable

/-- The row of an alias, if there is one. -/
def aliasRows (t : PresetTable) : List (String × Document) :=
  (t.aliasOf.map fun a => (aliasKey, .text a)).toList

/-- No setting is called what an alias is. -/
theorem name_ne_aliasKey (s : Setting) : s.name ≠ aliasKey := by
  cases s <;> decide

theorem row?_aliasKey (t : PresetTable) :
    Record.row? (t.aliasRows ++ t.settings.rows) aliasKey = some (t.aliasOf.map .text) := by
  have hrows : t.settings.rows.filter (·.1 = aliasKey) = [] := by
    refine List.filter_eq_nil_iff.2 ?_
    intro row hrow
    obtain ⟨entry, -, rfl⟩ := List.mem_map.1 hrow
    simpa using name_ne_aliasKey entry.1
  rw [Record.row?, List.filter_append, hrows, List.append_nil, aliasRows]
  cases t.aliasOf with
  | none => rfl
  | some a => rfl

theorem filter_ne_aliasKey (t : PresetTable) :
    (t.aliasRows ++ t.settings.rows).filter (·.1 ≠ aliasKey) = t.settings.rows := by
  have hrows : t.settings.rows.filter (·.1 ≠ aliasKey) = t.settings.rows := by
    refine List.filter_eq_self.2 ?_
    intro row hrow
    obtain ⟨entry, -, rfl⟩ := List.mem_map.1 hrow
    simpa using name_ne_aliasKey entry.1
  rw [List.filter_append, hrows, aliasRows]
  cases t.aliasOf with
  | none => rfl
  | some a => rfl

theorem ofDocument?_toDocument (t : PresetTable) : ofDocument? t.toDocument = some t := by
  show (Record.row? (t.aliasRows ++ t.settings.rows) aliasKey >>= fun given =>
    Settings.ofRows? ((t.aliasRows ++ t.settings.rows).filter (·.1 ≠ aliasKey)) >>= _) = _
  rw [row?_aliasKey, filter_ne_aliasKey, Settings.ofRows?_rows]
  obtain ⟨aliasOf, m⟩ := t
  cases aliasOf with
  | none => rfl
  | some a => rfl

theorem faithful_toDocument {t : PresetTable} (h : ∀ x ∈ t.settings.floats, x.ReadsBack) :
    t.toDocument.Faithful := by
  refine .table ?_
  intro row hrow
  rcases List.mem_append.1 hrow with hrow | hrow
  · obtain ⟨a, -, rfl⟩ := Option.map_eq_some_iff.1 (Option.mem_toList.1 hrow)
    exact .text a
  · exact Settings.faithful_rows h row hrow

end PresetTable

/-- **Settings are read back as they were written.**  Whatever the texts, the whole
    numbers and the lists in them: if the floats are finite, and each of them is read
    back by itself, then all of it is; and so is a preset table, with its alias. -/
theorem settings_read_back :
    (∀ m : Settings, (∀ x ∈ m.floats, x.isFinite = true) →
      (∀ x ∈ m.floats, x.isFinite = true → x.ReadsBack) →
        (Document.ofJson? m.toDocument.compact).bind Settings.ofDocument? = some m ∧
        (Document.ofJson? m.toDocument.pretty).bind Settings.ofDocument? = some m) ∧
    ∀ t : PresetTable, (∀ x ∈ t.settings.floats, x.isFinite = true) →
      (∀ x ∈ t.settings.floats, x.isFinite = true → x.ReadsBack) →
        (Document.ofJson? t.toDocument.compact).bind PresetTable.ofDocument? = some t ∧
        (Document.ofJson? t.toDocument.pretty).bind PresetTable.ofDocument? = some t := by
  constructor
  · intro m hfinite hback
    have hm := Settings.faithful_toDocument fun x hx => hback x hx (hfinite x hx)
    constructor
    · rw [Document.compact, Document.ofJson?_written hm, Option.bind_some]
      exact m.ofDocument?_toDocument
    · rw [Document.pretty, Document.ofJson?_written hm, Option.bind_some]
      exact m.ofDocument?_toDocument
  · intro t hfinite hback
    have ht := PresetTable.faithful_toDocument fun x hx => hback x hx (hfinite x hx)
    constructor
    · rw [Document.compact, Document.ofJson?_written ht, Option.bind_some]
      exact t.ofDocument?_toDocument
    · rw [Document.pretty, Document.ofJson?_written ht, Option.bind_some]
      exact t.ofDocument?_toDocument

/-- Texts that look like other values, a list of nothing, and numbers of all sorts. -/
def lookalikes : Settings :=
  .ofList [(.timeOffset, .float (.zero true)), (.duration, .float (.ofNat 100000000000000000000)),
    (.audioSync, .integer (-9223372036854775808)), (.width, .float (.ofNat 640)),
    (.aspectRatio, .text "25"), (.constantBitRate, .text "true"), (.gopDuration, .list []),
    (.frameRate, .list [.ofFraction false 2997 100, .ofNat 25]),
    (.videoFilter, .text "say=\"\\\"\n\x01ü")]

theorem settings_read_back_lookalikes :
    (∀ x ∈ lookalikes.floats, x.isFinite = true ∧ x.ReadsBack) ∧
    (Document.ofJson? lookalikes.toDocument.compact).bind Settings.ofDocument? =
      some lookalikes ∧
    (Document.ofJson? (PresetTable.mk (some "other") lookalikes).toDocument.compact).bind
      PresetTable.ofDocument? = some ⟨some "other", lookalikes⟩ := by
  have hfloats : ∀ x ∈ lookalikes.floats, x.isFinite = true ∧ x.ReadsBack := by decide +kernel
  obtain ⟨hsettings, htable⟩ := settings_read_back
  refine ⟨hfloats, ?_, ?_⟩
  · exact (hsettings lookalikes (fun x hx => (hfloats x hx).1) fun x hx _ => (hfloats x hx).2).1
  · exact (htable ⟨some "other", lookalikes⟩ (fun x hx => (hfloats x hx).1)
      fun x hx _ => (hfloats x hx).2).1

end Transcode
