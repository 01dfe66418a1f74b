/-
  Transcode — which configurations are accepted.

  A configuration is workable if every preset table means an entry, the built-in
  table with these entries over it has no alias without an end, and the presets to
  encode are names in it, of which there is at least one.

  * `Config.Enters`: the entries of that table, read off the configuration;
  * `Config.validate_eq_ok_iff`: the workable configurations are those accepted;
  * `Config.accepted_plans`: presets of an accepted configuration are always found.
-/
import Transcode.Config.Load
import Transcode.Proofs.AliasChains
import Transcode.Proofs.Refusals

namespace Transcode

open Relation

/-! ## Preset tables -/

/-- What a table means: the alias that it is and nothing else, or the settings that it
    has, of which there are some. -/
inductive PresetTable.Means : PresetTable → PresetEntry → Prop
  | aliasOf (target : String) : Means ⟨some target, .empty⟩ (.aliasOf target)
  | settings (values : Settings) : values ≠ .empty → Means ⟨none, values⟩ (.settings values)

theorem PresetTable.toEntry_eq_ok_iff {t : PresetTable} {name : String} {entry : PresetEntry} :
    t.toEntry name = .ok entry ↔ t.Means entry := by
  obtain ⟨given, values⟩ := t
  constructor
  · intro h
    unfold toEntry at h
    split at h
    · cases h
    · next hgiven hempty =>
      cases h
      obtain rfl : given = _ := hgiven
      obtain rfl : values = .empty := Settings.isEmpty_iff.1 hempty
      exact .aliasOf _
    · cases h
    · next hgiven hfull =>
      cases h
      obtain rfl : given = none := hgiven
      refine .settings values fun hempty => ?_
      cases hfull.symm.trans (Settings.isEmpty_iff.2 hempty)
  · intro h
    cases h with
    | aliasOf target => rfl
    | settings values hne =>
      have hfull : values.isEmpty = false := Bool.eq_false_iff.2 (mt Settings.isEmpty_iff.1 hne)
      simp only [toEntry, hfull]

namespace Config

/-! ## The table of a configuration -/

/-- The entry of a name in the built-in table, replaced and extended by what the
    preset tables of a configuration mean. -/
inductive Enters (c : Config) (name : String) : PresetEntry → Prop
  | configured {t entry} : c.presets.get? name = some t → t.Means entry → Enters c name entry
  | builtin {entry} : c.presets.get? name = none →
      (NameTable.ofList Preset.builtin).get? name = some entry → Enters c name entry

/-- A name is an alias of another in the table of a configuration. -/
def Aliases (c : Config) (name target : String) : Prop :=
  c.Enters name (.aliasOf target)

/-- A name has an entry in the table of a configuration. -/
def Has (c : Config) (name : String) : Prop :=
  ∃ entry, c.Enters name entry

/-- What is asked of a configuration. -/
structure IsWorkable (c : Config) : Prop where
  /-- A preset table is an alias without settings, or has some. -/
  tables : ∀ name t, c.presets.get? name = some t → ∃ entry, t.Means entry
  attached : ∀ name target, c.Aliases name target → c.Has target
  acyclic : ∀ name, ¬ TransGen c.Aliases name name
  nonempty : c.encodePresets ≠ []
  registered : ∀ name ∈ c.encodePresets, c.Has name

variable {c : Config} {rows : List (String × PresetEntry)} {r : Registry} {name : String}
  {entry : PresetEntry}

theorem exists_entries_iff :
    (∃ rows, c.entries = .ok rows) ↔
      ∀ name t, c.presets.get? name = some t → ∃ entry, t.Means entry := by
  rw [entries, NameTable.exists_mapRows_iff]
  simp only [PresetTable.toEntry_eq_ok_iff]
  constructor
  · intro h name t ht
    exact h (name, t) ((NameTable.find_eq_some_iff c.presets.ordered).1 ht)
  · intro h x hx
    exact h x.1 x.2 ((NameTable.find_eq_some_iff c.presets.ordered).2 hx)

theorem find_entries (hrows : c.entries = .ok rows) :
    NameTable.find name rows = some entry ↔
      ∃ t, c.presets.get? name = some t ∧ t.Means entry := by
  rw [NameTable.find_mapRows hrows]
  simp only [PresetTable.toEntry_eq_ok_iff]
  rfl

theorem get?_extended (hrows : c.entries = .ok rows) :
    (NameTable.ofList (Preset.builtin ++ rows)).get? name = some entry ↔ c.Enters name entry := by
  have hordered : rows.Pairwise fun a b => a.1 < b.1 :=
    NameTable.ordered_mapRows hrows c.presets.ordered
  rw [NameTable.get?_ofList_append, NameTable.get?_ofList rows, NameTable.find_reverse hordered]
  cases hf : NameTable.find name rows with
  | some found =>
    obtain ⟨t, ht, hm⟩ := (find_entries hrows).1 hf
    constructor
    · intro h
      cases h
      exact .configured ht hm
    · intro h
      cases h with
      | configured ht' hm' =>
        rw [Option.some_or, ← hf]
        exact (find_entries hrows).2 ⟨_, ht', hm'⟩
      | builtin hnone => cases hnone.symm.trans ht
  | none =>
    have hnone : c.presets.get? name = none := by
      refine Option.eq_none_iff_forall_ne_some.2 fun t ht => ?_
      -- Every table has an entry, for otherwise there would be no rows.
      obtain ⟨found, hm⟩ := exists_entries_iff.1 ⟨rows, hrows⟩ name t ht
      cases hf.symm.trans ((find_entries hrows).2 ⟨t, ht, hm⟩)
    rw [Option.none_or]
    constructor
    · exact .builtin hnone
    · intro h
      cases h with
      | configured ht _ => cases hnone.symm.trans ht
      | builtin _ hb => exact hb

theorem mem_names_extended (hrows : c.entries = .ok rows) :
    name ∈ (NameTable.ofList (Preset.builtin ++ rows)).names ↔ c.Has name := by
  rw [NameTable.mem_names_iff_exists]
  exact exists_congr fun _ => get?_extended hrows

theorem aliasStep_extended (hrows : c.entries = .ok rows) :
    AliasStep (NameTable.ofList (Preset.builtin ++ rows)) = c.Aliases := by
  funext name target
  exact propext (get?_extended hrows)

/-- **A configuration has a registry** iff every table means an entry, and no alias
    of the table that they make is of a name without entry or comes back. -/
theorem exists_registry_iff :
    (∃ r, c.registry = .ok r) ↔
      (∀ name t, c.presets.get? name = some t → ∃ entry, t.Means entry) ∧
        (∀ name target, c.Aliases name target → c.Has target) ∧
          ∀ name, ¬ TransGen c.Aliases name name := by
  have hextend : ∀ rows, c.entries = .ok rows → ((∃ r, Registry.extend rows = .ok r) ↔
      (∀ name target, c.Aliases name target → c.Has target) ∧
        ∀ name, ¬ TransGen c.Aliases name name) := by
    intro rows hrows
    rw [Registry.extend, Registry.exists_ofEntries_iff, forall_leads_iff,
      aliasStep_extended hrows]
    simp only [mem_names_extended hrows]
  simp only [registry_eq_ok_iff, ← exists_entries_iff]
  constructor
  · rintro ⟨r, rows, hrows, hr⟩
    exact ⟨⟨rows, hrows⟩, (hextend rows hrows).1 ⟨r, hr⟩⟩
  · rintro ⟨⟨rows, hrows⟩, h⟩
    obtain ⟨r, hr⟩ := (hextend rows hrows).2 h
    exact ⟨r, rows, hrows, hr⟩

theorem contains_registry_iff (hr : c.registry = .ok r) : r.contains name = true ↔ c.Has name := by
  obtain ⟨rows, hrows, hext⟩ := registry_eq_ok_iff.1 hr
  rw [← mem_names_extended hrows, ← Registry.names_of_ofEntries hext]
  exact NameTable.mem_names_iff.symm

/-! ## Accepting a configuration -/

theorem validate_eq_ok_iff_registry :
    c.validate = .ok () ↔ ∃ r, c.registry = .ok r ∧ c.encodePresets ≠ [] ∧
      ∀ name ∈ c.encodePresets, r.contains name = true := by
  unfold validate
  cases c.registry with
  | error e => simp
  | ok r =>
    by_cases hnil : c.encodePresets = []
    · simp [hnil]
    · dsimp only
      rw [if_neg (mt List.isEmpty_iff.1 hnil)]
      cases hfind : c.encodePresets.find? (!r.contains ·) with
      | none =>
        rw [List.find?_eq_none] at hfind
        simpa [hnil] using hfind
      | some name =>
        have hname : r.contains name = false := by simpa using List.find?_some hfind
        simp only [reduceCtorEq, false_iff]
        rintro ⟨_, h, -, hall⟩
        cases h
        rw [hall name (List.mem_of_find?_eq_some hfind)] at hname
        cases hname

/-- **The configurations accepted are the workable ones.** -/
theorem validate_eq_ok_iff : c.validate = .ok () ↔ c.IsWorkable := by
  rw [validate_eq_ok_iff_registry]
  constructor
  · rintro ⟨r, hr, hnil, hall⟩
    obtain ⟨htables, hattached, hacyclic⟩ := exists_registry_iff.1 ⟨r, hr⟩
    refine ⟨htables, hattached, hacyclic, hnil, ?_⟩
    intro name hname
    exact (contains_registry_iff hr).1 (hall name hname)
  · intro h
    obtain ⟨r, hr⟩ := exists_registry_iff.2 ⟨h.tables, h.attached, h.acyclic⟩
    refine ⟨r, hr, h.nonempty, ?_⟩
    intro name hname
    exact (contains_registry_iff hr).2 (h.registered name hname)

theorem load_eq_ok_iff {h : Host} {d : Disk} {p : Path} {text : String}
    (hread : h.readText d p = .ok text) (hparse : ofText text = .ok c) :
    load h d p = .ok c ↔ c.validate = .ok () := by
  simp only [load, hread, hparse]
  cases c.validate with
  | error e => simp
  | ok u => simp

end Config

/-! ## Planning what is configured -/

namespace Studio

variable {s : Studio} {input dir : Path} {presets : List String} {overrides : Settings}
  {source : Source} {f : Failure}

/-- A plan fails with the error of a preset that is not compiled. -/
theorem exists_of_plan_eq_error (h : s.plan input dir presets overrides source = .error f) :
    ∃ name ∈ presets, ∃ e, f.cause = .compile e ∧
      s.encoder.compile (s.request input dir overrides source name) = .error e := by
  obtain ⟨before, name, after, rfl, -, hname⟩ := mapM_eq_error_iff.1 h
  refine ⟨name, by simp, ?_⟩
  unfold job at hname
  cases hc : s.encoder.compile (s.request input dir overrides source name) with
  | ok command =>
    simp only [hc] at hname
    cases hname
  | error e =>
    simp only [hc] at hname
    cases hname
    exact ⟨e, rfl, rfl⟩

theorem plan_ne_unknownPreset (hall : ∀ name ∈ presets, s.encoder.registry.contains name = true)
    (h : s.plan input dir presets overrides source = .error f) (name : String) :
    f.cause ≠ .compile (.unknownPreset name) := by
  intro hcause
  obtain ⟨preset, hmem, e, he, hcompile⟩ := exists_of_plan_eq_error h
  cases he.symm.trans hcause
  obtain ⟨hnot, -⟩ := Encoder.compile_eq_unknownPreset_iff.1 hcompile
  exact hnot (NameTable.mem_names_iff.2 (hall preset hmem))

end Studio

namespace Config

/-- **What is accepted can be worked with.**  A configuration is accepted iff it is
    workable, also when it is loaded; then it has a studio, which finds all presets
    that the configuration encodes, whatever they are planned for. -/
theorem accepted_plans (c : Config) :
    (c.validate = .ok () ↔ c.IsWorkable) ∧
    (∀ h d p text, h.readText d p = .ok text → ofText text = .ok c →
      (load h d p = .ok c ↔ c.IsWorkable)) ∧
    (c.validate = .ok () → ∀ h d, ∃ s, Studio.ofConfig h d c = .ok s ∧
      (∀ name, s.encoder.registry.contains name = true ↔ c.Has name) ∧
      ∀ input dir overrides source f,
        s.plan input dir c.encodePresets overrides source = .error f →
          ∀ name, f.cause ≠ .compile (.unknownPreset name)) := by
  refine ⟨validate_eq_ok_iff, ?_, ?_⟩
  · intro h d p text hread hparse
    rw [load_eq_ok_iff hread hparse, validate_eq_ok_iff]
  · intro hc h d
    obtain ⟨r, hr, -, hall⟩ := validate_eq_ok_iff_registry.1 hc
    refine ⟨_, map_eq_ok_iff.2 ⟨r, hr, rfl⟩, fun name => contains_registry_iff hr, ?_⟩
    intro input dir overrides source f hf name
    exact Studio.plan_ne_unknownPreset hall hf name

/-- A configuration with a preset, and an alias in place of the one that `default`
    stands for. -/
def replacing (target : String) : String :=
  "[presets.small]\nwidth = 320\n[presets.w768]\nalias = \"" ++ target ++ "\"\n"

/-- A disk with only that configuration. -/
def replacingDisk (target : String) : Disk :=
  ⟨[([Text.encode "mp4forge.toml"], .file (Text.encode (replacing target)))]⟩

theorem accepted_plans_replacing :
    (∃ c s, load .bare (replacingDisk "small") "mp4forge.toml" = .ok c ∧
      c.encodePresets = ["default"] ∧ c.IsWorkable ∧
      Studio.ofConfig .bare (replacingDisk "small") c = .ok s ∧
      (∀ name, s.encoder.registry.contains name = true ↔ c.Has name) ∧
      ∀ input dir overrides source f,
        s.plan input dir c.encodePresets overrides source = .error f →
          ∀ name, f.cause ≠ .compile (.unknownPreset name)) ∧
    ∃ c, ofText (replacing "default") = .ok c ∧ ¬ c.IsWorkable := by
  have hread : (Host.bare.readText (replacingDisk "small") "mp4forge.toml").toOption =
      some (replacing "small") := by decide +kernel
  have hsmall : ((ofText (replacing "small")).toOption.map fun c =>
      (c.validate.isOk, c.encodePresets)) = some (true, ["default"]) := by decide +kernel
  have hloop : ((ofText (replacing "default")).toOption.map fun c => c.validate.isOk) =
      some false := by decide +kernel
  obtain ⟨c, hc, hsmall⟩ := Option.map_eq_some_iff.1 hsmall
  obtain ⟨hok, hpresets⟩ := Prod.mk.inj hsmall
  obtain ⟨c', hc', hloop⟩ := Option.map_eq_some_iff.1 hloop
  have hc := toOption_eq_some_iff.1 hc
  obtain ⟨⟨⟩, hvalid⟩ := isOk_iff.1 hok
  obtain ⟨haccept, hload, hstudio⟩ := accepted_plans c
  obtain ⟨haccept', -⟩ := accepted_plans c'
  obtain ⟨s, hs, hcontains, hplan⟩ := hstudio hvalid .bare (replacingDisk "small")
  have hwork : c.IsWorkable := haccept.1 hvalid
  refine ⟨⟨c, s, ?_, hpresets, hwork, hs, hcontains, hplan⟩, c', toOption_eq_some_iff.1 hc', ?_⟩
  · exact (hload _ _ _ _ (toOption_eq_some_iff.1 hread) hc).2 hwork
  · intro hwork
    rw [haccept'.2 hwork] at hloop
    cases hloop

end Config

end Transcode
