/-
  Transcode — the marks in the listing of a preset.

  A row of the listing is marked as a default when the preset does not give its setting.
  What is configured is not asked, so the mark is on the defaults and also on what
  nothing but the configured overrides give.

  * `Layers.Lists`: the rows that the layers say there are (`Layers.lists_iff`);
  * `listed_by_layers`: those are the rows of the listing, and but for overrides of what
    the preset does not give the marks tell the defaults from the rest.
-/
import Transcode.Proofs.Layers

namespace Transcode

theorem Settings.map_fst_toList (m : Settings) :
    m.toList.map Prod.fst = Setting.all.filter fun t => (m.get? t).isSome := by
  have hrow : ∀ t, ((m.get? t).map (t, ·)).map Prod.fst =
      Option.guard (fun t => (m.get? t).isSome) t := by
    intro t
    cases ht : m.get? t <;> simp [Option.guard, ht]
  rw [toList, List.map_filterMap, funext hrow, List.filterMap_eq_filter]

/-- A row of the listing of a preset: a setting with its value, marked as a default or
    not. -/
structure ListedRow where
  setting : Setting
  value : Value
  marked : Bool

namespace ListedRow

/-- The line of a row. -/
def line (r : ListedRow) : String :=
  s!"  {Program.padded 20 r.setting.name} {r.value.plain}" ++
    if r.marked then Program.defaultMark else ""

/-- The row of a setting of a profile. -/
def ofPreset (q : Preset) (row : Setting × Value) : ListedRow :=
  ⟨row.1, row.2, (q.settings.get? row.1).isNone⟩

theorem line_ofPreset (q : Preset) (row : Setting × Value) :
    (ofPreset q row).line = Program.settingLine q row := by
  rw [line, Program.settingLine, ofPreset, Settings.contains]
  cases q.settings.get? row.1 <;> rfl

end ListedRow

namespace Layers

/-- The rows that layers without assignments have: an override is marked unless the
    preset gives the setting too, what the preset gives is not, and a default is. -/
inductive Lists (l : Layers) : ListedRow → Prop where
  | configured {t : Setting} {v : Value} (h : l.configured.get? t = some v) :
      Lists l ⟨t, v, (l.preset.get? t).isNone⟩
  | preset {t : Setting} {v : Value} (hc : l.configured.get? t = none)
      (h : l.preset.get? t = some v) : Lists l ⟨t, v, false⟩
  | default {t : Setting} {v : Value} (hc : l.configured.get? t = none)
      (hp : l.preset.get? t = none) (h : l.default t = some v) : Lists l ⟨t, v, true⟩

variable {l : Layers} {r : ListedRow}

theorem given_of_nil (hl : l.assignments = []) (t : Setting) :
    l.given t = (l.configured.get? t).or (l.preset.get? t) := by
  rw [given, assigned, hl]
  rfl

/-- **The layers list every setting that has a value**, marked unless the preset gives
    it. -/
theorem lists_iff (hl : l.assignments = []) :
    l.Lists r ↔ l.value r.setting = some r.value ∧
      r.marked = (l.preset.get? r.setting).isNone := by
  constructor
  · intro h
    cases h with
    | configured h => simp [value, given_of_nil hl, h]
    | preset hc h => simp [value, given_of_nil hl, hc, h]
    | default hc hp h => simp [value, given_of_nil hl, hc, hp, h]
  · obtain ⟨t, v, marked⟩ := r
    rintro ⟨hv, hmarked⟩
    dsimp only at hv hmarked
    subst hmarked
    rw [value, given_of_nil hl] at hv
    cases hc : l.configured.get? t with
    | some w =>
      obtain rfl : w = v := by simpa [hc] using hv
      exact .configured hc
    | none =>
      cases hp : l.preset.get? t with
      | some w =>
        obtain rfl : w = v := by simpa [hc, hp] using hv
        exact .preset hc hp
      | none => exact .default hc hp (by simpa [hc, hp] using hv)

/-- Where an override does not give what the preset does not, a row is marked exactly if
    no layer gives its value. -/
theorem Lists.marked_iff (h : l.Lists r) (hl : l.assignments = [])
    (hgiven : l.configured.get? r.setting = none ∨ l.preset.get? r.setting ≠ none) :
    r.marked = true ↔ l.given r.setting = none := by
  rw [((lists_iff hl).1 h).2, given_of_nil hl, Option.or_eq_none_iff, Option.isNone_iff_eq_none]
  constructor
  · exact fun hp => ⟨hgiven.resolve_right fun hne => hne hp, hp⟩
  · exact And.right

theorem mem_rows_iff {q : Preset} (hl : l.assignments = []) (hq : l.preset = q.settings) :
    r ∈ l.profile.settings.toList.map (ListedRow.ofPreset q) ↔ l.Lists r := by
  rw [lists_iff hl, List.mem_map, hq]
  constructor
  · rintro ⟨⟨t, v⟩, hrow, rfl⟩
    exact ⟨Settings.mem_toList_iff.1 hrow, rfl⟩
  · obtain ⟨t, v, marked⟩ := r
    rintro ⟨hv, hmarked⟩
    exact ⟨(t, v), Settings.mem_toList_iff.2 hv, congrArg (ListedRow.mk t v) hmarked.symm⟩

end Layers

/-- The listing is the lines of the rows. -/
theorem Studio.presets_eq_rows {h : Host} {d : Disk} {c : Config} {s : Studio} {name : String}
    {q : Preset} (hs : ofConfig h d c = .ok s) (hq : s.encoder.registry.lookup name = .ok q)
    {config : Option Path} (hc : Config.find h d config = .ok c) :
    Program.presets h d config (some name) false =
      Program.say d (Program.presetHeading q ::
        ((Layers.mk [] c.overrides q.settings).profile.settings.toList.map
          (ListedRow.ofPreset q)).map ListedRow.line) := by
  obtain ⟨q', hq', hpresets⟩ := (worksWith_of_lookup hs hq []).listed rfl config false hc
  obtain rfl : q = q' := Except.ok.inj (hq.symm.trans hq')
  have hlines : ListedRow.line ∘ ListedRow.ofPreset q = Program.settingLine q :=
    funext (ListedRow.line_ofPreset q)
  rw [hpresets, List.map_map, hlines]
  rfl

/-- **The listing of a preset shows every setting that has a value**, in profile order and
    each once, with the value of its layers.  A row is marked as a default exactly if no
    layer gives the value, unless it is configured and the preset does not give the
    setting. -/
theorem listed_by_layers {h : Host} {d : Disk} {c : Config} {s : Studio} {name : String}
    (hs : Studio.ofConfig h d c = .ok s) (hn : s.encoder.registry.contains name = true) :
    ∃ (q : Preset) (rows : List ListedRow), s.encoder.registry.lookup name = .ok q ∧
      (∀ config, Config.find h d config = .ok c →
        Program.presets h d config (some name) false =
          Program.say d (Program.presetHeading q :: rows.map ListedRow.line)) ∧
      rows.map ListedRow.setting = Setting.all.filter (fun t =>
        ((Layers.mk [] c.overrides q.settings).value t).isSome) ∧
      (∀ r, r ∈ rows ↔ (Layers.mk [] c.overrides q.settings).Lists r) ∧
      ∀ r ∈ rows, c.overrides.get? r.setting = none ∨ q.settings.get? r.setting ≠ none →
        (r.marked = true ↔ (Layers.mk [] c.overrides q.settings).given r.setting = none) := by
  obtain ⟨q, hq⟩ := Registry.lookup_of_contains hn
  have hmem : ∀ r, r ∈ (Layers.mk [] c.overrides q.settings).profile.settings.toList.map
      (ListedRow.ofPreset q) ↔ (Layers.mk [] c.overrides q.settings).Lists r :=
    fun r => Layers.mem_rows_iff rfl rfl
  refine ⟨q, _, hq, fun config hc => Studio.presets_eq_rows hs hq hc, ?_, hmem,
    fun r hr => ((hmem r).1 hr).marked_iff rfl⟩
  rw [List.map_map]
  exact Settings.map_fst_toList _

/-- A configuration that overrides a setting which the builtin presets give, and one
    which they leave open. -/
def overridingConfig : String :=
  "[overrides]\nwidth = 640\nthreads = 2\n"

/-- A disk with only that configuration, where it is looked for first. -/
def overridingDisk : Disk :=
  ⟨[([Text.encode "mp4forge.toml"], .file (Text.encode overridingConfig))]⟩

theorem listed_by_layers_overriding :
    ∃ c s, Config.find .bare overridingDisk none = .ok c ∧
      Studio.ofConfig .bare overridingDisk c = .ok s ∧
      s.encoder.registry.contains "w768" = true ∧
      ∃ (q : Preset) (rows : List ListedRow), s.encoder.registry.lookup "w768" = .ok q ∧
        Program.presets .bare overridingDisk none (some "w768") false =
          Program.say overridingDisk (Program.presetHeading q :: rows.map ListedRow.line) ∧
        ∀ r ∈ rows, c.overrides.get? r.setting = none ∨ q.settings.get? r.setting ≠ none →
          (r.marked = true ↔ (Layers.mk [] c.overrides q.settings).given r.setting = none) := by
  have hcheck : ((Config.find .bare overridingDisk none).toOption.bind fun c =>
      (Studio.ofConfig .bare overridingDisk c).toOption.map fun s =>
        s.encoder.registry.contains "w768") = some true := by decide +kernel
  obtain ⟨c, hc, hmap⟩ := Option.bind_eq_some_iff.1 hcheck
  obtain ⟨s, hs, hn⟩ := Option.map_eq_some_iff.1 hmap
  have hc := toOption_eq_some_iff.1 hc
  have hs := toOption_eq_some_iff.1 hs
  obtain ⟨q, rows, hq, hlisting, -, -, hmarks⟩ := listed_by_layers hs hn
  exact ⟨c, s, hc, hs, hn, q, rows, hq, hlisting none hc, hmarks⟩

/-- **An override is listed as a default** when the preset does not give the setting. -/
theorem override_listed_as_default :
    ∃ c s q lines, Config.find .bare overridingDisk none = .ok c ∧
      Studio.ofConfig .bare overridingDisk c = .ok s ∧
      s.encoder.registry.lookup "w768" = .ok q ∧
      (Layers.mk [] c.overrides q.settings).given .threads = some (.integer 2) ∧
      Program.presets .bare overridingDisk none (some "w768") false =
        Program.say overridingDisk lines ∧
      "  threads              2  (default)" ∈ lines := by
  have hcheck : ((Config.find .bare overridingDisk none).toOption.bind fun c =>
      (Studio.ofConfig .bare overridingDisk c).toOption.bind fun s =>
        (s.encoder.registry.lookup "w768").toOption.map fun q =>
          (c.overrides.get? .threads, q.settings.get? .threads)) =
      some (some (.integer 2), none) := by decide +kernel
  obtain ⟨c, hc, hbind⟩ := Option.bind_eq_some_iff.1 hcheck
  obtain ⟨s, hs, hmap⟩ := Option.bind_eq_some_iff.1 hbind
  obtain ⟨q, hq, hthreads⟩ := Option.map_eq_some_iff.1 hmap
  obtain ⟨hoverride, hpreset⟩ := Prod.mk.inj hthreads
  have hc := toOption_eq_some_iff.1 hc
  have hs := toOption_eq_some_iff.1 hs
  have hq := toOption_eq_some_iff.1 hq
  have hgiven : (Layers.mk [] c.overrides q.settings).given .threads = some (.integer 2) := by
    rw [Layers.given_of_nil rfl, hoverride]
    rfl
  refine ⟨c, s, q, _, hc, hs, hq, hgiven, Studio.presets_eq_rows hs hq hc,
    List.mem_cons_of_mem _ (List.mem_map.2 ⟨⟨.threads, .integer 2, true⟩, ?_, by decide +kernel⟩)⟩
  rw [Layers.mem_rows_iff rfl rfl, Layers.lists_iff rfl]
  exact ⟨by rw [Layers.value, hgiven]; rfl, by rw [hpreset]; rfl⟩

end Transcode
