/-
  Transcode — values that are pinned where they are.

  A default is chosen by the codec and the profile of the video, which may be defaults
  themselves.  Overrides that give settings the values that they have in the profile
  anyway give those two what they were taken to be, so every other default is chosen as
  before.

  * `Settings.IsPartOf`: settings that have no values but those of others;
  * `Layers.profile_of_pinned`: layers with such settings on top have the same profile;
  * `Profile.resolve_stable`: so resolving changes nothing that is resolved, and layers
    can be joined above or below.
-/
import Transcode.Proofs.Layers

namespace Transcode

namespace Settings

/-- Settings that have no values but those that others have. -/
def IsPartOf (part whole : Settings) : Prop :=
  ∀ s v, part.get? s = some v → whole.get? s = some v

theorem isPartOf_iff_toList {part whole : Settings} :
    part.IsPartOf whole ↔ ∀ p ∈ part.toList, whole.get? p.1 = some p.2 := by
  constructor
  · rintro h ⟨s, v⟩ hp
    exact h s v (mem_toList_iff.1 hp)
  · intro h s v hv
    exact h (s, v) (mem_toList_iff.2 hv)

instance (part whole : Settings) : Decidable (part.IsPartOf whole) :=
  decidable_of_iff _ isPartOf_iff_toList.symm

theorem IsPartOf.refl (m : Settings) : m.IsPartOf m :=
  fun _ _ h => h

@[simp] theorem empty_layeredOn (m : Settings) : empty.layeredOn m = m := by
  ext1
  funext s
  exact Option.none_or

/-- A set shows nothing of one below it that has values only where it has some. -/
theorem layeredOn_eq_left {upper lower : Settings}
    (h : ∀ s, upper.get? s = none → lower.get? s = none) : upper.layeredOn lower = upper := by
  ext1
  funext s
  cases hs : upper.get? s with
  | none => simp [hs, h s hs]
  | some v => simp [hs]

end Settings

/-! ## Layers with pinned values on top -/

namespace Layers

variable {l l' : Layers}

/-- The defaults are the same if the codec and, where the video is encoded, the profile
    of the video are taken to be the same. -/
theorem default_eq_of_choices
    (hcodec : (l.given .videoCodec).getD (.text "h264") =
      (l'.given .videoCodec).getD (.text "h264"))
    (hprofile : l.copies = false → (l.given .videoProfile).getD (.text "main") =
      (l'.given .videoProfile).getD (.text "main")) : l.default = l'.default := by
  have hcopies : l.copies = l'.copies := by rw [copies, copies, hcodec]
  funext s
  unfold default
  rw [← hcopies]
  cases hl : l.copies with
  | true => cases s <;> rfl
  | false => rw [hprofile hl]

theorem value_videoCodec (l : Layers) :
    l.value .videoCodec = some ((l.given .videoCodec).getD (.text "h264")) :=
  Option.or_some

theorem value_videoProfile (h : l.copies = false) :
    l.value .videoProfile = some ((l.given .videoProfile).getD (.text "main")) := by
  have hdefault : l.default .videoProfile = some (.text "main") := by
    simp [default, h, encodedDefault]
  rw [value, hdefault, Option.or_some]

/-- **Pinned values change nothing.**  Layers with values on top that the settings have
    anyway have the same profile. -/
theorem profile_of_pinned {part : Settings} (hpart : part.IsPartOf l.profile.settings)
    (h : ∀ s, l'.given s = (part.get? s).or (l.given s)) : l'.profile = l.profile := by
  have hkept : ∀ s v, l.value s = some ((l.given s).getD v) →
      (l.given s).getD v = (l'.given s).getD v := by
    intro s v hv
    rw [h]
    cases hs : part.get? s with
    | none => rfl
    | some w => exact Option.some.inj (hv.symm.trans (hpart s w hs))
  have hdefault : l.default = l'.default :=
    default_eq_of_choices (hkept _ _ l.value_videoCodec) fun hcopies =>
      hkept _ _ (value_videoProfile hcopies)
  ext1
  ext1
  funext s
  show l'.value s = l.value s
  rw [value, h, ← hdefault]
  cases hs : part.get? s with
  | none => rfl
  | some v => exact (hpart s v hs).symm

end Layers

/-! ## Profiles -/

namespace Profile

variable {preset overrides part : Settings}

theorem resolve_pinned (h : part.IsPartOf (resolve preset overrides).settings) :
    resolve preset (part.layeredOn overrides) = resolve preset overrides := by
  rw [resolve_eq_layers] at h
  rw [resolve_eq_layers, resolve_eq_layers]
  refine Layers.profile_of_pinned h fun s => ?_
  exact Option.or_assoc

/-- A profile follows from what its layers are together. -/
theorem resolve_eq_of_layeredOn {preset' overrides' : Settings}
    (h : overrides.layeredOn preset = overrides'.layeredOn preset') :
    resolve preset overrides = resolve preset' overrides' := by
  rw [resolve, resolve, h]

/-- Whatever is given a value has one in the profile. -/
theorem get?_layeredOn_of_resolve {s : Setting}
    (h : (resolve preset overrides).settings.get? s = none) :
    (overrides.layeredOn preset).get? s = none := by
  rw [resolve_eq_layers] at h
  exact (Option.or_eq_none_iff.1 h).1

theorem resolve_layeredOn_preset (preset overrides : Settings) :
    (resolve preset overrides).settings.layeredOn preset = (resolve preset overrides).settings := by
  refine Settings.layeredOn_eq_left fun s hs => ?_
  have hgiven := get?_layeredOn_of_resolve hs
  rw [Settings.get?_layeredOn] at hgiven
  exact (Option.or_eq_none_iff.1 hgiven).2

theorem resolve_layeredOn_given (preset overrides : Settings) :
    (resolve preset overrides).settings.layeredOn (overrides.layeredOn preset) =
      (resolve preset overrides).settings :=
  Settings.layeredOn_eq_left fun _ => get?_layeredOn_of_resolve

/-- **What is resolved stays as it is**, whichever of its values are spelled out again on
    top of the overrides, in place of them or in place of the preset.  Overrides below
    others can as well be laid over the preset. -/
theorem resolve_stable (preset overrides : Settings) :
    (∀ part : Settings, part.IsPartOf (resolve preset overrides).settings →
      resolve preset (part.layeredOn overrides) = resolve preset overrides) ∧
    resolve preset (resolve preset overrides).settings = resolve preset overrides ∧
    resolve (resolve preset overrides).settings .empty = resolve preset overrides ∧
    ∀ upper : Settings, resolve preset (upper.layeredOn overrides) =
      resolve (overrides.layeredOn preset) upper := by
  have hall : resolve preset ((resolve preset overrides).settings.layeredOn overrides) =
      resolve preset overrides := resolve_pinned (.refl _)
  refine ⟨fun part h => resolve_pinned h, ?_, ?_, fun upper => ?_⟩
  · refine Eq.trans (resolve_eq_of_layeredOn ?_) hall
    rw [resolve_layeredOn_preset, Settings.layeredOn_assoc, resolve_layeredOn_given]
  · refine Eq.trans (resolve_eq_of_layeredOn ?_) hall
    rw [Settings.empty_layeredOn, Settings.layeredOn_assoc, resolve_layeredOn_given]
  · exact resolve_eq_of_layeredOn (Settings.layeredOn_assoc _ _ _)

/-- A preset with a video profile. -/
def phonePreset : Settings :=
  .ofList [(.videoProfile, .text "baseline"), (.width, .integer 192)]

/-- Overrides that name another one. -/
def mainOverrides : Settings :=
  .ofList [(.videoProfile, .text "main"), (.threads, .integer 4)]

/-- Defaults of a stream that is encoded with it. -/
def mainDefaults : Settings :=
  .ofList [(.videoCodec, .text "h264"), (.videoProfile, .text "main"),
    (.videoFilter, .text "hqdn3d=1.5:1.5:6:6")]

theorem resolve_stable_phone :
    mainDefaults.IsPartOf (resolve phonePreset mainOverrides).settings ∧
      resolve phonePreset (mainDefaults.layeredOn mainOverrides) =
        resolve phonePreset mainOverrides ∧
      resolve phonePreset (resolve phonePreset mainOverrides).settings =
        resolve phonePreset mainOverrides ∧
      resolve (resolve phonePreset mainOverrides).settings .empty =
        resolve phonePreset mainOverrides ∧
      ∀ upper : Settings, resolve phonePreset (upper.layeredOn mainOverrides) =
        resolve (mainOverrides.layeredOn phonePreset) upper := by
  have hpart : mainDefaults.IsPartOf (resolve phonePreset mainOverrides).settings := by
    decide +kernel
  obtain ⟨hpinned, hrest⟩ := resolve_stable phonePreset mainOverrides
  exact ⟨hpart, hpinned mainDefaults hpart, hrest⟩

end Profile

end Transcode
