/-
  Transcode — presets that are added to others.

  Entries are laid over those that are always there before any alias is followed, so a
  further entry changes what an alias of its name stands for, and may leave one without
  an end.  All other names keep their presets.

  * `Leads.of_agree`: where aliases lead follows from the entries on the way;
  * `Registry.lookup_append`: a preset stays as it is where no such entry is given anew;
  * `Registry.lookup_of_aliasStep`: an alias has the settings of what it stands for;
  * `Registry.extend_overlays`: what the presets are that further entries make.
-/
import Transcode.Proofs.AliasChains

namespace Transcode

open Relation

/-- Every alias is of an entry with settings. -/
def IsDirect (t : NameTable PresetEntry) : Prop :=
  ∀ name target, AliasStep t name target → ∃ values, t.get? target = some (.settings values)

variable {t t' : NameTable PresetEntry} {rows extra : List (String × PresetEntry)}
  {r r' : Registry} {name target last : String} {values : Settings}

/-! ## Where aliases lead -/

namespace Leads

theorem get?_last (h : Leads t name last values) : t.get? last = some (.settings values) := by
  induction h with
  | here hs => exact hs
  | step _ _ ih => exact ih

/-- Where aliases lead follows from the entries on the way. -/
theorem of_agree (h : Leads t name last values)
    (hagree : ∀ x, ReflTransGen (AliasStep t) name x → t'.get? x = t.get? x) :
    Leads t' name last values := by
  induction h with
  | here hs => exact .here ((hagree _ .refl).trans hs)
  | step hs _ ih =>
    exact .step ((hagree _ .refl).trans hs) (ih fun x hx => hagree x (.head hs hx))

end Leads

namespace IsDirect

/-- At most one alias is followed. -/
theorem eq_or_aliasStep (h : IsDirect t) (hx : ReflTransGen (AliasStep t) name last) :
    name = last ∨ AliasStep t name last := by
  induction hx with
  | refl => exact .inl rfl
  | tail _ hs ih =>
    rcases ih with rfl | hname
    · exact .inr hs
    · -- What an alias is of is no alias itself.
      obtain ⟨values, hv⟩ := h _ _ hname
      cases hs.symm.trans hv

theorem exists_leads (h : IsDirect t) (hname : name ∈ t.names) :
    ∃ last values, Leads t name last values := by
  obtain ⟨entry, he⟩ := NameTable.mem_names_iff_exists.1 hname
  cases entry with
  | settings values => exact ⟨name, values, .here he⟩
  | aliasOf target =>
    obtain ⟨values, hv⟩ := h name target he
    exact ⟨target, values, .step he (.here hv)⟩

/-- Entries with settings may be added, also in place of what an alias is of. -/
theorem append (h : IsDirect (NameTable.ofList rows))
    (hextra : ∀ row ∈ extra, ∃ values, row.2 = .settings values) :
    IsDirect (NameTable.ofList (rows ++ extra)) := by
  have hupper : ∀ {name entry}, (NameTable.ofList extra).get? name = some entry →
      ∃ values, entry = .settings values :=
    fun he => hextra _ (NameTable.mem_of_get?_ofList he)
  intro name target hs
  rw [AliasStep, NameTable.get?_ofList_append] at hs
  rcases Option.or_eq_some_iff.1 hs with hs | ⟨-, hs⟩
  · obtain ⟨values, hv⟩ := hupper hs
    cases hv
  · rw [NameTable.get?_ofList_append]
    cases ht : (NameTable.ofList extra).get? target with
    | some entry =>
      obtain ⟨values, rfl⟩ := hupper ht
      exact ⟨values, rfl⟩
    | none => exact h name target hs

end IsDirect

theorem isDirect_builtin : IsDirect (NameTable.ofList Preset.builtin) := by
  intro name target hs
  have hmem := NameTable.mem_of_get?_ofList hs
  simp only [Preset.builtin, List.mem_cons, Prod.mk.injEq, reduceCtorEq, and_false, false_or,
    List.not_mem_nil, or_false, PresetEntry.aliasOf.injEq] at hmem
  obtain ⟨rfl, rfl⟩ := hmem
  exact ⟨_, (NameTable.get?_ofList _ _).trans rfl⟩

/-! ## Presets under further entries -/

namespace Registry

theorem exists_ofEntries_of_isDirect (h : IsDirect (NameTable.ofList rows)) :
    ∃ r, ofEntries rows = .ok r :=
  exists_ofEntries_iff.2 fun _ hname => h.exists_leads hname

theorem lookup_of_settings (hr : ofEntries rows = .ok r)
    (h : (NameTable.ofList rows).get? name = some (.settings values)) :
    r.lookup name = .ok ⟨name, none, values⟩ := by
  simpa using lookup_of_leads hr (.here h)

/-- **An alias has the settings of what it stands for**, and names the entry that has
    them. -/
theorem lookup_of_aliasStep (hr : ofEntries rows = .ok r)
    (hs : AliasStep (NameTable.ofList rows) name target) :
    ∃ last values, Leads (NameTable.ofList rows) target last values ∧
      r.lookup target = .ok ⟨target, if last = target then none else some last, values⟩ ∧
      r.lookup name = .ok ⟨name, some last, values⟩ := by
  obtain ⟨last, values, hl⟩ := exists_ofEntries_iff.1 ⟨r, hr⟩ name hs.mem_names
  have hne : last ≠ name := by
    rintro rfl
    cases hs.symm.trans hl.get?_last
  have hlookup := lookup_of_leads hr hl
  rw [if_neg hne] at hlookup
  cases hl with
  | here hlast => cases hs.symm.trans hlast
  | step hs' hl =>
    cases hs.symm.trans hs'
    exact ⟨last, values, hl, lookup_of_leads hr hl, hlookup⟩

/-- **A preset stays as it is** under entries of other names than its own and that
    which it is an alias of. -/
theorem lookup_append (hdirect : IsDirect (NameTable.ofList rows)) (hr : ofEntries rows = .ok r)
    (hr' : ofEntries (rows ++ extra) = .ok r') (hmem : name ∈ r.names)
    (hname : name ∉ extra.map Prod.fst)
    (htarget : ∀ target, AliasStep (NameTable.ofList rows) name target →
      target ∉ extra.map Prod.fst) :
    ∃ p, r.lookup name = .ok p ∧ r'.lookup name = .ok p := by
  rw [names_of_ofEntries hr] at hmem
  obtain ⟨last, values, hl⟩ := hdirect.exists_leads hmem
  have hl' : Leads (NameTable.ofList (rows ++ extra)) name last values := by
    refine hl.of_agree fun x hx => NameTable.get?_ofList_append_of_not_mem ?_
    rcases hdirect.eq_or_aliasStep hx with rfl | hs
    · exact hname
    · exact htarget x hs
  exact ⟨_, lookup_of_leads hr hl, lookup_of_leads hr' hl'⟩

/-- **Further entries are laid over the built-in ones** before aliases are followed.
    If all of them have settings, there are presets; and if there are, then the names
    are those of both, a name whose last entry has settings has these, a name that
    is left alone with what it is an alias of has its preset, and an alias of a name
    that is given anew has what that name has now, under the name at its end. -/
theorem extend_overlays (extra : List (String × PresetEntry)) :
    ((∀ row ∈ extra, ∃ values, row.2 = .settings values) → ∃ r, extend extra = .ok r) ∧
    ∀ r, extend extra = .ok r →
      (∀ name, name ∈ r.names ↔ name ∈ builtin.names ∨ name ∈ extra.map Prod.fst) ∧
      (∀ name values,
        (extra.filter (·.1 = name)).getLast? = some (name, .settings values) →
          r.lookup name = .ok ⟨name, none, values⟩) ∧
      (∀ name ∈ builtin.names, name ∉ extra.map Prod.fst →
        (∀ target, AliasStep (NameTable.ofList Preset.builtin) name target →
          target ∉ extra.map Prod.fst) →
        ∃ p, builtin.lookup name = .ok p ∧ r.lookup name = .ok p) ∧
      ∀ name target, AliasStep (NameTable.ofList Preset.builtin) name target →
        name ∉ extra.map Prod.fst → target ∈ extra.map Prod.fst →
          ∃ last values, Leads (NameTable.ofList (Preset.builtin ++ extra)) target last values ∧
            r.lookup target =
              .ok ⟨target, if last = target then none else some last, values⟩ ∧
            r.lookup name = .ok ⟨name, some last, values⟩ := by
  constructor
  · intro hextra
    exact exists_ofEntries_of_isDirect (isDirect_builtin.append hextra)
  · intro r hr
    refine ⟨fun name => ?_, fun name values hlast => ?_, fun name hmem hname htarget => ?_,
      fun name target hs hname _ => ?_⟩
    · rw [names_of_ofEntries hr, names_of_ofEntries ofEntries_builtin,
        NameTable.mem_names_ofList_iff, NameTable.mem_names_ofList_iff, List.map_append,
        List.mem_append]
    · have hupper : (NameTable.ofList extra).get? name = some (.settings values) := by
        rw [NameTable.get?_ofList_filter, hlast]
        rfl
      exact lookup_of_settings hr (NameTable.get?_ofList_append_of_some hupper)
    · exact lookup_append isDirect_builtin ofEntries_builtin hr hmem hname htarget
    · have hs' : AliasStep (NameTable.ofList (Preset.builtin ++ extra)) name target :=
        (NameTable.get?_ofList_append_of_not_mem hname).trans hs
      exact lookup_of_aliasStep hr hs'

/-- Settings of a frame as wide as it gets. -/
def hugeSettings : Settings :=
  .ofList [(.width, .integer 3840)]

/-- Aliases from built-in names to others and back, the web preset that is used when
    none is named among them. -/
def houseRows : List (String × PresetEntry) :=
  [("p192", .aliasOf "phone"), ("phone", .aliasOf "p480"), ("w768", .aliasOf "huge"),
    ("huge", .settings hugeSettings)]

theorem extend_overlays_house :
    (∃ r, extend [("w768", .settings hugeSettings)] = .ok r) ∧
    ∃ r, extend houseRows = .ok r ∧ "phone" ∈ r.names ∧
      r.lookup "huge" = .ok ⟨"huge", none, hugeSettings⟩ ∧
      (∃ p, builtin.lookup "p480" = .ok p ∧ r.lookup "p480" = .ok p) ∧
      r.lookup "default" = .ok ⟨"default", some "huge", hugeSettings⟩ := by
  have hbuiltin : ∀ name, (NameTable.ofList Preset.builtin).get? name =
      (Preset.builtin.filter (·.1 = name)).getLast?.map Prod.snd :=
    NameTable.get?_ofList_filter _
  have htable : ∀ name, (NameTable.ofList (Preset.builtin ++ houseRows)).get? name =
      ((Preset.builtin ++ houseRows).filter (·.1 = name)).getLast?.map Prod.snd :=
    NameTable.get?_ofList_filter _
  refine ⟨(extend_overlays _).1 fun row hrow => ?_, ?_⟩
  · cases List.mem_singleton.1 hrow
    exact ⟨hugeSettings, rfl⟩
  · have hok : (extend houseRows).isOk = true := by decide +kernel
    obtain ⟨r, hr⟩ := isOk_iff.1 hok
    obtain ⟨hnames, hlast, hkept, hfollow⟩ := (extend_overlays houseRows).2 r hr
    refine ⟨r, hr, (hnames _).2 (.inr (by decide)), hlast _ _ rfl, hkept _ ?_ (by decide) ?_, ?_⟩
    · rw [names_of_ofEntries ofEntries_builtin]
      decide
    · intro target hs
      cases hs.symm.trans ((hbuiltin "p480").trans rfl)
    · obtain ⟨last, values, hl, -, hdefault⟩ :=
        hfollow "default" "w768" ((hbuiltin _).trans rfl) (by decide) (by decide)
      have hhuge : Leads (NameTable.ofList (Preset.builtin ++ houseRows)) "huge" last values := by
        cases hl with
        | here hs => cases hs.symm.trans ((htable "w768").trans rfl)
        | step hs hl =>
          cases hs.symm.trans ((htable "w768").trans rfl)
          exact hl
      cases hhuge with
      | here hs =>
        cases hs.symm.trans ((htable "huge").trans rfl)
        exact hdefault
      | step hs _ => cases hs.symm.trans ((htable "huge").trans rfl)

end Registry

end Transcode
