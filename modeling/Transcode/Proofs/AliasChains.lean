/-
  Transcode — tables of aliases that can be resolved.

  * `chase_of_leads`: a chase ends wherever aliases lead to settings at all, for
    aliases that come back to a name never lead to settings (`not_transGen_self`);
  * `forall_leads_iff`: they lead there from every name iff none is of a name
    without an entry and none comes back;
  * `Registry.ofEntries_resolves`: which tables have a registry, and what it finds.
-/
import Mathlib.Logic.Relation
import Transcode.Proofs.Layers

namespace Transcode

open Relation

/-- The entry of a name is an alias of the other. -/
def AliasStep (t : NameTable PresetEntry) (name target : String) : Prop :=
  t.get? name = some (.aliasOf target)

variable {t : NameTable PresetEntry} {name target last : String} {values : Settings}

theorem AliasStep.mem_names (h : AliasStep t name target) : name ∈ t.names :=
  NameTable.mem_names_iff_exists.2 ⟨_, h⟩

namespace Leads

/-- The end of a chain is the end of its own. -/
theorem at_last (h : Leads t name last values) : Leads t last last values := by
  induction h with
  | here hs => exact .here hs
  | step _ _ ih => exact ih

theorem get?_ne_none (h : Leads t name last values) : t.get? name ≠ none := by
  cases h with
  | here hs => simp [hs]
  | step hs _ => simp [hs]

/-- Aliases that lead to settings do not come back to where they start. -/
theorem not_transGen_self (h : Leads t name last values) : ¬ TransGen (AliasStep t) name name := by
  induction h with
  | here hs =>
    intro hloop
    obtain ⟨next, hnext, -⟩ := TransGen.head'_iff.1 hloop
    cases hs.symm.trans hnext
  | step hs _ ih =>
    intro hloop
    -- There is one step from a name, so the target is on the loop as well.
    obtain ⟨next, hnext, hback⟩ := TransGen.head'_iff.1 hloop
    cases hs.symm.trans hnext
    exact ih (TransGen.tail' hback hs)

end Leads

/-- **A chase ends where the aliases lead**, when it has come along them. -/
theorem chase_of_leads {seen : List String} {entry : PresetEntry} (he : t.get? name = some entry)
    (h : Leads t name last values) (hseen : ∀ x ∈ seen, ReflTransGen (AliasStep t) x name) :
    chase t seen name entry = .ok (last, values) := by
  fun_induction chase t seen name entry with
  | case1 seen name values' =>
    cases h with
    | here hs =>
      cases he.symm.trans hs
      rfl
    | step hs _ => cases he.symm.trans hs
  | case2 seen name target hs =>
    have hback : ReflTransGen (AliasStep t) target name := by
      rcases List.mem_cons.1 hs with rfl | hs
      · exact .refl
      · exact hseen _ hs
    have hstep : AliasStep t name target := he
    exact absurd (TransGen.head' hstep hback) h.not_transGen_self
  | case3 seen name target hs hn =>
    cases h with
    | here hs => cases he.symm.trans hs
    | step hs h =>
      cases he.symm.trans hs
      exact absurd hn h.get?_ne_none
  | case4 seen name target hs entry hn ih =>
    cases h with
    | here hs => cases he.symm.trans hs
    | step hs' h =>
      cases he.symm.trans hs'
      refine ih hn h fun x hx => ?_
      rcases List.mem_cons.1 hx with rfl | hx
      · exact .single he
      · exact .tail (hseen x hx) he

/-- A chase that fails has met an alias of a name without an entry, or one that
    comes back. -/
theorem aliases_of_chase_error {seen : List String} {entry : PresetEntry} {e : CompileError}
    (he : t.get? name = some entry) (h : chase t seen name entry = .error e)
    (hseen : ∀ x ∈ seen, ReflTransGen (AliasStep t) x name) :
    (∃ x target, AliasStep t x target ∧ t.get? target = none) ∨
      ∃ x, TransGen (AliasStep t) x x := by
  fun_induction chase t seen name entry with
  | case1 => cases h
  | case2 seen name target hs =>
    have hstep : AliasStep t name target := he
    rcases List.mem_cons.1 hs with rfl | hs
    · exact Or.inr ⟨_, .single hstep⟩
    · exact Or.inr ⟨_, .tail' (hseen _ hs) hstep⟩
  | case3 seen name target _ hn => exact Or.inl ⟨name, target, he, hn⟩
  | case4 seen name target hs entry hn ih =>
    refine ih hn h fun x hx => ?_
    rcases List.mem_cons.1 hx with rfl | hx
    · exact .single he
    · exact .tail (hseen x hx) he

/-- **Aliases lead to settings from every name** iff each of them has an entry to
    stand for and none comes back. -/
theorem forall_leads_iff :
    (∀ name ∈ t.names, ∃ last values, Leads t name last values) ↔
      (∀ name target, AliasStep t name target → target ∈ t.names) ∧
        ∀ name, ¬ TransGen (AliasStep t) name name := by
  constructor
  · intro h
    constructor
    · intro name target hstep
      obtain ⟨last, values, hl⟩ := h name hstep.mem_names
      cases hl with
      | here hs => cases hs.symm.trans hstep
      | step hs hl =>
        cases hs.symm.trans hstep
        rw [NameTable.mem_names_iff, Option.isSome_iff_ne_none]
        exact hl.get?_ne_none
    · intro name hloop
      obtain ⟨next, hnext, -⟩ := TransGen.head'_iff.1 hloop
      obtain ⟨last, values, hl⟩ := h name hnext.mem_names
      exact hl.not_transGen_self hloop
  · rintro ⟨hentry, hloop⟩ name hname
    obtain ⟨entry, he⟩ := NameTable.mem_names_iff_exists.1 hname
    cases hc : chase t [] name entry with
    | ok found => exact ⟨found.1, found.2, leads_of_chase he hc⟩
    | error e =>
      rcases aliases_of_chase_error he hc (by simp) with ⟨x, target, hstep, hnone⟩ | ⟨x, hx⟩
      · have htarget := NameTable.mem_names_iff.1 (hentry x target hstep)
        rw [hnone] at htarget
        cases htarget
      · exact absurd hx (hloop x)

namespace Registry

variable {rows : List (String × PresetEntry)} {r : Registry}

/-- **Which tables have a registry**: those whose aliases lead to settings from
    every name. -/
theorem exists_ofEntries_iff :
    (∃ r, ofEntries rows = .ok r) ↔
      ∀ name ∈ (NameTable.ofList rows).names,
        ∃ target values, Leads (NameTable.ofList rows) name target values := by
  have hmap : (∃ r, ofEntries rows = .ok r) ↔
      ∃ u, (NameTable.ofList rows).mapM (Preset.ofEntry (NameTable.ofList rows)) = .ok u := by
    constructor
    · rintro ⟨r, hr⟩
      obtain ⟨u, hu, -⟩ := map_eq_ok_iff.1 hr
      exact ⟨u, hu⟩
    · rintro ⟨u, hu⟩
      exact ⟨⟨u⟩, map_eq_ok_iff.2 ⟨u, hu, rfl⟩⟩
  rw [hmap, NameTable.exists_mapM_iff]
  constructor
  · intro h name hname
    obtain ⟨entry, he⟩ := NameTable.mem_names_iff_exists.1 hname
    obtain ⟨p, hp⟩ := h name entry he
    obtain ⟨⟨target, values⟩, hc, -⟩ := map_eq_ok_iff.1 hp
    exact ⟨target, values, leads_of_chase he hc⟩
  · intro h name entry he
    obtain ⟨target, values, hl⟩ := h name (NameTable.mem_names_iff.2 (by rw [he]; rfl))
    exact ⟨_, map_eq_ok_iff.2 ⟨_, chase_of_leads he hl (by simp), rfl⟩⟩

theorem names_of_ofEntries (hr : ofEntries rows = .ok r) :
    r.names = (NameTable.ofList rows).names := by
  obtain ⟨u, hu, rfl⟩ := map_eq_ok_iff.1 hr
  exact NameTable.names_of_mapM hu

theorem lookup_of_leads (hr : ofEntries rows = .ok r)
    (h : Leads (NameTable.ofList rows) name last values) :
    r.lookup name = .ok ⟨name, if last = name then none else some last, values⟩ := by
  obtain ⟨u, hu, rfl⟩ := map_eq_ok_iff.1 hr
  obtain ⟨entry, he⟩ := Option.ne_none_iff_exists'.1 h.get?_ne_none
  have hp : Preset.ofEntry (NameTable.ofList rows) name entry = _ :=
    map_eq_ok_iff.2 ⟨_, chase_of_leads he h (by simp), rfl⟩
  exact lookup_eq_ok_iff.2 ((NameTable.get?_of_mapM hu name _).2 ⟨entry, he, hp⟩)

/-- The name of a preset leaves no trace in what is compiled, only its settings do. -/
theorem compile_of_leads (hr : ofEntries rows = .ok r)
    (h : Leads (NameTable.ofList rows) name last values) (recipe : Recipe) (program : String)
    (overrides : Settings) (source : Source) (input output : Path) :
    (Encoder.mk r recipe program).compile ⟨name, overrides, source, input, output⟩ =
      (Encoder.mk r recipe program).compile ⟨last, overrides, source, input, output⟩ := by
  have hname : (Encoder.mk r recipe program).registry.lookup name = _ := lookup_of_leads hr h
  have hlast : (Encoder.mk r recipe program).registry.lookup last = _ :=
    lookup_of_leads hr h.at_last
  rw [Encoder.compile_eq_render (r := ⟨name, overrides, source, input, output⟩) hname,
    Encoder.compile_eq_render (r := ⟨last, overrides, source, input, output⟩) hlast]
  rfl

/-- **A table of entries is resolved exactly when every alias leads to settings**,
    the last entry of a name counting.  Then every name is found with the settings
    at the end of its aliases, and compiles to what that end compiles to. -/
theorem ofEntries_resolves (rows : List (String × PresetEntry)) :
    (∀ name, (NameTable.ofList rows).get? name =
      (rows.filter (·.1 = name)).getLast?.map Prod.snd) ∧
    ((∃ r, ofEntries rows = .ok r) ↔ ∀ name ∈ rows.map Prod.fst,
      ∃ target values, Leads (NameTable.ofList rows) name target values) ∧
    ∀ r, ofEntries rows = .ok r →
      (∀ name, name ∈ r.names ↔ name ∈ rows.map Prod.fst) ∧
      ∀ name target values, Leads (NameTable.ofList rows) name target values →
        r.lookup name = .ok ⟨name, if target = name then none else some target, values⟩ ∧
        r.lookup target = .ok ⟨target, none, values⟩ ∧
        ∀ recipe program overrides source input output,
          (Encoder.mk r recipe program).compile ⟨name, overrides, source, input, output⟩ =
            (Encoder.mk r recipe program).compile ⟨target, overrides, source, input, output⟩ := by
  have hnames : ∀ name, name ∈ (NameTable.ofList rows).names ↔ name ∈ rows.map Prod.fst := by
    intro name
    rw [NameTable.mem_names_iff, NameTable.get?_ofList, NameTable.find_isSome_iff,
      List.map_reverse, List.mem_reverse]
  refine ⟨NameTable.get?_ofList_filter rows, ?_, fun r hr => ⟨fun name => ?_, ?_⟩⟩
  · rw [exists_ofEntries_iff]
    exact forall_congr' fun name => imp_congr_left (hnames name)
  · rw [names_of_ofEntries hr, hnames]
  · intro name target values h
    refine ⟨lookup_of_leads hr h, ?_, compile_of_leads hr h⟩
    simpa using lookup_of_leads hr h.at_last

/-- A chain of two aliases, the first of which was given twice. -/
def phoneRows : List (String × PresetEntry) :=
  [("phone", .aliasOf "gone"), ("small", .settings (.ofList [(.width, .integer 320)])),
    ("mobile", .aliasOf "small"), ("phone", .aliasOf "mobile")]

theorem ofEntries_resolves_phone : ∃ r, ofEntries phoneRows = .ok r ∧ "gone" ∉ r.names ∧
    r.lookup "phone" =
      .ok ⟨"phone", some "small", .ofList [(.width, .integer 320)]⟩ ∧
    r.lookup "small" = .ok ⟨"small", none, .ofList [(.width, .integer 320)]⟩ ∧
    ∀ recipe program overrides source input output,
      (Encoder.mk r recipe program).compile ⟨"phone", overrides, source, input, output⟩ =
        (Encoder.mk r recipe program).compile ⟨"small", overrides, source, input, output⟩ := by
  obtain ⟨hget, hok, hfound⟩ := ofEntries_resolves phoneRows
  have hsmall : Leads (NameTable.ofList phoneRows) "small" "small"
      (.ofList [(.width, .integer 320)]) := .here ((hget _).trans rfl)
  have hmobile : Leads (NameTable.ofList phoneRows) "mobile" _ _ :=
    .step ((hget _).trans rfl) hsmall
  have hphone : Leads (NameTable.ofList phoneRows) "phone" _ _ :=
    .step ((hget _).trans rfl) hmobile
  obtain ⟨r, hr⟩ := hok.2 <| by
    intro name hname
    simp only [phoneRows, List.map_cons, List.map_nil, List.mem_cons, List.not_mem_nil,
      or_false] at hname
    rcases hname with rfl | rfl | rfl | rfl
    · exact ⟨_, _, hphone⟩
    · exact ⟨_, _, hsmall⟩
    · exact ⟨_, _, hmobile⟩
    · exact ⟨_, _, hphone⟩
  obtain ⟨hnames, hlookup⟩ := hfound r hr
  refine ⟨r, hr, ?_, hlookup _ _ _ hphone⟩
  rw [hnames]
  decide

end Registry

end Transcode
