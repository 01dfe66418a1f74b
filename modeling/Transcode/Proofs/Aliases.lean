/-
  Transcode — where the aliases of a preset lead.

  `Leads` follows alias steps through a table of entries, without a limit and
  without a memory of the names passed.  A registry that can be built gives every
  name the settings that its aliases lead to.
-/
import Transcode.Config
import Transcode.Proofs.Outcome

namespace Transcode

/-- Alias steps lead from a name to the entry with settings of another. -/
inductive Leads (t : NameTable PresetEntry) : String → String → Settings → Prop
  | here {name values} : t.get? name = some (.settings values) → Leads t name name values
  | step {name target last values} : t.get? name = some (.aliasOf target) →
      Leads t target last values → Leads t name last values

/-- Where a chase ends, the aliases lead. -/
theorem leads_of_chase {t : NameTable PresetEntry} {seen : List String} {name : String}
    {entry : PresetEntry} {last : String} {values : Settings} (he : t.get? name = some entry)
    (h : chase t seen name entry = .ok (last, values)) : Leads t name last values := by
  fun_induction chase t seen name entry with
  | case1 =>
    cases h
    exact .here he
  | case2 => cases h
  | case3 => cases h
  | case4 seen name target hs entry' hn ih => exact .step he (ih hn h)

namespace Registry

/-- **A preset has the settings that its aliases lead to**, and names the entry
    that has them, unless it is that entry. -/
theorem leads_of_lookup {rows : List (String × PresetEntry)} {r : Registry} {name : String}
    {p : Preset} (hr : ofEntries rows = .ok r) (hp : r.lookup name = .ok p) :
    p.name = name ∧ ∃ target, p.aliasOf = (if target = name then none else some target) ∧
      Leads (NameTable.ofList rows) name target p.settings := by
  obtain ⟨presets, hm, rfl⟩ := map_eq_ok_iff.1 hr
  have hget : presets.get? name = some p := lookup_eq_ok_iff.1 hp
  obtain ⟨entry, he, hf⟩ := (NameTable.get?_of_mapM hm name p).1 hget
  obtain ⟨⟨target, values⟩, hc, rfl⟩ := map_eq_ok_iff.1 hf
  exact ⟨rfl, target, rfl, leads_of_chase he hc⟩

end Registry

end Transcode
