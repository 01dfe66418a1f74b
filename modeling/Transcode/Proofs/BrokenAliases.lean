/-
  Transcode — what is said of aliases that lead nowhere.

  A table of entries without a registry is refused for the least of its names whose
  aliases do not lead to settings.  These either run out, at a name without an entry,
  or come back to a name that they have passed, and the error shows which.

  * `Trail`: the aliases that a chase has followed, step by step;
  * `report_of_chase`: where a chase fails, the way up to there is what it reports;
  * `Revisits.not_runsOut`: aliases that come back do not run out as well;
  * `Registry.ofEntries_reports`: so the error of a table is true, and of its first fault.
-/
import Mathlib.Data.List.Chain
import Mathlib.Data.List.Nodup
import Transcode.Proofs.AliasChains

namespace Transcode

open Relation

variable {t : NameTable PresetEntry} {start name target : String} {seen : List String}

/-! ## Aliases that lead nowhere -/

/-- The aliases of a name of the table do not lead to settings. -/
def IsStuck (t : NameTable PresetEntry) (name : String) : Prop :=
  name ∈ t.names ∧ ¬ ∃ last values, Leads t name last values

/-- The least name whose aliases do not lead to settings. -/
structure IsFirstStuck (t : NameTable PresetEntry) (name : String) : Prop where
  stuck : IsStuck t name
  least : ∀ other, IsStuck t other → name ≤ other

/-- The aliases of a name end at one without an entry. -/
def RunsOut (t : NameTable PresetEntry) (name : String) : Prop :=
  ∃ target, ReflTransGen (AliasStep t) name target ∧ t.get? target = none

/-- The aliases of a name come to one that they come back to. -/
def Revisits (t : NameTable PresetEntry) (name : String) : Prop :=
  ∃ x, ReflTransGen (AliasStep t) name x ∧ TransGen (AliasStep t) x x

/-- Names along aliases, from a name up to the first that has come before. -/
structure IsLap (t : NameTable PresetEntry) (start : String) (chain : List String) : Prop where
  start : chain.head? = some start
  steps : chain.IsChain (AliasStep t)
  distinct : chain.dropLast.Nodup
  back : ∃ last, chain.getLast? = some last ∧ last ∈ chain.dropLast

/-- An error that names the step with which the aliases of a name run out. -/
def ShowsEnd (t : NameTable PresetEntry) (name : String) (e : CompileError) : Prop :=
  ∃ dangling target, e = .danglingAlias dangling target ∧
    ReflTransGen (AliasStep t) name dangling ∧ AliasStep t dangling target ∧
      t.get? target = none

/-- An error that is a lap of the aliases of a name. -/
def ShowsLap (t : NameTable PresetEntry) (name : String) (e : CompileError) : Prop :=
  ∃ chain, e = .aliasCycle chain ∧ IsLap t name chain

theorem AliasStep.get?_ne_none (h : AliasStep t name target) : t.get? name ≠ none := by
  rw [AliasStep] at h
  simp [h]

theorem AliasStep.unique {target' : String} (h : AliasStep t name target)
    (h' : AliasStep t name target') : target = target' := by
  cases h.symm.trans h'
  rfl

namespace Revisits

theorem get?_ne_none (h : Revisits t name) : t.get? name ≠ none := by
  obtain ⟨x, hx, hloop⟩ := h
  rcases ReflTransGen.cases_head hx with rfl | ⟨next, hnext, -⟩
  · obtain ⟨next, hnext, -⟩ := TransGen.head'_iff.1 hloop
    exact hnext.get?_ne_none
  · exact hnext.get?_ne_none

/-- One step on, the aliases still come back. -/
theorem step (h : Revisits t name) (hs : AliasStep t name target) : Revisits t target := by
  obtain ⟨x, hx, hloop⟩ := h
  rcases ReflTransGen.cases_head hx with rfl | ⟨next, hnext, hrest⟩
  · -- The name is on the loop itself, so the next one is as well.
    obtain ⟨next, hnext, hback⟩ := TransGen.head'_iff.1 hloop
    obtain rfl := hs.unique hnext
    exact ⟨target, .refl, .tail' hback hs⟩
  · obtain rfl := hs.unique hnext
    exact ⟨x, hrest, hloop⟩

/-- **Aliases that come back do not run out.** -/
theorem not_runsOut (h : Revisits t name) : ¬ RunsOut t name := by
  rintro ⟨target, hreach, hnone⟩
  induction hreach using ReflTransGen.head_induction_on with
  | refl => exact h.get?_ne_none hnone
  | head hs _ ih => exact ih (h.step hs)

end Revisits

/-! ## The trail of a chase -/

/-- Aliases lead from a name to another by way of some names, the latest first, and to
    none of them twice. -/
inductive Trail (t : NameTable PresetEntry) (start : String) : List String → String → Prop
  | start : Trail t start [] start
  | step {seen : List String} {name target : String} : Trail t start seen name →
      AliasStep t name target → target ∉ name :: seen → Trail t start (name :: seen) target

namespace Trail

theorem getLast?_eq (h : Trail t start seen name) : (name :: seen).getLast? = some start := by
  induction h with
  | start => rfl
  | step _ _ _ ih => rw [List.getLast?_cons_cons, ih]

theorem nodup (h : Trail t start seen name) : (name :: seen).Nodup := by
  induction h with
  | start => exact List.nodup_singleton _
  | step _ _ hnew ih => exact List.nodup_cons.2 ⟨hnew, ih⟩

theorem isChain (h : Trail t start seen name) :
    (name :: seen).IsChain fun x y => AliasStep t y x := by
  induction h with
  | start => exact .singleton _
  | step _ hs _ ih => exact .cons_cons hs ih

/-- Every name of a trail lies between its two ends. -/
theorem between (h : Trail t start seen name) : ∀ x ∈ name :: seen,
    ReflTransGen (AliasStep t) start x ∧ ReflTransGen (AliasStep t) x name := by
  induction h with
  | start =>
    intro x hx
    obtain rfl := List.mem_singleton.1 hx
    exact ⟨.refl, .refl⟩
  | step _ hs _ ih =>
    intro x hx
    rcases List.mem_cons.1 hx with rfl | hx
    · obtain ⟨hreach, -⟩ := ih _ List.mem_cons_self
      exact ⟨.tail hreach hs, .refl⟩
    · obtain ⟨hfrom, hto⟩ := ih x hx
      exact ⟨hfrom, .tail hto hs⟩

/-- A trail that comes back to one of its names is a lap. -/
theorem isLap (h : Trail t start seen name) (hs : AliasStep t name target)
    (hback : target ∈ name :: seen) : IsLap t start (target :: name :: seen).reverse := by
  refine ⟨?_, ?_, ?_, target, ?_, ?_⟩
  · rw [List.head?_reverse, List.getLast?_cons_cons, h.getLast?_eq]
  · exact List.isChain_reverse.2 (.cons_cons hs h.isChain)
  · rw [List.reverse_cons, List.dropLast_concat, List.nodup_reverse]
    exact h.nodup
  · rw [List.getLast?_reverse, List.head?_cons]
  · rw [List.reverse_cons, List.dropLast_concat, List.mem_reverse]
    exact hback

end Trail

/-- **A chase reports the way it has come**, where it fails: the step by which the
    aliases run out, or the lap by which they come back. -/
theorem report_of_chase {entry : PresetEntry} {e : CompileError} (he : t.get? name = some entry)
    (h : chase t seen name entry = .error e) (htrail : Trail t start seen name) :
    RunsOut t start ∧ ShowsEnd t start e ∨ Revisits t start ∧ ShowsLap t start e := by
  fun_induction chase t seen name entry with
  | case1 => cases h
  | case2 seen name target hs =>
    cases h
    have hstep : AliasStep t name target := he
    obtain ⟨hfrom, hto⟩ := htrail.between _ hs
    exact Or.inr ⟨⟨target, hfrom, .tail' hto hstep⟩, _, rfl, htrail.isLap hstep hs⟩
  | case3 seen name target _ hn =>
    cases h
    have hstep : AliasStep t name target := he
    obtain ⟨hreach, -⟩ := htrail.between _ List.mem_cons_self
    exact Or.inl ⟨⟨target, .tail hreach hstep, hn⟩, name, target, rfl, hreach, hstep, hn⟩
  | case4 seen name target hs entry hn ih => exact ih hn h (.step htrail he hs)

/-! ## The first fault of a table -/

namespace NameTable

variable {α β ε : Type} {f : String → α → Except ε β}

theorem mapRows_eq_mapM (rows : List (String × α)) :
    mapRows f rows = rows.mapM fun x => (f x.1 x.2).map (x.1, ·) := by
  induction rows with
  | nil => rfl
  | cons row rows ih =>
    rw [mapRows, ih, List.mapM_cons]
    cases f row.1 row.2 with
    | error e => rfl
    | ok w => cases rows.mapM fun x => (f x.1 x.2).map (x.1, ·) <;> rfl

/-- A change of a table fails at the least of the names whose values cannot be changed. -/
theorem least_of_mapM_eq_error {t : NameTable α} {e : ε} (h : t.mapM f = .error e) :
    ∃ name v, t.get? name = some v ∧ f name v = .error e ∧
      ∀ other w, t.get? other = some w → other < name → ∃ u, f other w = .ok u := by
  rw [mapM_eq_map, map_eq_error_iff, mapRows_eq_mapM, mapM_eq_error_iff] at h
  obtain ⟨before, ⟨name, v⟩, after, hsplit, hbefore, hv⟩ := h
  have hget : ∀ {other w}, t.get? other = some w ↔ (other, w) ∈ t.entries :=
    find_eq_some_iff t.ordered
  refine ⟨name, v, ?_, map_eq_error_iff.1 hv, ?_⟩
  · rw [hget, hsplit]
    exact List.mem_append_right _ List.mem_cons_self
  · intro other w hw hlt
    rw [hget, hsplit, List.mem_append, List.mem_cons] at hw
    rcases hw with hw | hw | hw
    · obtain ⟨_, hu⟩ := hbefore _ hw
      obtain ⟨u, hu, -⟩ := map_eq_ok_iff.1 hu
      exact ⟨u, hu⟩
    · cases hw
      exact absurd hlt (String.lt_irrefl _)
    · have hordered := t.ordered
      rw [hsplit, List.pairwise_append, List.pairwise_cons] at hordered
      obtain ⟨-, ⟨hafter, -⟩, -⟩ := hordered
      exact absurd (String.lt_trans hlt (hafter _ hw)) (String.lt_irrefl _)

end NameTable

namespace Registry

variable {rows : List (String × PresetEntry)} {e : CompileError}

/-- A table without a registry has a least name whose aliases do not lead to settings,
    and the error is that of following these. -/
theorem firstStuck_of_error (h : ofEntries rows = .error e) :
    ∃ name entry, IsFirstStuck (NameTable.ofList rows) name ∧
      (NameTable.ofList rows).get? name = some entry ∧
      chase (NameTable.ofList rows) [] name entry = .error e := by
  obtain ⟨name, entry, he, hfail, hleast⟩ :=
    NameTable.least_of_mapM_eq_error (map_eq_error_iff.1 h)
  have hchase := map_eq_error_iff.1 hfail
  refine ⟨name, entry, ⟨⟨?_, ?_⟩, ?_⟩, he, hchase⟩
  · exact NameTable.mem_names_iff_exists.2 ⟨entry, he⟩
  · rintro ⟨last, values, hl⟩
    rw [chase_of_leads he hl (by simp)] at hchase
    cases hchase
  · rintro other ⟨hmem, hstuck⟩
    obtain ⟨entry', he'⟩ := NameTable.mem_names_iff_exists.1 hmem
    refine String.not_lt.1 fun hlt => hstuck ?_
    obtain ⟨p, hp⟩ := hleast other entry' he' hlt
    obtain ⟨⟨last, values⟩, hc, -⟩ := map_eq_ok_iff.1 hp
    exact ⟨last, values, leads_of_chase he' hc⟩

/-- **The error of a table is evidence of its first fault**, the least name whose
    aliases do not lead to settings.  If they run out, it names the step that leaves
    the table; if they come back, it is the lap that starts with that name. -/
theorem ofEntries_reports (h : ofEntries rows = .error e) :
    ∃ name, IsFirstStuck (NameTable.ofList rows) name ∧
      (RunsOut (NameTable.ofList rows) name ∨ Revisits (NameTable.ofList rows) name) ∧
      (RunsOut (NameTable.ofList rows) name → ShowsEnd (NameTable.ofList rows) name e) ∧
      (Revisits (NameTable.ofList rows) name → ShowsLap (NameTable.ofList rows) name e) := by
  obtain ⟨name, entry, hfirst, he, hchase⟩ := firstStuck_of_error h
  refine ⟨name, hfirst, ?_⟩
  rcases report_of_chase he hchase .start with ⟨hout, hreport⟩ | ⟨hback, hreport⟩
  · exact ⟨Or.inl hout, fun _ => hreport, fun hback => absurd hout hback.not_runsOut⟩
  · exact ⟨Or.inr hback, fun hout => absurd hout hback.not_runsOut, fun _ => hreport⟩

/-- The error of a table that has no registry. -/
def refusal? (rows : List (String × PresetEntry)) : Option CompileError :=
  match ofEntries rows with
  | .error e => some e
  | .ok _ => none

theorem refusal?_eq_some_iff : refusal? rows = some e ↔ ofEntries rows = .error e := by
  unfold refusal?
  cases ofEntries rows <;> simp

/-- An alias without an entry to stand for, and before it in order some that follow each
    other up to that of `web`. -/
def faultyRows (target : String) : List (String × PresetEntry) :=
  [("zoom", .aliasOf "lost"), ("audio", .aliasOf "phone"), ("phone", .aliasOf "tablet"),
    ("small", .settings (.ofList [(.width, .integer 320)])), ("tablet", .aliasOf "web"),
    ("web", .aliasOf target)]

example : refusal? (faultyRows "gone") = some (.danglingAlias "web" "gone") := by decide +kernel

theorem ofEntries_reports_lap :
    ofEntries (faultyRows "tablet") =
        .error (.aliasCycle ["audio", "phone", "tablet", "web", "tablet"]) ∧
      IsFirstStuck (NameTable.ofList (faultyRows "tablet")) "audio" ∧
      IsLap (NameTable.ofList (faultyRows "tablet")) "audio"
        ["audio", "phone", "tablet", "web", "tablet"] := by
  have hrefusal : refusal? (faultyRows "tablet") =
      some (.aliasCycle ["audio", "phone", "tablet", "web", "tablet"]) := by decide +kernel
  have h := refusal?_eq_some_iff.1 hrefusal
  obtain ⟨name, hfirst, hstuck, hout, hback⟩ := ofEntries_reports h
  rcases hstuck with hstuck | hstuck
  · obtain ⟨_, _, he, -⟩ := hout hstuck
    cases he
  · obtain ⟨chain, he, hlap⟩ := hback hstuck
    cases he
    obtain rfl : "audio" = name := Option.some.inj hlap.start
    exact ⟨h, hfirst, hlap⟩

end Registry

end Transcode
