/-
  Transcode — one pass over the rules.

  The flags of a profile can be gathered in one pass: each rule adds what it renders to
  the end of its group, and the first rule that refuses ends the pass.  After any number
  of rules a group holds what its rules among them have rendered.

  * `group_push`, `pass_eq`: what one rule adds, and what a pass adds to what there is;
  * `flatMap_filter_group`: rules that are sorted by group are those of each group in
    turn;
  * `ofProfile_decided_by_rules`: so all rules together decide whether there are flags,
    the first one that refuses decides why not, and each rule has its place in them.
-/
import Transcode.Proofs.Refusals

namespace Transcode

/-! ## Groups in order -/

namespace FlagGroup

/-- The place of a group in the order of a command. -/
def index (g : FlagGroup) : Nat :=
  all.idxOf g

theorem exists_all_eq (g : FlagGroup) :
    ∃ before after, all = before ++ g :: after ∧ (∀ g' ∈ before, g'.index < g.index) ∧
      g ∉ after := by
  refine ⟨all.takeWhile (· ≠ g), (all.dropWhile (· ≠ g)).tail, ?_⟩
  cases g <;> decide

/-- **Rules that are sorted by group** are those of the first group, then those of the
    second, and so on. -/
theorem flatMap_filter_group {rs : List Rule}
    (h : rs.Pairwise fun r r' => r.group.index ≤ r'.group.index) :
    all.flatMap (fun g => rs.filter (·.group = g)) = rs := by
  induction rs with
  | nil => rfl
  | cons r rs ih =>
    obtain ⟨hr, hrs⟩ := List.pairwise_cons.1 h
    have ih := ih hrs
    obtain ⟨before, after, hall, hbefore, hafter⟩ := exists_all_eq r.group
    -- No rule is in a group before that of the first, and only the first is new.
    have hnil : ∀ rs' : List Rule, (∀ r' ∈ rs', r.group.index ≤ r'.group.index) →
        before.flatMap (fun g => rs'.filter (·.group = g)) = [] := by
      intro rs' hrs'
      refine List.flatMap_eq_nil_iff.2 fun g hg => List.filter_eq_nil_iff.2 fun r' hr' hgroup => ?_
      obtain rfl := of_decide_eq_true hgroup
      exact absurd (hbefore _ hg) (Nat.not_lt.2 (hrs' r' hr'))
    have hrest : ∀ g ∈ after, (r :: rs).filter (·.group = g) = rs.filter (·.group = g) := by
      intro g hg
      refine List.filter_cons_of_neg fun hgroup => hafter ?_
      rwa [of_decide_eq_true hgroup]
    have hfirst : (r :: rs).filter (·.group = r.group) = r :: rs.filter (·.group = r.group) :=
      List.filter_cons_of_pos (decide_eq_true rfl)
    rw [hall, List.flatMap_append, List.flatMap_cons, hnil rs hr, List.nil_append] at ih
    rw [hall, List.flatMap_append, List.flatMap_cons,
      hnil (r :: rs) (List.forall_mem_cons.2 ⟨Nat.le_refl _, hr⟩), List.nil_append,
      hfirst, List.flatMap_congr hrest, List.cons_append, ih]

end FlagGroup

namespace FlagSet

/-! ## A pass -/

/-- Arguments behind those of a group. -/
def push (f : FlagSet) (g : FlagGroup) (tokens : List String) : FlagSet :=
  ⟨fun g' => if g = g' then f.group g' ++ tokens else f.group g'⟩

/-- One set behind another, group by group. -/
def append (f f' : FlagSet) : FlagSet :=
  ⟨fun g => f.group g ++ f'.group g⟩

/-- A rule adds what it renders to what there is. -/
def step (s : Surroundings) (f : FlagSet) (r : Rule) : Except CompileError FlagSet :=
  (r.part s).map (f.push r.group)

/-- Rules add what they render, one after the other. -/
def pass (s : Surroundings) (f : FlagSet) (rs : List Rule) : Except CompileError FlagSet :=
  rs.foldlM (step s) f

theorem push_append (f f' : FlagSet) (g : FlagGroup) (tokens : List String) :
    (f.push g tokens).append f' = f.append (prepend g tokens f') := by
  unfold push append prepend
  congr 1
  funext g'
  by_cases h : g = g' <;> simp [h]

/-- **A pass adds to what there is** what its rules render by themselves. -/
theorem pass_eq (s : Surroundings) (f : FlagSet) (rs : List Rule) :
    pass s f rs = (gather s rs).map f.append := by
  induction rs generalizing f with
  | nil =>
    have hempty : f.append empty = f := by simp [append, empty]
    exact congrArg Except.ok hempty.symm
  | cons r rs ih =>
    have hstep : pass s f (r :: rs) = step s f r >>= (pass s · rs) := List.foldlM_cons
    rw [hstep, step, gather]
    cases r.part s with
    | error e => rfl
    | ok tokens =>
      refine (ih (f.push r.group tokens)).trans ?_
      cases gather s rs with
      | error e => rfl
      | ok f' => exact congrArg Except.ok (push_append f f' r.group tokens)

/-- The flags of a profile are those of a pass over all rules. -/
theorem ofProfile_eq_pass (p : Profile) (source : Source) :
    ofProfile p source = pass ⟨p, source⟩ empty rules := by
  rw [ofProfile_eq_gather, pass_eq]
  cases gather ⟨p, source⟩ rules <;> rfl

/-! ## All rules -/

theorem pairwise_rules : rules.Pairwise fun r r' => r.group.index ≤ r'.group.index := by
  have hgroups : (rules.map Rule.group).Pairwise fun g g' => g.index ≤ g'.index := by decide
  rwa [List.pairwise_map] at hgroups

theorem ofProfile_eq_error_iff {p : Profile} {source : Source} {e : CompileError} :
    ofProfile p source = .error e ↔ ∃ before r after, rules = before ++ r :: after ∧
      (∀ r' ∈ before, ∀ e', ¬ r'.Refuses ⟨p, source⟩ e') ∧ r.Refuses ⟨p, source⟩ e := by
  have hrenders : ∀ r : Rule, (∃ tokens, r.part ⟨p, source⟩ = .ok tokens) ↔
      ∀ e', ¬ r.Refuses ⟨p, source⟩ e' := by
    intro r
    simp only [← Rule.part_eq_error_iff]
    cases r.part ⟨p, source⟩ <;> simp
  rw [ofProfile_eq_gather, gather_eq_error_iff, mapM_eq_error_iff]
  simp only [hrenders, Rule.part_eq_error_iff]

/-- All arguments, read group by group, are those of the rules in order. -/
theorem tokens_of_ofProfile {p : Profile} {source : Source} {f : FlagSet}
    (h : ofProfile p source = .ok f) : f.tokens = rules.flatMap (·.tokens ⟨p, source⟩) := by
  have hgroups : f.group =
      fun g => (rules.filter (·.group = g)).flatMap (·.tokens ⟨p, source⟩) := by
    funext g
    exact group_of_ofProfile h g
  rw [tokens, hgroups, ← List.flatMap_assoc, FlagGroup.flatMap_filter_group pairwise_rules]

/-- **The rules decide about the flags in their order.**  There are flags iff no rule
    refuses the value that its setting has; else the first that does says why, whatever
    the rules behind it do.  Each group holds what its rules render, in the order of the
    rules, and so do all groups together. -/
theorem ofProfile_decided_by_rules (p : Profile) (source : Source) :
    ofProfile p source = pass ⟨p, source⟩ empty rules ∧
    ((∃ f, ofProfile p source = .ok f) ↔
      ∀ r ∈ rules, ∀ v, p.get? r.setting = some v → ∃ tokens, r.render v ⟨p, source⟩ = .ok tokens) ∧
    (∀ e, ofProfile p source = .error e ↔ ∃ before r after, rules = before ++ r :: after ∧
      (∀ r' ∈ before, ∀ e', ¬ r'.Refuses ⟨p, source⟩ e') ∧ r.Refuses ⟨p, source⟩ e) ∧
    ∀ f, ofProfile p source = .ok f →
      (∀ g, f.group g = (rules.filter (·.group = g)).flatMap (·.tokens ⟨p, source⟩)) ∧
      f.tokens = rules.flatMap (·.tokens ⟨p, source⟩) := by
  refine ⟨ofProfile_eq_pass p source, ?_, fun _ => ofProfile_eq_error_iff, ?_⟩
  · rw [exists_ofProfile_iff]
    constructor
    · intro h r hr v hv
      cases hrender : r.render v ⟨p, source⟩ with
      | ok tokens => exact ⟨tokens, rfl⟩
      | error e => exact absurd ⟨r, hr, e, v, hv, hrender⟩ h
    · rintro h ⟨r, hr, e, v, hv, hrender⟩
      obtain ⟨tokens, htokens⟩ := h r hr v hv
      cases hrender.symm.trans htokens
  · intro f hf
    exact ⟨group_of_ofProfile hf, tokens_of_ofProfile hf⟩

/-- Two values that are refused, first that of the rule which comes last. -/
def twoFaults : Settings :=
  .ofList [(.frameRate, .integer 0), (.audioChannels, .flag true)]

/-- Values of the first group and the last. -/
def outerGroups : Settings :=
  .ofList [(.threads, .integer 2), (.videoCodec, .text "copy"), (.probeSize, .integer 5000000)]

theorem ofProfile_decided_by_rules_twoFaults :
    ofProfile (Profile.resolve .empty twoFaults) .unknown =
      .error (.wrongType .audioChannels .single (.flag true)) ∧
    (∃ before r after, rules = before ++ r :: after ∧
      (∀ r' ∈ before, ∀ e', ¬ r'.Refuses ⟨Profile.resolve .empty twoFaults, .unknown⟩ e') ∧
      r.Refuses ⟨Profile.resolve .empty twoFaults, .unknown⟩
        (.wrongType .audioChannels .single (.flag true))) ∧
    ∃ f, ofProfile (Profile.resolve .empty outerGroups) .unknown = .ok f ∧
      f.tokens = ["-probesize", "5000000", "-c:a", "aac", "-c:v", "copy", "-threads", "2"] ∧
      f.tokens =
        rules.flatMap (·.tokens ⟨Profile.resolve .empty outerGroups, .unknown⟩) := by
  obtain ⟨-, -, hrefused, -⟩ :=
    ofProfile_decided_by_rules (Profile.resolve .empty twoFaults) .unknown
  obtain ⟨-, -, -, htokens⟩ :=
    ofProfile_decided_by_rules (Profile.resolve .empty outerGroups) .unknown
  have herror : (ofProfile (Profile.resolve .empty twoFaults) .unknown).map tokens =
      .error (.wrongType .audioChannels .single (.flag true)) := by decide +kernel
  have hok : (ofProfile (Profile.resolve .empty outerGroups) .unknown).map tokens =
      .ok ["-probesize", "5000000", "-c:a", "aac", "-c:v", "copy", "-threads", "2"] := by
    decide +kernel
  have herror := map_eq_error_iff.1 herror
  obtain ⟨f, hf, hlist⟩ := map_eq_ok_iff.1 hok
  exact ⟨herror, (hrefused _).1 herror, f, hf, hlist, (htokens f hf).2⟩

end FlagSet

end Transcode
