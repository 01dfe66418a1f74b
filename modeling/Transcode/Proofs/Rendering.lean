/-
  Transcode — what rules make of a profile.

  `Rule.part` is what one rule has to say about a profile, which is nothing where
  its setting has no value.  `FlagSet.gather` goes through all rules with it, and
  `ofProfile_eq_gather` is the equality with the rendering of the values that are
  there.

  * `gather_congr`: rules that say the same give the same flags or refusal;
  * `group_of_gather`: a group holds what its rules say, in order;
  * for every rule, what it renders where it does not refuse.
-/
import Transcode.Flag.Set
import Transcode.Proofs.Outcome

namespace Transcode

/-- What a rule renders of a profile. -/
def Rule.part (r : Rule) (s : Surroundings) : Rendering :=
  match s.profile.get? r.setting with
  | none => .ok []
  | some v => r.render v s

/-- The arguments that a rule renders of a profile; none where it refuses. -/
def Rule.tokens (r : Rule) (s : Surroundings) : List String :=
  match r.part s with
  | .ok tokens => tokens
  | .error _ => []

section
variable {r : Rule} {s : Surroundings}

theorem Rule.part_of_none (h : s.profile.get? r.setting = none) : r.part s = .ok [] := by
  rw [Rule.part, h]

theorem Rule.part_of_some {v : Value} (h : s.profile.get? r.setting = some v) :
    r.part s = r.render v s := by
  rw [Rule.part, h]

theorem Rule.tokens_eq {tokens : List String} (h : r.part s = .ok tokens) :
    r.tokens s = tokens := by
  rw [Rule.tokens, h]

end

namespace FlagSet

/-- Arguments in front of those of a group. -/
def prepend (g : FlagGroup) (tokens : List String) (f : FlagSet) : FlagSet :=
  ⟨fun g' => if g = g' then tokens ++ f.group g' else f.group g'⟩

/-- The flags of some rules, or the first refusal. -/
def gather (s : Surroundings) : List Rule → Except CompileError FlagSet
  | [] => .ok empty
  | r :: rs =>
    match r.part s with
    | .error e => .error e
    | .ok tokens => (gather s rs).map (prepend r.group tokens)

theorem ofParts_cons (g : FlagGroup) (tokens : List String)
    (parts : List (FlagGroup × List String)) :
    ofParts ((g, tokens) :: parts) = prepend g tokens (ofParts parts) := by
  unfold ofParts prepend
  congr 1
  funext g'
  by_cases h : g = g' <;> simp [h]

theorem prepend_nil (g : FlagGroup) (f : FlagSet) : prepend g [] f = f := by
  simp [prepend]

/-- **Going through all rules renders the values that are there**: a rule whose
    setting has no value adds nothing. -/
theorem renderAll_applicable (s : Surroundings) (rs : List Rule) :
    (renderAll s (rs.filterMap fun r => (s.profile.get? r.setting).map (r, ·))).map ofParts =
      gather s rs := by
  induction rs with
  | nil => rfl
  | cons r rs ih =>
    have hmap : ∀ (x : Except CompileError (List (FlagGroup × List String))) tokens,
        (x.map ((r.group, tokens) :: ·)).map ofParts =
          (x.map ofParts).map (prepend r.group tokens) := by
      intro x tokens
      cases x with
      | error e => rfl
      | ok parts => exact congrArg Except.ok (ofParts_cons r.group tokens parts)
    cases hv : s.profile.get? r.setting with
    | none =>
      have hnil : ∀ x : Except CompileError FlagSet, x.map (prepend r.group []) = x := by
        intro x
        cases x with
        | error e => rfl
        | ok f => exact congrArg Except.ok (prepend_nil r.group f)
      rw [List.filterMap_cons_none (by rw [hv]; rfl), gather, Rule.part_of_none hv, ih]
      exact (hnil _).symm
    | some v =>
      rw [List.filterMap_cons_some (b := (r, v)) (by rw [hv]; rfl), renderAll, gather,
        Rule.part_of_some hv]
      cases r.render v s with
      | error e => rfl
      | ok tokens => exact (hmap _ tokens).trans (congrArg _ ih)

theorem ofProfile_eq_gather (p : Profile) (source : Source) :
    ofProfile p source = gather ⟨p, source⟩ rules :=
  renderAll_applicable ⟨p, source⟩ rules

/-- Rules that say the same give the same flags, or the same refusal. -/
theorem gather_congr {s s' : Surroundings} {rs : List Rule}
    (h : ∀ r ∈ rs, r.part s = r.part s') : gather s rs = gather s' rs := by
  induction rs with
  | nil => rfl
  | cons r rs ih =>
    rw [gather, gather, h r List.mem_cons_self, ih fun x hx => h x (List.mem_cons_of_mem _ hx)]

/-- Where all is well, no rule refuses, and a group holds what its rules say. -/
theorem of_gather {s : Surroundings} {rs : List Rule} {f : FlagSet} (h : gather s rs = .ok f) :
    (∀ r ∈ rs, r.part s = .ok (r.tokens s)) ∧
      ∀ g, f.group g = (rs.filter (·.group = g)).flatMap (·.tokens s) := by
  induction rs generalizing f with
  | nil =>
    cases h
    exact ⟨fun r hr => absurd hr List.not_mem_nil, fun g => rfl⟩
  | cons r rs ih =>
    rw [gather] at h
    cases hr : r.part s with
    | error e =>
      rw [hr] at h
      cases h
    | ok tokens =>
      rw [hr] at h
      obtain ⟨f', hf', rfl⟩ := map_eq_ok_iff.1 h
      obtain ⟨hall, hgroup⟩ := ih hf'
      have htokens : r.tokens s = tokens := Rule.tokens_eq hr
      refine ⟨fun x hx => ?_, fun g => ?_⟩
      · rcases List.mem_cons.1 hx with rfl | hx
        · rw [hr, htokens]
        · exact hall x hx
      · by_cases hg : r.group = g
        · simp [prepend, hg, htokens, hgroup]
        · simp [prepend, hg, hgroup]

theorem part_of_ofProfile {p : Profile} {source : Source} {f : FlagSet}
    (h : ofProfile p source = .ok f) {r : Rule} (hr : r ∈ rules) :
    r.part ⟨p, source⟩ = .ok (r.tokens ⟨p, source⟩) := by
  rw [ofProfile_eq_gather] at h
  exact (of_gather h).1 r hr

theorem group_of_ofProfile {p : Profile} {source : Source} {f : FlagSet}
    (h : ofProfile p source = .ok f) (g : FlagGroup) :
    f.group g = (rules.filter (·.group = g)).flatMap (·.tokens ⟨p, source⟩) := by
  rw [ofProfile_eq_gather] at h
  exact (of_gather h).2 g

end FlagSet

/-! ## What the rules render -/

namespace Flag

variable {v : Value} {s : Surroundings} {tokens : List String}

theorem textOf_eq_ok_iff {t : Setting} {a : String} : textOf t v = .ok a ↔ v = .text a := by
  cases v <;> simp [textOf, Value.asText]

theorem codec_eq_ok_iff {medium : Medium} {t : Setting} :
    codec medium t v = .ok tokens ↔
      ∃ a c, v = .text a ∧ Codec.ofText medium a = .ok c ∧ tokens = [medium.codecFlag, c.name] := by
  constructor
  · intro h
    obtain ⟨a, ha, h⟩ := bind_eq_ok_iff.1 h
    obtain ⟨c, hc, h⟩ := bind_eq_ok_iff.1 h
    cases h
    exact ⟨a, c, textOf_eq_ok_iff.1 ha, hc, rfl⟩
  · rintro ⟨a, c, rfl, hc, rfl⟩
    exact bind_eq_ok_iff.2 ⟨a, rfl, bind_eq_ok_iff.2 ⟨c, hc, rfl⟩⟩

theorem dimensions_eq_ok (hs : s.profile.isPassThrough = false) (h : dimensions v s = .ok tokens) :
    ∃ size aspect, tokens = ["-s", size, "-aspect", aspect] := by
  simp only [dimensions, hs] at h
  rw [if_neg Bool.false_ne_true] at h
  split at h
  · obtain ⟨width, _, h⟩ := bind_eq_ok_iff.1 h
    obtain ⟨height, _, h⟩ := bind_eq_ok_iff.1 h
    obtain ⟨modulus, _, h⟩ := bind_eq_ok_iff.1 h
    obtain ⟨size, _, h⟩ := bind_eq_ok_iff.1 h
    obtain ⟨aspect, _, h⟩ := bind_eq_ok_iff.1 h
    cases h
    exact ⟨_, _, rfl⟩
  · obtain ⟨_, h, _⟩ := bind_eq_ok_iff.1 h
    cases h

theorem aspectRatio_eq_ok (h : aspectRatio v s = .ok tokens) :
    (s.profile.contains .width && !s.profile.isPassThrough) = true ∧ tokens = [] ∨
      (s.profile.contains .width && !s.profile.isPassThrough) = false ∧
        ∃ a, v = .text a ∧ tokens = ["-aspect", a] := by
  unfold aspectRatio at h
  split at h
  · rename_i hw
    cases h
    exact Or.inl ⟨hw, rfl⟩
  · rename_i hw
    obtain ⟨a, ha, h⟩ := bind_eq_ok_iff.1 h
    cases h
    exact Or.inr ⟨Bool.eq_false_iff.2 hw, a, textOf_eq_ok_iff.1 ha, rfl⟩

theorem videoBitRate_eq_ok (hs : s.profile.isPassThrough = false)
    (h : videoBitRate v s = .ok tokens) :
    tokens = ["-b:v", v.plain] ∨
      tokens = ["-b:v", v.plain, "-maxrate", v.plain, "-bufsize", v.plain] := by
  simp only [videoBitRate, hs] at h
  rw [if_neg Bool.false_ne_true] at h
  split at h
  · obtain ⟨_, h, _⟩ := bind_eq_ok_iff.1 h
    cases h
  · obtain ⟨constant, _, h⟩ := bind_eq_ok_iff.1 h
    cases h
    cases constant with
    | true => exact Or.inr rfl
    | false => exact Or.inl rfl

theorem frameRate_eq_ok (hs : s.profile.isPassThrough = false) (h : frameRate v s = .ok tokens) :
    ∃ rate interval, tokens = ["-r", rate, "-g", interval, "-keyint_min", interval] := by
  simp only [frameRate, hs] at h
  rw [if_neg Bool.false_ne_true] at h
  obtain ⟨rate, _, h⟩ := bind_eq_ok_iff.1 h
  split at h
  · obtain ⟨_, h, _⟩ := bind_eq_ok_iff.1 h
    cases h
  · obtain ⟨gop, _, h⟩ := bind_eq_ok_iff.1 h
    split at h
    · obtain ⟨_, h, _⟩ := bind_eq_ok_iff.1 h
      cases h
    · cases h
      exact ⟨_, _, rfl⟩

theorem videoProfile_eq_ok (hs : s.profile.isPassThrough = false)
    (h : videoProfile v s = .ok tokens) : ∃ a, v = .text a ∧ tokens = ["-profile:v", a] := by
  rw [videoProfile, hs, if_neg Bool.false_ne_true] at h
  obtain ⟨a, ha, h⟩ := bind_eq_ok_iff.1 h
  cases h
  exact ⟨a, textOf_eq_ok_iff.1 ha, rfl⟩

theorem videoCodecLevel_eq_ok (hs : s.profile.isPassThrough = false)
    (h : videoCodecLevel v s = .ok tokens) : tokens = ["-level", v.plain] := by
  rw [videoCodecLevel, hs, if_neg Bool.false_ne_true] at h
  split at h
  · cases h
    rfl
  · cases h

theorem videoFilter_eq_ok (h : videoFilter v s = .ok tokens) :
    s.profile.isPassThrough = false ∧ ∃ a, v = .text a ∧ tokens = ["-vf", a] := by
  unfold videoFilter at h
  split at h
  · cases h
  · rename_i hs
    obtain ⟨a, ha, h⟩ := bind_eq_ok_iff.1 h
    cases h
    exact ⟨Bool.eq_false_iff.2 hs, a, textOf_eq_ok_iff.1 ha, rfl⟩

end Flag

namespace Rule

variable {r : Rule} {s : Surroundings} {tokens : List String}

theorem render_verbatim {flag : String} {v : Value} (hr : r.manner = .verbatim flag)
    (h : r.render v s = .ok tokens) : tokens = [flag, v.plain] := by
  rw [render, hr] at h
  cases v with
  | flag | list => cases h
  | integer | float | text =>
    cases h
    rfl

/-- The settings that only matter to a stream that is encoded, and have a rule. -/
def encoding : List Setting :=
  [.width, .videoBitRate, .frameRate, .videoProfile, .videoCodecLevel, .encoderOptions]

theorem mem_encoding (hr : r ∈ rules) (ht : r.setting ∈ encoding) :
    r = ⟨.width, .video, .computed Flag.dimensions⟩ ∨
      r = ⟨.videoBitRate, .video, .computed Flag.videoBitRate⟩ ∨
      r = ⟨.frameRate, .video, .computed Flag.frameRate⟩ ∨
      r = ⟨.videoProfile, .video, .computed Flag.videoProfile⟩ ∨
      r = ⟨.videoCodecLevel, .video, .computed Flag.videoCodecLevel⟩ ∨
      r = ⟨.encoderOptions, .video, .computed Flag.encoderOptions⟩ := by
  have hmem : r ∈ rules.filter (·.setting ∈ encoding) := List.mem_filter.2 ⟨hr, decide_eq_true ht⟩
  simpa [rules, encoding] using hmem

/-- Of the other rules, four look at more than how a value is shown. -/
theorem verbatim_or_mem (hr : r ∈ rules) (ht : r.setting ∉ encoding) :
    (∃ flag, r.manner = .verbatim flag) ∨
      r = ⟨.audioCodec, .audio, .computed fun v _ => Flag.codec .audio .audioCodec v⟩ ∨
      r = ⟨.videoCodec, .video, .computed fun v _ => Flag.codec .video .videoCodec v⟩ ∨
      r = ⟨.aspectRatio, .video, .computed Flag.aspectRatio⟩ ∨
      r = ⟨.videoFilter, .video, .computed Flag.videoFilter⟩ := by
  cases hm : r.manner with
  | verbatim flag => exact Or.inl ⟨flag, rfl⟩
  | computed f =>
    have hmem : r ∈ rules.filter fun r => r.setting ∉ encoding ∧ r.manner matches .computed _ :=
      List.mem_filter.2 ⟨hr, by simp [ht, hm]⟩
    exact Or.inr (by simpa [rules, encoding] using hmem)

/-- About a stream that is copied, the rules of encoding have nothing to say. -/
theorem part_of_isPassThrough (hr : r ∈ rules) (ht : r.setting ∈ encoding)
    (hs : s.profile.isPassThrough = true) : r.part s = .ok [] := by
  cases hv : s.profile.get? r.setting with
  | none => exact part_of_none hv
  | some v =>
    rw [part_of_some hv]
    rcases mem_encoding hr ht with rfl | rfl | rfl | rfl | rfl | rfl
    · show Flag.dimensions v s = .ok []
      rw [Flag.dimensions, if_pos hs]
      rfl
    · show Flag.videoBitRate v s = .ok []
      rw [Flag.videoBitRate, if_pos hs]
      rfl
    · show Flag.frameRate v s = .ok []
      rw [Flag.frameRate, if_pos hs]
      rfl
    · exact if_pos hs
    · exact if_pos hs
    · show Flag.encoderOptions v s = .ok []
      rw [Flag.encoderOptions, if_pos hs]
      rfl

end Rule

end Transcode
