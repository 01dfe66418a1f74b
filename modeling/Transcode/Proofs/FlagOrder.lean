/-
  Transcode — the order of flags in a command.

  Apart from the encoder options, whose words are the caller's, the arguments that
  rules write are flags with one value each.  `Rule.flags` says which flags a rule
  may write; they are all in `flagOrder`, once and in its order.

  * `paired_of_part`: what one rule writes is pairs of its flags;
  * `args_of_compile`: what a command consists of, and the order of its flags.
-/
import Transcode.Proofs.Layers
import Transcode.Proofs.Rendering

namespace Transcode

/-- Flags and values as arguments. -/
def joined (pairs : List (String × String)) : List String :=
  pairs.flatMap fun q => [q.1, q.2]

/-- Arguments that are flags with a value each, the flags being some of `may` and
    at least those of `must`, in their order. -/
def Paired (must may tokens : List String) : Prop :=
  ∃ pairs, tokens = joined pairs ∧ must.Sublist (pairs.map Prod.fst) ∧
    (pairs.map Prod.fst).Sublist may

theorem Paired.nil {may : List String} : Paired [] may [] :=
  ⟨[], rfl, List.Sublist.slnil, List.nil_sublist _⟩

theorem Paired.append {must must' may may' xs ys : List String} (hx : Paired must may xs)
    (hy : Paired must' may' ys) : Paired (must ++ must') (may ++ may') (xs ++ ys) := by
  obtain ⟨ps, rfl, hmust, hmay⟩ := hx
  obtain ⟨qs, rfl, hmust', hmay'⟩ := hy
  refine ⟨ps ++ qs, List.flatMap_append.symm, ?_, ?_⟩
  · rw [List.map_append]
    exact hmust.append hmust'
  · rw [List.map_append]
    exact hmay.append hmay'

theorem Paired.flatMap {α : Type} {xs : List α} {must may tokens : α → List String}
    (h : ∀ x ∈ xs, Paired (must x) (may x) (tokens x)) :
    Paired (xs.flatMap must) (xs.flatMap may) (xs.flatMap tokens) := by
  induction xs with
  | nil => exact Paired.nil
  | cons x xs ih =>
    rw [List.flatMap_cons, List.flatMap_cons, List.flatMap_cons]
    exact (h x List.mem_cons_self).append (ih fun y hy => h y (List.mem_cons_of_mem _ hy))

/-! ## The flags of a rule -/

/-- The order of all flags. -/
def flagOrder : List String :=
  ["-analyzeduration", "-probesize", "-ss", "-t", "-c:a", "-ar", "-b:a", "-ac", "-async", "-c:v",
   "-s", "-aspect", "-b:v", "-maxrate", "-bufsize", "-r", "-g", "-keyint_min", "-profile:v",
   "-level", "-vf", "-threads"]

namespace Profile

/-- Whether the size of the frame is written, and its shape with it. -/
def isFramed (p : Profile) : Bool :=
  p.contains .width && !p.isPassThrough

/-- What the encoder options of a profile are rendered as. -/
def renderedOptions (p : Profile) (source : Source) : Rendering :=
  match p.get? .encoderOptions with
  | none => .ok []
  | some v => Flag.encoderOptions v ⟨p, source⟩

end Profile

namespace Rule

/-- The flags that a rule may write.  The shape of the frame has one rule to write
    it where the size is written, and another where it is not. -/
def flags (framed : Bool) (r : Rule) : List String :=
  match r.manner, r.setting with
  | .verbatim flag, _ => [flag]
  | _, .audioCodec => ["-c:a"]
  | _, .videoCodec => ["-c:v"]
  | _, .width => if framed then ["-s", "-aspect"] else []
  | _, .aspectRatio => if framed then [] else ["-aspect"]
  | _, .videoBitRate => ["-b:v", "-maxrate", "-bufsize"]
  | _, .frameRate => ["-r", "-g", "-keyint_min"]
  | _, .videoProfile => ["-profile:v"]
  | _, .videoCodecLevel => ["-level"]
  | _, .videoFilter => ["-vf"]
  | _, _ => []

/-- The flags that a rule always writes. -/
def demanded (r : Rule) : List String :=
  if r.setting ∈ Profile.settled then r.flags false else []

theorem flatMap_flags (framed : Bool) :
    ((rules.filter (·.setting ≠ .encoderOptions)).flatMap (flags framed)).Sublist flagOrder := by
  cases framed <;> decide

theorem demanded_sublist_flags {r : Rule} (hr : r ∈ rules) (framed : Bool) :
    r.demanded.Sublist (r.flags framed) := by
  have hall : ∀ r ∈ rules, ∀ framed, r.demanded.Sublist (r.flags framed) := by decide
  exact hall r hr framed

variable {r : Rule} {s : Surroundings} {tokens : List String}

theorem paired_nil {framed : Bool} (hr : r.setting ∉ Profile.settled) :
    Paired r.demanded (r.flags framed) [] := by
  rw [demanded, if_neg hr]
  exact Paired.nil

/-- Where all flags of a rule are written, so are those demanded. -/
theorem paired_joined {framed : Bool} (hr : r ∈ rules) (pairs : List (String × String))
    (hflags : pairs.map Prod.fst = r.flags framed) :
    Paired r.demanded (r.flags framed) (joined pairs) := by
  refine ⟨pairs, rfl, ?_, ?_⟩
  · rw [hflags]
    exact demanded_sublist_flags hr framed
  · exact hflags ▸ List.Sublist.refl _

theorem paired_of_encoding {v : Value} (hr : r ∈ rules) (ht : r.setting ∈ encoding)
    (hne : r.setting ≠ .encoderOptions) (hv : s.profile.get? r.setting = some v)
    (hs : s.profile.isPassThrough = false) (h : r.render v s = .ok tokens) :
    Paired r.demanded (r.flags s.profile.isFramed) tokens := by
  rcases mem_encoding hr ht with rfl | rfl | rfl | rfl | rfl | rfl
  · have hframed : s.profile.isFramed = true := by
      have hw : s.profile.contains .width = true := Option.isSome_iff_exists.2 ⟨v, hv⟩
      rw [Profile.isFramed, hw, hs]
      rfl
    obtain ⟨size, aspect, rfl⟩ := Flag.dimensions_eq_ok hs h
    exact paired_joined hr [("-s", size), ("-aspect", aspect)] (by rw [hframed]; rfl)
  · -- A bound is written with the bit rate when that is constant.
    rcases Flag.videoBitRate_eq_ok hs h with rfl | rfl
    · have hfirst : ["-b:v"].Sublist ["-b:v", "-maxrate", "-bufsize"] :=
        List.sublist_append_left ["-b:v"] _
      exact ⟨[("-b:v", v.plain)], rfl, List.nil_sublist _, hfirst⟩
    · exact paired_joined hr
        [("-b:v", v.plain), ("-maxrate", v.plain), ("-bufsize", v.plain)] rfl
  · obtain ⟨rate, interval, rfl⟩ := Flag.frameRate_eq_ok hs h
    exact paired_joined hr [("-r", rate), ("-g", interval), ("-keyint_min", interval)] rfl
  · obtain ⟨a, -, rfl⟩ := Flag.videoProfile_eq_ok hs h
    exact paired_joined hr [("-profile:v", a)] rfl
  · obtain rfl := Flag.videoCodecLevel_eq_ok hs h
    exact paired_joined hr [("-level", v.plain)] rfl
  · exact absurd rfl hne

theorem paired_of_render {v : Value} (hr : r ∈ rules) (ht : r.setting ∉ encoding)
    (h : r.render v s = .ok tokens) : Paired r.demanded (r.flags s.profile.isFramed) tokens := by
  rcases verbatim_or_mem hr ht with ⟨flag, hflag⟩ | rfl | rfl | rfl | rfl
  · obtain rfl := render_verbatim hflag h
    have hflags : r.flags s.profile.isFramed = [flag] := by rw [flags, hflag]
    exact paired_joined hr [(flag, v.plain)] hflags.symm
  · obtain ⟨_, c, _, _, rfl⟩ := Flag.codec_eq_ok_iff.1 h
    exact paired_joined hr [("-c:a", c.name)] rfl
  · obtain ⟨_, c, _, _, rfl⟩ := Flag.codec_eq_ok_iff.1 h
    exact paired_joined hr [("-c:v", c.name)] rfl
  · rcases Flag.aspectRatio_eq_ok h with ⟨-, rfl⟩ | ⟨hframed, a, -, rfl⟩
    · exact paired_nil (by decide)
    · have hframed : s.profile.isFramed = false := hframed
      exact paired_joined hr [("-aspect", a)] (by rw [hframed]; rfl)
  · obtain ⟨-, a, -, rfl⟩ := Flag.videoFilter_eq_ok h
    exact paired_joined hr [("-vf", a)] rfl

/-- **A rule writes pairs of its flags**, and all that are demanded. -/
theorem paired_of_part (hr : r ∈ rules) (hne : r.setting ≠ .encoderOptions)
    (hs : ∀ t ∈ Profile.settled, s.profile.get? t ≠ none) (h : r.part s = .ok tokens) :
    Paired r.demanded (r.flags s.profile.isFramed) tokens := by
  cases hv : s.profile.get? r.setting with
  | none =>
    rw [part_of_none hv] at h
    cases h
    exact paired_nil fun hmem => hs _ hmem hv
  | some v =>
    have hrender : r.render v s = .ok tokens := (part_of_some hv).symm.trans h
    by_cases ht : r.setting ∈ encoding
    · cases hp : s.profile.isPassThrough with
      | true =>
        have hsettled : ∀ t ∈ encoding, t ∉ Profile.settled := by decide
        rw [part_of_isPassThrough hr ht hp] at h
        cases h
        exact paired_nil (hsettled _ ht)
      | false => exact paired_of_encoding hr ht hne hv hp hrender
    · exact paired_of_render hr ht hrender

end Rule

/-! ## The arguments of a command -/

theorem Recipe.assemble_standard (f : FlagSet) (input output : Path) :
    Recipe.standard.assemble f input output =
      .ok (f.group .global ++ ["-i", input.display] ++ f.group .trim ++ f.group .audio ++
        f.group .video ++ ["-y"] ++ f.group .threads ++ [output.display]) := by
  -- Every token of the template is known, so it computes, up to how `++` associates.
  show Except.ok (f.group .global ++ (["-i"] ++ ([input.display] ++ (f.group .trim ++
    (f.group .audio ++ (f.group .video ++ (["-y"] ++ (f.group .threads ++
      ([output.display] ++ []))))))))) = _
  simp only [List.append_assoc, List.append_nil, List.cons_append, List.nil_append]

namespace FlagSet

variable {p : Profile} {source : Source} {f : FlagSet}

/-- The encoder options end the video group, and all the rest are pairs. -/
theorem paired_of_ofProfile (h : ofProfile p source = .ok f)
    (hp : ∀ t ∈ Profile.settled, p.get? t ≠ none) :
    ∃ head options, f.group .video = head ++ options ∧ p.renderedOptions source = .ok options ∧
      Paired ["-c:a", "-c:v", "-threads"] flagOrder
        (f.group .global ++ f.group .trim ++ f.group .audio ++ head ++ f.group .threads) := by
  let s : Surroundings := ⟨p, source⟩
  let last : Rule := ⟨.encoderOptions, .video, .computed Flag.encoderOptions⟩
  let others := rules.filter (·.setting ≠ .encoderOptions)
  have hpaired : Paired (others.flatMap Rule.demanded) (others.flatMap (Rule.flags p.isFramed))
      (others.flatMap (Rule.tokens · s)) := by
    refine Paired.flatMap fun r hr => ?_
    obtain ⟨hr, hne⟩ := List.mem_filter.1 hr
    exact Rule.paired_of_part hr (of_decide_eq_true hne) hp (part_of_ofProfile h hr)
  have hothers : others = rules.filter (·.group = .global) ++ rules.filter (·.group = .trim) ++
      rules.filter (·.group = .audio) ++ others.filter (·.group = .video) ++
      rules.filter (·.group = .threads) := rfl
  have hvideo : rules.filter (·.group = .video) = others.filter (·.group = .video) ++ [last] := rfl
  have hlast : last ∈ rules := by simp [rules, last]
  refine ⟨(others.filter (·.group = .video)).flatMap (Rule.tokens · s), last.tokens s, ?_, ?_, ?_⟩
  · rw [group_of_ofProfile h, hvideo, List.flatMap_append, List.flatMap_singleton]
  · exact part_of_ofProfile h hlast
  · obtain ⟨pairs, htokens, hmust, hmay⟩ := hpaired
    refine ⟨pairs, ?_, hmust, hmay.trans (Rule.flatMap_flags p.isFramed)⟩
    rw [← htokens, hothers]
    simp only [group_of_ofProfile h, List.flatMap_append]
    rfl

end FlagSet

/-- **A command orders its flags.**  Around the input and the output come the groups,
    and what they hold but for the encoder options are pairs, of which no two have
    the same flag and each codec has one. -/
theorem args_of_compile {e : Encoder} {r : Request} {c : Command}
    (he : e.recipe = Recipe.standard) (hc : e.compile r = .ok c) :
    ∃ f head options pairs, FlagSet.ofProfile c.profile r.source = .ok f ∧
      c.args = f.group .global ++ ["-i", r.input.display] ++ f.group .trim ++ f.group .audio ++
        f.group .video ++ ["-y"] ++ f.group .threads ++ [r.output.display] ∧
      f.group .video = head ++ options ∧ c.profile.renderedOptions r.source = .ok options ∧
      f.group .global ++ f.group .trim ++ f.group .audio ++ head ++ f.group .threads =
        joined pairs ∧
      (pairs.map Prod.fst).Nodup ∧ (pairs.map Prod.fst).Sublist flagOrder ∧
      ∀ flag ∈ ["-c:a", "-c:v", "-threads"], (pairs.map Prod.fst).count flag = 1 := by
  obtain ⟨p, hp, hrender⟩ := bind_eq_ok_iff.1 hc
  obtain ⟨f, hf, hrender⟩ := bind_eq_ok_iff.1 hrender
  obtain ⟨args, hargs, hrender⟩ := bind_eq_ok_iff.1 hrender
  cases hrender
  obtain ⟨q, -, rfl⟩ := map_eq_ok_iff.1 hp
  rw [he, Recipe.assemble_standard] at hargs
  cases hargs
  obtain ⟨head, options, hvideo, hoptions, pairs, hpairs, hmust, hmay⟩ :=
    FlagSet.paired_of_ofProfile hf fun t => Profile.get?_resolve_settled q.settings r.overrides
  have horder : flagOrder.Nodup := by decide
  have hnodup : (pairs.map Prod.fst).Nodup := hmay.nodup horder
  refine ⟨f, head, options, pairs, hf, rfl, hvideo, hoptions, hpairs, hnodup, hmay, ?_⟩
  intro flag hflag
  rw [hnodup.count, if_pos (hmust.subset hflag)]

/-- A shape that is given with a size, and an option with the name of a flag. -/
def shapedRequest : Request :=
  ⟨"p480", .ofList [(.aspectRatio, .text "16:9"),
      (.encoderOptions, .text "preset=slow --threads=1")],
    ⟨some 1280, some 720, some (.ofNat 25)⟩, "in.mov", "out.mp4"⟩

/-- The arguments that it is compiled to. -/
def shapedArguments : List String :=
  ["-i", "in.mov", "-c:a", "aac", "-ar", "32000", "-b:a", "32000", "-ac", "1",
    "-c:v", "libx264", "-s", "480x272", "-aspect", "16:9", "-b:v", "400000",
    "-maxrate", "400000", "-bufsize", "400000", "-r", "25", "-g", "100", "-keyint_min", "100",
    "-profile:v", "baseline", "-level", "3.0", "-vf", "hqdn3d=4:3:6:4.5", "-preset", "slow",
    "-threads", "1", "-y", "-threads", "0", "out.mp4"]

theorem args_of_compile_shapedRequest :
    ∃ c, (Encoder.ofRegistry .builtin).recipe = Recipe.standard ∧
      (Encoder.ofRegistry .builtin).compile shapedRequest = .ok c ∧
      c.args = shapedArguments ∧
      ∃ f head options pairs, FlagSet.ofProfile c.profile shapedRequest.source = .ok f ∧
        c.args = f.group .global ++ ["-i", shapedRequest.input.display] ++ f.group .trim ++
          f.group .audio ++ f.group .video ++ ["-y"] ++ f.group .threads ++
          [shapedRequest.output.display] ∧
        f.group .video = head ++ options ∧
        c.profile.renderedOptions shapedRequest.source = .ok options ∧
        f.group .global ++ f.group .trim ++ f.group .audio ++ head ++ f.group .threads =
          joined pairs ∧
        (pairs.map Prod.fst).Nodup ∧ (pairs.map Prod.fst).Sublist flagOrder ∧
        ∀ flag ∈ ["-c:a", "-c:v", "-threads"], (pairs.map Prod.fst).count flag = 1 := by
  have hargs : ((Encoder.ofRegistry .builtin).compile shapedRequest).toOption.map (·.args) =
      some shapedArguments := by decide +kernel
  obtain ⟨c, hc, hlist⟩ := Option.map_eq_some_iff.1 hargs
  have hc := toOption_eq_some_iff.1 hc
  exact ⟨c, rfl, hc, hlist, args_of_compile rfl hc⟩

end Transcode
