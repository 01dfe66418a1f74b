/-
  Transcode — streams that are copied.

  A video stream is copied when the codec of its profile is the text `copy`.  All
  that look at the codec agree on when that is, and no setting of the encoding then
  has a say in the flags.

  * `isCopy_iff_ofText`: a text asks for a copy iff it stands for no encoder;
  * `group_video_of_isPassThrough`: what the video group of a copy holds;
  * `ofProfile_congr_of_isPassThrough`: the settings of the encoding do not matter;
  * `isPassThrough_decides_encoding`: all of this together.
-/
import Transcode.Proofs.Layers
import Transcode.Proofs.Rendering

namespace Transcode

namespace Codec

theorem name_ne_copy_of_admitted :
    ∀ (medium : Medium), ∀ row ∈ admitted medium, row.2.name ≠ "copy" := by
  intro medium
  cases medium <;> decide

/-- **A text asks for a copy iff it stands for no encoder**, of either medium. -/
theorem isCopy_iff_ofText (medium : Medium) {t : String} :
    isCopy t = true ↔ (ofText medium t).map name = .ok "copy" := by
  rw [isCopy_iff, ofText]
  by_cases hkey : Text.lower (Text.trim t) = "copy"
  · rw [if_pos hkey]
    exact ⟨fun _ => rfl, fun _ => hkey⟩
  · rw [if_neg hkey]
    refine ⟨fun h => absurd h hkey, fun h => ?_⟩
    cases hc : (admitted medium).lookup (Text.lower (Text.trim t)) with
    | none =>
      rw [hc] at h
      cases h
    | some c =>
      rw [hc] at h
      obtain ⟨before, after, hrows, -⟩ := List.lookup_eq_some_iff.1 hc
      have hmem : (Text.lower (Text.trim t), c) ∈ admitted medium := by
        rw [hrows]
        exact List.mem_append_right _ List.mem_cons_self
      exact absurd (Except.ok.inj h) (name_ne_copy_of_admitted medium _ hmem)

end Codec

/-- The settings that only matter to a stream that is encoded. -/
def Setting.encodingOnly : List Setting :=
  [.width, .height, .dimensionsModulus, .videoBitRate, .constantBitRate, .frameRate, .gopDuration,
   .videoProfile, .videoCodecLevel, .encoderOptions]

namespace Profile

variable {p : Profile}

theorem isPassThrough_iff :
    p.isPassThrough = true ↔
      ∃ t, p.get? .videoCodec = some (.text t) ∧ Codec.isCopy t = true := by
  unfold isPassThrough copiesVideo get?
  cases p.settings.get? .videoCodec with
  | none => simp
  | some v => cases v <;> simp [Value.asText]

/-- The defaults are filled in by the same decision. -/
theorem isPassThrough_resolve (preset overrides : Settings) :
    (resolve preset overrides).isPassThrough =
      copiesVideo (fillCodecs (overrides.layeredOn preset)) := by
  have hcodec : (withDefaults (overrides.layeredOn preset)).get? .videoCodec =
      (fillCodecs (overrides.layeredOn preset)).get? .videoCodec := by
    simp only [withDefaults]
    rw [Settings.get?_fill_or]
    split
    · exact Option.or_none
    · rw [Layers.get?_fillVideo]
      simp [Layers.encodedDefault]
  show copiesVideo (withDefaults (overrides.layeredOn preset)) = _
  rw [copiesVideo, hcodec, copiesVideo]

/-- The shape that is written where no size is. -/
def shape (p : Profile) : List String :=
  match p.get? .aspectRatio with
  | some (.text a) => ["-aspect", a]
  | _ => []

end Profile

namespace Rule

variable {r : Rule} {s : Surroundings}

/-- The rule of a codec writes the encoder that the text stands for. -/
theorem videoCodec_of_part {tokens : List String} (hs : s.profile.get? .videoCodec ≠ none)
    (h : part ⟨.videoCodec, .video, .computed fun v _ => Flag.codec .video .videoCodec v⟩ s =
      .ok tokens) :
    ∃ t c, s.profile.get? .videoCodec = some (.text t) ∧ Codec.ofText .video t = .ok c ∧
      tokens = ["-c:v", c.name] := by
  obtain ⟨v, hv⟩ := Option.ne_none_iff_exists'.1 hs
  have hrender : Flag.codec .video .videoCodec v = .ok tokens := (part_of_some hv).symm.trans h
  obtain ⟨t, c, rfl, hc, htokens⟩ := Flag.codec_eq_ok_iff.1 hrender
  exact ⟨t, c, hv, hc, htokens⟩

/-- A stream that is copied has no filters. -/
theorem get?_videoFilter_of_isPassThrough {tokens : List String}
    (hs : s.profile.isPassThrough = true)
    (h : part ⟨.videoFilter, .video, .computed Flag.videoFilter⟩ s = .ok tokens) :
    s.profile.get? .videoFilter = none := by
  cases hv : s.profile.get? .videoFilter with
  | none => rfl
  | some v =>
    have hrender : Flag.videoFilter v s = .ok tokens := (part_of_some hv).symm.trans h
    obtain ⟨hs', -⟩ := Flag.videoFilter_eq_ok hrender
    exact absurd hs (by rw [hs']; exact Bool.false_ne_true)

/-- The shape stands alone behind a copy. -/
theorem tokens_aspectRatio_of_isPassThrough {tokens : List String}
    (hs : s.profile.isPassThrough = true)
    (h : part ⟨.aspectRatio, .video, .computed Flag.aspectRatio⟩ s = .ok tokens) :
    tokens = s.profile.shape := by
  cases hv : s.profile.get? .aspectRatio with
  | none =>
    rw [part_of_none hv] at h
    cases h
    rw [Profile.shape, hv]
  | some v =>
    have hrender : Flag.aspectRatio v s = .ok tokens := (part_of_some hv).symm.trans h
    rcases Flag.aspectRatio_eq_ok hrender with ⟨hframed, -⟩ | ⟨-, a, rfl, rfl⟩
    · rw [hs, Bool.not_true, Bool.and_false] at hframed
      exact absurd hframed Bool.false_ne_true
    · rw [Profile.shape, hv]

/-- Of a stream that is copied, only the rules outside the encoding are written. -/
theorem flatMap_tokens_of_isPassThrough {rs : List Rule} (hrs : ∀ r ∈ rs, r ∈ rules)
    (hs : s.profile.isPassThrough = true) :
    rs.flatMap (tokens · s) = (rs.filter (·.setting ∉ encoding)).flatMap (tokens · s) := by
  induction rs with
  | nil => rfl
  | cons r rs ih =>
    have ih := ih fun x hx => hrs x (List.mem_cons_of_mem _ hx)
    rw [List.flatMap_cons, List.filter_cons, ih]
    by_cases ht : r.setting ∈ encoding
    · have hnil : r.tokens s = [] :=
        tokens_eq (part_of_isPassThrough (hrs r List.mem_cons_self) ht hs)
      rw [if_neg (by simp [ht]), hnil, List.nil_append]
    · rw [if_pos (by simp [ht]), List.flatMap_cons]

/-- Of a stream that is copied, a rule looks at nothing but the value that it
    renders, and not at that of a setting of the encoding. -/
theorem part_congr_of_isPassThrough {s' : Surroundings} (hr : r ∈ rules)
    (hs : s.profile.isPassThrough = true) (hs' : s'.profile.isPassThrough = true)
    (h : ∀ t, t ∉ Setting.encodingOnly → s.profile.get? t = s'.profile.get? t) :
    r.part s = r.part s' := by
  by_cases ht : r.setting ∈ encoding
  · rw [part_of_isPassThrough hr ht hs, part_of_isPassThrough hr ht hs']
  · have hsettings : ∀ r ∈ rules, r.setting ∉ encoding → r.setting ∉ Setting.encodingOnly := by
      decide
    have hvalue : s.profile.get? r.setting = s'.profile.get? r.setting :=
      h _ (hsettings r hr ht)
    have hrender : ∀ v, r.render v s = r.render v s' := by
      intro v
      rcases verbatim_or_mem hr ht with ⟨flag, hflag⟩ | rfl | rfl | rfl | rfl
      · rw [render, render, hflag]
      · rfl
      · rfl
      · show Flag.aspectRatio v s = Flag.aspectRatio v s'
        simp only [Flag.aspectRatio, hs, hs', Bool.not_true, Bool.and_false]
      · show Flag.videoFilter v s = Flag.videoFilter v s'
        simp only [Flag.videoFilter, hs, hs', if_pos]
    cases hv : s'.profile.get? r.setting with
    | none => rw [part_of_none hv, part_of_none (hvalue.trans hv)]
    | some v => rw [part_of_some hv, part_of_some (hvalue.trans hv), hrender]

end Rule

namespace FlagSet

variable {p : Profile} {source : Source} {f : FlagSet}

/-- The video group starts with what the codec is rendered as. -/
theorem group_video_starts (h : ofProfile p source = .ok f) (hp : p.get? .videoCodec ≠ none) :
    ∃ t c rest, p.get? .videoCodec = some (.text t) ∧ Codec.ofText .video t = .ok c ∧
      f.group .video = "-c:v" :: c.name :: rest := by
  let codec : Rule := ⟨.videoCodec, .video, .computed fun v _ => Flag.codec .video .videoCodec v⟩
  have hgroup : f.group .video = codec.tokens ⟨p, source⟩ ++
      (rules.filter (·.group = .video)).tail.flatMap (Rule.tokens · ⟨p, source⟩) :=
    group_of_ofProfile h .video
  obtain ⟨t, c, ht, hc, htokens⟩ := Rule.videoCodec_of_part (s := ⟨p, source⟩) hp
    (part_of_ofProfile h (by simp [rules]))
  rw [htokens] at hgroup
  exact ⟨t, c, _, ht, hc, hgroup⟩

theorem get?_videoFilter_of_ofProfile (h : ofProfile p source = .ok f)
    (hp : p.isPassThrough = true) : p.get? .videoFilter = none := by
  have hr : ⟨.videoFilter, .video, .computed Flag.videoFilter⟩ ∈ rules := by simp [rules]
  exact Rule.get?_videoFilter_of_isPassThrough hp (part_of_ofProfile h hr)

/-- **The video group of a copy**: the codec, and the shape if there is one. -/
theorem group_video_of_isPassThrough (h : ofProfile p source = .ok f)
    (hp : p.isPassThrough = true) : f.group .video = ["-c:v", "copy"] ++ p.shape := by
  let s : Surroundings := ⟨p, source⟩
  let codec : Rule := ⟨.videoCodec, .video, .computed fun v _ => Flag.codec .video .videoCodec v⟩
  let aspect : Rule := ⟨.aspectRatio, .video, .computed Flag.aspectRatio⟩
  let filter : Rule := ⟨.videoFilter, .video, .computed Flag.videoFilter⟩
  have hgroup : f.group .video =
      codec.tokens s ++ (aspect.tokens s ++ (filter.tokens s ++ [])) := by
    rw [group_of_ofProfile h, Rule.flatMap_tokens_of_isPassThrough
      (fun r hr => (List.mem_filter.1 hr).1) hp]
    rfl
  have hcodec : codec.tokens s = ["-c:v", "copy"] := by
    obtain ⟨t, ht, hcopy⟩ := Profile.isPassThrough_iff.1 hp
    obtain ⟨t', c, ht', hc, htokens⟩ := Rule.videoCodec_of_part (s := s) (by rw [ht]; simp)
      (part_of_ofProfile h (by simp [rules]))
    cases ht.symm.trans ht'
    have hname : c.name = "copy" := by
      have hname := (Codec.isCopy_iff_ofText .video).1 hcopy
      rw [hc] at hname
      exact Except.ok.inj hname
    rw [htokens, hname]
  have haspect : aspect.tokens s = p.shape :=
    Rule.tokens_aspectRatio_of_isPassThrough hp (part_of_ofProfile h (by simp [rules]))
  have hfilter : filter.tokens s = [] :=
    Rule.tokens_eq (Rule.part_of_none (get?_videoFilter_of_ofProfile h hp))
  rw [hgroup, hcodec, haspect, hfilter, List.append_nil, List.append_nil]

theorem ofProfile_congr_of_isPassThrough {p' : Profile} (hp : p.isPassThrough = true)
    (hp' : p'.isPassThrough = true)
    (h : ∀ t, t ∉ Setting.encodingOnly → p.get? t = p'.get? t) (source source' : Source) :
    ofProfile p source = ofProfile p' source' := by
  rw [ofProfile_eq_gather, ofProfile_eq_gather]
  exact gather_congr fun r hr => Rule.part_congr_of_isPassThrough hr hp hp' h

/-- The group of a resolved profile starts with a copy iff the stream is copied. -/
theorem starts_with_copy_iff (h : ofProfile p source = .ok f) (hp : p.get? .videoCodec ≠ none) :
    ["-c:v", "copy"] <+: f.group .video ↔ p.isPassThrough = true := by
  constructor
  · rintro ⟨rest, hrest⟩
    obtain ⟨t, c, rest', ht, hc, hgroup⟩ := group_video_starts h hp
    have hname : c.name = "copy" := by
      rw [hgroup, List.cons_append, List.cons_append] at hrest
      exact (List.cons.inj (List.cons.inj hrest).2).1.symm
    refine Profile.isPassThrough_iff.2 ⟨t, ht, (Codec.isCopy_iff_ofText .video).2 ?_⟩
    rw [hc, ← hname]
    rfl
  · intro hcopied
    rw [group_video_of_isPassThrough h hcopied]
    exact List.prefix_append _ _

end FlagSet

/-- **One decision switches the encoding off.**  It is that of the codec and that of
    the defaults; it shows in the video group, which then has nothing of the
    encoding; and no setting of the encoding, nor the source, changes the outcome. -/
theorem isPassThrough_decides_encoding :
    (∀ t, Codec.isCopy t = true ↔ (Codec.ofText .video t).map Codec.name = .ok "copy") ∧
    (∀ preset overrides, (Profile.resolve preset overrides).isPassThrough =
      Profile.copiesVideo (Profile.fillCodecs (overrides.layeredOn preset))) ∧
    (∀ preset overrides source f,
      FlagSet.ofProfile (Profile.resolve preset overrides) source = .ok f →
        (["-c:v", "copy"] <+: f.group .video ↔
          (Profile.resolve preset overrides).isPassThrough = true) ∧
        ((Profile.resolve preset overrides).isPassThrough = true →
          f.group .video = ["-c:v", "copy"] ++ (Profile.resolve preset overrides).shape)) ∧
    (∀ p p' : Profile, p.isPassThrough = true → p'.isPassThrough = true →
      (∀ t, t ∉ Setting.encodingOnly → p.get? t = p'.get? t) →
        ∀ source source', FlagSet.ofProfile p source = FlagSet.ofProfile p' source') ∧
    ∀ p : Profile, p.isPassThrough = true → p.contains .videoFilter = true →
      ∀ source f, FlagSet.ofProfile p source ≠ .ok f := by
  refine ⟨fun t => Codec.isCopy_iff_ofText .video, Profile.isPassThrough_resolve, ?_, ?_, ?_⟩
  · intro preset overrides source f hf
    have hcodec : (Profile.resolve preset overrides).get? .videoCodec ≠ none :=
      Profile.get?_resolve_settled preset overrides (by simp [Profile.settled])
    exact ⟨FlagSet.starts_with_copy_iff hf hcodec, FlagSet.group_video_of_isPassThrough hf⟩
  · intro p p' hp hp' hagree
    exact FlagSet.ofProfile_congr_of_isPassThrough hp hp' hagree
  · intro p hp hfilter source f hf
    have hnone : p.get? .videoFilter = none := FlagSet.get?_videoFilter_of_ofProfile hf hp
    obtain ⟨v, hv⟩ := Option.isSome_iff_exists.1 hfilter
    cases hnone.symm.trans hv

/-- A copy, with settings of the encoding that no encoding would take. -/
def oddCopy : Settings :=
  .ofList [(.videoCodec, .text " Copy "), (.aspectRatio, .text "16:9"), (.width, .flag true),
    (.videoBitRate, .list []), (.frameRate, .integer 0), (.encoderOptions, .text "=film")]

/-- The same copy without them. -/
def plainCopy : Settings :=
  .ofList [(.videoCodec, .text " Copy "), (.aspectRatio, .text "16:9")]

theorem isPassThrough_decides_encoding_oddCopy :
    (Codec.ofText .video " Copy ").map Codec.name = .ok "copy" ∧
    (Profile.resolve .empty oddCopy).isPassThrough = true ∧
    (Profile.resolve .empty plainCopy).isPassThrough = true ∧
    (∃ f, FlagSet.ofProfile (Profile.resolve .empty oddCopy) .unknown = .ok f ∧
      FlagSet.ofProfile (Profile.resolve .empty plainCopy) ⟨some 1280, some 720, none⟩ = .ok f ∧
      ["-c:v", "copy"] <+: f.group .video ∧
      f.group .video = ["-c:v", "copy", "-aspect", "16:9"]) ∧
    ∀ f, FlagSet.ofProfile ⟨oddCopy.insert .videoFilter (.text "scale")⟩ .unknown ≠ .ok f := by
  obtain ⟨hcopy, -, hgroup, hsame, hfilter⟩ := isPassThrough_decides_encoding
  have hodd : (Profile.resolve .empty oddCopy).isPassThrough = true := by decide +kernel
  have hplain : (Profile.resolve .empty plainCopy).isPassThrough = true := by decide +kernel
  have hagree : ∀ t ∈ Setting.all, t ∉ Setting.encodingOnly →
      (Profile.resolve .empty oddCopy).get? t = (Profile.resolve .empty plainCopy).get? t := by
    decide +kernel
  have hok : (FlagSet.ofProfile (Profile.resolve .empty oddCopy) .unknown).toOption.isSome =
      true := by decide +kernel
  obtain ⟨f, hf⟩ := Option.isSome_iff_exists.1 hok
  have hf := toOption_eq_some_iff.1 hf
  obtain ⟨hstarts, hexact⟩ := hgroup _ _ _ f hf
  have hshape : (Profile.resolve .empty oddCopy).shape = ["-aspect", "16:9"] := by decide +kernel
  refine ⟨(hcopy _).1 (by decide +kernel), hodd, hplain, ⟨f, hf, ?_, hstarts.2 hodd, ?_⟩, ?_⟩
  · rw [← hf]
    exact hsame _ _ hplain hodd (fun t ht => (hagree t (Setting.mem_all t) ht).symm) _ _
  · rw [hexact hodd, hshape]
    rfl
  · exact hfilter _ (by decide +kernel) rfl _

end Transcode
