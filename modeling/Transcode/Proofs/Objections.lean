/-
  Transcode — what a refusal is about.

  Every setting belongs to a group of flags: that of its rule, or that of the rules
  which look at it.  What a rule refuses is the value of a setting of its own group, or
  the codec of the medium that the group is for.

  * `CompileError.IsAbout`: what an error is about;
  * `ObjectsAbout`: a step that fails with nothing but an objection about a group,
    closed under what steps are put together with;
  * `Rule.objectsAbout_render`: every rule is such a step, for its group.
-/
import Transcode.Proofs.Rendering

namespace Transcode

/-- The group of a setting. -/
def Setting.group : Setting → FlagGroup
  | .analyzeDuration | .probeSize => .global
  | .timeOffset | .duration => .trim
  | .audioCodec | .audioSampleRate | .audioBitRate | .audioChannels | .audioSync => .audio
  | .threads => .threads
  | .videoCodec | .width | .height | .dimensionsModulus | .aspectRatio | .videoBitRate
  | .constantBitRate | .frameRate | .gopDuration | .videoProfile | .videoCodecLevel
  | .videoFilter | .encoderOptions => .video

/-- The group of a medium. -/
def Medium.group : Medium → FlagGroup
  | .audio => .audio
  | .video => .video

theorem Rule.group_eq {r : Rule} (hr : r ∈ rules) : r.group = r.setting.group := by
  have hall : ∀ r ∈ rules, r.group = r.setting.group := by decide
  exact hall r hr

/-- The error is about a group: about a setting of the group, or the codec of its
    medium. -/
def CompileError.IsAbout (g : FlagGroup) : CompileError → Prop
  | .setting s _ => s.group = g
  | .unsupportedCodec medium _ => medium.group = g
  | _ => False

theorem CompileError.IsAbout.isObjection {g : FlagGroup} {e : CompileError} (h : e.IsAbout g) :
    e.isObjection = true := by
  cases e with
  | setting | unsupportedCodec => rfl
  | _ => exact h.elim

/-- A step that fails with nothing but an objection about a group. -/
def ObjectsAbout {α : Type} (g : FlagGroup) (x : Except CompileError α) : Prop :=
  ∀ e, x = .error e → e.IsAbout g

namespace ObjectsAbout

variable {α β : Type} {g : FlagGroup} {x : Except CompileError α}

theorem ok (a : α) : ObjectsAbout g (.ok a) := by
  intro e h
  cases h

theorem error {e : CompileError} (he : e.IsAbout g) :
    ObjectsAbout g (.error e : Except CompileError α) := by
  intro e' h
  cases h
  exact he

theorem setting (s : Setting) (o : Objection) :
    ObjectsAbout s.group (.error (.setting s o) : Except CompileError α) :=
  error rfl

theorem ite {c : Prop} [Decidable c] {y : Except CompileError α} (hx : ObjectsAbout g x)
    (hy : ObjectsAbout g y) : ObjectsAbout g (if c then x else y) := by
  split
  · exact hx
  · exact hy

theorem map {f : α → β} (hx : ObjectsAbout g x) : ObjectsAbout g (x.map f) := by
  intro e h
  exact hx e (map_eq_error_iff.1 h)

theorem bind {f : α → Except CompileError β} (hx : ObjectsAbout g x)
    (hf : ∀ a, ObjectsAbout g (f a)) : ObjectsAbout g (x >>= f) := by
  intro e h
  rcases bind_eq_error_iff.1 h with h | ⟨a, -, h⟩
  · exact hx e h
  · exact hf a e h

theorem mapM {f : α → Except CompileError β} (hf : ∀ a, ObjectsAbout g (f a)) (xs : List α) :
    ObjectsAbout g (xs.mapM f) := by
  intro e h
  obtain ⟨_, a, _, _, _, ha⟩ := mapM_eq_error_iff.1 h
  exact hf a e ha

end ObjectsAbout

/-! ## What values are judged by -/

theorem Codec.objectsAbout_ofText (medium : Medium) (t : String) :
    ObjectsAbout medium.group (ofText medium t) := by
  unfold ofText
  refine .ite (.ok _) ?_
  split
  · exact .ok _
  · exact .error rfl

theorem FrameSize.objectsAbout_scale (w : UInt32) (h : Option UInt32) (source : Option FrameSize)
    (m : UInt32) : ObjectsAbout .video (scale w h source m) := by
  unfold scale
  -- Rounding is made opaque: no case is to be decided by computing it.
  obtain ⟨round, hround⟩ : ∃ f, f = roundNearest := ⟨_, rfl⟩
  rw [← hround]
  cases roundDown w m with
  | none => exact .setting _ _
  | some w =>
    refine .ite (.setting _ _) ?_
    cases h with
    | some h =>
      dsimp only
      cases roundDown h m with
      | none => exact .setting _ _
      | some h => exact .ite (.setting _ _) (.ok _)
    | none =>
      cases source with
      | none => exact .setting _ _
      | some source =>
        dsimp only
        cases round (exactHeight source w) m with
        | none => exact .setting _ _
        | some h => exact .ok _

theorem Profile.objectsAbout_view {α : Type} (p : Profile) (t : Setting) (e : Expectation)
    (f : Value → Option α) : ObjectsAbout t.group (p.view t e f) := by
  unfold view
  split
  · exact .ok _
  · split
    · exact .ok _
    · exact .setting _ _

/-! ## The rules -/

namespace Flag

variable (v : Value) (s : Surroundings)

theorem objectsAbout_textOf (t : Setting) : ObjectsAbout t.group (textOf t v) := by
  unfold textOf
  split
  · exact .ok _
  · exact .setting _ _

theorem objectsAbout_codec (medium : Medium) {t : Setting} (ht : t.group = medium.group) :
    ObjectsAbout medium.group (codec medium t v) := by
  unfold codec
  refine .bind (ht ▸ objectsAbout_textOf v t) fun a => ?_
  exact .bind (Codec.objectsAbout_ofText medium a) fun c => .ok _

theorem objectsAbout_positive (t : Setting) (n : Int64) : ObjectsAbout t.group (positive t n) := by
  unfold positive
  split
  · exact .ok _
  · exact .setting _ _

theorem objectsAbout_positive? (p : Profile) (t : Setting) :
    ObjectsAbout t.group (positive? p t) := by
  unfold positive?
  refine .bind (p.objectsAbout_view t _ _) fun n => ?_
  cases n with
  | none => exact .ok _
  | some n => exact .bind (objectsAbout_positive t n) fun m => .ok _

theorem objectsAbout_dimensions : ObjectsAbout .video (dimensions v s) := by
  unfold dimensions
  refine .ite (.ok _) ?_
  extract_lets rest
  have hrest : ∀ w, ObjectsAbout .video (rest w) := by
    intro w
    refine .bind (objectsAbout_positive? _ .height) fun height => ?_
    refine .bind (objectsAbout_positive? _ .dimensionsModulus) fun modulus => ?_
    refine .bind (FrameSize.objectsAbout_scale _ _ _ _) fun size => ?_
    exact .bind (s.profile.objectsAbout_view .aspectRatio _ _) fun aspect => .ok _
  split
  · exact .bind (objectsAbout_positive .width _) hrest
  · exact .bind (.setting .width _) hrest

theorem objectsAbout_aspectRatio : ObjectsAbout .video (aspectRatio v s) := by
  unfold aspectRatio
  split
  · exact .ok _
  · exact .bind (objectsAbout_textOf v .aspectRatio) fun a => .ok _

theorem objectsAbout_videoBitRate : ObjectsAbout .video (videoBitRate v s) := by
  unfold videoBitRate
  have hconstant : ObjectsAbout .video (s.profile.flag .constantBitRate) :=
    .map (s.profile.objectsAbout_view .constantBitRate _ _)
  split
  · exact .ok _
  · split
    · exact .bind (.setting .videoBitRate _) fun _ => .bind hconstant fun c => .ok _
    · exact .bind hconstant fun c => .ok _

theorem objectsAbout_rateOf (source : Source) : ObjectsAbout .video (rateOf v source) := by
  unfold rateOf
  split
  · split
    · exact .ok _
    · exact .setting .frameRate _
  · split
    · exact .ok _
    · exact .setting .frameRate _

theorem objectsAbout_frameRate : ObjectsAbout .video (frameRate v s) := by
  unfold frameRate
  refine .ite (.ok _) ?_
  refine .bind (objectsAbout_rateOf v s.source) fun rate => ?_
  extract_lets rest
  have hrest : ∀ u, ObjectsAbout .video (rest u) := by
    intro u
    refine .bind (s.profile.objectsAbout_view .gopDuration _ _) fun gop => ?_
    exact .ite (.bind (.setting .gopDuration _) fun _ => .ok _) (.ok _)
  exact .ite (.bind (.setting .frameRate _) hrest) (hrest ())

theorem objectsAbout_videoProfile : ObjectsAbout .video (videoProfile v s) := by
  unfold videoProfile
  split
  · exact .ok _
  · exact .bind (objectsAbout_textOf v .videoProfile) fun a => .ok _

theorem objectsAbout_videoCodecLevel : ObjectsAbout .video (videoCodecLevel v s) := by
  unfold videoCodecLevel
  split
  · exact .ok _
  · split
    · exact .ok _
    · exact .setting .videoCodecLevel _

theorem objectsAbout_videoFilter : ObjectsAbout .video (videoFilter v s) := by
  unfold videoFilter
  split
  · exact .setting .videoFilter _
  · exact .bind (objectsAbout_textOf v .videoFilter) fun a => .ok _

theorem objectsAbout_encoderOption (word : List Char) :
    ObjectsAbout .video (encoderOption word) := by
  unfold encoderOption
  split
  exact .ite (.setting .encoderOptions _) (.ok _)

theorem objectsAbout_encoderOptions : ObjectsAbout .video (encoderOptions v s) := by
  unfold encoderOptions
  split
  · exact .ok _
  · refine .bind (objectsAbout_textOf v .encoderOptions) fun text => ?_
    exact .bind (.mapM objectsAbout_encoderOption _) fun parts => .ok _

end Flag

/-- **A rule fails with nothing but an objection about its group.** -/
theorem Rule.objectsAbout_render {r : Rule} (hr : r ∈ rules) (v : Value) (s : Surroundings) :
    ObjectsAbout r.group (r.render v s) := by
  by_cases ht : r.setting ∈ encoding
  · rcases mem_encoding hr ht with rfl | rfl | rfl | rfl | rfl | rfl
    · exact Flag.objectsAbout_dimensions v s
    · exact Flag.objectsAbout_videoBitRate v s
    · exact Flag.objectsAbout_frameRate v s
    · exact Flag.objectsAbout_videoProfile v s
    · exact Flag.objectsAbout_videoCodecLevel v s
    · exact Flag.objectsAbout_encoderOptions v s
  · rcases verbatim_or_mem hr ht with ⟨flag, hflag⟩ | rfl | rfl | rfl | rfl
    · rw [render, hflag, group_eq hr]
      cases v with
      | flag | list => exact .setting _ _
      | integer | float | text => exact .ok _
    · exact Flag.objectsAbout_codec v .audio rfl
    · exact Flag.objectsAbout_codec v .video rfl
    · exact Flag.objectsAbout_aspectRatio v s
    · exact Flag.objectsAbout_videoFilter v s

end Transcode
