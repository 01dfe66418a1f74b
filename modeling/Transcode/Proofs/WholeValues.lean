/-
  Transcode — whole numbers as integers and as floats.

  An author of presets may write 25 or 25.0.  Values that are alike (`Value.Alike`) are
  seen alike by every view but that of their type, so settings that are alike resolve to
  profiles that are, and every rule writes the same arguments for them or refuses them
  alike: the type is named in the message, and nowhere else.

  * `SameOutcome`: the same result, or refusals that are alike;
  * `Profile.alike_resolve`: resolving keeps settings alike;
  * `Rule.sameOutcome_render`: so does rendering, rule by rule;
  * `whole_values_alike`: what all of it comes to.
-/
import Transcode.Proofs.Rendering
import Transcode.Proofs.WholeFloats
import Transcode.Encoder

namespace Transcode

/-! ## Values that are alike -/

namespace Value

/-- The same value, or a whole number of 53 bits as an integer and as a float. -/
inductive Alike : Value → Value → Prop
  | same (v : Value) : Alike v v
  | whole {n : Int64} (hn : n.toInt.natAbs ≤ twoTo 53) :
      Alike (.integer n) (.float (.ofInt n.toInt))

namespace Alike

variable {v w : Value}

theorem asInteger (h : v.Alike w) : v.asInteger = w.asInteger := by
  cases h with
  | same => rfl
  | @whole n hn =>
    have hlow : least ≤ n.toInt := n.le_toInt
    have hhigh : n.toInt ≤ greatest := Int.le_of_lt_add_one n.toInt_lt
    rw [Value.asInteger, Value.asInteger, Binary64.isWhole_ofInt hn,
      Binary64.clamp_ofInt hn hlow hhigh, Int64.ofInt_toInt]
    rfl

theorem asNumber (h : v.Alike w) : v.asNumber = w.asNumber := by
  cases h <;> rfl

theorem asText (h : v.Alike w) : v.asText = w.asText := by
  cases h <;> rfl

theorem asFlag (h : v.Alike w) : v.asFlag = w.asFlag := by
  cases h <;> rfl

theorem isScalar (h : v.Alike w) : Flag.isScalar v = Flag.isScalar w := by
  cases h <;> rfl

/-- **A whole number is shown by its digits**, whichever way it is given. -/
theorem plain (h : v.Alike w) : v.plain = w.plain := by
  cases h with
  | same => rfl
  | whole hn => rw [Value.plain, Value.plain, Binary64.plain_ofInt hn]

end Alike

end Value

namespace CompileError

/-- The same error, or one about the type of values that are alike. -/
inductive Alike : CompileError → CompileError → Prop
  | same (e : CompileError) : Alike e e
  | wrongType (t : Setting) (x : Expectation) {v w : Value} (h : v.Alike w) :
      Alike (.wrongType t x v) (.wrongType t x w)

/-- The same text, but for the name of a type at one place. -/
def SameButType (s s' : String) : Prop :=
  s = s' ∨ ∃ before after, s = before ++ "integer" ++ after ∧ s' = before ++ "float" ++ after

theorem message_wrongType (t : Setting) (x : Expectation) (v : Value) :
    (wrongType t x v).message =
      "invalid profile setting " ++ t.name ++ ": expected " ++ x.phrase ++ ", got " ++ v.typeName ++
        (" " ++ v.plain) := by
  have hmessage : (wrongType t x v).message = "invalid profile setting " ++ t.name ++ ": " ++
      ("expected " ++ x.phrase ++ ", got " ++ v.typeName ++ " " ++ v.plain) := rfl
  have hcolon : ": expected " = ": " ++ "expected " := by decide
  rw [hmessage, hcolon]
  simp only [String.append_assoc]

/-- Errors that are alike read alike, but for the type. -/
theorem Alike.message {e e' : CompileError} (h : e.Alike e') :
    SameButType e.message e'.message := by
  cases h with
  | same => exact Or.inl rfl
  | wrongType t x h =>
    rw [message_wrongType, message_wrongType, h.plain]
    cases h with
    | same => exact Or.inl rfl
    | whole => exact Or.inr ⟨_, _, rfl, rfl⟩

end CompileError

/-- The same result, or refusals that are alike. -/
inductive SameOutcome {α : Type} : Except CompileError α → Except CompileError α → Prop
  | ok (a : α) : SameOutcome (.ok a) (.ok a)
  | error {e e' : CompileError} (h : e.Alike e') : SameOutcome (.error e) (.error e')

namespace SameOutcome

variable {α β : Type} {x y : Except CompileError α}

theorem refl (x : Except CompileError α) : SameOutcome x x := by
  cases x with
  | ok a => exact .ok a
  | error e => exact .error (.same e)

theorem wrongType {v w : Value} (h : v.Alike w) (t : Setting) (e : Expectation) :
    SameOutcome (.error (.wrongType t e v) : Except CompileError α) (.error (.wrongType t e w)) :=
  .error (.wrongType t e h)

theorem bind {f g : α → Except CompileError β} (hx : SameOutcome x y)
    (hf : ∀ a, SameOutcome (f a) (g a)) : SameOutcome (x >>= f) (y >>= g) := by
  cases hx with
  | ok a => exact hf a
  | error h => exact .error h

theorem map (f : α → β) (hx : SameOutcome x y) : SameOutcome (x.map f) (y.map f) := by
  cases hx with
  | ok a => exact .ok (f a)
  | error h => exact .error h

end SameOutcome

/-! ## Settings that are alike -/

/-- Settings of which each has values that are alike, or no value, in both. -/
def Settings.Alike (m m' : Settings) : Prop :=
  ∀ t, Option.Rel Value.Alike (m.get? t) (m'.get? t)

namespace Settings.Alike

variable {m m' l l' : Settings}

theorem refl (m : Settings) : m.Alike m := by
  intro t
  cases m.get? t with
  | none => exact .none
  | some v => exact .some (.same v)

theorem get?_cases (hm : m.Alike m') (t : Setting) :
    (m.get? t = none ∧ m'.get? t = none) ∨
      ∃ v w, m.get? t = some v ∧ m'.get? t = some w ∧ v.Alike w := by
  have h := hm t
  generalize m.get? t = x at h
  generalize m'.get? t = y at h
  cases h with
  | none => exact Or.inl ⟨rfl, rfl⟩
  | some h => exact Or.inr ⟨_, _, rfl, rfl, h⟩

theorem layeredOn (hm : m.Alike m') (hl : l.Alike l') :
    (m.layeredOn l).Alike (m'.layeredOn l') := by
  intro t
  rw [get?_layeredOn, get?_layeredOn]
  rcases hm.get?_cases t with ⟨hn, hn'⟩ | ⟨v, w, hv, hw, h⟩
  · rw [hn, hn']
    exact hl t
  · rw [hv, hw]
    exact .some h

theorem insert (hm : m.Alike m') (t : Setting) {v w : Value} (h : v.Alike w) :
    (m.insert t v).Alike (m'.insert t w) := by
  intro t'
  rw [get?_insert, get?_insert]
  split
  · exact .some h
  · exact hm t'

theorem fill (hm : m.Alike m') (t : Setting) (v : Value) : (m.fill t v).Alike (m'.fill t v) := by
  intro t'
  rw [get?_fill, get?_fill]
  split
  · rcases hm.get?_cases t' with ⟨hn, hn'⟩ | ⟨v', w', hv, hw, h⟩
    · rw [hn, hn']
      exact .some (.same v)
    · rw [hv, hw]
      exact .some h
  · exact hm t'

/-- A view that sees values alike sees alike what settings have. -/
theorem map_congr {α : Type} {f : Value → α} (hm : m.Alike m')
    (hf : ∀ v w, v.Alike w → f v = f w) (t : Setting) :
    (m.get? t).map f = (m'.get? t).map f := by
  rcases hm.get?_cases t with ⟨hn, hn'⟩ | ⟨v, w, hv, hw, h⟩
  · rw [hn, hn']
  · rw [hv, hw]
    exact congrArg some (hf v w h)

end Settings.Alike

namespace Profile

variable {m m' : Settings} {p p' : Profile}

theorem alike_fillCodecs (hm : m.Alike m') : (fillCodecs m).Alike (fillCodecs m') :=
  (hm.fill _ _).fill _ _

theorem copiesVideo_congr (hm : m.Alike m') : copiesVideo m = copiesVideo m' := by
  unfold copiesVideo
  rcases hm.get?_cases .videoCodec with ⟨hn, hn'⟩ | ⟨v, w, hv, hw, h⟩
  · rw [hn, hn']
  · rw [hv, hw, Option.bind_some, Option.bind_some, h.asText]

/-- The defaults of the video stream depend on how its profile is shown. -/
theorem alike_fillVideo (hm : m.Alike m') : (fillVideo m).Alike (fillVideo m') := by
  have hfilled := hm.fill .videoProfile (.text "main")
  have hshown := hfilled.map_congr (fun v w h => h.plain) .videoProfile
  unfold fillVideo
  dsimp only
  rw [hshown]
  split
  · exact (hfilled.fill _ _).fill _ _
  · exact hfilled.fill _ _

/-- **Settings that are alike resolve to profiles that are.** -/
theorem alike_resolve {preset preset' overrides overrides' : Settings}
    (hpreset : preset.Alike preset') (hoverrides : overrides.Alike overrides') :
    (resolve preset overrides).settings.Alike (resolve preset' overrides').settings := by
  have hcodecs := alike_fillCodecs (hoverrides.layeredOn hpreset)
  show (withDefaults _).Alike (withDefaults _)
  unfold withDefaults
  refine Settings.Alike.fill ?_ _ _
  rw [copiesVideo_congr hcodecs]
  split
  · exact hcodecs
  · exact alike_fillVideo hcodecs

/-- A view that sees values alike reads profiles alike. -/
theorem sameOutcome_view {α : Type} {f : Value → Option α} (hp : p.settings.Alike p'.settings)
    (hf : ∀ v w, v.Alike w → f v = f w) (t : Setting) (e : Expectation) :
    SameOutcome (p.view t e f) (p'.view t e f) := by
  unfold view get?
  rcases hp.get?_cases t with ⟨hn, hn'⟩ | ⟨v, w, hv, hw, h⟩
  · rw [hn, hn']
    exact .ok none
  · rw [hv, hw]
    dsimp only
    rw [hf v w h]
    cases f w with
    | none => exact .wrongType h t e
    | some a => exact .ok _

theorem contains_congr (hp : p.settings.Alike p'.settings) (t : Setting) :
    p.contains t = p'.contains t := by
  unfold contains Settings.contains
  rcases hp.get?_cases t with ⟨hn, hn'⟩ | ⟨v, w, hv, hw, -⟩
  · rw [hn, hn']
  · rw [hv, hw]
    rfl

end Profile

/-! ## Rules -/

namespace Flag

variable {v w : Value} {p p' : Profile} {source : Source}

theorem sameOutcome_textOf (h : v.Alike w) (t : Setting) :
    SameOutcome (textOf t v) (textOf t w) := by
  unfold textOf
  rw [h.asText]
  split
  · exact .ok _
  · exact .wrongType h t .text

theorem sameOutcome_codec (h : v.Alike w) (medium : Medium) (t : Setting) :
    SameOutcome (codec medium t v) (codec medium t w) :=
  (sameOutcome_textOf h t).bind fun _ => .refl _

theorem sameOutcome_positive? (hp : p.settings.Alike p'.settings) (t : Setting) :
    SameOutcome (positive? p t) (positive? p' t) :=
  (Profile.sameOutcome_view hp (fun _ _ h => h.asInteger) t .integer).bind fun _ => .refl _

section
variable (hv : v.Alike w) (hp : p.settings.Alike p'.settings)
include hv hp

theorem sameOutcome_dimensions :
    SameOutcome (dimensions v ⟨p, source⟩) (dimensions w ⟨p', source⟩) := by
  unfold dimensions Profile.isPassThrough
  rw [Profile.copiesVideo_congr hp]
  split
  · exact .ok _
  · extract_lets rest rest'
    have hrest : ∀ width, SameOutcome (rest width) (rest' width) := by
      intro width
      refine (sameOutcome_positive? hp .height).bind fun height => ?_
      refine (sameOutcome_positive? hp .dimensionsModulus).bind fun modulus => ?_
      refine (SameOutcome.refl _).bind fun size => ?_
      exact (Profile.sameOutcome_view hp (fun _ _ h => h.asText) .aspectRatio .text).bind
        fun _ => .ok _
    rw [hv.asInteger]
    split
    · exact (SameOutcome.refl _).bind hrest
    · exact (SameOutcome.wrongType hv .width .integer).bind hrest

theorem sameOutcome_aspectRatio :
    SameOutcome (aspectRatio v ⟨p, source⟩) (aspectRatio w ⟨p', source⟩) := by
  unfold aspectRatio Profile.isPassThrough
  rw [Profile.copiesVideo_congr hp, Profile.contains_congr hp]
  split
  · exact .ok _
  · exact (sameOutcome_textOf hv .aspectRatio).bind fun _ => .refl _

theorem sameOutcome_videoBitRate :
    SameOutcome (videoBitRate v ⟨p, source⟩) (videoBitRate w ⟨p', source⟩) := by
  unfold videoBitRate Profile.isPassThrough
  rw [Profile.copiesVideo_congr hp, hv.isScalar, hv.plain]
  have hconstant : SameOutcome (p.flag .constantBitRate) (p'.flag .constantBitRate) :=
    (Profile.sameOutcome_view hp (fun _ _ h => h.asFlag) .constantBitRate .flag).map _
  split
  · exact .ok _
  · split
    · exact (SameOutcome.wrongType hv .videoBitRate .bitRate).bind fun _ =>
        hconstant.bind fun _ => .ok _
    · exact hconstant.bind fun _ => .ok _

omit hp in
theorem sameOutcome_rateOf (source : Source) : SameOutcome (rateOf v source) (rateOf w source) := by
  cases hv <;> exact .refl _

theorem sameOutcome_frameRate :
    SameOutcome (frameRate v ⟨p, source⟩) (frameRate w ⟨p', source⟩) := by
  unfold frameRate Profile.isPassThrough
  rw [Profile.copiesVideo_congr hp]
  split
  · exact .ok _
  · refine (sameOutcome_rateOf hv source).bind fun rate => ?_
    extract_lets rest rest'
    have hrest : ∀ u, SameOutcome (rest u) (rest' u) := by
      intro u
      refine (Profile.sameOutcome_view hp (fun _ _ h => h.asNumber) .gopDuration .number).bind ?_
      exact fun _ => .refl _
    split
    · exact (SameOutcome.refl _).bind hrest
    · exact hrest ()

theorem sameOutcome_videoProfile :
    SameOutcome (videoProfile v ⟨p, source⟩) (videoProfile w ⟨p', source⟩) := by
  unfold videoProfile Profile.isPassThrough
  rw [Profile.copiesVideo_congr hp]
  split
  · exact .ok _
  · exact (sameOutcome_textOf hv .videoProfile).bind fun _ => .refl _

theorem sameOutcome_videoCodecLevel :
    SameOutcome (videoCodecLevel v ⟨p, source⟩) (videoCodecLevel w ⟨p', source⟩) := by
  unfold videoCodecLevel Profile.isPassThrough
  rw [Profile.copiesVideo_congr hp, hv.isScalar, hv.plain]
  split
  · exact .ok _
  · split
    · exact .ok _
    · exact .wrongType hv .videoCodecLevel .level

theorem sameOutcome_videoFilter :
    SameOutcome (videoFilter v ⟨p, source⟩) (videoFilter w ⟨p', source⟩) := by
  unfold videoFilter Profile.isPassThrough
  rw [Profile.copiesVideo_congr hp]
  split
  · exact .refl _
  · exact (sameOutcome_textOf hv .videoFilter).bind fun _ => .refl _

theorem sameOutcome_encoderOptions :
    SameOutcome (encoderOptions v ⟨p, source⟩) (encoderOptions w ⟨p', source⟩) := by
  unfold encoderOptions Profile.isPassThrough
  rw [Profile.copiesVideo_congr hp]
  split
  · exact .ok _
  · exact (sameOutcome_textOf hv .encoderOptions).bind fun _ => .refl _

end

end Flag

namespace Rule

variable {r : Rule} {p p' : Profile}

/-- **Every rule renders alike** what is alike. -/
theorem sameOutcome_render (hr : r ∈ rules) (hp : p.settings.Alike p'.settings) {v w : Value}
    (hv : v.Alike w) (source : Source) :
    SameOutcome (r.render v ⟨p, source⟩) (r.render w ⟨p', source⟩) := by
  by_cases ht : r.setting ∈ encoding
  · rcases mem_encoding hr ht with rfl | rfl | rfl | rfl | rfl | rfl
    · exact Flag.sameOutcome_dimensions hv hp
    · exact Flag.sameOutcome_videoBitRate hv hp
    · exact Flag.sameOutcome_frameRate hv hp
    · exact Flag.sameOutcome_videoProfile hv hp
    · exact Flag.sameOutcome_videoCodecLevel hv hp
    · exact Flag.sameOutcome_encoderOptions hv hp
  · rcases verbatim_or_mem hr ht with ⟨flag, hflag⟩ | rfl | rfl | rfl | rfl
    · rw [render, render, hflag]
      have hplain := hv.plain
      cases hv with
      | same => exact .refl _
      | whole =>
        dsimp only
        rw [hplain]
        exact .ok _
    · exact Flag.sameOutcome_codec hv .audio .audioCodec
    · exact Flag.sameOutcome_codec hv .video .videoCodec
    · exact Flag.sameOutcome_aspectRatio hv hp
    · exact Flag.sameOutcome_videoFilter hv hp

theorem sameOutcome_part (hr : r ∈ rules) (hp : p.settings.Alike p'.settings) (source : Source) :
    SameOutcome (r.part ⟨p, source⟩) (r.part ⟨p', source⟩) := by
  rcases hp.get?_cases r.setting with ⟨hn, hn'⟩ | ⟨v, w, hv, hw, h⟩
  · rw [part_of_none (s := ⟨p, source⟩) hn, part_of_none (s := ⟨p', source⟩) hn']
    exact .ok []
  · rw [part_of_some (s := ⟨p, source⟩) hv, part_of_some (s := ⟨p', source⟩) hw]
    exact sameOutcome_render hr hp h source

end Rule

namespace FlagSet

theorem sameOutcome_gather {s s' : Surroundings} {rs : List Rule}
    (h : ∀ r ∈ rs, SameOutcome (r.part s) (r.part s')) :
    SameOutcome (gather s rs) (gather s' rs) := by
  induction rs with
  | nil => exact .ok empty
  | cons r rs ih =>
    have hrest := ih fun x hx => h x (List.mem_cons_of_mem _ hx)
    have hpart := h r List.mem_cons_self
    rw [gather, gather]
    generalize r.part s = x at hpart
    generalize r.part s' = y at hpart
    cases hpart with
    | ok tokens => exact hrest.map _
    | error he => exact .error he

theorem sameOutcome_ofProfile {p p' : Profile} (hp : p.settings.Alike p'.settings)
    (source : Source) : SameOutcome (ofProfile p source) (ofProfile p' source) := by
  rw [ofProfile_eq_gather, ofProfile_eq_gather]
  exact sameOutcome_gather fun r hr => Rule.sameOutcome_part hr hp source

end FlagSet

/-- A recipe is filled in alike. -/
theorem Encoder.sameOutcome_render {p p' : Profile} (hp : p.settings.Alike p'.settings)
    (e : Encoder) (r : Request) :
    SameOutcome ((e.render p r).map Command.args) ((e.render p' r).map Command.args) := by
  have hflags := FlagSet.sameOutcome_ofProfile hp r.source
  unfold render
  generalize FlagSet.ofProfile p r.source = x at hflags ⊢
  generalize FlagSet.ofProfile p' r.source = y at hflags ⊢
  cases hflags with
  | error he => exact .error he
  | ok f =>
    show SameOutcome (Except.map _ (e.recipe.assemble f r.input r.output >>= _))
      (Except.map _ (e.recipe.assemble f r.input r.output >>= _))
    cases e.recipe.assemble f r.input r.output with
    | error err => exact .error (.same err)
    | ok args => exact .ok args

/-- **A whole number means the same as an integer and as a float.**  Settings that are
    alike resolve to profiles that are; these give the same flags, and so the same
    arguments, or are both refused, with the same error but for the type that it names. -/
theorem whole_values_alike {preset preset' overrides overrides' : Settings}
    (hpreset : preset.Alike preset') (hoverrides : overrides.Alike overrides') :
    (Profile.resolve preset overrides).settings.Alike
      (Profile.resolve preset' overrides').settings ∧
    (∀ source,
      (∃ f, FlagSet.ofProfile (Profile.resolve preset overrides) source = .ok f ∧
        FlagSet.ofProfile (Profile.resolve preset' overrides') source = .ok f) ∨
      ∃ e e', FlagSet.ofProfile (Profile.resolve preset overrides) source = .error e ∧
        FlagSet.ofProfile (Profile.resolve preset' overrides') source = .error e' ∧
        e.Alike e' ∧ CompileError.SameButType e.message e'.message) ∧
    ∀ (encoder : Encoder) (r : Request),
      SameOutcome ((encoder.render (Profile.resolve preset overrides) r).map Command.args)
        ((encoder.render (Profile.resolve preset' overrides') r).map Command.args) := by
  have hprofile := Profile.alike_resolve hpreset hoverrides
  refine ⟨hprofile, ?_, Encoder.sameOutcome_render hprofile⟩
  intro source
  have hflags := FlagSet.sameOutcome_ofProfile hprofile source
  generalize FlagSet.ofProfile (Profile.resolve preset overrides) source = x at hflags ⊢
  generalize FlagSet.ofProfile (Profile.resolve preset' overrides') source = y at hflags ⊢
  cases hflags with
  | ok f => exact Or.inl ⟨f, rfl, rfl⟩
  | @error e e' he => exact Or.inr ⟨e, e', rfl, rfl, he, he.message⟩

/-- Numbers as integers. -/
def withIntegers : Settings :=
  .ofList [(.width, .integer 640), (.frameRate, .integer 25),
    (.videoBitRate, .integer 9007199254740992), (.timeOffset, .integer (-10))]

/-- The same numbers as floats. -/
def withFloats : Settings :=
  .ofList [(.width, .float (.ofInt 640)), (.frameRate, .float (.ofInt 25)),
    (.videoBitRate, .float (.ofInt 9007199254740992)), (.timeOffset, .float (.ofInt (-10)))]

theorem whole_values_alike_withFloats :
    withIntegers.Alike withFloats ∧
    (∃ f, FlagSet.ofProfile (Profile.resolve .empty withIntegers)
        ⟨some 1920, some 1080, none⟩ = .ok f ∧
      FlagSet.ofProfile (Profile.resolve .empty withFloats) ⟨some 1920, some 1080, none⟩ = .ok f) ∧
    (withIntegers.insert .videoProfile (.integer 3)).Alike
      (withFloats.insert .videoProfile (.float (.ofInt 3))) ∧
    ∃ e e', FlagSet.ofProfile (Profile.resolve (withIntegers.insert .videoProfile (.integer 3))
        .empty) ⟨some 1920, some 1080, none⟩ = .error e ∧
      FlagSet.ofProfile (Profile.resolve (withFloats.insert .videoProfile (.float (.ofInt 3)))
        .empty) ⟨some 1920, some 1080, none⟩ = .error e' ∧
      e.Alike e' ∧ CompileError.SameButType e.message e'.message := by
  have hsettings : withIntegers.Alike withFloats :=
    ((((Settings.Alike.refl .empty).insert .width (.whole (n := 640) (by decide))).insert .frameRate
      (.whole (n := 25) (by decide))).insert .videoBitRate
        (.whole (n := 9007199254740992) (by decide))).insert .timeOffset
          (.whole (n := -10) (by decide))
  have hnumbered := hsettings.insert .videoProfile (.whole (n := 3) (by decide))
  have hok : (FlagSet.ofProfile (Profile.resolve .empty withIntegers)
      ⟨some 1920, some 1080, none⟩).isOk = true := by decide +kernel
  have herror : (FlagSet.ofProfile (Profile.resolve
      (withIntegers.insert .videoProfile (.integer 3)) .empty)
        ⟨some 1920, some 1080, none⟩).isOk = false := by decide +kernel
  refine ⟨hsettings, ?_, hnumbered, ?_⟩
  · rcases (whole_values_alike (Settings.Alike.refl .empty) hsettings).2.1
      ⟨some 1920, some 1080, none⟩ with hflags | ⟨e, -, he, -⟩
    · exact hflags
    · rw [he] at hok
      cases hok
  · rcases (whole_values_alike hnumbered (Settings.Alike.refl .empty)).2.1
      ⟨some 1920, some 1080, none⟩ with ⟨f, hf, -⟩ | hrefused
    · rw [hf] at herror
      cases herror
    · exact hrefused

end Transcode
