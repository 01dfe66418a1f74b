/-
  Transcode — the paths in a command.

  Arguments are texts, and a path is put among them the way it is shown.  So a
  command names the files of its request exactly when their paths are text.

  * `Path.shown_eq_iff`: a path is shown as itself if it is text, and only then;
  * `Encoder.compile_ofInput`: the input is put where nothing else looks at it;
  * `paths_of_compile`: what the arguments name, and which inputs they tell apart.
-/
import Transcode.Proofs.FlagOrder
import Transcode.Proofs.ShownPaths

namespace Transcode

namespace Path

/-- A path with the bytes of a text. -/
def IsText (p : Path) : Prop :=
  ∃ s : String, p = .ofText s

theorem display_ofText (s : String) : (ofText s).display = s :=
  Text.decodeLossy_encode s

/-- **A path that is text is shown as itself**, and no other is. -/
theorem shown_eq_iff {p : Path} : p.shown = p ↔ p.IsText := by
  constructor
  · intro h
    exact ⟨p.display, h.symm⟩
  · rintro ⟨s, rfl⟩
    rw [shown, display_ofText]

theorem encode_display_eq_iff {p : Path} : Text.encode p.display = p.bytes ↔ p.IsText := by
  rw [← shown_eq_iff, shown, ofText]
  cases p
  rw [mk.injEq]

/-- What paths are shown as tells those apart that are text. -/
theorem display_inj {p q : Path} (hp : p.IsText) (hq : q.IsText) :
    p.display = q.display ↔ p = q := by
  obtain ⟨s, rfl⟩ := hp
  obtain ⟨t, rfl⟩ := hq
  rw [display_ofText, display_ofText]
  constructor
  · exact congrArg ofText
  · intro h
    simpa only [display_ofText] using congrArg display h

instance (p : Path) : Decidable p.IsText :=
  decidable_of_iff (p.shown = p) shown_eq_iff

end Path

/-- **The input comes behind the global group**, and nothing else depends on it. -/
theorem Encoder.compile_ofInput {e : Encoder} {r : Request} {c : Command}
    (he : e.recipe = Recipe.standard) (hc : e.compile r = .ok c) :
    ∃ f rest, FlagSet.ofProfile c.profile r.source = .ok f ∧ ∀ input,
      e.compile { r with input := input } = .ok ⟨e.program,
        f.group .global ++ "-i" :: input.display :: rest ++ [r.output.display], c.profile⟩ := by
  obtain ⟨p, hp, hrender⟩ := bind_eq_ok_iff.1 hc
  obtain ⟨f, hf, hrender⟩ := bind_eq_ok_iff.1 hrender
  obtain ⟨args, -, hrender⟩ := bind_eq_ok_iff.1 hrender
  cases hrender
  refine ⟨f, f.group .trim ++ f.group .audio ++ f.group .video ++ ["-y"] ++ f.group .threads,
    hf, ?_⟩
  intro input
  refine bind_eq_ok_iff.2 ⟨p, hp, bind_eq_ok_iff.2 ⟨f, hf, ?_⟩⟩
  rw [he, Recipe.assemble_standard]
  simp only [bind, Except.bind, pure, Except.pure, List.append_assoc, List.cons_append,
    List.nil_append]

/-- **A command names the files of its request** where their paths are text: the
    argument behind the `-i` that follows the global group has the bytes of the
    input, and the last argument those of the output, exactly then.  Requests that
    differ in their input have the same arguments if the inputs are shown alike,
    which paths that are text never are. -/
theorem paths_of_compile {e : Encoder} {r : Request} {c : Command}
    (he : e.recipe = Recipe.standard) (hc : e.compile r = .ok c) :
    (∃ f input rest output, FlagSet.ofProfile c.profile r.source = .ok f ∧
      c.args = f.group .global ++ "-i" :: input :: rest ++ [output] ∧
      (Text.encode input = r.input.bytes ↔ r.input.IsText) ∧
      (Text.encode output = r.output.bytes ↔ r.output.IsText)) ∧
    ∀ input, ∃ c', e.compile { r with input := input } = .ok c' ∧
      (c'.args = c.args ↔ input.display = r.input.display) ∧
      (r.input.IsText → input.IsText → (c'.args = c.args ↔ input = r.input)) := by
  obtain ⟨f, rest, hf, hcompile⟩ := Encoder.compile_ofInput he hc
  have hr : e.compile r = _ := hcompile r.input
  rw [hc] at hr
  have hargs : c.args = f.group .global ++ "-i" :: r.input.display :: rest ++ [r.output.display] :=
    congrArg Command.args (Except.ok.inj hr)
  have hsame : ∀ input : Path,
      f.group .global ++ "-i" :: input.display :: rest ++ [r.output.display] = c.args ↔
        input.display = r.input.display := by
    intro input
    rw [hargs]
    simp
  constructor
  · exact ⟨f, _, rest, _, hf, hargs, Path.encode_display_eq_iff, Path.encode_display_eq_iff⟩
  · intro input
    refine ⟨_, hcompile input, hsame input, ?_⟩
    intro hinput hother
    exact (hsame input).trans (Path.display_inj hother hinput)

/-- An input that is spelled like a placeholder, and an output of more than plain
    characters. -/
def bracedRequest : Request :=
  ⟨"w768", .empty, ⟨some 1920, some 1080, some (.ofNat 25)⟩, "\x7boutput\x7d", "für.mp4"⟩

theorem paths_of_compile_bracedRequest :
    ∃ c, (Encoder.ofRegistry .builtin).recipe = Recipe.standard ∧
      (Encoder.ofRegistry .builtin).compile bracedRequest = .ok c ∧
      (∃ f input rest output, FlagSet.ofProfile c.profile bracedRequest.source = .ok f ∧
        c.args = f.group .global ++ "-i" :: input :: rest ++ [output] ∧
        Text.encode input = bracedRequest.input.bytes ∧
        Text.encode output = bracedRequest.output.bytes) ∧
      ∀ input : Path, input.IsText → input ≠ bracedRequest.input → ∃ c',
        (Encoder.ofRegistry .builtin).compile { bracedRequest with input := input } = .ok c' ∧
          c'.args ≠ c.args := by
  have hok : ((Encoder.ofRegistry .builtin).compile bracedRequest).toOption.isSome = true := by
    decide +kernel
  obtain ⟨c, hc⟩ := Option.isSome_iff_exists.1 hok
  have hc := toOption_eq_some_iff.1 hc
  have hinput : bracedRequest.input.IsText := ⟨_, rfl⟩
  have houtput : bracedRequest.output.IsText := ⟨_, rfl⟩
  obtain ⟨⟨f, input, rest, output, hf, hargs, hin, hout⟩, hothers⟩ := paths_of_compile rfl hc
  refine ⟨c, rfl, hc, ⟨f, input, rest, output, hf, hargs, hin.2 hinput, hout.2 houtput⟩, ?_⟩
  intro other hother hne
  obtain ⟨c', hc', -, hsame⟩ := hothers other
  exact ⟨c', hc', mt (hsame hinput hother).1 hne⟩

/-- A request for files with these names. -/
def namedRequest (input output : Path) : Request :=
  ⟨"w768", .empty, ⟨some 1920, some 1080, some (.ofNat 25)⟩, input, output⟩

/-- **A path that is not text is not named.**  The input is the one byte 0xFF, but the
    argument behind the `-i` is a text of three other bytes, the one that is given for the
    input 0xFE as well; and an output under a directory of that name is given as another
    path. -/
theorem args_name_another_path :
    (∃ c c' rest, (Encoder.ofRegistry .builtin).compile (namedRequest ⟨[0xFF]⟩ "a.mp4") = .ok c ∧
      (Encoder.ofRegistry .builtin).compile (namedRequest ⟨[0xFE]⟩ "a.mp4") = .ok c' ∧
      c.args = "-i" :: "\uFFFD" :: rest ∧ Text.encode "\uFFFD" ≠ [0xFF] ∧ c'.args = c.args) ∧
    ∃ c, (Encoder.ofRegistry .builtin).compile
        (namedRequest "clip.mov" ⟨0xFF :: Text.encode "/clip-w768.mp4"⟩) = .ok c ∧
      c.args.getLast? = some "\uFFFD/clip-w768.mp4" ∧
      Text.encode "\uFFFD/clip-w768.mp4" ≠ 0xFF :: Text.encode "/clip-w768.mp4" := by
  have hargs : ((Encoder.ofRegistry .builtin).compile
        (namedRequest ⟨[0xFF]⟩ "a.mp4")).toOption.map (·.args.take 2) =
      some ["-i", "\uFFFD"] := by decide +kernel
  have hsame : ((Encoder.ofRegistry .builtin).compile
        (namedRequest ⟨[0xFE]⟩ "a.mp4")).toOption.map (·.args) =
      ((Encoder.ofRegistry .builtin).compile
        (namedRequest ⟨[0xFF]⟩ "a.mp4")).toOption.map (·.args) := by decide +kernel
  have hlast : ((Encoder.ofRegistry .builtin).compile
      (namedRequest "clip.mov" ⟨0xFF :: Text.encode "/clip-w768.mp4"⟩)).toOption.map
        (·.args.getLast?) = some (some "\uFFFD/clip-w768.mp4") := by decide +kernel
  constructor
  · obtain ⟨c, hc, htake⟩ := Option.map_eq_some_iff.1 hargs
    rw [hc] at hsame
    obtain ⟨c', hc', heq⟩ := Option.map_eq_some_iff.1 hsame
    refine ⟨c, c', c.args.drop 2, toOption_eq_some_iff.1 hc, toOption_eq_some_iff.1 hc', ?_,
      by decide +kernel, heq⟩
    calc c.args = c.args.take 2 ++ c.args.drop 2 := (List.take_append_drop 2 c.args).symm
      _ = "-i" :: "\uFFFD" :: c.args.drop 2 := by
        rw [htake]
        rfl
  · obtain ⟨c, hc, hargs⟩ := Option.map_eq_some_iff.1 hlast
    exact ⟨c, toOption_eq_some_iff.1 hc, hargs, by decide +kernel⟩

end Transcode
