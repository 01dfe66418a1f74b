/-
  Transcode — one request, compiled for two outputs.

  A job is compiled for its destination when it is planned, which is the command
  that is shown, and again for a staging directory when it is run.  The usual recipe
  ends with the output, and nothing else looks at it.

  * `Encoder.compile_output`: the output is put behind what does not depend on it;
  * `compile_differs_in_output`: so two compilations fail alike, or differ in their
    last argument, and a run executes what has been planned.
-/
import Transcode.Proofs.FlagOrder

namespace Transcode

namespace Encoder

/-- The arguments that come before the output, and the profile of a request. -/
def beforeOutput (e : Encoder) (r : Request) : Except CompileError (List String × Profile) := do
  let p ← e.resolve r.preset r.overrides
  let f ← FlagSet.ofProfile p r.source
  return (f.group .global ++ ["-i", r.input.display] ++ f.group .trim ++ f.group .audio ++
    f.group .video ++ ["-y"] ++ f.group .threads, p)

/-- **The output comes behind the rest**, which does not depend on it. -/
theorem compile_output {e : Encoder} (he : e.recipe = Recipe.standard) (r : Request)
    (output : Path) :
    e.compile { r with output := output } =
      (e.beforeOutput r).map fun x => ⟨e.program, x.1 ++ [output.display], x.2⟩ := by
  unfold compile beforeOutput
  cases e.resolve r.preset r.overrides with
  | error err => rfl
  | ok p =>
    show e.render p { r with output := output } = Except.map _ (FlagSet.ofProfile p r.source >>= _)
    unfold render
    rw [he]
    cases FlagSet.ofProfile p r.source with
    | error err => rfl
    | ok f =>
      simp only [bind, Except.bind, Recipe.assemble_standard]
      rfl

theorem compile_ofOutput {e : Encoder} (he : e.recipe = Recipe.standard) {r : Request}
    {c : Command} (hc : e.compile r = .ok c) :
    ∃ args, c = ⟨e.program, args ++ [r.output.display], c.profile⟩ ∧ ∀ output,
      e.compile { r with output := output } =
        .ok ⟨e.program, args ++ [output.display], c.profile⟩ := by
  have hr : e.compile { r with output := r.output } = .ok c := hc
  rw [compile_output he] at hr
  obtain ⟨⟨args, p⟩, hx, rfl⟩ := map_eq_ok_iff.1 hr
  refine ⟨args, rfl, ?_⟩
  intro output
  rw [compile_output he, hx]
  rfl

end Encoder

/-- **Two compilations of one request differ in the output alone.**  With the usual
    recipe they fail alike, or have the same arguments but for the last; so what is
    executed when a planned job is run is what has been planned, with the output in
    the staging directory. -/
theorem compile_differs_in_output :
    (∀ (e : Encoder) (r : Request) (output output' : Path), e.recipe = Recipe.standard →
      (∃ err, e.compile { r with output := output } = .error err ∧
        e.compile { r with output := output' } = .error err) ∨
      ∃ args p,
        e.compile { r with output := output } = .ok ⟨e.program, args ++ [output.display], p⟩ ∧
        e.compile { r with output := output' } = .ok ⟨e.program, args ++ [output'.display], p⟩) ∧
    ∀ h d c s input dir presets overrides source jobs, Studio.ofConfig h d c = .ok s →
      s.plan input dir presets overrides source = .ok jobs → ∀ j ∈ jobs,
        ∃ args, j.command.args = args ++ [j.destination.display] ∧
          (∀ staged, s.encoder.compile { j.request with output := staged } =
            .ok ⟨j.command.program, args ++ [staged.display], j.command.profile⟩) ∧
          ∀ h' d' st, (s.runStaged h' d' j st).1 =
            (Tool.run h' d' (.ofText j.command.program) (args ++ [st.output.display])).1 := by
  constructor
  · intro e r output output' he
    rw [Encoder.compile_output he, Encoder.compile_output he]
    cases e.beforeOutput r with
    | error err => exact Or.inl ⟨err, rfl, rfl⟩
    | ok x => exact Or.inr ⟨x.1, x.2, rfl, rfl⟩
  · intro h d c s input dir presets overrides source jobs hs hp j hj
    obtain ⟨registry, -, rfl⟩ := map_eq_ok_iff.1 hs
    obtain ⟨-, hc⟩ := Studio.compile_of_mem_plan hp hj
    obtain ⟨args, hcommand, hstaged⟩ := Encoder.compile_ofOutput rfl hc
    have hprogram := congrArg Command.program hcommand
    refine ⟨args, congrArg Command.args hcommand, ?_, ?_⟩
    · intro staged
      rw [hstaged, hprogram]
    · intro h' d' st
      rw [Studio.runStaged, hstaged, hprogram]
      dsimp only
      split <;> rename_i heq <;> rw [heq]

theorem compile_differs_in_output_clip :
    ∃ s jobs args, ∃ j ∈ jobs, Studio.ofConfig .bare ⟨[]⟩ .standard = .ok s ∧
      s.encoder.recipe = Recipe.standard ∧
      s.plan "/in/clip.mov" "/out" ["default"] .empty ⟨some 1920, some 1080, none⟩ = .ok jobs ∧
      j.command.args = args ++ ["/out/clip-default.mp4"] ∧
      s.encoder.compile { j.request with output := "/out/.mp4forge-000000/clip-default.mp4" } =
        .ok ⟨j.command.program, args ++ ["/out/.mp4forge-000000/clip-default.mp4"],
          j.command.profile⟩ ∧
      ∃ args' p, s.encoder.compile { j.request with output := "a.mp4" } =
        .ok ⟨s.encoder.program, args' ++ ["a.mp4"], p⟩ := by
  obtain ⟨s, jobs, hs, hplan, hcheck⟩ := Studio.exists_plan .bare ⟨[]⟩ .standard "/in/clip.mov"
    "/out" ["default"] ⟨some 1920, some 1080, none⟩
    (fun _ jobs => jobs.map (·.destination.display) == ["/out/clip-default.mp4"]) (by decide +kernel)
  rw [beq_iff_eq, List.map_eq_singleton_iff] at hcheck
  obtain ⟨j, rfl, hdest⟩ := hcheck
  have hrecipe : s.encoder.recipe = Recipe.standard := by
    obtain ⟨r, -, rfl⟩ := map_eq_ok_iff.1 hs
    rfl
  obtain ⟨htwice, hjobs⟩ := compile_differs_in_output
  obtain ⟨args, hargs, hstaged, -⟩ :=
    hjobs _ _ _ _ _ _ _ _ _ _ hs hplan j List.mem_cons_self
  have hshown : Path.display "/out/.mp4forge-000000/clip-default.mp4" =
      "/out/.mp4forge-000000/clip-default.mp4" := by decide +kernel
  have hshort : Path.display "a.mp4" = "a.mp4" := by decide +kernel
  refine ⟨s, [j], args, j, List.mem_cons_self, hs, hrecipe, hplan, ?_, ?_, ?_⟩
  · rw [hargs, hdest]
  · rw [hstaged, hshown]
  · rcases htwice s.encoder j.request "a.mp4" "b.mp4" hrecipe with
      ⟨err, -, hfail⟩ | ⟨args', p, hok, -⟩
    · rw [hstaged] at hfail
      cases hfail
    · rw [hshort] at hok
      exact ⟨args', p, hok⟩

end Transcode
