/-
  Transcode — what the run of a job does.

  A job makes a video of its own name in the output directory (`Job.Makes`).  When
  the encoder writes to the output that it is given and nowhere else, a run of the
  job puts that output at the destination or leaves the destination as it was, and
  of what else is in the output directory only backups may change
  (`Studio.run_spec`).

  The encoder is given the output as a text, which may be another path; but it
  leads to a place as deep, in a directory called as the staging directory, which
  none of the destinations is (`Staging.Laid.place_shown_output`).
-/
import Transcode.Proofs.FlagOrder
import Transcode.Proofs.LinkFreeDisks
import Transcode.Proofs.OpenWays
import Transcode.Proofs.ShownPaths

namespace Transcode

open Text (Bytes)
open Path (IsName slash dot)

/-! ## Writing to one file -/

namespace Disk

/-- One disk comes from another by writing to a location only: what differs is
    there or below it, and was no directory. -/
def IsWrittenAt (l : Location) (d d' : Disk) : Prop :=
  ∀ k, d'.node? k ≠ d.node? k → l <+: k ∧ d.node? k ≠ some .directory

variable {d d' : Disk} {l k : Location}

theorem IsWrittenAt.rfl : IsWrittenAt l d d := fun _ h => absurd (Eq.refl _) h

theorem IsWrittenAt.node?_eq (h : IsWrittenAt l d d') (hk : ¬ l <+: k) :
    d'.node? k = d.node? k :=
  Decidable.not_not.1 fun hne => hk (h k hne).1

theorem IsWrittenAt.directory (h : IsWrittenAt l d d') (hk : d.node? k = some .directory) :
    d'.node? k = some .directory := by
  rw [← hk]
  exact Decidable.not_not.1 fun hne => (h k hne).2 hk

end Disk

theorem Host.isWrittenAt_of_write {h : Host} {d d' : Disk} {p : Path} {content : Bytes}
    (hfree : d.IsLinkFree) (hw : h.write d p content = .ok d') :
    Disk.IsWrittenAt (h.place p) d d' := by
  obtain ⟨hne, hnode, node, -, rfl⟩ := put_of_write hfree hw
  intro k hk
  rw [Disk.node?_put hne] at hk
  split at hk
  · next heq =>
    rw [heq]
    exact ⟨List.prefix_rfl, hnode⟩
  · exact absurd rfl hk

/-! ## The output that the encoder is given -/

namespace Staging.Laid

variable {h : Host} {st : Staging} {name own : Bytes}

/-- **The output is shown** in a directory called as the staging directory, as deep
    as that. -/
theorem place_shown_output (hl : Laid h st name own) (hcwd : h.IsPlaced) :
    ∃ parent name', parent.length = (h.place (parentOf st.destination)).length ∧
      h.place st.output.shown = parent ++ [own, name'] := by
  obtain ⟨code, hcode, hown⟩ := hl.own_eq
  obtain ⟨r, hr, -, hplain⟩ := bytes_directoryName hcode
  have hshown : Path.shownBytes own = own := by
    refine (Path.shownBytes_eq_iff fun b hb => ?_).2 rfl
    rw [hown, hr] at hb
    rcases List.mem_cons.1 hb with rfl | hb
    · decide
    · exact ⟨(hplain b hb).1, (hplain b hb).2.1⟩
  refine ⟨h.place (h.absolute (parentOf st.destination)).shown, Path.shownBytes name, ?_, ?_⟩
  · rw [Host.length_place_shown, Host.place_absolute hcwd]
  · rw [Host.place_of_isIn (Path.isIn_shown hl.output_in),
      Host.place_of_isIn (Path.isIn_shown hl.directory_in), hshown, List.append_assoc]
    rfl

theorem not_shown_output (hl : Laid h st name own) (hcwd : h.IsPlaced) {n : Bytes} (hne : n ≠ own)
    (x : Location) :
    ¬ h.place st.output.shown <+: h.place (parentOf st.destination) ++ n :: x := by
  obtain ⟨parent, name', hlen, hplace⟩ := hl.place_shown_output hcwd
  have hne' : parent ++ [own] ≠ h.place (parentOf st.destination) ++ [n] := by
    intro e
    exact hne (List.cons.inj (List.append_inj' e rfl).2).1.symm
  have hapart := Apart.of_length (by simp [hlen]) hne' [name'] x
  rw [hplace]
  simpa using hapart.1

end Staging.Laid

/-! ## Jobs -/

/-- A job makes a video of a name in a directory. -/
structure Job.Makes (j : Job) (outputDir : Path) (name : Bytes) : Prop where
  destination_eq : j.destination = outputDir.join ⟨name⟩
  isName : IsName name
  name_eq : ∃ stem, stem ≠ [] ∧ name = stem ++ dot :: Text.encode "mp4"

/-- The way to a directory does not lead through the destination of a job; nor, where
    renaming may be refused, through the backup of it. -/
def Job.IsOffWay (h : Host) (outputDir : Path) (j : Job) : Prop :=
  h.place j.destination ∉ h.way outputDir ∧
    (h.AllowsRenaming ∨ h.place (j.destination.withExtension "bak") ∉ h.way outputDir)

theorem Job.Makes.fileName?_eq {j : Job} {outputDir : Path} {name : Bytes}
    (hj : j.Makes outputDir name) : j.destination.fileName? = some name :=
  hj.destination_eq ▸ Path.fileName?_join _ hj.isName

theorem Job.Makes.isIn {j : Job} {outputDir : Path} {name : Bytes} (hj : j.Makes outputDir name) :
    j.destination.IsIn outputDir name :=
  hj.destination_eq ▸ Path.isIn_join _ hj.isName

namespace Studio

variable {h : Host} {s : Studio} {d d' d₁ d₂ : Disk} {j : Job} {st : Staging} {c : Command}
  {outputDir : Path} {name own : Bytes} {r : Except Failure Path}

theorem last_of_compile {e : Encoder} {q : Request} (he : e.recipe = Recipe.standard)
    (hc : e.compile q = .ok c) :
    c.program = e.program ∧ c.args.getLast? = some q.output.display := by
  obtain ⟨profile, -, hc⟩ := bind_eq_ok_iff.1 hc
  obtain ⟨flags, -, hc⟩ := bind_eq_ok_iff.1 hc
  obtain ⟨args, hargs, hc⟩ := bind_eq_ok_iff.1 hc
  rw [he, Recipe.assemble_standard] at hargs
  cases hargs
  cases hc
  exact ⟨rfl, List.getLast?_concat⟩

/-- When some jobs are run one by one from a disk on, the encoder is started for the
    `n`-th of them, on a disk with a staging directory, with a command. -/
inductive Starts (h : Host) (s : Studio) : Disk → List Job → Nat → Disk → Command → Prop where
  | here {d d₁ : Disk} {j : Job} {js : List Job} {st : Staging} {c : Command}
      (hprepare : Staging.prepare h d j.destination = .ok (d₁, st))
      (hcompile : s.encoder.compile { j.request with output := st.output } = .ok c) :
      Starts h s d (j :: js) 0 d₁ c
  | later {d d' d₁ : Disk} {j : Job} {js : List Job} {p : Path} {n : Nat} {c : Command}
      (hrun : s.run h d j = (d', .ok p)) (hstart : Starts h s d' js n d₁ c) :
      Starts h s d (j :: js) (n + 1) d₁ c

/-- The encoder is started on a disk without links, where there was none at first. -/
theorem isLinkFree_of_starts (hcodes : h.GivesCodes) (hprograms : h.MakesNoLinks)
    {jobs : List Job} {n : Nat} (hfree : d.IsLinkFree) (hstart : s.Starts h d jobs n d₁ c) :
    d₁.IsLinkFree := by
  induction hstart with
  | here hprepare _ => exact Staging.isLinkFree_of_prepare hcodes hfree hprepare
  | @later _ _ _ j _ _ _ _ hrun _ ih =>
    have hfree' := isLinkFree_run hcodes hprograms hfree s j
    rw [hrun] at hfree'
    exact ih hfree'

/-- Whenever the encoder is started, it writes to the output that it is given, the
    last argument, and nowhere else. -/
def KeepsToOutput (h : Host) (s : Studio) (d : Disk) (jobs : List Job) : Prop :=
  ∀ n d₁ c output, s.Starts h d jobs n d₁ c → c.args.getLast? = some output →
    Disk.IsWrittenAt (h.place (.ofText output)) d₁
      (h.spawn d₁ (.ofText c.program) (c.args.map Text.encode)).1

/-- When a job is run into a staging directory, the disk is as the encoder leaves it,
    which is given the output for its last argument, or as it was. -/
theorem disk_of_runStaged (js : List Job) (he : s.encoder.recipe = Recipe.standard)
    (hp : Staging.prepare h d j.destination = .ok (d₁, st)) :
    (s.runStaged h d₁ j st).1 = d₁ ∨ ∃ c, s.Starts h d (j :: js) 0 d₁ c ∧
      c.args.getLast? = some st.output.display ∧ (s.runStaged h d₁ j st).1 =
        (h.spawn d₁ (.ofText c.program) (c.args.map Text.encode)).1 := by
  unfold runStaged
  cases hc : s.encoder.compile { j.request with output := st.output } with
  | error e => exact Or.inl rfl
  | ok c =>
    refine Or.inr ⟨c, .here hp hc, (last_of_compile he hc).2, ?_⟩
    rw [← Tool.run_fst]
    dsimp only
    split <;> rename_i heq <;> rw [heq]

theorem isWrittenAt_of_runStaged {js : List Job} (he : s.encoder.recipe = Recipe.standard)
    (hkeep : s.KeepsToOutput h d (j :: js))
    (hp : Staging.prepare h d j.destination = .ok (d₁, st)) :
    Disk.IsWrittenAt (h.place st.output.shown) d₁ (s.runStaged h d₁ j st).1 := by
  rcases disk_of_runStaged js he hp with hsame | ⟨c, hstart, hlast, hspawn⟩
  · rw [hsame]
    exact .rfl
  · rw [hspawn]
    exact hkeep 0 d₁ c _ hstart hlast

/-- How the disk may differ after a job has been run that makes a video of a name:
    of what else is in the output directory, only backups have changed, and what
    was called as a staging directory may be gone. -/
def LeavesRest (h : Host) (outputDir : Path) (name : Bytes) (d d' : Disk) : Prop :=
  ∀ n x, n ≠ name → (∀ stem, stem ≠ [] → n ≠ stem ++ dot :: Text.encode "bak") →
    d'.node? (h.place outputDir ++ n :: x) = d.node? (h.place outputDir ++ n :: x) ∨
      d'.node? (h.place outputDir ++ n :: x) = none ∧
        ∃ code, IsCode code ∧ n = (Staging.directoryName code).bytes

/-- No staging directory is called as a video. -/
theorem directory_ne_of_prepare (hcodes : h.GivesCodes) (hj : j.Makes outputDir name)
    (hp : Staging.prepare h d j.destination = .ok (d₁, st)) :
    st.directory.fileName? ≠ j.destination.fileName? := by
  obtain ⟨code, hcode, hdir⟩ := Staging.fileName?_directory hcodes hp
  obtain ⟨stem, hs, hname⟩ := hj.name_eq
  rw [hdir, hj.fileName?_eq, hname]
  exact fun e => Staging.directoryName_ne hcode hs _ (Option.some.inj e)

/-- A staging directory for a job whose destination is not on the way to it. -/
theorem unobstructed_of_prepare (hcwd : h.IsPlaced) (hcodes : h.GivesCodes)
    (hj : j.Makes outputDir name) (hway : j.IsOffWay h outputDir)
    (hdirect : h.IsDirect d outputDir)
    (hp : Staging.prepare h d j.destination = .ok (d₁, st)) :
    st.destination = j.destination ∧ h.place (Staging.parentOf st.destination) = h.place outputDir ∧
      Staging.IsInUse h d₁ st ∧ ∃ own, Staging.Unobstructed h st outputDir name own ∧
      ∀ l, ¬ h.place st.directory <+: l → d₁.node? l = d.node? l := by
  obtain ⟨hdest, hmade, name', own, hl⟩ :=
    Staging.laid_of_prepare hcodes hp (directory_ne_of_prepare hcodes hj hp)
  obtain ⟨rfl, hplace, hsame⟩ := Host.same_of_isIn hcwd hl.destination_in (hdest.symm ▸ hj.isIn)
  have hdirect₀ : h.IsDirect d (Staging.parentOf st.destination) := by
    rw [Host.IsDirect, hsame]
    exact hdirect
  obtain ⟨hkept, hopen⟩ := hl.isWayOpen_of_makeDirectory hcwd hdirect₀ hmade
  obtain ⟨hparent, hmine⟩ := (hl.isWayOpen_directory hcwd).1 hopen
  refine ⟨hdest, hplace, ⟨hparent, hmine⟩, own,
    ⟨hl, ⟨d, _, hdirect₀, hmade⟩, ?_, hj.name_eq, ?_, ?_⟩, hkept⟩
  · rw [hdest, hj.destination_eq]
  · rw [hsame, hdest]
    exact hway.1
  · rw [Staging.backup, hsame, hdest]
    exact hway.2

/-- When the encoder has run, the staging directory is in use, and everything under
    another name is as it was. -/
theorem staged_of_prepare {js : List Job} (hcwd : h.IsPlaced) (hcodes : h.GivesCodes)
    (he : s.encoder.recipe = Recipe.standard) (hj : j.Makes outputDir name)
    (hway : j.IsOffWay h outputDir) (hdirect : h.IsDirect d outputDir)
    (hkeep : s.KeepsToOutput h d (j :: js))
    (hp : Staging.prepare h d j.destination = .ok (d₁, st)) :
    st.destination = j.destination ∧ h.place (Staging.parentOf st.destination) = h.place outputDir ∧
      ∃ own, Staging.Unobstructed h st outputDir name own ∧
        Staging.IsInUse h (s.runStaged h d₁ j st).1 st ∧ ∀ n x, n ≠ own →
          (s.runStaged h d₁ j st).1.node? (h.place outputDir ++ n :: x) =
            d.node? (h.place outputDir ++ n :: x) := by
  obtain ⟨hdest, hplace, huse, own, hu, hput⟩ :=
    unobstructed_of_prepare hcwd hcodes hj hway hdirect hp
  have hwritten := isWrittenAt_of_runStaged he hkeep hp
  refine ⟨hdest, hplace, own, hu, ⟨?_, ?_⟩, fun n x hne => ?_⟩
  · exact fun v hv => hwritten.directory (huse.isWayOpen v hv)
  · exact hwritten.directory huse.isDirectory
  · -- The encoder has written in a directory called as the staging directory, if not in that.
    rw [← hplace, hwritten.node?_eq (hu.toLaid.not_shown_output hcwd hne x), hput]
    exact (hu.toLaid.apart hcwd hne).not_below ⟨x, by simp⟩

theorem leavesRest_of_discard (hcwd : h.IsPlaced)
    (hu : Staging.Unobstructed h st outputDir name own)
    (hplace : h.place (Staging.parentOf st.destination) = h.place outputDir)
    (huse : Staging.IsInUse h d' st)
    (hkept : ∀ n x, n ≠ own → n ≠ name →
      (∀ stem, stem ≠ [] → n ≠ stem ++ dot :: Text.encode "bak") →
        d'.node? (h.place outputDir ++ n :: x) = d.node? (h.place outputDir ++ n :: x)) :
    LeavesRest h outputDir name d (st.discard h d') := by
  intro n x hname hback
  by_cases hown : n = own
  · refine Or.inr ⟨hu.node?_discard hcwd huse ?_, hown ▸ hu.own_eq⟩
    rw [hu.toLaid.place_directory hcwd, hplace, hown]
    exact ⟨x, by simp⟩
  · refine Or.inl ((hu.toLaid.node?_discard_of_not_below hcwd (hu.isDirect hcwd huse) ?_).trans
      (hkept n x hown hname hback))
    rw [← hplace]
    exact (hu.toLaid.apart hcwd hown).not_below ⟨x, by simp⟩

/-- The outcome of a run whose output is at its destination: what the encoder has
    written there. -/
def Delivers (h : Host) (s : Studio) (d : Disk) (j : Job) (d' : Disk) : Prop :=
  ∃ d₁ d₂ st, Staging.prepare h d j.destination = .ok (d₁, st) ∧
    s.runStaged h d₁ j st = (d₂, .ok ()) ∧ h.fileExists d₂ st.output = true ∧
      d'.under (h.place j.destination) = d₂.under (h.place st.output)

/-- A staging directory in use is discarded without a link on the way. -/
theorem isDirect_discard (hcwd : h.IsPlaced) (hu : Staging.Unobstructed h st outputDir name own)
    (hway : h.way (Staging.parentOf st.destination) = h.way outputDir)
    (huse : Staging.IsInUse h d st) : h.IsDirect (st.discard h d) outputDir := by
  have hdirect := hu.toLaid.isDirect_parent hcwd (hu.isDirect hcwd huse)
  rw [Host.IsDirect, hway] at hdirect
  exact Host.IsDirect.of_loses hdirect (Host.loses_removeTree h d st.directory)

/-- **What publishing does** for a job, from a staging directory that is in use. -/
theorem leavesRest_of_finalize {r : Except ToolError Path} (hcwd : h.IsPlaced)
    (hrestore : h.AllowsRestoring) (hu : Staging.Unobstructed h st outputDir name own)
    (hplace : h.place (Staging.parentOf st.destination) = h.place outputDir)
    (hway : h.way (Staging.parentOf st.destination) = h.way outputDir)
    (huse : Staging.IsInUse h d₂ st)
    (hkept : ∀ n x, n ≠ own →
      d₂.node? (h.place outputDir ++ n :: x) = d.node? (h.place outputDir ++ n :: x))
    (hfinal : st.finalize h d₂ = (d', r)) :
    LeavesRest h outputDir name d d' ∧ h.IsDirect d' outputDir ∧
      (∀ e, r = .error e →
        d'.under (h.place st.destination) = d₂.under (h.place st.destination)) ∧
      ∀ p, r = .ok p → p = st.destination ∧ h.fileExists d₂ st.output = true ∧
        d'.under (h.place st.destination) = d₂.under (h.place st.output) := by
  have hl := hu.toLaid
  obtain ⟨d₃, hpub, rfl⟩ := Staging.exists_published hfinal
  obtain ⟨hok, herror⟩ := Staging.under_of_published hl hcwd (hu.isDirect hcwd huse)
    (fun hb => hu.place_backup_ne hb.2.choose_spec) (hu.canRestore hcwd hrestore huse) hpub
  have huse₃ := hu.isInUse_of_published hcwd hrestore huse hpub
  rw [← hl.under_discard hcwd (hu.isDirect hcwd huse₃) (hl.apart_destination hcwd)] at hok herror
  refine ⟨leavesRest_of_discard hcwd hu hplace huse₃ fun n x hn hname hback => ?_,
    isDirect_discard hcwd hu hway huse₃, herror, hok⟩
  rw [← hkept n x hn, ← hplace]
  refine hu.node?_of_published hcwd hrestore huse hpub ?_ (fun hpre => ?_) fun stem hs => ?_
  · rw [hl.place_destination]
    exact Apart.not_below_of_ne hname.symm _ x
  · have hpre' := hl.directory_prefix_output.trans hpre
    rw [hl.place_directory hcwd] at hpre'
    exact Apart.not_below_of_ne (Ne.symm hn) _ x hpre'
  · exact Apart.not_below_of_ne (hback stem hs).symm _ x

/-- **What the run of a job does**: what the encoder has written is at the
    destination, or the destination is as it was; and the rest is left alone. -/
theorem run_spec {js : List Job} (hcwd : h.IsPlaced) (hcodes : h.GivesCodes)
    (hrestore : h.AllowsRestoring) (he : s.encoder.recipe = Recipe.standard)
    (hj : j.Makes outputDir name) (hway : j.IsOffWay h outputDir)
    (hdirect : h.IsDirect d outputDir) (hkeep : s.KeepsToOutput h d (j :: js))
    (hrun : s.run h d j = (d', r)) :
    LeavesRest h outputDir name d d' ∧ h.IsDirect d' outputDir ∧
      (∀ e, r = .error e → d'.under (h.place j.destination) = d.under (h.place j.destination)) ∧
      ∀ p, r = .ok p → p = j.destination ∧ s.Delivers h d j d' := by
  unfold run at hrun
  split at hrun
  · cases hrun
    exact ⟨fun n x _ _ => Or.inl rfl, hdirect, fun _ _ => rfl, by simp⟩
  next d₁ st hp =>
  obtain ⟨hdest, hplace, own, hu, huse, hkept⟩ :=
    staged_of_prepare hcwd hcodes he hj hway hdirect hkeep hp
  generalize hstaged : s.runStaged h d₁ j st = x at hrun huse hkept
  obtain ⟨d₂, r₂⟩ := x
  have hl := hu.toLaid
  have hsame := (Host.same_of_isIn hcwd hl.destination_in (hdest.symm ▸ hj.isIn)).2.2
  have hdest₂ : d₂.under (h.place j.destination) = d.under (h.place j.destination) := by
    rw [Host.place_of_isIn hj.isIn]
    refine Disk.under_congr fun m hm => ?_
    obtain ⟨x, rfl⟩ := hm
    simpa using hkept name x hu.own_ne.symm
  cases r₂ with
  | error e =>
    cases hrun
    refine ⟨leavesRest_of_discard hcwd hu hplace huse fun n x hn _ _ => hkept n x hn,
      isDirect_discard hcwd hu hsame huse, ?_, by simp⟩
    rintro e' -
    rw [← hdest, hl.under_discard hcwd (hu.isDirect hcwd huse) (hl.apart_destination hcwd), hdest,
      hdest₂]
  | ok _ =>
    dsimp only at hrun
    generalize hfinal : st.finalize h d₂ = y at hrun
    obtain ⟨d₃, r₃⟩ := y
    cases hrun
    obtain ⟨hrest, hdirect₃, herror, hok⟩ :=
      leavesRest_of_finalize hcwd hrestore hu hplace hsame huse hkept hfinal
    rw [hdest] at herror hok
    refine ⟨hrest, hdirect₃, ?_, ?_⟩
    · intro e hr
      cases r₃ with
      | ok p => cases hr
      | error e' => exact (herror e' rfl).trans hdest₂
    · intro p hr
      cases r₃ with
      | error e' => cases hr
      | ok p' =>
        cases hr
        obtain ⟨rfl, hexists, hunder⟩ := hok _ rfl
        exact ⟨rfl, d₁, d₂, st, hp, hstaged, hexists, hunder⟩

end Studio

end Transcode
