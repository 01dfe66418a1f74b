/-
  Transcode — what a batch of jobs does.

  The jobs of a plan are run one by one (`Studio.Ran`) until one fails.  Every run
  leaves alone what the others have made, so after the last one

  * every job before the failure has its output at its destination, the last one
    where some share it;
  * the destinations of the others are as they were;
  * no staging directory is left over.

  `runJobs_publishes_until_failure` says so for every plan whose output directory
  is not found by way of one of the destinations, nor of a link, and whose destinations
  are no links, as one to the backup of another could be.  A directory that is found by
  way of a destination, as `clip.mp4/..`, is lost when what is there is backed up
  (`runJobs_loses_directory_on_way`).
-/
import Transcode.Proofs.JobRuns
import Transcode.Proofs.OutputNames
import Transcode.Host.Script
import Transcode.Program

namespace Transcode

open Text (Bytes)
open Path (slash dot)

/-! ## What scripts write -/

/-- **Programs that follow scripts** write to the file that the last argument names, if
    they write at all. -/
theorem Host.spawn_withScripts (h : Host) (scripts : List Script) (d : Disk)
    (p : Path) {args : List Bytes} {last : Bytes} (hlast : args.getLast? = some last) :
    ((h.withScripts scripts).spawn d p args).1 = d ∨ ∃ content, (h.withScripts scripts).write d
      ⟨last⟩ content = .ok ((h.withScripts scripts).spawn d p args).1 := by
  unfold Host.spawn
  split
  · exact Or.inl rfl
  split
  · exact Or.inl rfl
  next id _ =>
  simp only [Host.withScripts, Script.behaviour]
  split
  next script _ =>
    simp only [Script.run, Script.written, hlast]
    split
    · split
      · next hw => exact Or.inr ⟨_, hw⟩
      · exact Or.inl rfl
    · exact Or.inl rfl
  · exact Or.inl rfl

/-! ## The jobs of a plan -/

/-- **An output goes into the output directory**, when the name of its preset has no
    slash. -/
theorem destination_eq (input outputDir : Path) {preset : String} (hpreset : '/' ∉ preset.toList)
    (extension : String) : ∃ stem, slash ∉ stem ∧ stem ≠ [] ∧
      destination input outputDir preset extension =
        outputDir.join ⟨stem ++ dot :: Text.encode extension⟩ := by
  refine ⟨_, slash_not_mem_encode_outputStem input hpreset, encode_outputStem_ne_nil, ?_⟩
  rw [destination_eq_join, encode_outputName]

namespace Studio

variable {h : Host} {s : Studio} {d d' mid : Disk} {j : Job} {jobs before rest : List Job}
  {outputDir : Path} {name : Bytes}

/-- **A planned job makes a video** in the output directory. -/
theorem makes_of_mem_plan {input : Path} {presets : List String} {overrides : Settings}
    {source : Source} (hplan : s.plan input outputDir presets overrides source = .ok jobs)
    (hpresets : ∀ p ∈ presets, '/' ∉ p.toList) (hj : j ∈ jobs) :
    ∃ name, j.Makes outputDir name := by
  obtain ⟨p, hp, hjob⟩ := exists_of_mem_mapM hplan hj
  obtain ⟨stem, hslash, hne, hdest⟩ :=
    destination_eq input outputDir (hpresets p hp) Encoder.fileExtension
  have hj : j.destination = destination input outputDir p Encoder.fileExtension := by
    simp only [job] at hjob
    split at hjob <;> cases hjob
    simp only [Job.destination, request]
  refine ⟨_, hj.trans hdest, Path.isName_of_length ?_ ?_, stem, hne, rfl⟩
  · have hext : slash ∉ dot :: Text.encode Encoder.fileExtension := by decide
    rw [List.mem_append, not_or]
    exact ⟨hslash, hext⟩
  · have hext : (dot :: Text.encode Encoder.fileExtension).length = 4 := by decide
    rw [List.length_append, hext]
    omega

/-! ## Runs -/

/-- Jobs that have been run one after another, all of them to their ends. -/
inductive Ran (h : Host) (s : Studio) : Disk → List Job → Disk → Prop where
  | nil (d : Disk) : Ran h s d [] d
  | cons {d d₁ d' : Disk} {j : Job} {js : List Job} {p : Path}
      (hrun : s.run h d j = (d₁, .ok p)) (hran : Ran h s d₁ js d') : Ran h s d (j :: js) d'

theorem ran_append {js js' : List Job} (hran : s.Ran h d (js ++ js') d') :
    ∃ mid, s.Ran h d js mid ∧ s.Ran h mid js' d' := by
  induction js generalizing d with
  | nil => exact ⟨d, .nil d, hran⟩
  | cons j js ih =>
    cases hran with
    | cons hrun hran =>
      obtain ⟨mid, hjs, hjs'⟩ := ih hran
      exact ⟨mid, .cons hrun hjs, hjs'⟩

/-- How a batch ends when the jobs before the last run have been run to their ends:
    no job is left, or the next one fails. -/
inductive Ends (h : Host) (s : Studio) (mid : Disk) :
    List Job → Disk → Option Failure → Prop where
  | done : Ends h s mid [] mid none
  | failed {d' : Disk} {k : Job} {later : List Job} {e : Failure}
      (hrun : s.run h mid k = (d', .error e)) : Ends h s mid (k :: later) d' (some e)

/-- **Jobs are run up to the first that fails.** -/
theorem ran_of_runAll (h : Host) (s : Studio) (d : Disk) (jobs : List Job) :
    ∃ before rest mid, jobs = before ++ rest ∧ s.Ran h d before mid ∧
      Ends h s mid rest (s.runAll h d jobs).disk (s.runAll h d jobs).failure := by
  induction jobs generalizing d with
  | nil => exact ⟨[], [], d, rfl, .nil d, .done⟩
  | cons j js ih =>
    rw [runAll]
    generalize hrun : s.run h d j = x
    obtain ⟨d₁, r⟩ := x
    cases r with
    | error e => exact ⟨[], j :: js, d, rfl, .nil d, .failed hrun⟩
    | ok p =>
      obtain ⟨before, rest, mid, rfl, hran, hend⟩ := ih d₁
      exact ⟨j :: before, rest, mid, rfl, .cons hrun hran, hend⟩

/-- **No program is started behind a job that fails.** -/
theorem le_of_starts {f : Option Failure} (hran : s.Ran h d before mid)
    (hend : Ends h s mid rest d' f) {n : Nat} {d₁ : Disk} {c : Command}
    (hstart : s.Starts h d (before ++ rest) n d₁ c) : n ≤ before.length := by
  induction hran generalizing n with
  | nil d =>
    cases hstart with
    | here => exact Nat.le_refl 0
    | later hrun _ =>
      -- the next job would have to end well, and it fails
      cases hend with
      | failed hfail =>
        rw [hfail] at hrun
        cases hrun
  | cons hrun _ ih =>
    cases hstart with
    | here => exact Nat.zero_le _
    | later hrun' hstart =>
      rw [hrun] at hrun'
      cases hrun'
      exact Nat.succ_le_succ (ih hend hstart)

theorem keepsToOutput_of_ran (hran : s.Ran h d before mid)
    (hkeep : s.KeepsToOutput h d (before ++ rest)) : s.KeepsToOutput h mid rest := by
  induction hran with
  | nil d => exact hkeep
  | cons hrun _ ih => exact ih fun n d₁ c output hstart => hkeep _ _ _ _ (.later hrun hstart)

/-- **What each run preserves, many runs preserve**, while no link gets on the way. -/
theorem Ran.rel {R : Disk → Disk → Prop} (hran : s.Ran h d before mid) (hrefl : ∀ d, R d d)
    (htrans : ∀ {d₁ d₂ d₃}, R d₁ d₂ → R d₂ d₃ → R d₁ d₃) (hdirect : h.IsDirect d outputDir)
    (hkeep : s.KeepsToOutput h d (before ++ rest))
    (hstep : ∀ {d d' j js p}, j ∈ before → h.IsDirect d outputDir →
      s.KeepsToOutput h d (j :: js) → s.run h d j = (d', .ok p) →
        h.IsDirect d' outputDir ∧ R d d') : h.IsDirect mid outputDir ∧ R d mid := by
  induction hran with
  | nil d => exact ⟨hdirect, hrefl d⟩
  | cons hrun hran ih =>
    obtain ⟨hdirect₁, hR⟩ := hstep List.mem_cons_self hdirect hkeep hrun
    have hkeep₁ := keepsToOutput_of_ran (.cons hrun (.nil _)) hkeep
    obtain ⟨hdirect₂, hR'⟩ := ih hdirect₁ hkeep₁ fun hj => hstep (List.mem_cons_of_mem _ hj)
    exact ⟨hdirect₂, htrans hR hR'⟩

/-- What a batch of jobs is run on: no backup is kept from being put back, and every
    job makes a video in the output directory, the way to which does not lead
    through it. -/
structure IsOrderly (h : Host) (s : Studio) (outputDir : Path) (jobs : List Job) : Prop where
  isPlaced : h.IsPlaced
  givesCodes : h.GivesCodes
  allowsRestoring : h.AllowsRestoring
  isStandard : s.encoder.recipe = Recipe.standard
  makes : ∀ j ∈ jobs, ∃ name, j.Makes outputDir name
  isOffWay : ∀ j ∈ jobs, j.IsOffWay h outputDir

/-! ## What one run leaves alone -/

theorem under_of_leavesRest {i : Job} {n : Bytes} (hi : i.Makes outputDir n) (hne : n ≠ name)
    (hl : LeavesRest h outputDir name d d') :
    d'.under (h.place i.destination) = d.under (h.place i.destination) := by
  obtain ⟨stem, hs, hn⟩ := hi.name_eq
  rw [Host.place_of_isIn hi.isIn]
  refine Disk.under_congr fun m hm => ?_
  obtain ⟨x, rfl⟩ := hm
  rw [List.append_assoc, List.singleton_append]
  rcases hl n x hne fun stem' _ => hn ▸ Staging.video_ne_backup stem stem' with
    h | ⟨-, code, hcode, hown⟩
  · exact h
  · exact absurd (hown.symm.trans hn) (Staging.directoryName_ne hcode hs _)

/-- Whether what is called as a staging directory in the output directory was there
    before. -/
def AddsNoStaging (h : Host) (outputDir : Path) (d d' : Disk) : Prop :=
  ∀ code x y, IsCode code →
    d'.node? (h.place (Staging.directoryIn outputDir code) ++ x) = some y →
      d.node? (h.place (Staging.directoryIn outputDir code) ++ x) = some y

theorem AddsNoStaging.refl (d : Disk) : AddsNoStaging h outputDir d d :=
  fun _ _ _ _ hy => hy

theorem AddsNoStaging.trans {d₁ d₂ d₃ : Disk} (h₁ : AddsNoStaging h outputDir d₁ d₂)
    (h₂ : AddsNoStaging h outputDir d₂ d₃) : AddsNoStaging h outputDir d₁ d₃ :=
  fun code x y hcode hy => h₁ code x y hcode (h₂ code x y hcode hy)

theorem addsNoStaging_of_leavesRest (hj : j.Makes outputDir name)
    (hl : LeavesRest h outputDir name d d') : AddsNoStaging h outputDir d d' := by
  intro code x y hcode hy
  obtain ⟨stem, hs, hname⟩ := hj.name_eq
  have hne : ∀ stem ext, stem ≠ [] → (Staging.directoryName code).bytes ≠ stem ++ dot :: ext :=
    fun _ ext hs => Staging.directoryName_ne hcode hs ext
  rw [Host.place_of_isIn (Staging.isIn_directoryIn outputDir hcode), List.append_assoc,
    List.singleton_append] at hy ⊢
  rcases hl _ x (hname ▸ hne _ _ hs) fun _ hs => hne _ _ hs with h | ⟨h, -⟩
  · rwa [h] at hy
  · rw [h] at hy
    cases hy

namespace IsOrderly

variable {i : Job} {later : List Job} {p : Path} {e : Failure} {r : Except Failure Path}

theorem isDirect_of_run (ho : IsOrderly h s outputDir jobs) (hdirect : h.IsDirect d outputDir)
    (hkeep : s.KeepsToOutput h d (j :: later)) (hrun : s.run h d j = (d', r)) (hj : j ∈ jobs) :
    h.IsDirect d' outputDir := by
  obtain ⟨name, hname⟩ := ho.makes j hj
  exact (run_spec ho.isPlaced ho.givesCodes ho.allowsRestoring ho.isStandard hname
    (ho.isOffWay j hj) hdirect hkeep hrun).2.1

theorem under_of_run (ho : IsOrderly h s outputDir jobs) (hdirect : h.IsDirect d outputDir)
    (hkeep : s.KeepsToOutput h d (j :: later)) (hrun : s.run h d j = (d', r)) (hj : j ∈ jobs)
    (hi : i ∈ jobs) (hne : h.place j.destination ≠ h.place i.destination) :
    d'.under (h.place i.destination) = d.under (h.place i.destination) := by
  obtain ⟨name, hname⟩ := ho.makes j hj
  obtain ⟨n, hn⟩ := ho.makes i hi
  obtain ⟨hl, -⟩ := run_spec ho.isPlaced ho.givesCodes ho.allowsRestoring ho.isStandard hname
    (ho.isOffWay j hj) hdirect hkeep hrun
  refine under_of_leavesRest hn ?_ hl
  rintro rfl
  exact hne ((Host.place_of_isIn hname.isIn).trans (Host.place_of_isIn hn.isIn).symm)

theorem under_of_failed (ho : IsOrderly h s outputDir jobs) (hdirect : h.IsDirect d outputDir)
    (hkeep : s.KeepsToOutput h d (j :: later)) (hrun : s.run h d j = (d', .error e)) (hj : j ∈ jobs)
    (hi : i ∈ jobs) : d'.under (h.place i.destination) = d.under (h.place i.destination) := by
  by_cases heq : h.place j.destination = h.place i.destination
  · obtain ⟨name, hname⟩ := ho.makes j hj
    obtain ⟨-, -, hfailed, -⟩ := run_spec ho.isPlaced ho.givesCodes ho.allowsRestoring
      ho.isStandard hname (ho.isOffWay j hj) hdirect hkeep hrun
    exact heq ▸ hfailed e rfl
  · exact ho.under_of_run hdirect hkeep hrun hj hi heq

theorem addsNoStaging_of_run (ho : IsOrderly h s outputDir jobs) (hdirect : h.IsDirect d outputDir)
    (hkeep : s.KeepsToOutput h d (j :: later)) (hrun : s.run h d j = (d', r)) (hj : j ∈ jobs) :
    AddsNoStaging h outputDir d d' := by
  obtain ⟨name, hname⟩ := ho.makes j hj
  exact addsNoStaging_of_leavesRest hname (run_spec ho.isPlaced ho.givesCodes ho.allowsRestoring
    ho.isStandard hname (ho.isOffWay j hj) hdirect hkeep hrun).1

/-! ## What many runs leave alone -/

theorem under_of_ran (ho : IsOrderly h s outputDir jobs) (hran : s.Ran h d before mid)
    (hdirect : h.IsDirect d outputDir) (hkeep : s.KeepsToOutput h d (before ++ rest))
    (hbefore : ∀ j ∈ before, j ∈ jobs) (hi : i ∈ jobs)
    (hne : ∀ j ∈ before, h.place j.destination ≠ h.place i.destination) :
    mid.under (h.place i.destination) = d.under (h.place i.destination) := by
  refine (hran.rel (R := fun d d' => d'.under (h.place i.destination) =
    d.under (h.place i.destination)) ?_ ?_ hdirect hkeep ?_).2
  · exact fun _ => rfl
  · exact fun h₁ h₂ => h₂.trans h₁
  · exact fun hj hdirect hkeep hrun => ⟨ho.isDirect_of_run hdirect hkeep hrun (hbefore _ hj),
      ho.under_of_run hdirect hkeep hrun (hbefore _ hj) hi (hne _ hj)⟩

theorem addsNoStaging_of_ran (ho : IsOrderly h s outputDir jobs) (hran : s.Ran h d before mid)
    (hdirect : h.IsDirect d outputDir) (hkeep : s.KeepsToOutput h d (before ++ rest))
    (hbefore : ∀ j ∈ before, j ∈ jobs) :
    h.IsDirect mid outputDir ∧ AddsNoStaging h outputDir d mid := by
  refine hran.rel .refl .trans hdirect hkeep ?_
  exact fun hj hdirect hkeep hrun => ⟨ho.isDirect_of_run hdirect hkeep hrun (hbefore _ hj),
    ho.addsNoStaging_of_run hdirect hkeep hrun (hbefore _ hj)⟩

/-- What the last run for a destination has written is there still. -/
theorem delivers_of_ran {earlier : List Job} (ho : IsOrderly h s outputDir jobs)
    (hran : s.Ran h d (earlier ++ j :: later) mid) (hdirect : h.IsDirect d outputDir)
    (hkeep : s.KeepsToOutput h d (earlier ++ j :: (later ++ rest)))
    (hjobs : ∀ i ∈ earlier ++ j :: later, i ∈ jobs)
    (hother : ∀ i ∈ later, h.place i.destination ≠ h.place j.destination) :
    ∃ d₁ d₂, s.Ran h d earlier d₁ ∧ s.run h d₁ j = (d₂, .ok j.destination) ∧
      s.Delivers h d₁ j d₂ ∧
      mid.under (h.place j.destination) = d₂.under (h.place j.destination) := by
  have hj := hjobs j (List.mem_append_right _ List.mem_cons_self)
  obtain ⟨name, hname⟩ := ho.makes j hj
  obtain ⟨d₁, hran₁, hran₂⟩ := ran_append hran
  have hkeep₁ := keepsToOutput_of_ran hran₁ hkeep
  obtain ⟨hdirect₁, -⟩ := ho.addsNoStaging_of_ran hran₁ hdirect hkeep fun i hi =>
    hjobs i (List.mem_append_left _ hi)
  cases hran₂ with
  | @cons _ d₂ _ _ _ p hrun hran₂ =>
    obtain ⟨-, hdirect₂, -, hok⟩ := run_spec ho.isPlaced ho.givesCodes ho.allowsRestoring
      ho.isStandard hname (ho.isOffWay j hj) hdirect₁ hkeep₁ hrun
    obtain ⟨rfl, hdelivers⟩ := hok p rfl
    have hkeep₂ := keepsToOutput_of_ran (.cons hrun (.nil d₂)) hkeep₁
    exact ⟨d₁, d₂, hran₁, hrun, hdelivers, ho.under_of_ran hran₂ hdirect₂ hkeep₂
      (fun i hi => hjobs i (List.mem_append_right _ (List.mem_cons_of_mem _ hi))) hj hother⟩

theorem of_ends {f : Option Failure} (ho : IsOrderly h s outputDir jobs)
    (hend : Ends h s mid rest d' f) (hdirect : h.IsDirect mid outputDir)
    (hkeep : s.KeepsToOutput h mid rest) (hrest : ∀ j ∈ rest, j ∈ jobs) :
    h.IsDirect d' outputDir ∧ AddsNoStaging h outputDir mid d' ∧
      ∀ i ∈ jobs, d'.under (h.place i.destination) = mid.under (h.place i.destination) := by
  cases hend with
  | done => exact ⟨hdirect, .refl _, fun _ _ => rfl⟩
  | failed hfail =>
    have hk := hrest _ List.mem_cons_self
    exact ⟨ho.isDirect_of_run hdirect hkeep hfail hk,
      ho.addsNoStaging_of_run hdirect hkeep hfail hk,
      fun i hi => ho.under_of_failed hdirect hkeep hfail hk hi⟩

end IsOrderly

/-! ## Programs that follow scripts -/

/-- So they write to the output that they are given, on a disk without links. -/
theorem keepsToOutput_withScripts (hcodes : h.GivesCodes) (scripts : List Script) (s : Studio)
    (hfree : d.IsLinkFree) (jobs : List Job) :
    s.KeepsToOutput (h.withScripts scripts) d jobs := by
  intro n d₁ c output hstart hlast
  have hlast' : (c.args.map Text.encode).getLast? = some (Text.encode output) := by
    rw [List.getLast?_map, hlast]
    rfl
  rcases Host.spawn_withScripts h scripts d₁ (.ofText c.program) hlast' with hsame | ⟨_, hw⟩
  · rw [hsame]
    exact .rfl
  · exact Host.isWrittenAt_of_write (isLinkFree_of_starts (hcodes.withScripts scripts)
      (Host.makesNoLinks_withScripts h scripts) hfree hstart) hw

/-! ## Batches -/

/-- **What becomes of a batch** of which some jobs are run to their ends, and the
    first of the rest fails, if there are any. -/
structure Progress (h : Host) (s : Studio) (d : Disk) (outputDir : Path) (before rest : List Job)
    (p : Performance) : Prop where
  stops : ∃ mid failure, s.Ran h d before mid ∧ Ends h s mid rest p.disk failure ∧
    p.ending = failure.elim .done .failed
  /-- No program is started behind the failure. -/
  started : ∀ n d₁ c, s.Starts h d (before ++ rest) n d₁ c → n ≤ before.length
  /-- What the last run for a destination has written is there. -/
  delivered : ∀ earlier j later, before = earlier ++ j :: later →
    (∀ i ∈ later, h.place i.destination ≠ h.place j.destination) →
      ∃ d₁ d₂, s.Ran h d earlier d₁ ∧ s.run h d₁ j = (d₂, .ok j.destination) ∧
        s.Delivers h d₁ j d₂ ∧
        p.disk.under (h.place j.destination) = d₂.under (h.place j.destination)
  preserved : ∀ i ∈ rest, (∀ j ∈ before, h.place j.destination ≠ h.place i.destination) →
    h.IsKept d p.disk i.destination
  addsNoStaging : AddsNoStaging h outputDir d p.disk

theorem isOrderly_of_plan {d₀ : Disk} {c : Config} {input : Path} {presets : List String}
    {overrides : Settings} {source : Source} (hcwd : h.IsPlaced) (hcodes : h.GivesCodes)
    (hrestore : h.AllowsRestoring) (hs : ofConfig h d₀ c = .ok s)
    (hplan : s.plan input outputDir presets overrides source = .ok jobs)
    (hpresets : ∀ p ∈ presets, '/' ∉ p.toList)
    (hway : ∀ j ∈ jobs, j.IsOffWay h outputDir) :
    IsOrderly h s outputDir jobs := by
  refine ⟨hcwd, hcodes, hrestore, ?_, fun j hj => makes_of_mem_plan hplan hpresets hj, hway⟩
  obtain ⟨r, -, rfl⟩ := map_eq_ok_iff.1 hs
  rfl

theorem disk_runJobs (h : Host) (d : Disk) (s : Studio) (jobs : List Job) :
    (Program.runJobs h d s jobs).disk = (s.runAll h d jobs).disk := by
  simp only [Program.runJobs]
  split <;> rfl

theorem ending_runJobs (h : Host) (d : Disk) (s : Studio) (jobs : List Job) :
    (Program.runJobs h d s jobs).ending = (s.runAll h d jobs).failure.elim .done .failed := by
  simp only [Program.runJobs]
  split <;> rename_i heq <;> rw [heq] <;> rfl

/-- What is at the destination of a job as before, with no link on the way to the
    directory of it, is led to as before. -/
theorem isKept_of_under (hcwd : h.IsPlaced) (hj : j.Makes outputDir name)
    (hdirect : h.IsDirect d' outputDir)
    (hlink : ∀ path, d.node? (h.place j.destination) ≠ some (.link path))
    (hunder : d'.under (h.place j.destination) = d.under (h.place j.destination)) :
    h.IsKept d d' j.destination := by
  refine ⟨?_, hunder⟩
  rw [Host.IsDirect, Host.way_of_isIn hcwd hj.isIn]
  intro v hv path
  rcases List.mem_append.1 hv with hv | hv
  · exact hdirect v hv path
  · rw [List.mem_singleton.1 hv, Disk.node?_of_under hunder]
    exact hlink path

theorem IsOrderly.progress (ho : IsOrderly h s outputDir jobs) (hdirect : h.IsDirect d outputDir)
    (hlinks : ∀ j ∈ jobs, ∀ path, d.node? (h.place j.destination) ≠ some (.link path))
    (hkeep : s.KeepsToOutput h d jobs) :
    ∃ before rest, jobs = before ++ rest ∧
      Progress h s d outputDir before rest (Program.runJobs h d s jobs) := by
  obtain ⟨before, rest, mid, rfl, hran, hend⟩ := ran_of_runAll h s d jobs
  -- Every part is a fact about the runs up to `mid`, and then one about the end from there on.
  rw [← disk_runJobs] at hend
  have hbefore : ∀ j ∈ before, j ∈ before ++ rest := fun _ => List.mem_append_left _
  have hrest : ∀ j ∈ rest, j ∈ before ++ rest := fun _ => List.mem_append_right _
  obtain ⟨hdirect', hadds⟩ := ho.addsNoStaging_of_ran hran hdirect hkeep hbefore
  obtain ⟨hdirect'', hadds', hunder'⟩ :=
    ho.of_ends hend hdirect' (keepsToOutput_of_ran hran hkeep) hrest
  refine ⟨before, rest, rfl, ?_, ?_, ?_, ?_, hadds.trans hadds'⟩
  · exact ⟨mid, _, hran, hend, ending_runJobs h d s _⟩
  · exact fun n d₁ c hstart => le_of_starts hran hend hstart
  · rintro earlier j later rfl hother
    rw [List.append_assoc, List.cons_append] at hkeep
    obtain ⟨d₁, d₂, hran₁, hrun, hdelivers, hunder⟩ :=
      ho.delivers_of_ran hran hdirect hkeep hbefore hother
    have hj := hbefore j (List.mem_append_right _ List.mem_cons_self)
    exact ⟨d₁, d₂, hran₁, hrun, hdelivers, (hunder' j hj).trans hunder⟩
  · intro i hi hother
    obtain ⟨name, hname⟩ := ho.makes i (hrest i hi)
    refine isKept_of_under ho.isPlaced hname hdirect'' (hlinks i (hrest i hi)) ?_
    exact (hunder' i (hrest i hi)).trans
      (ho.under_of_ran hran hdirect hkeep hbefore (hrest i hi) hother)

/-- **A batch publishes outputs until a job fails.** -/
theorem runJobs_publishes_until_failure {d₀ : Disk} {c : Config} {input : Path}
    {presets : List String} {overrides : Settings} {source : Source} (hcwd : h.IsPlaced)
    (hcodes : h.GivesCodes) (hrestore : h.AllowsRestoring) (hs : ofConfig h d₀ c = .ok s)
    (hplan : s.plan input outputDir presets overrides source = .ok jobs)
    (hpresets : ∀ p ∈ presets, '/' ∉ p.toList) (hkeep : s.KeepsToOutput h d jobs)
    (hway : ∀ j ∈ jobs, j.IsOffWay h outputDir) (hdirect : h.IsDirect d outputDir)
    (hlinks : ∀ j ∈ jobs, ∀ path, d.node? (h.place j.destination) ≠ some (.link path)) :
    ∃ before rest, jobs = before ++ rest ∧
      Progress h s d outputDir before rest (Program.runJobs h d s jobs) :=
  (isOrderly_of_plan hcwd hcodes hrestore hs hplan hpresets hway).progress hdirect hlinks hkeep

/-- A host with an encoder that writes its arguments to the output. -/
def clipHost : Host :=
  { Host.bare with searchPath := ["/path"] }.withScripts [⟨true, false, [], [], .code 0⟩]

theorem givesCodes_clipHost : clipHost.GivesCodes :=
  Host.givesCodes_bare

theorem keepsToOutput_clipHost (s : Studio) (hfree : d.IsLinkFree) (jobs : List Job) :
    s.KeepsToOutput clipHost d jobs :=
  keepsToOutput_withScripts (h := { Host.bare with searchPath := ["/path"] })
    Host.givesCodes_bare _ s hfree jobs

/-- What is known about the clip. -/
def clipSource : Source :=
  ⟨some 1920, some 1080, none⟩

/-- A disk with an encoder, and something where the output of a clip is to go. -/
def clipDisk (there : Node) : Disk :=
  ⟨[([Text.encode "path"], .directory),
    ([Text.encode "path", Text.encode "ffmpeg"], .program 0 []),
    ([Text.encode "clip-w768.mp4"], there)]⟩

theorem runJobs_publishes_until_failure_clip : ∃ s jobs,
    ofConfig clipHost (clipDisk (.file [])) .standard = .ok s ∧
      s.plan "clip.mov" "" ["w768", "t960"] .empty clipSource = .ok jobs ∧ jobs.length = 2 ∧
      (Program.runJobs clipHost (clipDisk (.file [])) s jobs).ending = .done ∧
      ∃ before rest, jobs = before ++ rest ∧
        Progress clipHost s (clipDisk (.file [])) "" before rest
          (Program.runJobs clipHost (clipDisk (.file [])) s jobs) := by
  obtain ⟨s, jobs, hs, hplan, hcheck⟩ := exists_plan clipHost (clipDisk (.file [])) .standard
    "clip.mov" "" ["w768", "t960"] clipSource (fun s jobs => jobs.length == 2 &&
      ((s.runAll clipHost (clipDisk (.file [])) jobs).failure.isNone &&
      jobs.all fun j => decide (clipHost.place j.destination ∉ clipHost.way "")))
    (by decide +kernel)
  simp only [Bool.and_eq_true, beq_iff_eq, Option.isNone_iff_eq_none, List.all_eq_true,
    decide_eq_true_eq] at hcheck
  obtain ⟨hlength, hdone, hway⟩ := hcheck
  have hfree : (clipDisk (.file [])).IsLinkFree := Disk.isLinkFree_of_all (by decide +kernel)
  refine ⟨s, jobs, hs, hplan, hlength, ?_, runJobs_publishes_until_failure (fun _ hn => by cases hn)
    givesCodes_clipHost (fun _ _ => rfl) hs hplan (by decide) (keepsToOutput_clipHost s hfree jobs)
    ?_ (hfree.isDirect _ _) fun j _ => hfree _⟩
  · rw [ending_runJobs, hdone]
    rfl
  · exact fun j hj => ⟨hway j hj, Or.inl fun _ _ _ => rfl⟩

/-- **A directory that the way leads through is lost**: it is backed up where an output
    is to go, and with it the ways to the output, to the backup and to the staging
    directory. -/
theorem runJobs_loses_directory_on_way : ∃ s j,
    ofConfig clipHost (clipDisk .directory) .standard = .ok s ∧
      s.plan "clip.mov" "clip-w768.mp4/.." ["w768"] .empty clipSource = .ok [j] ∧
      s.KeepsToOutput clipHost (clipDisk .directory) [j] ∧ clipHost.AllowsRenaming ∧
      (∃ e, (Program.runJobs clipHost (clipDisk .directory) s [j]).ending = .failed e) ∧
      (clipDisk .directory).node? (clipHost.place j.destination) = some .directory ∧
      (Program.runJobs clipHost (clipDisk .directory) s [j]).disk.node?
        (clipHost.place j.destination) = none ∧
      ¬ AddsNoStaging clipHost "clip-w768.mp4/.." (clipDisk .directory)
        (Program.runJobs clipHost (clipDisk .directory) s [j]).disk := by
  obtain ⟨s, jobs, hs, hplan, hcheck⟩ := exists_plan clipHost (clipDisk .directory) .standard
    "clip.mov" "clip-w768.mp4/.." ["w768"] clipSource (fun s jobs => jobs.length == 1 &&
      jobs.all fun j => (s.runAll clipHost (clipDisk .directory) [j]).failure.isSome &&
      ((clipDisk .directory).node? (clipHost.place j.destination) == some .directory &&
      ((Program.runJobs clipHost (clipDisk .directory) s [j]).disk.node?
        (clipHost.place j.destination) == none &&
      ((Program.runJobs clipHost (clipDisk .directory) s [j]).disk.node? (clipHost.place
        (Staging.directoryIn "clip-w768.mp4/.." "a1B2c3") ++ []) == some .directory &&
      (clipDisk .directory).node? (clipHost.place
        (Staging.directoryIn "clip-w768.mp4/.." "a1B2c3") ++ []) == none))))
    (by decide +kernel)
  simp only [Bool.and_eq_true, beq_iff_eq, List.length_eq_one_iff] at hcheck
  obtain ⟨⟨j, rfl⟩, hcheck⟩ := hcheck
  simp only [List.all_cons, List.all_nil, Bool.and_true, Bool.and_eq_true, beq_iff_eq,
    Option.isSome_iff_exists] at hcheck
  obtain ⟨⟨e, hfail⟩, hthere, hlost, hleft, hfree⟩ := hcheck
  refine ⟨s, j, hs, hplan, keepsToOutput_clipHost s (Disk.isLinkFree_of_all (by decide +kernel)) _,
    fun _ _ _ => rfl, ⟨e, ?_⟩, hthere, hlost, fun hadds => ?_⟩
  · rw [ending_runJobs, hfail]
    rfl
  · have hnode := hadds "a1B2c3" [] .directory (by decide) hleft
    rw [hfree] at hnode
    cases hnode

end Studio

end Transcode
