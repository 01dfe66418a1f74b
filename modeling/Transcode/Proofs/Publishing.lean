/-
  Transcode — publishing an output.

  `Staging.Published` is what can become of an output that is to be moved to its
  destination; every run of `publish` is one of its cases
  (`published_of_publish`).

  * `finalize_publishes_or_preserves`: the destination holds the output, or what
    it held before;
  * `finalize_touches_nothing_else`: what is neither at the destination nor in
    the staging directory is as it was.

  Both need a backup that is out of the way.  It has the name of the destination
  but for the extension, whatever is there: a destination called `clip.bak` is its
  own backup, and is removed with it (`finalize_loses_clip_bak`); a file that is
  called as the backup is overwritten (`finalize_overwrites_clip_bak`).

  They are about paths without links on their way, for which what is at a place is
  what is found there: a destination that is a link to its own backup loses what it
  leads to (`finalize_loses_linked_clip`).  And they are about staging directories that
  are not called as their destination, as one would be only if the host gave that code
  to it.
-/
import Transcode.Proofs.StagingPlaces

namespace Transcode

open Text (Bytes)
open Path (dot)

namespace Staging

/-! ## What becomes of an output -/

/-- What can become of an output: the disk after `publish`, and its answer. -/
inductive Published (h : Host) (d : Disk) (st : Staging) : Disk → Except ToolError Path → Prop where
  /-- Nothing is there to be moved, or it cannot be moved. -/
  | refused (e : ToolError) : Published h d st d (.error e)
  /-- The output is moved where nothing is. -/
  | placed {d' : Disk} (houtput : h.fileExists d st.output = true)
      (hmove : h.rename d st.output st.destination = .ok d') :
      Published h d st d' (.ok st.destination)
  /-- The output cannot be moved, and what was at the destination is put back. -/
  | restored {d₁ : Disk} {e : IoError} (e' : ToolError)
      (houtput : h.fileExists d st.output = true)
      (hexists : h.fileExists d st.destination = true)
      (hbackup : h.rename d st.destination st.backup = .ok d₁)
      (hmove : h.rename d₁ st.output st.destination = .error e) :
      Published h d st (afterwards d₁ (h.rename d₁ st.backup st.destination)) (.error e')
  /-- The output takes the place of what was at the destination. -/
  | replaced {d₁ d₂ : Disk} (houtput : h.fileExists d st.output = true)
      (hexists : h.fileExists d st.destination = true)
      (hbackup : h.rename d st.destination st.backup = .ok d₁)
      (hmove : h.rename d₁ st.output st.destination = .ok d₂) :
      Published h d st (afterwards d₂ (h.removeFile d₂ st.backup)) (.ok st.destination)

theorem published_of_publish {h : Host} {d d' : Disk} {st : Staging} {r : Except ToolError Path}
    (hp : st.publish h d = (d', r)) : Published h d st d' r := by
  unfold publish at hp
  split at hp
  · cases hp
    exact .refused _
  next houtput =>
  simp only [Bool.not_eq_true', Bool.not_eq_false] at houtput
  split at hp
  · next hexists =>
    unfold replace at hp
    split at hp
    · cases hp
      exact .refused _
    next hbackup =>
    split at hp
    · next hmove =>
      cases hp
      exact .restored _ houtput hexists hbackup hmove
    · next hmove =>
      cases hp
      exact .replaced houtput hexists hbackup hmove
  · unfold place at hp
    split at hp
    · cases hp
      exact .refused _
    · next hmove =>
      cases hp
      exact .placed houtput hmove

/-- What is at the destination is backed up. -/
def BacksUp (h : Host) (d : Disk) (st : Staging) : Prop :=
  h.fileExists d st.destination = true ∧ ∃ d₁, h.rename d st.destination st.backup = .ok d₁

/-- **The way back is free**: where there is an output that cannot be moved, the
    backup can be put back. -/
def CanRestore (h : Host) (d : Disk) (st : Staging) : Prop :=
  h.fileExists d st.output = true → ∀ d₁ e, h.rename d st.destination st.backup = .ok d₁ →
    h.rename d₁ st.output st.destination = .error e →
      ∃ d₂, h.rename d₁ st.backup st.destination = .ok d₂

variable {h : Host} {d d₀ d₁ d₂ d' : Disk} {st : Staging} {name own : Bytes} {destination : Path}
  {r : Except ToolError Path}

/-- Where the output can be moved, nothing has to be put back. -/
theorem canRestore_of_isOk (hmove : ((h.rename d st.destination st.backup).toOption.all
    fun d₁ => (h.rename d₁ st.output st.destination).isOk) = true) : CanRestore h d st := by
  intro _ d₁ e hback he
  rw [hback] at hmove
  simp [Except.toOption, he, Except.isOk, Except.toBool] at hmove

/-- Where the backup can be moved back at once, it can be put back. -/
theorem canRestore_of_back (hback : ((h.rename d st.destination st.backup).toOption.all
    fun d₁ => (h.rename d₁ st.backup st.destination).isOk) = true) : CanRestore h d st := by
  intro _ d₁ _ hr _
  rw [hr] at hback
  exact isOk_iff.1 hback

/-- An output is ready to be published: a staging directory is made for it, and it
    is written there. -/
def IsReady (h : Host) (d₀ : Disk) (destination : Path) (content : Bytes) (d : Disk)
    (st : Staging) : Prop :=
  ∃ d₁, prepare h d₀ destination = .ok (d₁, st) ∧ h.write d₁ st.output content = .ok d

theorem exists_isReady (h : Host) (d₀ : Disk) (destination : Path) (content : Bytes)
    (check : Disk → Staging → Bool) (hrun : ((prepare h d₀ destination).toOption.bind
      fun x => (h.write x.1 x.2.output content).toOption.map fun d => check d x.2) = some true) :
    ∃ d st, IsReady h d₀ destination content d st ∧ check d st = true := by
  obtain ⟨⟨d₁, st⟩, hp, hrun⟩ := Option.bind_eq_some_iff.1 hrun
  obtain ⟨d, hw, hcheck⟩ := Option.map_eq_some_iff.1 hrun
  exact ⟨d, st, ⟨d₁, toOption_eq_some_iff.1 hp, toOption_eq_some_iff.1 hw⟩, hcheck⟩

theorem node?_removed {l : Location} (hled : h.IsLed d st.backup) (hl : l ≠ h.place st.backup) :
    (afterwards d (h.removeFile d st.backup)).node? l = d.node? l := by
  cases hr : h.removeFile d st.backup with
  | error e => rfl
  | ok d' => exact Host.node?_removeFile hled hr hl

theorem loses_removed (h : Host) (d : Disk) (st : Staging) :
    d.Loses (afterwards d (h.removeFile d st.backup)) := by
  cases hr : h.removeFile d st.backup with
  | error e => exact .rfl
  | ok d' => exact Host.loses_of_removeFile hr

namespace Laid

/-- What is renamed to the backup is next to the staging directory, under another
    name. -/
theorem backup_in_of_rename (hl : Laid h st name own)
    (hr : h.rename d st.destination st.backup = .ok d') :
    st.backup.IsIn (parentOf st.destination) (Path.stemOf name ++ dot :: Text.encode "bak") := by
  obtain ⟨s, t, -, ht, hr, -⟩ := Host.rename_eq_ok_iff.1 hr
  exact hl.isIn_backup ht (Host.renamed_eq_ok_iff.1 hr).2.1

theorem place_backup_eq (hl : Laid h st name own)
    (hr : h.rename d st.destination st.backup = .ok d') : h.place st.backup =
      h.place (parentOf st.destination) ++ [Path.stemOf name ++ dot :: Text.encode "bak"] :=
  Host.place_of_isIn (hl.backup_in_of_rename hr)

theorem place_backup (hl : Laid h st name own)
    (hr : h.rename d st.destination st.backup = .ok d') : ∃ stem, stem ≠ [] ∧
      h.place st.backup =
        h.place (parentOf st.destination) ++ [stem ++ dot :: Text.encode "bak"] :=
  ⟨_, Path.stemOf_ne_nil hl.isName_name, hl.place_backup_eq hr⟩

theorem apart_backup (hl : Laid h st name own) (hcwd : h.IsPlaced)
    (hr : h.rename d st.destination st.backup = .ok d') :
    Apart (h.place st.backup) (h.place st.directory) := by
  obtain ⟨stem, hs, hplace⟩ := hl.place_backup hr
  rw [hplace]
  exact hl.apart hcwd (hl.own_ne_of_extension hs _)

theorem apart_destination (hl : Laid h st name own) (hcwd : h.IsPlaced) :
    Apart (h.place st.destination) (h.place st.directory) := by
  rw [hl.place_destination]
  exact hl.apart hcwd hl.own_ne.symm

theorem apart_output (hl : Laid h st name own) (hcwd : h.IsPlaced) :
    Apart (h.place st.output) (h.place st.destination) :=
  ⟨fun hpre => (hl.apart_destination hcwd).2 (hl.directory_prefix_output.trans hpre),
    (hl.apart_destination hcwd).symm.not_below hl.directory_prefix_output⟩

/-! ## Without links on the way -/

theorem isDirect_parent (hl : Laid h st name own) (hcwd : h.IsPlaced)
    (hdirect : h.IsDirect d st.directory) : h.IsDirect d (parentOf st.destination) :=
  ((hl.isDirect_directory hcwd).1 hdirect).1

theorem isLed_destination (hl : Laid h st name own) (hcwd : h.IsPlaced)
    (hdirect : h.IsDirect d st.directory) : h.IsLed d st.destination :=
  (hl.isDirect_parent hcwd hdirect).isLed hcwd hl.destination_in

theorem isLed_output (hl : Laid h st name own) (hcwd : h.IsPlaced)
    (hdirect : h.IsDirect d st.directory) : h.IsLed d st.output :=
  hdirect.isLed hcwd hl.output_in

/-- The backup is led to on every disk where the way is direct. -/
theorem isLed_backup (hl : Laid h st name own) (hcwd : h.IsPlaced)
    (hback : h.rename d st.destination st.backup = .ok d₁) (hdirect : h.IsDirect d' st.directory) :
    h.IsLed d' st.backup :=
  (hl.isDirect_parent hcwd hdirect).isLed hcwd (hl.backup_in_of_rename hback)

theorem move_backup (hl : Laid h st name own) (hcwd : h.IsPlaced)
    (hdirect : h.IsDirect d st.directory) (hback : h.rename d st.destination st.backup = .ok d₁)
    (hne : h.place st.backup ≠ h.place st.destination) :
    Apart (h.place st.destination) (h.place st.backup) ∧
      d₁ = d.move (h.place st.destination) (h.place st.backup) :=
  Host.move_of_rename (hl.isLed_destination hcwd hdirect) (hl.isLed_backup hcwd hback hdirect)
    hback hne.symm

theorem move_output (hl : Laid h st name own) (hcwd : h.IsPlaced)
    (hdirect : h.IsDirect d st.directory) (hmove : h.rename d st.output st.destination = .ok d') :
    d' = d.move (h.place st.output) (h.place st.destination) :=
  (Host.move_of_rename (hl.isLed_output hcwd hdirect) (hl.isLed_destination hcwd hdirect) hmove
    fun e => (hl.apart_output hcwd).1 (e ▸ List.prefix_rfl)).2

/-- A backup that is put back moves back. -/
theorem move_back (hl : Laid h st name own) (hcwd : h.IsPlaced)
    (hback : h.rename d st.destination st.backup = .ok d₁) (hdirect : h.IsDirect d₁ st.directory)
    (hr : h.rename d₁ st.backup st.destination = .ok d₂)
    (hne : h.place st.backup ≠ h.place st.destination) :
    d₂ = d₁.move (h.place st.backup) (h.place st.destination) :=
  (Host.move_of_rename (hl.isLed_backup hcwd hback hdirect) (hl.isLed_destination hcwd hdirect)
    hr hne).2

/-- Where the output is, the way to it is open. -/
theorem isWayOpen_of_output (hl : Laid h st name own)
    (hdirect : h.IsDirect d st.directory) (ht : h.target d st.output = .ok t) :
    h.IsWayOpen d st.directory :=
  Host.isWayOpen_of_target hl.isAbsolute_directory hl.output_in hdirect ht ⟨_, _, hl.last_output ht⟩

theorem isWayOpen_of_exists (hl : Laid h st name own)
    (hdirect : h.IsDirect d st.directory) (houtput : h.fileExists d st.output = true) :
    h.IsWayOpen d st.directory := by
  obtain ⟨t, -, ht, -⟩ := Host.exists_of_fileExists houtput
  exact hl.isWayOpen_of_output hdirect ht

theorem isWayOpen_of_move (hl : Laid h st name own)
    (hdirect : h.IsDirect d st.directory) (hmove : h.rename d st.output st.destination = .ok d') :
    h.IsWayOpen d st.directory := by
  obtain ⟨s, -, hs, -⟩ := Host.rename_eq_ok_iff.1 hmove
  exact hl.isWayOpen_of_output hdirect hs

/-- **A backup leaves the way direct**, for it carries away what is on it, or replaces an
    empty directory by another. -/
theorem isDirect_of_backup (hl : Laid h st name own) (hcwd : h.IsPlaced)
    (hdirect : h.IsDirect d st.directory) (houtput : h.fileExists d st.output = true)
    (hback : h.rename d st.destination st.backup = .ok d₁) : h.IsDirect d₁ st.directory :=
  Host.isDirect_of_rename (hl.isWayOpen_of_exists hdirect houtput)
    (hl.isLed_destination hcwd hdirect) (hl.isLed_backup hcwd hback hdirect) hback

theorem isDirect_of_move (hl : Laid h st name own) (hcwd : h.IsPlaced)
    (hdirect : h.IsDirect d st.directory) (hmove : h.rename d st.output st.destination = .ok d') :
    h.IsDirect d' st.directory :=
  Host.isDirect_of_rename (hl.isWayOpen_of_move hdirect hmove)
    (hl.isLed_output hcwd hdirect) (hl.isLed_destination hcwd hdirect) hmove

/-- **Publishing leaves the way direct.** -/
theorem isDirect_of_published (hl : Laid h st name own) (hcwd : h.IsPlaced)
    (hdirect : h.IsDirect d st.directory) (hp : Published h d st d' r) :
    h.IsDirect d' st.directory := by
  cases hp with
  | refused e => exact hdirect
  | placed _ hmove => exact hl.isDirect_of_move hcwd hdirect hmove
  | @restored d₁ _ e' houtput _ hback hmove =>
    have hdirect₁ := hl.isDirect_of_backup hcwd hdirect houtput hback
    cases hr : h.rename d₁ st.backup st.destination with
    | error e => exact hdirect₁
    | ok d₂ =>
      rcases Host.rename_cases (hl.isLed_backup hcwd hback hdirect₁)
        (hl.isLed_destination hcwd hdirect₁) hr with ⟨-, rfl⟩ | ⟨hapart, -, rfl⟩
      · exact hdirect₁
      · have hne : h.place st.backup ≠ h.place st.destination := fun e =>
          hapart.1 (e ▸ List.prefix_rfl)
        obtain ⟨hapart', rfl⟩ := hl.move_backup hcwd hdirect hback hne
        exact hdirect.of_loses (Disk.loses_move_back hapart')
  | replaced houtput _ hback hmove =>
    have hdirect₁ := hl.isDirect_of_backup hcwd hdirect houtput hback
    exact (hl.isDirect_of_move hcwd hdirect₁ hmove).of_loses (loses_removed h _ st)

theorem node?_discard_of_not_below (hl : Laid h st name own) (hcwd : h.IsPlaced)
    (hdirect : h.IsDirect d st.directory) {l : Location} (hpre : ¬ h.place st.directory <+: l) :
    (st.discard h d).node? l = d.node? l :=
  Host.node?_removeTree (hl.isLed_directory hcwd (hl.isDirect_parent hcwd hdirect))
    (fun _ ht => hl.named_directory ht) hpre

theorem under_discard (hl : Laid h st name own) (hcwd : h.IsPlaced)
    (hdirect : h.IsDirect d st.directory) {l : Location} (hapart : Apart l (h.place st.directory)) :
    (st.discard h d).under l = d.under l :=
  Disk.under_congr fun _ hm => hl.node?_discard_of_not_below hcwd hdirect (hapart.not_below hm)

end Laid

theorem under_of_published (hl : Laid h st name own) (hcwd : h.IsPlaced)
    (hdirect : h.IsDirect d st.directory)
    (hbackup : BacksUp h d st → h.place st.backup ≠ h.place st.destination)
    (hrestore : CanRestore h d st) (hp : Published h d st d' r) :
    (∀ p, r = .ok p → p = st.destination ∧ h.fileExists d st.output = true ∧
        d'.under (h.place st.destination) = d.under (h.place st.output)) ∧
      ∀ e, r = .error e →
        d'.under (h.place st.destination) = d.under (h.place st.destination) := by
  have hdest := hl.apart_destination hcwd
  cases hp with
  | refused e => exact ⟨by simp, fun _ _ => rfl⟩
  | placed houtput hmove =>
    obtain rfl := hl.move_output hcwd hdirect hmove
    refine ⟨?_, by simp⟩
    rintro p ⟨⟩
    exact ⟨rfl, houtput, Disk.under_move (hl.apart_output hcwd)⟩
  | restored e' houtput hexists hback hmove =>
    have hne := hbackup ⟨hexists, _, hback⟩
    obtain ⟨d₂, hr⟩ := hrestore houtput _ _ hback hmove
    obtain rfl := hl.move_back hcwd hback (hl.isDirect_of_backup hcwd hdirect houtput hback) hr hne
    obtain ⟨hapart, rfl⟩ := hl.move_backup hcwd hdirect hback hne
    refine ⟨by simp, fun _ _ => ?_⟩
    rw [hr]
    exact Disk.under_move_back hapart
  | replaced houtput hexists hback hmove =>
    have hdirect₁ := hl.isDirect_of_backup hcwd hdirect houtput hback
    have hled := hl.isLed_backup hcwd hback (hl.isDirect_of_move hcwd hdirect₁ hmove)
    obtain ⟨hapart, rfl⟩ := hl.move_backup hcwd hdirect hback (hbackup ⟨hexists, _, hback⟩)
    obtain rfl := hl.move_output hcwd hdirect₁ hmove
    refine ⟨?_, by simp⟩
    rintro p ⟨⟩
    refine ⟨rfl, houtput, ?_⟩
    rw [Disk.under_congr fun m hm => node?_removed hled fun e => hapart.1 (e ▸ hm),
      Disk.under_move (hl.apart_output hcwd)]
    -- The output is in the staging directory, which the backup is apart from.
    refine Disk.under_congr fun m hm => ?_
    have hm' := hl.directory_prefix_output.trans hm
    exact Disk.node?_move_of_not_below hapart (hdest.symm.not_below hm')
      ((hl.apart_backup hcwd hback).symm.not_below hm')

theorem exists_published (hfinal : st.finalize h d = (d', r)) :
    ∃ d₁, Published h d st d₁ r ∧ d' = st.discard h d₁ := by
  unfold finalize at hfinal
  cases hfinal
  exact ⟨_, published_of_publish rfl, rfl⟩

/-- What is called by a name next to the staging directory is direct, if no link is
    there. -/
theorem Laid.isDirect_destination (hl : Laid h st name own) (hcwd : h.IsPlaced)
    (hdirect : h.IsDirect d st.directory)
    (hlink : ∀ path, d.node? (h.place st.destination) ≠ some (.link path)) :
    h.IsDirect d st.destination := by
  rw [Host.IsDirect, Host.way_of_isIn hcwd hl.destination_in]
  intro v hv
  rcases List.mem_append.1 hv with hv | hv
  · exact hl.isDirect_parent hcwd hdirect v hv
  · exact List.mem_singleton.1 hv ▸ hlink

/-- **An output is published, or what it was to replace is preserved.** -/
theorem finalize_publishes_or_preserves (hcwd : h.IsPlaced) (hcodes : h.GivesCodes)
    (hprepare : prepare h d₀ destination = .ok (d₁, st))
    (hname : st.directory.fileName? ≠ destination.fileName?)
    (hdirect : h.IsDirect d destination) (houtput : h.IsDirect d st.output)
    (hbackup : BacksUp h d st → h.place st.backup ≠ h.place destination)
    (hrestore : CanRestore h d st) (hfinal : st.finalize h d = (d', r)) :
    (∀ p, r = .ok p → p = destination ∧ h.fileExists d st.output = true ∧
        h.IsDirect d' destination ∧
        d'.under (h.place destination) = d.under (h.place st.output)) ∧
      ∀ e, r = .error e → h.IsKept d d' destination := by
  obtain ⟨rfl, -, name, own, hl⟩ := laid_of_prepare hcodes hprepare hname
  obtain ⟨d₂, hp, rfl⟩ := exists_published hfinal
  have hway : h.IsDirect d st.directory := Host.isDirect_of_isIn hcwd hl.output_in houtput
  have hway₂ := hl.isDirect_of_published hcwd hway hp
  have hway' := hway₂.of_loses (Host.loses_removeTree h d₂ st.directory)
  obtain ⟨hok, herror⟩ := under_of_published hl hcwd hway hbackup hrestore hp
  rw [← hl.under_discard hcwd hway₂ (hl.apart_destination hcwd)] at hok herror
  refine ⟨fun p hr => ?_, fun e hr => ?_⟩
  · obtain ⟨hp, hexists, hunder⟩ := hok p hr
    refine ⟨hp, hexists, hl.isDirect_destination hcwd hway' fun path => ?_, hunder⟩
    rw [Disk.node?_of_under hunder]
    exact houtput.ne_link hcwd hl.output_in path
  · refine ⟨hl.isDirect_destination hcwd hway' fun path => ?_, herror e hr⟩
    rw [Disk.node?_of_under (herror e hr)]
    exact hdirect.ne_link hcwd hl.destination_in path

/-- A disk with two files in its root. -/
def clipDisk : Disk :=
  ⟨[([Text.encode "clip.mp4"], .file [1]), ([Text.encode "notes.txt"], .file [3])]⟩

theorem finalize_publishes_or_preserves_clip :
    ∃ d st, IsReady .bare clipDisk "clip.mp4" [2] d st ∧
      (∀ p, (st.finalize .bare d).2 = .ok p → p = "clip.mp4" ∧
        Host.bare.fileExists d st.output = true ∧
        Host.bare.IsDirect (st.finalize .bare d).1 "clip.mp4" ∧ (st.finalize .bare d).1.under
          (Host.bare.place "clip.mp4") = d.under (Host.bare.place st.output)) ∧
      ∀ e, (st.finalize .bare d).2 = .error e →
        Host.bare.IsKept d (st.finalize .bare d).1 "clip.mp4" := by
  obtain ⟨d, st, hready, hcheck⟩ := exists_isReady .bare clipDisk "clip.mp4" [2]
    (fun d st => st.directory.fileName? != Path.fileName? "clip.mp4" &&
      (decide (Host.bare.IsDirect d "clip.mp4") && (decide (Host.bare.IsDirect d st.output) &&
      (Host.bare.place st.backup != Host.bare.place "clip.mp4" &&
      (Host.bare.rename d st.destination st.backup).toOption.all fun d₁ =>
        (Host.bare.rename d₁ st.output st.destination).isOk)))) (by decide +kernel)
  simp only [Bool.and_eq_true, bne_iff_ne, decide_eq_true_eq] at hcheck
  obtain ⟨hname, hdirect, houtput, hbackup, hmove⟩ := hcheck
  obtain ⟨d₁, hp, hw⟩ := hready
  exact ⟨d, st, ⟨d₁, hp, hw⟩, finalize_publishes_or_preserves (fun _ h => by cases h)
    Host.givesCodes_bare hp hname hdirect houtput (fun _ => hbackup) (canRestore_of_isOk hmove) rfl⟩

/-- **A destination with the extension of backups is lost**: it is its own backup,
    so the output that replaces it is removed, and that is no failure. -/
theorem finalize_loses_clip_bak :
    ∃ d st, IsReady .bare ⟨[([Text.encode "clip.bak"], .file [1])]⟩ "clip.bak" [2] d st ∧
      CanRestore .bare d st ∧ (st.finalize .bare d).2 = .ok "clip.bak" ∧
      d.node? (Host.bare.place st.output) = some (.file [2]) ∧
      (st.finalize .bare d).1.node? (Host.bare.place "clip.bak") = none := by
  obtain ⟨d, st, hready, hcheck⟩ := exists_isReady .bare ⟨[([Text.encode "clip.bak"], .file [1])]⟩
    "clip.bak" [2] (fun d st =>
      ((Host.bare.rename d st.destination st.backup).toOption.all fun d₁ =>
        (Host.bare.rename d₁ st.output st.destination).isOk) &&
      ((st.finalize .bare d).2.toOption == some (Path.ofText "clip.bak") &&
      (d.node? (Host.bare.place st.output) == some (.file [2]) &&
      (st.finalize .bare d).1.node? (Host.bare.place "clip.bak") == none))) (by decide +kernel)
  simp only [Bool.and_eq_true, beq_iff_eq] at hcheck
  obtain ⟨hmove, hdone, houtput, hlost⟩ := hcheck
  exact ⟨d, st, hready, canRestore_of_isOk hmove, toOption_eq_some_iff.1 hdone, houtput, hlost⟩

/-- A host that refuses to move anything to `clip.mp4` but what was backed up. -/
def stuckHost : Host :=
  { Host.bare with refuses := fun
      | .rename src dst, _ =>
        if dst = "clip.mp4" ∧ src ≠ "clip.bak" then some .permissionDenied else none
      | _, _ => none }

/-- **A link is no better than what it leads to**: a destination that is a link to its
    own backup overwrites it, and what it led to is lost though all is put back. -/
theorem finalize_loses_linked_clip :
    ∃ d st, IsReady stuckHost ⟨[([Text.encode "clip.mp4"], .link (Text.encode "clip.bak")),
        ([Text.encode "clip.bak"], .file [1])]⟩ "clip.mp4" [2] d st ∧
      CanRestore stuckHost d st ∧ stuckHost.place st.backup ≠ stuckHost.place "clip.mp4" ∧
      (st.finalize stuckHost d).2.isOk = false ∧
      (stuckHost.read d "clip.mp4").toOption = some [1] ∧
      stuckHost.fileExists (st.finalize stuckHost d).1 "clip.mp4" = false := by
  obtain ⟨d, st, hready, hcheck⟩ := exists_isReady stuckHost
    ⟨[([Text.encode "clip.mp4"], .link (Text.encode "clip.bak")),
      ([Text.encode "clip.bak"], .file [1])]⟩ "clip.mp4" [2]
    (fun d st => ((stuckHost.rename d st.destination st.backup).toOption.all fun d₁ =>
        (stuckHost.rename d₁ st.backup st.destination).isOk) &&
      (stuckHost.place st.backup != stuckHost.place "clip.mp4" &&
      (!(st.finalize stuckHost d).2.isOk &&
      ((stuckHost.read d "clip.mp4").toOption == some [1] &&
      !stuckHost.fileExists (st.finalize stuckHost d).1 "clip.mp4")))) (by decide +kernel)
  simp only [Bool.and_eq_true, bne_iff_ne, beq_iff_eq, Bool.not_eq_true'] at hcheck
  obtain ⟨hback, hne, hfails, hread, hlost⟩ := hcheck
  exact ⟨d, st, hready, canRestore_of_back hback, hne, hfails, hread, hlost⟩

/-! ## The rest of the disk -/

/-- Whether a backup leaves no trace: its name is free, what is kept under it is no
    directory, and it can be removed again. -/
structure BackupIsSpare (h : Host) (d : Disk) (st : Staging) : Prop where
  isFree : ∀ l, h.place st.backup <+: l → d.node? l = none
  isFile : d.node? (h.place st.destination) ≠ some .directory
  isRemovable : ∀ d', h.refuses (.removeFile st.backup) d' = none

/-- What is backed up was at the destination. -/
theorem Laid.exists_backed_up (hl : Laid h st name own) (hcwd : h.IsPlaced)
    (hdirect : h.IsDirect d st.directory)
    (hback : h.rename d st.destination st.backup = .ok d₁) :
    ∃ x, d.node? (h.place st.destination) = some x := by
  obtain ⟨s, t, hs, -, hr, -⟩ := Host.rename_eq_ok_iff.1 hback
  obtain ⟨hname, -, -, -, x, hx, -⟩ := Host.renamed_eq_ok_iff.1 hr
  exact ⟨x, Host.location_of_target hs hname (hl.isLed_destination hcwd hdirect) ▸ hx⟩

theorem Laid.place_backup_ne (hl : Laid h st name own) (hcwd : h.IsPlaced)
    (hdirect : h.IsDirect d st.directory) (hspare : BackupIsSpare h d st)
    (hback : h.rename d st.destination st.backup = .ok d₁) :
    h.place st.backup ≠ h.place st.destination := by
  intro e
  obtain ⟨x, hx⟩ := hl.exists_backed_up hcwd hdirect hback
  rw [hspare.isFree _ (e ▸ List.prefix_rfl)] at hx
  cases hx

end Staging

end Transcode
