/-
  Transcode — publishing while the way is open.

  Where the way to a destination does not lead through the destination itself, it
  is open still when the destination has been backed up (`isWayOpen_of_backup`).
  So the backup can be put back (`rename_backup`), and the staging directory stays
  in use (`isInUse_of_published`) until nothing is left of it (`node?_discard`).

  A backup that is put back may have taken the place of an empty directory, which
  is gone then.  That one is not on the way either, or else no output is refused
  that could be moved, and no backup is put back (`move_of_backup`).
-/
import Transcode.Proofs.Publishing

namespace Transcode

open Text (Bytes)
open Path (IsName dot)

namespace Host

/-- Whether no renaming is refused that the state of the disk allows. -/
def AllowsRenaming (h : Host) : Prop :=
  ∀ src dst d, h.refuses (.rename src dst) d = none

/-- Whether backups can be renamed to what they are backups of. -/
def AllowsRestoring (h : Host) : Prop :=
  ∀ p d, h.refuses (.rename (p.withExtension "bak") p) d = none

end Host

namespace Staging

/-- A staging directory for a video, whose destination is not on the way to
    itself; nor is the backup of it, where renaming may be refused. -/
structure Unobstructed (h : Host) (st : Staging) (outputDir : Path) (name own : Bytes) : Prop
    extends Laid h st name own where
  made : ∃ d₀ d₁, h.IsDirect d₀ (parentOf st.destination) ∧
    h.makeDirectory d₀ st.directory = .ok d₁
  destination_eq : st.destination = outputDir.join ⟨name⟩
  name_eq : ∃ stem, stem ≠ [] ∧ name = stem ++ dot :: Text.encode "mp4"
  notOnWay : h.place st.destination ∉ h.way (parentOf st.destination)
  backup_notOnWay : h.AllowsRenaming ∨ h.place st.backup ∉ h.way (parentOf st.destination)

/-- A staging directory is there, and the way to its neighbours is open. -/
structure IsInUse (h : Host) (d : Disk) (st : Staging) : Prop where
  isWayOpen : h.IsWayOpen d (parentOf st.destination)
  isDirectory : d.node? (h.place st.directory) = some .directory

variable {h : Host} {d d' d₁ d₂ : Disk} {st : Staging} {name own : Bytes} {outputDir : Path}
  {r : Except ToolError Path}

theorem video_ne_backup (stem stem' : Bytes) :
    stem ++ dot :: Text.encode "mp4" ≠ stem' ++ dot :: Text.encode "bak" := by
  intro e
  have hmp4 : (dot :: Text.encode "mp4").getLast? = some 0x34 := by decide
  have hbak : (dot :: Text.encode "bak").getLast? = some 0x6B := by decide
  have hlast := congrArg List.getLast? e
  rw [List.getLast?_append, List.getLast?_append, hmp4, hbak] at hlast
  exact absurd hlast (by simp)

namespace Unobstructed

theorem isDirect (hu : Unobstructed h st outputDir name own) (hcwd : h.IsPlaced)
    (huse : IsInUse h d st) : h.IsDirect d st.directory :=
  ((hu.toLaid.isWayOpen_directory hcwd).2 ⟨huse.isWayOpen, huse.isDirectory⟩).isDirect

theorem not_on_way (hu : Unobstructed h st outputDir name own) (hcwd : h.IsPlaced) {v : Location}
    (hv : v ∈ h.way (parentOf st.destination)) : ¬ h.place st.directory <+: v := by
  obtain ⟨d₀, d₁, hdirect, hm⟩ := hu.made
  exact (hu.toLaid.new_of_makeDirectory hcwd hdirect hm).2.2.2 v hv

theorem place_backup_ne (hu : Unobstructed h st outputDir name own)
    (hback : h.rename d st.destination st.backup = .ok d₁) :
    h.place st.backup ≠ h.place st.destination := by
  obtain ⟨stem, -, hplace⟩ := hu.toLaid.place_backup hback
  obtain ⟨stem', -, hname⟩ := hu.name_eq
  rw [hplace, hu.toLaid.place_destination, hname]
  exact fun e => video_ne_backup stem' stem (List.cons.inj (List.append_cancel_left e)).1.symm

/-- The way to the neighbours of a destination that is not on it does not lead below the
    destination either. -/
theorem not_below_destination (hu : Unobstructed h st outputDir name own) {v : Location}
    (hv : v ∈ h.way (parentOf st.destination)) : ¬ h.place st.destination <+: v := by
  refine fun hpre => hu.notOnWay (Host.mem_way_of_above hv hpre ?_)
  simp [hu.toLaid.place_destination]

/-- **A backup leaves the way open**. -/
theorem isWayOpen_of_backup (hu : Unobstructed h st outputDir name own) (hcwd : h.IsPlaced)
    (huse : IsInUse h d st) (hback : h.rename d st.destination st.backup = .ok d₁) :
    h.IsWayOpen d₁ (parentOf st.destination) :=
  Host.isWayOpen_of_rename huse.isWayOpen
    (hu.toLaid.isLed_destination hcwd (hu.isDirect hcwd huse))
    (hu.toLaid.isLed_backup hcwd hback (hu.isDirect hcwd huse)) hback
    fun _ hv => hu.not_below_destination hv

/-- So the staging directory stays in use. -/
theorem isInUse_of_backup (hu : Unobstructed h st outputDir name own) (hcwd : h.IsPlaced)
    (huse : IsInUse h d st) (hback : h.rename d st.destination st.backup = .ok d₁) :
    IsInUse h d₁ st := by
  refine ⟨hu.isWayOpen_of_backup hcwd huse hback, ?_⟩
  obtain ⟨hapart, rfl⟩ := hu.toLaid.move_backup hcwd (hu.isDirect hcwd huse) hback
    (hu.place_backup_ne hback)
  rw [Disk.node?_move_of_not_below hapart (hu.toLaid.apart_destination hcwd).1
    (hu.toLaid.apart_backup hcwd hback).1, huse.isDirectory]

/-- Moving the output leaves the way open, and the staging directory in use. -/
theorem isInUse_of_move (hu : Unobstructed h st outputDir name own) (hcwd : h.IsPlaced)
    (huse : IsInUse h d st) (hmove : h.rename d st.output st.destination = .ok d') :
    IsInUse h d' st := by
  have hl := hu.toLaid
  have hdirect := hu.isDirect hcwd huse
  refine ⟨Host.isWayOpen_of_rename huse.isWayOpen (hl.isLed_output hcwd hdirect)
    (hl.isLed_destination hcwd hdirect) hmove fun v hv hpre => ?_, ?_⟩
  · exact hu.not_on_way hcwd hv (hl.directory_prefix_output.trans hpre)
  · obtain rfl := hl.move_output hcwd hdirect hmove
    rw [Disk.node?_move_of_not_below (hl.apart_output hcwd) ?_ (hl.apart_destination hcwd).1,
      huse.isDirectory]
    rw [hl.place_output]
    exact fun hpre => absurd hpre.length_le (by simp)

/-- **The output can be moved** to where a backup was taken from. -/
theorem move_of_backup (hu : Unobstructed h st outputDir name own) (hcwd : h.IsPlaced)
    (hrename : h.AllowsRenaming) (huse : IsInUse h d st)
    (houtput : h.fileExists d st.output = true)
    (hback : h.rename d st.destination st.backup = .ok d₁) :
    ∃ d₂, h.rename d₁ st.output st.destination = .ok d₂ := by
  have hl := hu.toLaid
  have hdirect := hu.isDirect hcwd huse
  have huse₁ := hu.isInUse_of_backup hcwd huse hback
  obtain ⟨hapart, rfl⟩ := hl.move_backup hcwd hdirect hback (hu.place_backup_ne hback)
  -- Both paths lead where they led: the way is open, and the staging directory is there.
  obtain ⟨o, x, ho, hlong, hnode⟩ := Host.exists_of_fileExists houtput
  have holast := hl.last_output ho
  have ho' := Host.target_of_isWayOpen hcwd hl.output_in ho ⟨_, _, holast⟩
    (hl.isLed_output hcwd hdirect)
    ((hl.isWayOpen_directory hcwd).2 ⟨huse₁.isWayOpen, huse₁.isDirectory⟩)
  obtain ⟨s, t, hs, -, hr, -⟩ := Host.rename_eq_ok_iff.1 hback
  obtain ⟨hsname, -, hslong, -⟩ := Host.renamed_eq_ok_iff.1 hr
  have hslast : s.last = .name name false := by
    rw [Host.target, hu.destination_eq] at hs
    exact Disk.last_of_target_join hl.isName_name hs
  have hs' := Host.target_of_isWayOpen hcwd hl.destination_in hs hsname
    (hl.isLed_destination hcwd hdirect) huse₁.isWayOpen
  have hoplace := Host.location_of_target ho ⟨_, _, holast⟩ (hl.isLed_output hcwd hdirect)
  have hsplace := Host.location_of_target hs hsname (hl.isLed_destination hcwd hdirect)
  refine ⟨_, Host.rename_eq_ok_iff.2 ⟨o, s, ho', hs', Host.renamed_eq_ok_iff.2
    ⟨⟨_, _, holast⟩, hsname, hlong, hslong, x, ?_, Or.inr ⟨?_, ?_⟩, Or.inr ⟨?_, ?_, rfl⟩⟩,
      hrename _ _ _⟩⟩
  · rw [Disk.node?_move_of_not_below hapart, hnode]
    · rw [hoplace]
      exact (hl.apart_destination hcwd).symm.not_below hl.directory_prefix_output
    · rw [hoplace]
      exact (hl.apart_backup hcwd hback).symm.not_below hl.directory_prefix_output
  · rw [holast]
    rfl
  · rw [hslast]
    rfl
  · rw [hoplace, hsplace]
    exact hl.apart_output hcwd
  · rw [hsplace, Host.mayReplace, Disk.node?_move_source hapart List.prefix_rfl]

/-- **A backup can be put back** where it was taken from. -/
theorem rename_backup (hu : Unobstructed h st outputDir name own) (hcwd : h.IsPlaced)
    (hrestore : h.AllowsRestoring) (huse : IsInUse h d st)
    (hback : h.rename d st.destination st.backup = .ok d₁) :
    h.rename d₁ st.backup st.destination =
      .ok (d₁.move (h.place st.backup) (h.place st.destination)) := by
  have hl := hu.toLaid
  have hdirect := hu.isDirect hcwd huse
  have hopen := hu.isWayOpen_of_backup hcwd huse hback
  have hled := hl.isLed_destination hcwd hdirect
  have hled' := hl.isLed_backup hcwd hback hdirect
  obtain ⟨hapart, rfl⟩ := hl.move_backup hcwd hdirect hback (hu.place_backup_ne hback)
  obtain ⟨s, t, hs, ht, hr, -⟩ := Host.rename_eq_ok_iff.1 hback
  obtain ⟨hsname, htname, hslong, htlong, x, hx, hdemand, -⟩ := Host.renamed_eq_ok_iff.1 hr
  have hs' := Host.target_of_isWayOpen hcwd hl.destination_in hs hsname hled hopen
  have ht' := Host.target_of_isWayOpen hcwd (hl.backup_in_of_rename hback) ht htname hled' hopen
  rw [Host.location_of_target hs hsname hled] at hx
  refine Host.rename_eq_ok_iff.2 ⟨t, s, ht', hs', Host.renamed_eq_ok_iff.2
    ⟨htname, hsname, htlong, hslong, x, ?_, hdemand.imp_right And.symm, Or.inr ?_⟩, hrestore _ _⟩
  · rw [Host.location_of_target ht htname hled', Disk.node?_move_target hapart, hx]
  · rw [Host.location_of_target hs hsname hled, Host.location_of_target ht htname hled']
    refine ⟨hapart.symm, ?_, rfl⟩
    rw [Host.mayReplace, Disk.node?_move_source hapart List.prefix_rfl]

theorem canRestore (hu : Unobstructed h st outputDir name own) (hcwd : h.IsPlaced)
    (hrestore : h.AllowsRestoring) (huse : IsInUse h d st) : CanRestore h d st := by
  intro _ d₁ e hback _
  exact ⟨_, hu.rename_backup hcwd hrestore huse hback⟩

/-- What is neither at the destination nor in the staging directory nor called as a
    backup stays as it is. -/
theorem node?_of_published (hu : Unobstructed h st outputDir name own) (hcwd : h.IsPlaced)
    (hrestore : h.AllowsRestoring) (huse : IsInUse h d st) (hp : Published h d st d' r)
    {l : Location} (hdest : ¬ h.place st.destination <+: l) (hout : ¬ h.place st.output <+: l)
    (hback : ∀ stem, stem ≠ [] → ¬ h.place (parentOf st.destination) ++
      [stem ++ dot :: Text.encode "bak"] <+: l) : d'.node? l = d.node? l := by
  have hl := hu.toLaid
  have hback' : ∀ {d₁}, h.rename d st.destination st.backup = .ok d₁ →
      ¬ h.place st.backup <+: l := by
    intro d₁ hb
    obtain ⟨stem, hs, hplace⟩ := hl.place_backup hb
    exact hplace ▸ hback stem hs
  have hdirect := hu.isDirect hcwd huse
  cases hp with
  | refused e => rfl
  | placed _ hmove =>
    obtain rfl := hl.move_output hcwd hdirect hmove
    exact Disk.node?_move_of_not_below (hl.apart_output hcwd) hout hdest
  | restored e' _ _ hb _ =>
    rw [hu.rename_backup hcwd hrestore huse hb, afterwards]
    obtain ⟨hapart, rfl⟩ := hl.move_backup hcwd hdirect hb (hu.place_backup_ne hb)
    have hb' := hback' hb
    rw [Disk.node?_move_of_not_below hapart.symm hb' hdest,
      Disk.node?_move_of_not_below hapart hdest hb']
  | replaced _ _ hb hmove =>
    have hdirect₁ := hu.isDirect hcwd (hu.isInUse_of_backup hcwd huse hb)
    have hled := hl.isLed_backup hcwd hb (hl.isDirect_of_move hcwd hdirect₁ hmove)
    obtain ⟨hapart, rfl⟩ := hl.move_backup hcwd hdirect hb (hu.place_backup_ne hb)
    obtain rfl := hl.move_output hcwd hdirect₁ hmove
    have hb' := hback' hb
    rw [node?_removed hled fun e => hb' (e ▸ List.prefix_rfl),
      Disk.node?_move_of_not_below (hl.apart_output hcwd) hout hdest,
      Disk.node?_move_of_not_below hapart hdest hb']

/-- **The staging directory stays in use** until it is discarded. -/
theorem isInUse_of_published (hu : Unobstructed h st outputDir name own) (hcwd : h.IsPlaced)
    (hrestore : h.AllowsRestoring) (huse : IsInUse h d st) (hp : Published h d st d' r) :
    IsInUse h d' st := by
  have hl := hu.toLaid
  have hdirect := hu.isDirect hcwd huse
  cases hp with
  | refused e => exact huse
  | placed _ hmove => exact hu.isInUse_of_move hcwd huse hmove
  | restored e' houtput _ hb hmove =>
    -- What the backup had replaced is gone now, and must not be on the way.
    rcases hu.backup_notOnWay with hrename | hway
    · obtain ⟨d₂, hr⟩ := hu.move_of_backup hcwd hrename huse houtput hb
      rw [hr] at hmove
      cases hmove
    · have huse₁ := hu.isInUse_of_backup hcwd huse hb
      rw [hu.rename_backup hcwd hrestore huse hb]
      obtain ⟨hapart, rfl⟩ := hl.move_backup hcwd hdirect hb (hu.place_backup_ne hb)
      refine ⟨fun v hv => ?_, ?_⟩
      · rw [afterwards, Disk.node?_move_of_not_below hapart.symm ?_ (hu.not_below_destination hv)]
        · exact huse₁.isWayOpen v hv
        · exact fun hpre => hway (Host.mem_way_of_above hv hpre hapart.symm.ne_nil)
      · rw [afterwards, Disk.node?_move_of_not_below hapart.symm (hl.apart_backup hcwd hb).1
          (hl.apart_destination hcwd).1]
        exact huse₁.isDirectory
  | replaced _ _ hb hmove =>
    have huse₁ := hu.isInUse_of_backup hcwd huse hb
    have huse₂ := hu.isInUse_of_move hcwd huse₁ hmove
    have hled := hl.isLed_backup hcwd hb (hu.isDirect hcwd huse₂)
    cases hr : h.removeFile _ st.backup with
    | error e => exact huse₂
    | ok d' => exact ⟨fun v hv => Host.directory_of_removeFile hled hr (huse₂.isWayOpen v hv),
        Host.directory_of_removeFile hled hr huse₂.isDirectory⟩

/-- **Nothing is left** of a staging directory that is in use when it is discarded. -/
theorem node?_discard (hu : Unobstructed h st outputDir name own) (hcwd : h.IsPlaced)
    (huse : IsInUse h d st) {l : Location} (hpre : h.place st.directory <+: l) :
    (st.discard h d).node? l = none := by
  have hl := hu.toLaid
  obtain ⟨d₀, d₁, hdirect₀, hm⟩ := hu.made
  obtain ⟨t, ht, hlong, -⟩ := Host.makeDirectory_eq_ok_iff.1 hm
  have hname := hl.named_directory ht
  have hin := hl.directory_in
  have hled := hl.isLed_directory hcwd (hl.isDirect_parent hcwd (hu.isDirect hcwd huse))
  have hopen : h.IsWayOpen d (h.absolute (parentOf st.destination)) := by
    intro v hv
    exact huse.isWayOpen v (Host.way_absolute h _ ▸ hv)
  have ht' := Host.target_of_isWayOpen hcwd hin ht hname (hl.isLed_directory hcwd hdirect₀) hopen
  refine Host.removeTree_directory hled ht' hname ?_ ?_ hpre
  · refine Disk.found_eq_ok_iff.2 ⟨hlong, ?_, Or.inl rfl⟩
    rw [Host.location_of_target ht' hname hled, huse.isDirectory]
  · intro v hv
    rw [hin.steps_eq, List.dropLast_concat, hin.origin_eq, Path.origin,
      Host.isAbsolute_absolute, if_pos rfl] at hv
    exact hu.not_on_way hcwd hv

end Unobstructed

end Staging

end Transcode
