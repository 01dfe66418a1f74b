/-
  Transcode — where outputs are made.

  The staging directory, its destination and the backup of it are neighbours: they
  are in one directory, under different names, and the output is in the staging
  directory under the name of the destination (`Staging.Laid`).

  * `laid_of_prepare`: so it is for every staging directory that is made, unless the
    host's code makes it called as the destination; it is new where it is made;
  * `directoryName_ne`: no name with an extension is that of a staging directory,
    so a backup is not in its way.
-/
import Transcode.Proofs.EncodedText
import Transcode.Proofs.Operations

namespace Transcode

open Text (Bytes IsPlain)
open Path (IsName slash dot)

namespace Staging

/-! ## Names of staging directories -/

theorem toNat_lt_of_isAlphanum {c : Char} (h : c.isAlphanum = true) : c.toNat < 0x80 := by
  have hrange : ∀ {d : Char}, c.val ≤ d.val → d.toNat < 0x80 → c.toNat < 0x80 := fun hle hd =>
    Nat.lt_of_le_of_lt (UInt32.le_iff_toNat_le.1 hle) hd
  rcases Bool.or_eq_true_iff.1 h with halpha | hdigit
  · rcases Bool.or_eq_true_iff.1 halpha with hupper | hlower
    · have hle : c.val ≤ 'Z'.val := (of_decide_eq_true hupper).2
      exact hrange hle (by decide)
    · have hle : c.val ≤ 'z'.val := of_decide_eq_true (Bool.and_eq_true_iff.1 hlower).2
      exact hrange hle (by decide)
  · have hle : c.val ≤ '9'.val := of_decide_eq_true (Bool.and_eq_true_iff.1 hdigit).2
    exact hrange hle (by decide)

/-- Letters and digits are plain, and are no marks of paths. -/
theorem isPlain_of_isCode {code : String} (h : IsCode code) {b : UInt8}
    (hb : b ∈ Text.encode code) : IsPlain b ∧ (Text.charOf b).isAlphanum = true := by
  rw [Text.encode, List.mem_flatMap] at hb
  obtain ⟨c, hc, hb⟩ := hb
  have halphanum := h.2 c hc
  rcases Text.utf8EncodeChar_cases c with ⟨b', hb', rfl, he⟩ | ⟨hhigh, -⟩
  · rw [he, List.mem_singleton] at hb
    rw [hb]
    exact ⟨hb', halphanum⟩
  · exact absurd (toNat_lt_of_isAlphanum halphanum) (Nat.not_lt.2 hhigh)

variable {code : String}

/-- A staging directory is called by a dot and plain bytes, none of which means
    anything in a path. -/
theorem bytes_directoryName (hcode : IsCode code) : ∃ r, (directoryName code).bytes = dot :: r ∧
    r ≠ [] ∧ ∀ b ∈ r, IsPlain b ∧ b ≠ 0 ∧ b ≠ slash ∧ b ≠ dot := by
  refine ⟨Text.encode "mp4forge-" ++ Text.encode code, ?_, ?_, ?_⟩
  · rw [directoryName, Path.ofText, Text.encode_append, ← List.cons_append]
    rfl
  · exact List.append_ne_nil_of_left_ne_nil (by decide) _
  · have hfixed : (Text.encode "mp4forge-").all
        fun b => decide (IsPlain b ∧ b ≠ 0 ∧ b ≠ slash ∧ b ≠ dot) := by decide
    intro b hb
    rcases List.mem_append.1 hb with hb | hb
    · exact of_decide_eq_true (List.all_eq_true.1 hfixed b hb)
    · obtain ⟨hplain, halphanum⟩ := isPlain_of_isCode hcode hb
      refine ⟨hplain, ?_, ?_, ?_⟩ <;>
        · rintro rfl
          exact absurd halphanum (by decide)

theorem isName_directoryName (hcode : IsCode code) : IsName (directoryName code).bytes := by
  obtain ⟨r, hr, hne, hall⟩ := bytes_directoryName hcode
  rw [hr, Path.isName_iff]
  refine ⟨?_, by simp, by simpa using hne, ?_⟩
  · rw [List.mem_cons, not_or]
    exact ⟨by decide, fun h => (hall slash h).2.2.1 rfl⟩
  · intro h
    obtain rfl : r = [dot] := (List.cons.inj h).2
    exact (hall dot List.mem_cons_self).2.2.2 rfl

theorem isIn_directoryIn (parent : Path) (hcode : IsCode code) :
    (directoryIn parent code).IsIn parent (directoryName code).bytes :=
  Path.isIn_join parent (isName_directoryName hcode)

theorem directoryName_ne (hcode : IsCode code) {stem : Bytes} (hs : stem ≠ []) (ext : Bytes) :
    (directoryName code).bytes ≠ stem ++ dot :: ext := by
  obtain ⟨r, hr, -, hall⟩ := bytes_directoryName hcode
  obtain ⟨b, stem, rfl⟩ := List.exists_cons_of_ne_nil hs
  rw [hr]
  intro h
  have hmem : dot ∈ r := by
    rw [(List.cons.inj h).2]
    exact List.mem_append_right _ List.mem_cons_self
  exact (hall dot hmem).2.2.2 rfl

/-! ## Where a staging directory is -/

/-- How the paths of a staging directory lie on a host. -/
structure Laid (h : Host) (st : Staging) (name own : Bytes) : Prop where
  fileName : st.destination.fileName? = some name
  own_eq : ∃ code, IsCode code ∧ own = (directoryName code).bytes
  own_ne : own ≠ name
  directory_eq : st.directory = (h.absolute (parentOf st.destination)).join ⟨own⟩
  output_eq : st.output = st.directory.join ⟨name⟩

namespace Laid

variable {h : Host} {d d' : Disk} {st : Staging} {name own : Bytes} {t : Target}

theorem isName_name (hl : Laid h st name own) : IsName name := by
  obtain ⟨-, -, -, hname, -⟩ :=
    Path.cut_of_getLast?_steps (Path.getLast?_steps_of_fileName? hl.fileName)
  exact hname

theorem isName_own (hl : Laid h st name own) : IsName own := by
  obtain ⟨code, hcode, rfl⟩ := hl.own_eq
  exact isName_directoryName hcode

theorem destination_in (hl : Laid h st name own) :
    st.destination.IsIn (parentOf st.destination) name := by
  obtain ⟨hsteps, habs⟩ := Path.steps_parentOf hl.fileName
  obtain ⟨init, hinit⟩ :=
    List.getLast?_eq_some_iff.1 (Path.getLast?_steps_of_fileName? hl.fileName)
  refine ⟨habs.symm, ?_⟩
  rw [hsteps, hinit, List.dropLast_concat]

theorem directory_in (hl : Laid h st name own) :
    st.directory.IsIn (h.absolute (parentOf st.destination)) own :=
  hl.directory_eq ▸ Path.isIn_join _ hl.isName_own

theorem output_in (hl : Laid h st name own) : st.output.IsIn st.directory name :=
  hl.output_eq ▸ Path.isIn_join _ hl.isName_name

theorem place_destination (hl : Laid h st name own) :
    h.place st.destination = h.place (parentOf st.destination) ++ [name] :=
  Host.place_of_isIn hl.destination_in

theorem place_directory (hl : Laid h st name own) (hcwd : h.IsPlaced) :
    h.place st.directory = h.place (parentOf st.destination) ++ [own] := by
  rw [Host.place_of_isIn hl.directory_in, Host.place_absolute hcwd]

theorem place_output (hl : Laid h st name own) :
    h.place st.output = h.place st.directory ++ [name] :=
  Host.place_of_isIn hl.output_in

theorem directory_prefix_output (hl : Laid h st name own) :
    h.place st.directory <+: h.place st.output :=
  ⟨[name], hl.place_output.symm⟩

/-- A backup that can be named at all is next to its destination, under the stem of
    its name with the extension of backups. -/
theorem isIn_backup (hl : Laid h st name own) (ht : h.target d st.backup = .ok t)
    (hname : t.IsNamed) :
    st.backup.IsIn (parentOf st.destination) (Path.stemOf name ++ dot :: Text.encode "bak") := by
  obtain ⟨hsteps, habs⟩ := Path.steps_parentOf hl.fileName
  obtain ⟨habs', h⟩ :=
    Path.steps_withExtension (e := "bak") hl.fileName (by decide) (by decide)
  rw [← hsteps] at h
  rcases h with h | h
  · exact ⟨habs'.trans habs.symm, h⟩
  · obtain ⟨n, b, hlast⟩ := hname
    have hname := (Disk.steps_of_target ht hlast).1
    rw [backup, h] at hname
    simp at hname

theorem apart (hl : Laid h st name own) (hcwd : h.IsPlaced) {n : Bytes} (hne : n ≠ own) :
    Apart (h.place (parentOf st.destination) ++ [n]) (h.place st.directory) := by
  rw [hl.place_directory hcwd]
  have hne' : h.place (parentOf st.destination) ++ [n] ≠
      h.place (parentOf st.destination) ++ [own] := fun e =>
    hne (List.cons.inj (List.append_cancel_left e)).1
  simpa using Apart.of_length (by simp) hne' [] []

theorem own_ne_of_extension (hl : Laid h st name own) {stem : Bytes} (hs : stem ≠ [])
    (ext : Bytes) : stem ++ dot :: ext ≠ own := by
  obtain ⟨code, hcode, rfl⟩ := hl.own_eq
  exact (directoryName_ne hcode hs ext).symm

theorem isAbsolute_directory (hl : Laid h st name own) : st.directory.isAbsolute = true :=
  hl.directory_in.isAbsolute_eq.trans (Host.isAbsolute_absolute h _)

/-- The end of the path of a staging directory is its name. -/
theorem named_directory (hl : Laid h st name own) (ht : h.target d st.directory = .ok t) :
    t.IsNamed := by
  rw [Host.target, hl.directory_eq] at ht
  exact ⟨own, false, Disk.last_of_target_join hl.isName_own ht⟩

theorem last_output (hl : Laid h st name own) (ht : h.target d st.output = .ok t) :
    t.last = .name name false := by
  rw [Host.target, hl.output_eq] at ht
  exact Disk.last_of_target_join hl.isName_name ht

theorem isDirect_directory (hl : Laid h st name own) (hcwd : h.IsPlaced) :
    h.IsDirect d st.directory ↔ h.IsDirect d (parentOf st.destination) ∧
      ∀ path, d.node? (h.place st.directory) ≠ some (.link path) := by
  simp only [Host.IsDirect]
  rw [Host.way_of_isIn hcwd hl.directory_in, Host.way_absolute]
  simp only [List.mem_append, List.mem_singleton, or_imp, forall_and, forall_eq]

theorem isLed_directory (hl : Laid h st name own) (hcwd : h.IsPlaced)
    (hdirect : h.IsDirect d (parentOf st.destination)) : h.IsLed d st.directory :=
  (Host.isDirect_absolute.2 hdirect).isLed hcwd hl.directory_in

/-- The way to the output is the way to its neighbours, and one step more. -/
theorem isWayOpen_directory (hl : Laid h st name own) (hcwd : h.IsPlaced) :
    h.IsWayOpen d st.directory ↔ h.IsWayOpen d (parentOf st.destination) ∧
      d.node? (h.place st.directory) = some .directory := by
  simp only [Host.IsWayOpen]
  rw [Host.way_of_isIn hcwd hl.directory_in, Host.way_absolute]
  simp [or_imp, forall_and]

/-- **Where a staging directory is made**, nothing was before, and the way to
    everything next to it is open and does not lead through it. -/
theorem new_of_makeDirectory (hl : Laid h st name own) (hcwd : h.IsPlaced)
    (hdirect : h.IsDirect d (parentOf st.destination))
    (hm : h.makeDirectory d st.directory = .ok d') :
    h.IsWayOpen d (parentOf st.destination) ∧ d.node? (h.place st.directory) = none ∧
      d' = d.put (h.place st.directory) .directory ∧
      ∀ v ∈ h.way (parentOf st.destination), ¬ h.place st.directory <+: v := by
  obtain ⟨t, ht, -, hnone, -, hd'⟩ := Host.makeDirectory_eq_ok_iff.1 hm
  have hname := hl.named_directory ht
  rw [Host.location_of_target ht hname (hl.isLed_directory hcwd hdirect)] at hnone hd'
  have hopen : h.IsWayOpen d (parentOf st.destination) := by
    intro v hv
    refine Host.isWayOpen_of_target (Host.isAbsolute_absolute h _) hl.directory_in
      (Host.isDirect_absolute.2 hdirect) ht hname v ?_
    rwa [Host.way_absolute]
  refine ⟨hopen, hnone, hd', fun v hv hpre => ?_⟩
  have hne : h.place st.directory ≠ [] := by simp [hl.place_directory hcwd]
  have hnode := hopen _ (Host.mem_way_of_above hv hpre hne)
  rw [hnone] at hnode
  cases hnode

/-- **A staging directory that is made** is all that is new, and the way into it is open. -/
theorem isWayOpen_of_makeDirectory (hl : Laid h st name own) (hcwd : h.IsPlaced)
    (hdirect : h.IsDirect d (parentOf st.destination))
    (hm : h.makeDirectory d st.directory = .ok d') :
    (∀ l, ¬ h.place st.directory <+: l → d'.node? l = d.node? l) ∧
      h.IsWayOpen d' st.directory := by
  obtain ⟨hopen, -, rfl, hnew⟩ := hl.new_of_makeDirectory hcwd hdirect hm
  have hne : h.place st.directory ≠ [] := by simp [hl.place_directory hcwd]
  have hkept : ∀ l, ¬ h.place st.directory <+: l →
      (d.put (h.place st.directory) .directory).node? l = d.node? l := by
    intro l hpre
    rw [Disk.node?_put hne, if_neg]
    rintro rfl
    exact hpre List.prefix_rfl
  refine ⟨hkept, (hl.isWayOpen_directory hcwd).2 ⟨fun v hv => ?_, ?_⟩⟩
  · rw [hkept v (hnew v hv)]
    exact hopen v hv
  · rw [Disk.node?_put hne, if_pos rfl]

end Laid

variable {h : Host} {d d₁ : Disk} {destination : Path} {st : Staging}

/-- **A staging directory is made** next to its destination, under a name with a code. -/
theorem code_of_prepare (hcodes : h.GivesCodes) (hp : prepare h d destination = .ok (d₁, st)) :
    st.destination = destination ∧ h.makeDirectory d st.directory = .ok d₁ ∧
      ∃ name code, destination.fileName? = some name ∧ IsCode code ∧
        st.directory = directoryIn (h.absolute (parentOf destination)) code ∧
        st.output = st.directory.join ⟨name⟩ := by
  unfold prepare at hp
  split at hp
  · cases hp
  next name hname =>
  dsimp only at hp
  split at hp
  · cases hp
  split at hp
  · cases hp
  next hmade =>
  cases hp
  exact ⟨rfl, hmade, name, _, hname, hcodes d _, rfl, rfl⟩

theorem fileName?_directory (hcodes : h.GivesCodes)
    (hp : prepare h d destination = .ok (d₁, st)) :
    ∃ code, IsCode code ∧ st.directory.fileName? = some (directoryName code).bytes := by
  obtain ⟨-, -, name, code, -, hcode, hdir, -⟩ := code_of_prepare hcodes hp
  exact ⟨code, hcode, hdir ▸ Path.fileName?_join _ (isName_directoryName hcode)⟩

theorem laid_of_prepare (hcodes : h.GivesCodes) (hp : prepare h d destination = .ok (d₁, st))
    (hne : st.directory.fileName? ≠ destination.fileName?) :
    st.destination = destination ∧ h.makeDirectory d st.directory = .ok d₁ ∧
      ∃ name own, Laid h st name own := by
  obtain ⟨rfl, hmade, name, code, hname, hcode, hdir, hout⟩ := code_of_prepare hcodes hp
  refine ⟨rfl, hmade, name, (directoryName code).bytes, hname, ⟨code, hcode, rfl⟩, ?_, hdir, hout⟩
  rintro rfl
  exact hne (by rw [hdir, hname, directoryIn, Path.fileName?_join _ (isName_directoryName hcode)])

end Staging

end Transcode
