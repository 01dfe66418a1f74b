/-
  Transcode — disks without links.

  Nothing that is done for a job makes a link: directories and files are put on the
  disk, and what is moved was there before.  So where programs make none either
  (`Host.MakesNoLinks`), a disk without links stays one:

  * `Disk.IsLinkFree.of_loses`, `.put`, `.move`: for each change of a disk, and so for
    each operation;
  * `Staging.isLinkFree_finalize`, `Studio.isLinkFree_run`: for a whole job.

  Without links, what is written to a path is put at its place (`Host.put_of_write`).
-/
import Transcode.Host.Script
import Transcode.Proofs.Publishing
import Transcode.Studio

namespace Transcode

open Text (Bytes)

namespace Disk

/-- There is no link on a disk. -/
def IsLinkFree (d : Disk) : Prop :=
  ∀ l path, d.node? l ≠ some (.link path)

variable {d d' : Disk} {l s t : Location}

theorem isLinkFree_of_all (h : d.entries.all (fun e => !d.isLink e.1) = true) : d.IsLinkFree := by
  intro l path hlink
  have hl : l ≠ [] := by
    rintro rfl
    cases hlink
  have hmem : ∃ e ∈ d.entries, e.1 = l := by
    rw [node?_eq_lookup hl, List.lookup_eq_some_iff] at hlink
    obtain ⟨before, after, hentries, -⟩ := hlink
    exact ⟨(l, .link path), by simp [hentries], rfl⟩
  obtain ⟨e, he, rfl⟩ := hmem
  exact isLink_eq_false_iff.1 (by simpa using List.all_eq_true.1 h e he) path hlink

namespace IsLinkFree

theorem of_loses (h : d.IsLinkFree) (hd : d.Loses d') : d'.IsLinkFree :=
  fun l path => hd.ne_link (h l path)

theorem put (h : d.IsLinkFree) {n : Node} (hl : l ≠ []) (hn : ∀ path, n ≠ .link path) :
    (d.put l n).IsLinkFree := by
  intro k path
  rw [node?_put hl]
  split
  · exact fun e => hn path (Option.some.inj e)
  · exact h k path

theorem move (h : d.IsLinkFree) (hapart : Apart s t) : (d.move s t).IsLinkFree := by
  intro k path
  rw [node?_move hapart.1 hapart.2]
  intro hlink
  obtain ⟨l, -, hl⟩ := Option.bind_eq_some_iff.1 hlink
  exact h l path hl

theorem isDirect (h : d.IsLinkFree) (host : Host) (p : Path) : host.IsDirect d p :=
  fun v _ => h v

theorem isLed (h : d.IsLinkFree) (host : Host) (p : Path) : host.IsLed d p :=
  fun v _ => h v

end IsLinkFree

end Disk

namespace Host

variable {h : Host} {d d' : Disk} {p src dst : Path} {content : Bytes}

/-! ## Operations -/

theorem isLinkFree_of_rename (hfree : d.IsLinkFree) (hr : h.rename d src dst = .ok d') :
    d'.IsLinkFree := by
  rcases rename_cases (hfree.isLed h src) (hfree.isLed h dst) hr with ⟨-, rfl⟩ | ⟨hapart, -, rfl⟩
  · exact hfree
  · exact hfree.move hapart

/-- What is put where a path leads is no link, and is no directory that was there. -/
theorem of_put {t : Target} (hput : put d t content = .ok d') :
    t.IsNamed ∧ d.node? t.location ≠ some .directory ∧
      ∃ node, (∀ path, node ≠ .link path) ∧ d' = d.put t.location node := by
  unfold put at hput
  split at hput
  next n hlast =>
    have hname : t.IsNamed := ⟨n, false, hlast⟩
    split at hput
    · cases hput
    · cases hput
    · cases hput
    · next id _ hlook =>
      cases hput
      have hnode := (Disk.look_eq_ok_iff.1 hlook).2
      exact ⟨hname, by simp [hnode], _, by simp, rfl⟩
    · next x hdir _ _ hlook =>
      cases hput
      have hnode := (Disk.look_eq_ok_iff.1 hlook).2
      exact ⟨hname, hnode ▸ hdir, _, by simp, rfl⟩
  · cases hput

/-- **What is written to a path is put at its place**, where no directory was. -/
theorem put_of_write (hfree : d.IsLinkFree) (hw : h.write d p content = .ok d') :
    h.place p ≠ [] ∧ d.node? (h.place p) ≠ some .directory ∧
      ∃ node, (∀ path, node ≠ .link path) ∧ d' = d.put (h.place p) node := by
  unfold write at hw
  split at hw
  · cases hw
  split at hw
  · cases hw
  split at hw
  · cases hw
  next t ht =>
  obtain ⟨hname, hdir, hput⟩ := of_put (mapError_eq_ok_iff.1 hw)
  have ht' : h.target d p = .ok t := by
    obtain ⟨t', ht', rfl | ⟨path, hlink⟩⟩ := Disk.target_of_resolve ht
    · exact ht'
    · exact absurd (Disk.linkAt?_eq_some hlink).2.2 (hfree _ _)
  rw [← location_of_target ht' hname (hfree.isLed h p)]
  exact ⟨hname.location_ne_nil, hdir, hput⟩

theorem isLinkFree_of_write (hfree : d.IsLinkFree) (hw : h.write d p content = .ok d') :
    d'.IsLinkFree := by
  obtain ⟨hne, -, node, hnode, rfl⟩ := put_of_write hfree hw
  exact hfree.put hne hnode

/-! ## Programs -/

/-- No program makes a link where there is none. -/
def MakesNoLinks (h : Host) : Prop :=
  ∀ id args d, d.IsLinkFree → (h.behaviour id args d).1.IsLinkFree

theorem isLinkFree_spawn (hprograms : h.MakesNoLinks) (hfree : d.IsLinkFree) (p : Path)
    (args : List Bytes) : (h.spawn d p args).1.IsLinkFree := by
  unfold spawn
  split
  · exact hfree
  split
  · exact hfree
  · exact hprograms _ _ _ hfree

theorem GivesCodes.withScripts (hcodes : h.GivesCodes) (scripts : List Script) :
    (h.withScripts scripts).GivesCodes :=
  hcodes

/-- Programs that follow scripts only write files. -/
theorem makesNoLinks_withScripts (h : Host) (scripts : List Script) :
    (h.withScripts scripts).MakesNoLinks := by
  intro id args d hfree
  simp only [withScripts, Script.behaviour]
  split
  · simp only [Script.run, Script.written]
    split
    · split
      · exact hfree
      · split
        · next hw => exact isLinkFree_of_write hfree hw
        · exact hfree
    · exact hfree
  · exact hfree

end Host

/-! ## Jobs -/

namespace Staging

variable {h : Host} {d d₁ d' : Disk} {st : Staging} {destination : Path}
  {r : Except ToolError Path}

theorem isLinkFree_of_prepare (hcodes : h.GivesCodes) (hfree : d.IsLinkFree)
    (hp : prepare h d destination = .ok (d₁, st)) : d₁.IsLinkFree := by
  obtain ⟨-, hmade, name, code, -, hcode, hdir, -⟩ := code_of_prepare hcodes hp
  obtain ⟨t, ht, -, -, -, rfl⟩ := Host.makeDirectory_eq_ok_iff.1 hmade
  rw [Host.target, hdir] at ht
  have hname : t.IsNamed := ⟨_, _, Disk.last_of_target_join (isName_directoryName hcode) ht⟩
  exact hfree.put hname.location_ne_nil (by simp)

theorem isLinkFree_afterwards {o : Except IoError Disk} (hfree : d.IsLinkFree)
    (h : ∀ d', o = .ok d' → d'.IsLinkFree) : (afterwards d o).IsLinkFree := by
  cases o with
  | error e => exact hfree
  | ok d' => exact h d' rfl

theorem isLinkFree_of_published (hfree : d.IsLinkFree) (hp : Published h d st d' r) :
    d'.IsLinkFree := by
  cases hp with
  | refused e => exact hfree
  | placed _ hmove => exact Host.isLinkFree_of_rename hfree hmove
  | restored e' _ _ hback _ =>
    have hfree₁ := Host.isLinkFree_of_rename hfree hback
    exact isLinkFree_afterwards hfree₁ fun _ hr => Host.isLinkFree_of_rename hfree₁ hr
  | replaced _ _ hback hmove =>
    have hfree₂ := Host.isLinkFree_of_rename (Host.isLinkFree_of_rename hfree hback) hmove
    exact hfree₂.of_loses (loses_removed h _ st)

theorem isLinkFree_discard (h : Host) (hfree : d.IsLinkFree) (st : Staging) :
    (st.discard h d).IsLinkFree :=
  hfree.of_loses (Host.loses_removeTree h d st.directory)

theorem isLinkFree_finalize (h : Host) (hfree : d.IsLinkFree) (st : Staging) :
    (st.finalize h d).1.IsLinkFree := by
  generalize hfinal : st.finalize h d = x
  obtain ⟨d', r⟩ := x
  obtain ⟨d₁, hp, rfl⟩ := exists_published hfinal
  exact isLinkFree_discard h (isLinkFree_of_published hfree hp) st

end Staging

theorem Tool.run_fst (h : Host) (d : Disk) (program : Path) (args : List String) :
    (Tool.run h d program args).1 = (h.spawn d program (args.map Text.encode)).1 := by
  unfold Tool.run
  split <;> rename_i heq <;> rw [heq]

namespace Studio

variable {h : Host} {d : Disk}

theorem isLinkFree_runStaged (hprograms : h.MakesNoLinks) (hfree : d.IsLinkFree) (s : Studio)
    (j : Job) (st : Staging) : (s.runStaged h d j st).1.IsLinkFree := by
  have hspawn : ∀ c : Command, (Tool.run h d (.ofText c.program) c.args).1.IsLinkFree := by
    intro c
    rw [Tool.run_fst]
    exact Host.isLinkFree_spawn hprograms hfree _ _
  unfold runStaged
  cases hc : s.encoder.compile { j.request with output := st.output } with
  | error e => exact hfree
  | ok c =>
    have hfree' := hspawn c
    dsimp only
    split <;> rename_i heq <;> rwa [heq] at hfree'

/-- **A job makes no link** where programs make none. -/
theorem isLinkFree_run (hcodes : h.GivesCodes) (hprograms : h.MakesNoLinks)
    (hfree : d.IsLinkFree) (s : Studio) (j : Job) : (s.run h d j).1.IsLinkFree := by
  unfold run
  split
  · exact hfree
  next d₁ st hp =>
  have hstaged := isLinkFree_runStaged hprograms (Staging.isLinkFree_of_prepare hcodes hfree hp) s
    j st
  split <;> rename_i heq <;> rw [heq] at hstaged
  · exact Staging.isLinkFree_discard h hstaged st
  · exact Staging.isLinkFree_finalize h hstaged st

end Studio

end Transcode
