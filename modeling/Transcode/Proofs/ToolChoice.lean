/-
  Transcode — which program a tool is.

  A tool is taken from its configured path, when anything is there, and from the
  search path otherwise (`Tool.place?`).  Checking tools and looking at sources do
  so.  Probing a file runs the configured path unseen, or the bare name.

  * `Host.spawn_of_which?`: a bare name runs the program that is found under it, if
    the search that starts programs tries the same places;
  * `Tool.probe_congr`: a prober answers alike under every path that runs it;
  * `same_prober`: so all tasks ask one prober, where nothing configured is missing.
-/
import Transcode.Proofs.Operations
import Transcode.Proofs.Reports

namespace Transcode

open Path (IsName slash)
open Text (Bytes)

/-! ## Where tools are -/

namespace Tool

variable {h : Host} {d : Disk} {t : Tool} {configured : Option Path}

/-- Where a tool is: at its configured path, when anything is there, or else where it
    is found by its name. -/
def place? (h : Host) (d : Disk) (t : Tool) (configured : Option Path) : Option Path :=
  (configured.filter (h.fileExists d)).or (h.which? d (.ofText t.name))

theorem toOption_locate : (t.locate h d configured).toOption = t.place? h d configured := by
  unfold locate pathOf place?
  cases configured.filter (h.fileExists d) with
  | some p => rfl
  | none => cases h.which? d (.ofText t.name) <;> rfl

theorem path_check : (t.check h d configured).2.path = t.place? h d configured := by
  rw [← toOption_locate]
  unfold check
  cases t.locate h d configured <;> rfl

theorem version_check : (t.check h d configured).2.version =
    (t.place? h d configured).bind fun p => (askVersion h d p).2 := by
  rw [← toOption_locate]
  unfold check
  cases t.locate h d configured <;> rfl

theorem isName_name : IsName (Text.encode t.name) := by
  cases t <;> decide

end Tool

theorem Studio.toolPath_eq {h : Host} {d : Disk} {t : Tool} {configured : Option Path} :
    toolPath h d t configured = (t.place? h d configured).getD (.ofText t.name) := by
  rw [← Tool.toOption_locate]
  unfold toolPath
  cases t.locate h d configured <;> rfl

/-! ## Bare names -/

namespace Path

/-- A name is searched for by itself only in the directory that is not spelled. -/
theorem join_cases (p : Path) {n : Bytes} (hn : IsName n) :
    p.join ⟨n⟩ = ⟨n⟩ ∨ slash ∈ (p.join ⟨n⟩).bytes := by
  rw [join, if_neg (by simp [isAbsolute_of_isName hn])]
  obtain ⟨bs⟩ := p
  split
  · next h =>
    cases bs with
    | nil => exact Or.inl rfl
    | cons b bs =>
      refine Or.inr (List.mem_append_left _ (List.mem_of_getLast? ?_))
      simpa using h
  · exact Or.inr (List.mem_append_right _ List.mem_cons_self)

theorem bytes_suffix_join (p q : Path) : q.bytes <:+ (p.join q).bytes := by
  unfold join
  split
  · exact List.suffix_rfl
  · split
    · exact ⟨p.bytes, rfl⟩
    · exact ⟨p.bytes ++ [slash], by simp⟩

theorem components_of_isName {n : Bytes} (hn : IsName n) : (Path.mk n).components = [.name n] := by
  obtain ⟨hslash, hnil, hdot, -⟩ := isName_iff.1 hn
  have hmarks : (Path.mk n).marks = marksFrom 0 [n] := by
    rw [marks, pieces_of_not_mem hslash]
    simp [hnil, hdot]
  have hstep : stepOf n = some (.name n) := hn.2
  rw [components, hmarks, marksFrom, hstep]
  rfl

end Path

namespace Host

variable {h : Host} {d : Disk} {p name : Path}

theorem not_mem_of_executable {id : Nat} (hp : h.executable d p = .ok id) :
    0 ∉ p.bytes := by
  unfold executable at hp
  cases hs : h.stat d p with
  | error e =>
    rw [hs] at hp
    cases hp
  | ok x =>
    obtain ⟨t, ht, -⟩ := stat_eq_ok_iff.1 hs
    have hfollow := Disk.isFollowable_of_locatePath ht
    simp only [Path.isFollowable, Bool.and_eq_true] at hfollow
    simpa using hfollow.1.1

theorem program_of_slash (hp : slash ∈ p.bytes) : h.program d p = h.executable d p := by
  have hne : p.bytes.isEmpty = false := by
    cases hb : p.bytes with
    | nil =>
      rw [hb] at hp
      cases hp
    | cons b bs => rfl
  rw [program, if_neg (by simp [hne]), if_pos (List.contains_iff_mem.2 hp)]

/-- The search that starts a program tries the same files as `which?`: no directory is
    taken from home, and it goes on where it fails. -/
structure SearchesAlike (h : Host) (d : Disk) (name : Path) : Prop where
  inFull_eq : ∀ dir ∈ h.searchPath, h.inFull dir = dir
  goesOn : ∀ dir ∈ h.searchPath, ∀ e, h.executable d (dir.join name) = .error e →
    ∃ reason, e = .os reason ∧ searchGoesOn reason = true

/-- **A search that goes on** ends at the first program that is there. -/
theorem search_eq_of_find? {dirs : List Path} (hgo : ∀ dir ∈ dirs, ∀ e,
      h.executable d (dir.join name) = .error e → ∃ reason, e = .os reason ∧
        searchGoesOn reason = true)
    (hfound : (dirs.map (·.join name)).find? (h.isExecutable d) = some p) (failure : OsError) :
    h.search d name failure dirs = h.executable d p := by
  -- By induction on the directories, for any failure met before them: it does not show.
  induction dirs generalizing failure with
  | nil => cases hfound
  | cons dir dirs ih =>
    obtain ⟨hdir, hgo⟩ := List.forall_mem_cons.1 hgo
    rw [List.map_cons, List.find?_cons] at hfound
    unfold search
    cases hx : h.executable d (dir.join name) with
    | ok id =>
      rw [isExecutable, hx] at hfound
      cases hfound
      exact hx.symm
    | error e =>
      obtain ⟨reason, rfl, hreason⟩ := hdir e hx
      rw [isExecutable, hx] at hfound
      dsimp only
      rw [if_pos hreason]
      exact ih hgo hfound _

/-- **A bare name** is the program that is found under it. -/
theorem program_of_which? {n : Bytes} (hn : IsName n) (halike : h.SearchesAlike d ⟨n⟩)
    (hw : h.which? d ⟨n⟩ = some p) :
    h.program d ⟨n⟩ = h.program d p ∧ 0 ∉ n ∧ 0 ∉ p.bytes ∧ ∃ dir, p = Path.join dir ⟨n⟩ := by
  have hplain : (h.searchPath.map fun dir => (h.inFull dir).join ⟨n⟩) =
      h.searchPath.map (·.join ⟨n⟩) := by
    refine List.map_congr_left fun dir hdir => ?_
    rw [halike.inFull_eq dir hdir]
  rw [which?, if_neg (by simp [Path.components_of_isName hn]), hplain] at hw
  obtain ⟨dir, hdir, rfl⟩ := List.mem_map.1 (List.mem_of_find?_eq_some hw)
  have hexecutable : h.isExecutable d (dir.join ⟨n⟩) = true := List.find?_some hw
  obtain ⟨id, hid⟩ := isOk_iff.1 hexecutable
  have hzero := not_mem_of_executable hid
  refine ⟨?_, mt (fun hmem => (Path.bytes_suffix_join dir ⟨n⟩).subset hmem) hzero, hzero, dir, rfl⟩
  -- Without a slash, what is found is the bare name once more, which is searched for too.
  rcases Path.join_cases dir hn with hself | hslash
  · rw [hself]
  · obtain ⟨hnone, hnil, -⟩ := Path.isName_iff.1 hn
    rw [program_of_slash hslash, program, if_neg (by simpa using hnil),
      if_neg (by simpa using hnone)]
    exact search_eq_of_find? halike.goesOn hw .notFound

theorem spawn_of_which? {n : Bytes} (hn : IsName n) (halike : h.SearchesAlike d ⟨n⟩)
    (hw : h.which? d ⟨n⟩ = some p) (args : List Bytes) :
    h.spawn d ⟨n⟩ args = h.spawn d p args := by
  obtain ⟨hprogram, hzero, hzero', -⟩ := program_of_which? hn halike hw
  have hargs : (n :: args).any (·.contains 0) = (p.bytes :: args).any (·.contains 0) := by
    simp [hzero, hzero']
  rw [spawn, spawn, hprogram, hargs]

end Host

/-! ## Probers -/

namespace Tool

variable {h : Host} {d : Disk}

theorem nameOf_join (dir : Path) {n : Bytes} (hn : IsName n) :
    nameOf (dir.join ⟨n⟩) = nameOf ⟨n⟩ := by
  have hself : Path.fileName? ⟨n⟩ = some n := by
    rw [Path.fileName?, Path.components_of_isName hn]
    rfl
  rw [nameOf, nameOf, Path.fileName?_join dir hn, hself]

theorem fileExists_of_probe {program file : Path} {d' : Disk} {m : Media}
    (hp : probe h d program file = (d', .described m)) : h.fileExists d file = true := by
  unfold probe at hp
  cases hx : h.fileExists d file with
  | true => rfl
  | false =>
    rw [hx] at hp
    cases hp

/-- **A prober answers alike** under names that mean the same and run the same. -/
theorem probe_congr {program program' : Path} (hname : nameOf program = nameOf program')
    (hspawn : ∀ args, h.spawn d program args = h.spawn d program' args) (file : Path) :
    probe h d program file = probe h d program' file := by
  have hstart : startError program = startError program' := by
    funext e
    unfold startError
    rw [hname]
  have hjudge : judgeReport program file = judgeReport program' file := by
    funext c
    unfold judgeReport
    rw [hname]
  unfold probe
  rw [hspawn, hstart, hjudge]

end Tool

namespace Config

/-- The prober as it is named: by its configured path, or else by its bare name. -/
def namedProber (c : Config) : Path :=
  c.ffprobePath.getD (.ofText Tool.ffprobe.name)

/-- A prober that is where it is named: something is at the configured path, or none is
    configured and starting the bare name tries what `which?` tries. -/
def HasNamedProber (h : Host) (d : Disk) (c : Config) : Prop :=
  match c.ffprobePath with
  | some p => h.fileExists d p = true
  | none => h.SearchesAlike d (.ofText Tool.ffprobe.name)

variable {h : Host} {d : Disk} {c : Config}

/-- **The prober as it is named** is the prober that is found. -/
theorem spawn_namedProber (hc : c.HasNamedProber h d) :
    Tool.nameOf c.namedProber = Tool.nameOf (Studio.toolPath h d .ffprobe c.ffprobePath) ∧
      ∀ args, h.spawn d c.namedProber args =
        h.spawn d (Studio.toolPath h d .ffprobe c.ffprobePath) args := by
  rw [Studio.toolPath_eq]
  unfold HasNamedProber at hc
  unfold namedProber Tool.place?
  cases hp : c.ffprobePath with
  | some p =>
    rw [hp] at hc
    have hfilter : (some p).filter (h.fileExists d) = some p := by simpa using hc
    rw [hfilter]
    exact ⟨rfl, fun _ => rfl⟩
  | none =>
    rw [hp] at hc
    cases hw : h.which? d (.ofText Tool.ffprobe.name) with
    | none => simp
    | some p =>
      obtain ⟨-, -, -, dir, rfl⟩ := Host.program_of_which? Tool.isName_name hc hw
      exact ⟨(Tool.nameOf_join dir Tool.isName_name).symm,
        Host.spawn_of_which? Tool.isName_name hc hw⟩

end Config

/-- **All tasks ask one prober.**  Checking tools finds the configured one, when anything
    is there, or else the one in the search path; sources are looked at with that, or
    with the bare name if there is none; and where what is named is there, probing a
    file runs the same, so that a file which can be looked at is shown. -/
theorem same_prober (h : Host) (d : Disk) (c : Config) :
    (Tool.check h d .ffprobe c.ffprobePath).2.path = Tool.place? h d .ffprobe c.ffprobePath ∧
    (Tool.check h d .ffprobe c.ffprobePath).2.version =
      (Tool.place? h d .ffprobe c.ffprobePath).bind (fun p => (Tool.askVersion h d p).2) ∧
    ∀ s, Studio.ofConfig h d c = .ok s →
      s.prober = (Tool.place? h d .ffprobe c.ffprobePath).getD (.ofText Tool.ffprobe.name) ∧
      (c.HasNamedProber h d →
        (∀ args, h.spawn d c.namedProber args = h.spawn d s.prober args) ∧
        ∀ config, Config.find h d config = .ok c → ∀ file d' m json,
          Tool.probe h d s.prober file = (d', .described m) →
            Program.probe h d config file json = Program.showMedia d' m json) := by
  refine ⟨Tool.path_check, Tool.version_check, ?_⟩
  intro s hs
  obtain ⟨registry, -, rfl⟩ := map_eq_ok_iff.1 hs
  refine ⟨Studio.toolPath_eq, ?_⟩
  intro hc
  obtain ⟨hname, hspawn⟩ := Config.spawn_namedProber hc
  refine ⟨hspawn, ?_⟩
  intro config hconfig file d' m json hprobe
  have hexists := Tool.fileExists_of_probe hprobe
  rw [← Tool.probe_congr hname hspawn, Config.namedProber] at hprobe
  rw [Program.probe, hexists, hconfig, if_neg (by decide), Program.given, hprobe]

/-- Whether a prober has described a file. -/
def Tool.Probing.isDescribed : Probing → Bool
  | described _ => true
  | _ => false

theorem Tool.exists_of_isDescribed (h : Host) (d : Disk) (program file : Path)
    (hp : (probe h d program file).2.isDescribed = true) :
    ∃ d' m, probe h d program file = (d', .described m) := by
  cases ha : probe h d program file with
  | mk d' answer =>
    rw [ha] at hp
    cases answer with
    | described m => exact ⟨d', m, rfl⟩
    | failed e => cases hp
    | endless => cases hp

/-- A host with a prober that gives a duration. -/
def timingHost : Host :=
  reportingHost (durationReport "90")

theorem same_prober_clip : ∃ s d' m,
    Studio.ofConfig timingHost reportedClip .standard = .ok s ∧ s.prober = "/path/ffprobe" ∧
      Config.standard.HasNamedProber timingHost reportedClip ∧
      Config.find timingHost reportedClip none = .ok .standard ∧
      Tool.probe timingHost reportedClip s.prober "clip.mov" = (d', .described m) ∧
      Program.probe timingHost reportedClip none "clip.mov" false =
        Program.showMedia d' m false := by
  have hok : (Studio.ofConfig timingHost reportedClip .standard).isOk = true := by decide +kernel
  obtain ⟨s, hs⟩ := isOk_iff.1 hok
  obtain ⟨-, -, hstudio⟩ := same_prober timingHost reportedClip .standard
  obtain ⟨hprober, hsame⟩ := hstudio s hs
  have hplace : (Tool.place? timingHost reportedClip .ffprobe Config.standard.ffprobePath).getD
      (.ofText Tool.ffprobe.name) = "/path/ffprobe" := by decide +kernel
  rw [hplace] at hprober
  have hthere : Config.standard.HasNamedProber timingHost reportedClip := by
    refine ⟨by decide +kernel, ?_⟩
    intro dir hdir e he
    obtain rfl := List.mem_singleton.1 hdir
    have hfound : (timingHost.executable reportedClip
        (Path.join "/path" (.ofText Tool.ffprobe.name))).isOk = true := by decide +kernel
    rw [he] at hfound
    cases hfound
  have hnone : (Config.usualPlaces timingHost).find? (timingHost.fileExists reportedClip) = none := by
    decide +kernel
  have hfind : Config.find timingHost reportedClip none = .ok .standard := by
    rw [Config.find, Option.none_or, hnone]
  obtain ⟨d', m, hprobe⟩ := Tool.exists_of_isDescribed timingHost reportedClip "/path/ffprobe"
    "clip.mov" (by decide +kernel)
  rw [← hprober] at hprobe
  obtain ⟨-, hshown⟩ := hsame hthere
  exact ⟨s, d', m, hs, hprober, hthere, hfind, hprobe, hshown none hfind _ _ _ false hprobe⟩

/-- A disk with a clip, a prober, and a configuration of another that is not there. -/
def staleClip : Disk :=
  ⟨([Text.encode "mp4forge.toml"],
    .file (Text.encode "[tools]\nffprobe_path = \"gone/ffprobe\"\n")) :: reportedClip.entries⟩

/-- **A configured prober that is not there** is passed over where tools are checked and
    sources are looked at, and run where a file is probed. -/
theorem stale_prober_is_run :
    (∃ c s d' m, Config.find timingHost staleClip none = .ok c ∧
      c.ffprobePath = some "gone/ffprobe" ∧ Studio.ofConfig timingHost staleClip c = .ok s ∧
      (Tool.check timingHost staleClip .ffprobe c.ffprobePath).2.path = some "/path/ffprobe" ∧
      s.prober = "/path/ffprobe" ∧
      Tool.probe timingHost staleClip s.prober "clip.mov" = (d', .described m)) ∧
    (Program.run timingHost staleClip ["probe", "clip.mov"]).exitCode = 1 ∧
    (Program.run timingHost staleClip ["probe", "clip.mov"]).stderr =
      "Error: tool not found: ffprobe\n" := by
  have hstudio : ((Config.find timingHost staleClip none).toOption.bind fun c =>
      (Studio.ofConfig timingHost staleClip c).toOption.map fun s => (c.ffprobePath, s.prober,
        (Tool.check timingHost staleClip .ffprobe c.ffprobePath).2.path)) =
      some (some (.ofText "gone/ffprobe"), .ofText "/path/ffprobe",
        some (.ofText "/path/ffprobe")) := by decide +kernel
  obtain ⟨c, hc, hstudio⟩ := Option.bind_eq_some_iff.1 hstudio
  obtain ⟨s, hs, hpaths⟩ := Option.map_eq_some_iff.1 hstudio
  simp only [Prod.mk.injEq] at hpaths
  obtain ⟨hnamed, hprober, hcheck⟩ := hpaths
  obtain ⟨d', m, hprobe⟩ := Tool.exists_of_isDescribed timingHost staleClip "/path/ffprobe"
    "clip.mov" (by decide +kernel)
  rw [← hprober] at hprobe
  refine ⟨⟨c, s, d', m, toOption_eq_some_iff.1 hc, hnamed, toOption_eq_some_iff.1 hs, hcheck,
    hprober, hprobe⟩, ?_, ?_⟩
  · decide +kernel
  · decide +kernel

end Transcode
