/-
  Transcode — commands that are printed.

  Whoever reads what the program prints of a command gets the command: a shell from the
  line, and a reader of JSON from the document, in which the settings stand in the order
  of their names.

  * `mem_sortedRows_iff`: sorting settings by name neither loses nor adds any, so they
    are read back from any such document (`ofDocument?_sortedSettings`);
  * `printed_commands`: what can be read from either form.
-/
import Mathlib.Data.Set.List
import Transcode.Program
import Transcode.Proofs.ShellWords
import Transcode.Proofs.WrittenSettings

namespace Transcode

/-- A row of a table is in it if no other row of the name says something else. -/
theorem NameTable.mem_entries_ofList_iff {α : Type} {rows : List (String × α)}
    (h : ∀ n d d', (n, d) ∈ rows → (n, d') ∈ rows → d = d') {n : String} {d : α} :
    (n, d) ∈ (ofList rows).entries ↔ (n, d) ∈ rows := by
  rw [← find_eq_some_iff (ofList rows).ordered]
  constructor
  · exact mem_of_get?_ofList
  · intro hmem
    obtain ⟨d', hd'⟩ := mem_names_iff_exists.1
      (mem_names_ofList_iff.2 (List.mem_map_of_mem (f := Prod.fst) hmem))
    obtain rfl := h n d d' hmem (mem_of_get?_ofList hd')
    exact hd'

namespace Settings

theorem mem_rows_iff {m : Settings} {n : String} {d : Document} :
    (n, d) ∈ m.rows ↔ ∃ s v, m.get? s = some v ∧ s.name = n ∧ v.toDocument = d := by
  simp only [rows, List.mem_map, Prod.exists, mem_toList_iff, Prod.mk.injEq]

/-- The rows of some settings in the order of their names. -/
def sortedRows (m : Settings) : List (String × Document) :=
  (NameTable.ofList m.rows).entries

theorem mem_sortedRows_iff {m : Settings} {row : String × Document} :
    row ∈ m.sortedRows ↔ row ∈ m.rows := by
  refine NameTable.mem_entries_ofList_iff ?_
  intro n d d' hd hd'
  obtain ⟨s, v, hv, rfl, rfl⟩ := mem_rows_iff.1 hd
  obtain ⟨t, w, hw, hname, rfl⟩ := mem_rows_iff.1 hd'
  obtain rfl := Setting.name_injective hname
  rw [Option.some.inj (hv.symm.trans hw)]

/-- **The order of the rows does not matter** where settings are read. -/
theorem ofRows?_of_mem_iff {rows : List (String × Document)} {m : Settings}
    (h : ∀ row, row ∈ rows ↔ row ∈ m.rows) : ofRows? rows = some m := by
  have hinjective : Function.Injective fun entry : Setting × Value =>
      (entry.1.name, entry.2.toDocument) := by
    intro a b hab
    exact Option.some.inj ((ofRow?_row a).symm.trans ((congrArg ofRow? hab).trans (ofRow?_row b)))
  obtain ⟨pairs, rfl⟩ : ∃ pairs : List (Setting × Value),
      pairs.map (fun entry => (entry.1.name, entry.2.toDocument)) = rows := by
    refine (Set.range_list_map _).ge ?_
    intro row hrow
    obtain ⟨entry, -, hentry⟩ := List.mem_map.1 ((h row).1 hrow)
    exact ⟨entry, hentry⟩
  rw [ofRows?, mapM_map_eq_some ofRow?_row, Option.map_some]
  refine congrArg some (ofList_of_mem_iff ?_)
  intro s v
  rw [← mem_toList_iff, ← List.mem_map_of_injective hinjective, h, rows,
    List.mem_map_of_injective hinjective]

theorem ofDocument?_sortedSettings (m : Settings) :
    ofDocument? (Program.sortedSettings m) = some m :=
  ofRows?_of_mem_iff fun _ => mem_sortedRows_iff

theorem faithful_sortedSettings {m : Settings} (h : ∀ x ∈ m.floats, x.ReadsBack) :
    (Program.sortedSettings m).Faithful :=
  .table fun row hrow => faithful_rows h row (mem_sortedRows_iff.1 hrow)

end Settings

namespace Program

theorem faithful_commandDocument {c : Command}
    (h : ∀ x ∈ c.profile.settings.floats, x.ReadsBack) : (commandDocument c).Faithful := by
  refine .table ?_
  simp only [List.forall_mem_cons, List.not_mem_nil, false_imp_iff, implies_true, and_true]
  refine ⟨.list ?_, Settings.faithful_sortedSettings h, .text c.program⟩
  intro d hd
  obtain ⟨arg, -, rfl⟩ := List.mem_map.1 hd
  exact .text arg

/-- What a document says of a command: the program, the arguments and the settings. -/
def told? : Document → Option (String × List String × Settings)
  | .table rows => do
    let program ← (← NameTable.find "program" rows).asText
    let args ← (← NameTable.find "args" rows).asList Document.asText
    let settings ← Settings.ofDocument? (← NameTable.find "profile" rows)
    return (program, args, settings)
  | _ => none

theorem told?_commandDocument (c : Command) :
    told? (commandDocument c) = some (c.program, c.args, c.profile.settings) := by
  have hargs : (Document.list (c.args.map .text)).asList Document.asText = some c.args :=
    mapM_map_eq_some (f := Document.text) (fun _ => rfl) c.args
  show ((Document.list (c.args.map .text)).asList Document.asText).bind (fun args =>
    (Settings.ofDocument? (sortedSettings c.profile.settings)).bind fun m =>
      some (c.program, args, m)) = _
  rw [hargs, Option.bind_some, Settings.ofDocument?_sortedSettings, Option.bind_some]

/-- **A printed command can be read.**  On a line of its own the command is its program
    and its arguments to a shell; the document gives the settings too, if each float in
    them is read back by itself.  Where there is no command nothing is printed. -/
theorem printed_commands (d : Disk) (r : Except CompileError Command) :
    (∀ json, (showCommand d json r).disk = d ∧
      ((showCommand d json r).printed = "" ↔ ∃ e, r = .error e)) ∧
    ∀ c, r = .ok c →
      (∃ line, (showCommand d false r).printed = line ++ "\n" ∧
        Shell.split? line = some (c.program :: c.args)) ∧
      ((∀ x ∈ c.profile.settings.floats, x.ReadsBack) →
        ∃ text, (showCommand d true r).printed = text ++ "\n" ∧
          (Document.ofJson? text).bind told? = some (c.program, c.args, c.profile.settings)) := by
  constructor
  · intro json
    cases r with
    | error e => exact ⟨rfl, iff_of_true rfl ⟨e, rfl⟩⟩
    | ok c =>
      refine ⟨rfl, iff_of_false ?_ ?_⟩
      · simp [showCommand, say, lines]
      · rintro ⟨e, he⟩
        cases he
  · rintro c rfl
    have hline : ∀ text : String, lines [text] = text ++ "\n" := fun text => by simp [lines]
    refine ⟨⟨c.line, hline _, Shell.split?_line _⟩, fun hfloats => ?_⟩
    refine ⟨(commandDocument c).pretty, hline _, ?_⟩
    rw [Document.pretty, Document.ofJson?_written (faithful_commandDocument hfloats),
      Option.bind_some, told?_commandDocument]

end Program

end Transcode
