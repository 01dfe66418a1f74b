/-
  Transcode — what programs say when they fail.

  The output of a program is read line by line.  Lines that mention an error are kept in
  order, and what is kept of a line does not depend on the lines around it.

  * `mentionsError_iff`, `isTrimmed_trimmed`: what makes a line one that is kept;
  * `errorLines_append`: the lines of two outputs with a line end between them;
  * `LastWords`: what a failed run has to say, from the last line that is kept to the
    exit status (`lastWords_spec`), and always one line (`LastWords.isLine`);
  * `outputs_by_lines`: both, for all outputs and all runs.
-/
import Transcode.Host.Script
import Transcode.Proofs.TextPieces
import Transcode.Proofs.ValueText
import Transcode.Tool.Run

namespace Transcode

namespace Text

variable {cs line : List Char} {c : Char} {text : String}

/-! ## Lines -/

/-- A text that no blank is around. -/
structure IsTrimmed (cs : List Char) : Prop where
  first : ∀ c ∈ cs.head?, isBlank c = false
  last : ∀ c ∈ cs.getLast?, isBlank c = false

theorem getLast?_trimmedEnd (h : c ∈ (trimmedEnd cs).getLast?) : isBlank c = false := by
  induction cs with
  | nil => cases h
  | cons d cs ih =>
    rw [trimmedEnd_cons] at h
    split at h
    · cases h
    · next hkeep =>
      cases hrest : trimmedEnd cs with
      | nil =>
        rw [hrest] at h hkeep
        cases h
        simpa using hkeep
      | cons e es =>
        rw [hrest, List.getLast?_cons_cons, ← hrest] at h
        exact ih h

theorem isTrimmed_trimmed (cs : List Char) : IsTrimmed (trimmed cs) :=
  ⟨fun _ hc => head?_trimmedStart (head?_trimmedEnd hc), fun _ hc => getLast?_trimmedEnd hc⟩

theorem infix_trimmed (cs : List Char) : trimmed cs <:+: cs :=
  (isPadded_trimmed cs).isInfix

/-- A line that names an error: five letters of it, capitals or not, spell the word. -/
def NamesError (line : List Char) : Prop :=
  ∃ word, word <:+: line ∧ lowered word = "error".toList

theorem mentionsError_iff : mentionsError line = true ↔ NamesError line := by
  rw [mentionsError, holds_iff, lowered, List.infix_map_iff]
  exact exists_congr fun word => and_congr_right fun _ => eq_comm

instance : DecidablePred NamesError :=
  fun _ => decidable_of_iff _ mentionsError_iff

theorem NamesError.ne_nil (h : NamesError line) : line ≠ [] := by
  rintro rfl
  obtain ⟨word, hinfix, hword⟩ := h
  rw [List.infix_nil.1 hinfix] at hword
  cases hword

/-- A text that is one line, and not an empty one. -/
structure IsLine (line : String) : Prop where
  ne_empty : line ≠ ""
  whole : ∀ c ∈ line.toList, endsLine c = false

theorem forall_of_all {s : String} (h : (s.toList.all fun c => !endsLine c) = true) :
    ∀ c ∈ s.toList, endsLine c = false := by
  simpa using h

theorem IsLine.append {a b : String} (h : IsLine a)
    (hb : ∀ c ∈ b.toList, endsLine c = false) : IsLine (a ++ b) := by
  refine ⟨fun hempty => h.ne_empty (String.append_eq_empty_iff.1 hempty).1, ?_⟩
  rw [String.toList_append, List.forall_mem_append]
  exact ⟨h.whole, hb⟩

/-- What is left of a line without the blanks around it, unless nothing is, is one line. -/
theorem isLine_of_mem_lines (h : line ∈ lines cs) (hne : line ≠ []) :
    IsLine (String.ofList line) := by
  obtain ⟨p, hp, rfl⟩ := List.mem_map.1 h
  refine ⟨by simpa using hne, ?_⟩
  rw [String.toList_ofList]
  exact fun c hc => (isCut_pieces cs).of_mem hp c ((infix_trimmed p).subset hc)

/-! ## Lines that mention an error -/

theorem errorLines_eq {ps : List (List Char)} (h : IsCut endsLine text.toList ps) :
    errorLines text = ((ps.map trimmed).filter (NamesError ·)).map String.ofList := by
  rw [errorLines, lines, isCut_iff.1 h]
  simp only [← mentionsError_iff, Bool.decide_eq_true]

/-- **Line ends between two outputs** keep what they report apart, and report nothing. -/
theorem errorLines_append {sep : String} (hne : sep ≠ "")
    (hsep : ∀ c ∈ sep.toList, endsLine c = true) (a b : String) :
    errorLines (a ++ sep ++ b) = errorLines a ++ errorLines b := by
  have hcut : (pieces endsLine (a.toList ++ sep.toList ++ b.toList)).filter
      (mentionsError ∘ trimmed) = (pieces endsLine a.toList).filter (mentionsError ∘ trimmed) ++
        (pieces endsLine b.toList).filter (mentionsError ∘ trimmed) :=
    filter_pieces_append rfl (by simpa using hne) hsep a.toList b.toList
  simp only [errorLines, lines, String.toList_append, List.filter_map, hcut, List.map_append]

/-- Progress is written over with carriage returns. -/
example : errorLines "frame=1\rerror 1 \r\n Error 2" = ["error 1", "Error 2"] := by
  decide +kernel

theorem exists_of_mem_errorLines {l : String} (h : l ∈ errorLines text) :
    ∃ line ∈ lines text.toList, NamesError line ∧ l = String.ofList line := by
  obtain ⟨line, hline, rfl⟩ := List.mem_map.1 h
  obtain ⟨hmem, hnames⟩ := List.mem_filter.1 hline
  exact ⟨line, hmem, mentionsError_iff.1 hnames, rfl⟩

theorem isLine_of_mem_errorLines {l : String} (h : l ∈ errorLines text) : IsLine l := by
  obtain ⟨line, hline, hnames, rfl⟩ := exists_of_mem_errorLines h
  exact isLine_of_mem_lines hline hnames.ne_nil

theorem reported_of_mem_errorLines {l : String} (h : l ∈ errorLines text) :
    IsTrimmed l.toList ∧ NamesError l.toList := by
  obtain ⟨line, hline, hnames, rfl⟩ := exists_of_mem_errorLines h
  obtain ⟨p, -, rfl⟩ := List.mem_map.1 hline
  rw [String.toList_ofList]
  exact ⟨isTrimmed_trimmed p, hnames⟩

/-! ## The last line -/

theorem lastLine?_eq_some_iff {l : String} : lastLine? text = some l ↔
    ∃ before line after, lines text.toList = before ++ line :: after ∧ line ≠ [] ∧
      (∀ x ∈ after, x = []) ∧ l = String.ofList line := by
  simp only [lastLine?, List.getLast?_filter, Option.map_eq_some_iff,
    List.find?_eq_some_iff_append, List.reverse_eq_append_iff]
  constructor
  · rintro ⟨line, ⟨hne, as, bs, hlines, has⟩, rfl⟩
    refine ⟨bs.reverse, line, as.reverse, by simpa using hlines, by simpa using hne, ?_, rfl⟩
    exact fun x hx => by simpa using has x (List.mem_reverse.1 hx)
  · rintro ⟨before, line, after, hlines, hne, hafter, rfl⟩
    refine ⟨line, ⟨by simpa using hne, after.reverse, before.reverse, by simpa using hlines, ?_⟩,
      rfl⟩
    exact fun x hx => by simpa using hafter x (List.mem_reverse.1 hx)

theorem lastLine?_eq_none_iff : lastLine? text = none ↔ ∀ line ∈ lines text.toList, line = [] := by
  simp [lastLine?]

end Text

open Text (IsLine NamesError IsTrimmed IsCut errorLines endsLine lines trimmed)

/-! ## Exit statuses -/

theorem endsLine_of_mem_digitsOf {n : Nat} :
    ∀ c ∈ (String.ofList (digitsOf n)).toList, endsLine c = false := by
  intro c hc
  have hdigit := isDigit_of_mem_digitsOf (String.toList_ofList ▸ hc)
  cases hends : endsLine c with
  | false => rfl
  | true =>
    rw [endsLine, Bool.or_eq_true, beq_iff_eq, beq_iff_eq] at hends
    rcases hends with rfl | rfl <;> cases hdigit

theorem endsLine_of_lookup {n : Nat} {name : String} (h : signalNames.lookup n = some name) :
    ∀ c ∈ name.toList, endsLine c = false := by
  obtain ⟨before, after, hsplit, -⟩ := List.lookup_eq_some_iff.1 h
  have hmem : (n, name) ∈ signalNames := hsplit ▸ List.mem_append_right _ List.mem_cons_self
  have hnames : (signalNames.all fun p => p.2.toList.all fun c => !endsLine c) = true := by decide
  exact Text.forall_of_all (List.all_eq_true.1 hnames _ hmem)

theorem isLine_signalText (n : Nat) : IsLine (signalText n) := by
  have hsignal : IsLine "signal: " := ⟨by decide, Text.forall_of_all (by decide)⟩
  have htext := hsignal.append (endsLine_of_mem_digitsOf (n := n))
  rw [signalText]
  cases hname : signalNames.lookup n with
  | none => exact htext
  | some name =>
    have hopened : IsLine (" (" ++ name) :=
      IsLine.append ⟨by decide, Text.forall_of_all (by decide)⟩ (endsLine_of_lookup hname)
    exact htext.append (hopened.append (b := ")") (Text.forall_of_all (by decide))).whole

/-- An exit status is worded in one line. -/
theorem ExitStatus.isLine_message (status : ExitStatus) : IsLine status.message := by
  cases status with
  | code n =>
    have hcode : IsLine "exit status: " := ⟨by decide, Text.forall_of_all (by decide)⟩
    exact hcode.append endsLine_of_mem_digitsOf
  | signal n coreDumped =>
    cases coreDumped with
    | false => exact isLine_signalText n
    | true =>
      exact (isLine_signalText n).append (b := " (core dumped)") (Text.forall_of_all (by decide))

namespace Tool

/-! ## What a failed run says -/

variable {text message : String} {status : ExitStatus}

/-- What a failed run has to say for itself: its last line that mentions an error, or if
    there is none its last line that is not blank, or if all are its exit status. -/
inductive LastWords (text : String) (status : ExitStatus) : String → Prop where
  | error {before : List String} {line : String} (h : errorLines text = before ++ [line]) :
      LastWords text status line
  | line {before after : List (List Char)} {line : List Char} (hnone : errorLines text = [])
      (h : lines text.toList = before ++ line :: after) (hline : line ≠ [])
      (hafter : ∀ l ∈ after, l = []) : LastWords text status (String.ofList line)
  | status (h : ∀ l ∈ lines text.toList, l = []) : LastWords text status status.message

theorem lastWords_spec (text : String) (status : ExitStatus) :
    LastWords text status (lastWords text status) := by
  rw [lastWords]
  cases herror : (errorLines text).getLast? with
  | some line =>
    obtain ⟨before, hbefore⟩ := List.getLast?_eq_some_iff.1 herror
    exact .error hbefore
  | none =>
    cases hlast : Text.lastLine? text with
    | some l =>
      obtain ⟨before, line, after, hlines, hne, hafter, rfl⟩ := Text.lastLine?_eq_some_iff.1 hlast
      exact .line (List.getLast?_eq_none_iff.1 herror) hlines hne hafter
    | none => exact .status (Text.lastLine?_eq_none_iff.1 hlast)

theorem LastWords.isLine (h : LastWords text status message) : IsLine message := by
  cases h with
  | error h => exact Text.isLine_of_mem_errorLines (h ▸ List.mem_append_right _ List.mem_cons_self)
  | line _ h hline _ =>
    exact Text.isLine_of_mem_lines (h ▸ List.mem_append_right _ List.mem_cons_self) hline
  | status _ => exact status.isLine_message

/-- A run that ends badly fails with its last words. -/
theorem run_of_spawn {h : Host} {d d' : Disk} {program : Path} {args : List String}
    {c : Completion} (hspawn : h.spawn d program (args.map Text.encode) = (d', .ok c))
    (hstatus : c.status ≠ .code 0) :
    run h d program args = (d', .error (.toolFailed (nameOf program)
      (lastWords (Text.decodeLossy c.stderr) c.status))) := by
  rw [run, hspawn]
  simp only [judge, if_neg hstatus]

end Tool

/-- **Output is read line by line.**  Line ends between two outputs join what is reported
    of them; what is reported are the lines of an output, without the blanks around them,
    that name an error, all of them and in order.  A program that ends badly fails with
    the last of these, or else its last line that is not blank, or else its exit status,
    and so always with one line. -/
theorem outputs_by_lines :
    (∀ a sep b : String, sep ≠ "" → (∀ c ∈ sep.toList, endsLine c = true) →
      errorLines (a ++ sep ++ b) = errorLines a ++ errorLines b) ∧
    (∀ text : String,
      (∃ ps, IsCut endsLine text.toList ps ∧
        errorLines text = ((ps.map trimmed).filter (NamesError ·)).map String.ofList) ∧
      ∀ line ∈ errorLines text, IsLine line ∧ IsTrimmed line.toList ∧ NamesError line.toList) ∧
    ∀ (h : Host) (d d' : Disk) (program : Path) (args : List String) (c : Completion),
      h.spawn d program (args.map Text.encode) = (d', .ok c) → c.status ≠ .code 0 →
      ∃ message, Tool.run h d program args =
          (d', .error (.toolFailed (Tool.nameOf program) message)) ∧
        Tool.LastWords (Text.decodeLossy c.stderr) c.status message ∧ IsLine message := by
  refine ⟨fun a sep b hne hsep => Text.errorLines_append hne hsep a b, fun text => ⟨?_, ?_⟩, ?_⟩
  · exact ⟨_, Text.isCut_pieces _, Text.errorLines_eq (Text.isCut_pieces _)⟩
  · exact fun line hline =>
      ⟨Text.isLine_of_mem_errorLines hline, Text.reported_of_mem_errorLines hline⟩
  · intro h d d' program args c hspawn hstatus
    have hwords := Tool.lastWords_spec (Text.decodeLossy c.stderr) c.status
    exact ⟨_, Tool.run_of_spawn hspawn hstatus, hwords, hwords.isLine⟩

/-- A host with an encoder that prints a text and ends. -/
def printingHost (text : String) (status : ExitStatus) : Host :=
  { Host.bare with searchPath := ["/path"] }.withScripts
    [⟨false, false, [], Text.encode text, status⟩]

/-- A disk with nothing but an encoder. -/
def encoderDisk : Disk :=
  ⟨[([Text.encode "path"], .directory),
    ([Text.encode "path", Text.encode "ffmpeg"], .program 0 [])]⟩

/-- Progress is written over with carriage returns, and an encoder that was killed says
    nothing else. -/
theorem outputs_by_lines_printed :
    errorLines ("frame=1\rError in frame 2 " ++ "\r\n" ++ "NO ERRORS\nbye") =
      ["Error in frame 2"] ++ ["NO ERRORS"] ∧
    ∃ message, Tool.run (printingHost " \r\n" (.signal 9 false)) encoderDisk "ffmpeg" ["-y"] =
        (encoderDisk, .error (.toolFailed "ffmpeg" message)) ∧
      Tool.LastWords " \r\n" (.signal 9 false) message ∧ IsLine message := by
  obtain ⟨happend, -, hrun⟩ := outputs_by_lines
  have hspawn : (printingHost " \r\n" (.signal 9 false)).spawn encoderDisk "ffmpeg"
      (["-y"].map Text.encode) = (encoderDisk, .ok ⟨[], Text.encode " \r\n", .signal 9 false⟩) := by
    rfl
  have hname : Tool.nameOf "ffmpeg" = "ffmpeg" := by decide +kernel
  have hstderr : Text.decodeLossy (Text.encode " \r\n") = " \r\n" := by decide +kernel
  obtain ⟨message, hmessage, hwords, hline⟩ := hrun _ _ _ _ _ _ hspawn (by decide)
  rw [hname] at hmessage
  rw [hstderr] at hwords
  refine ⟨?_, message, hmessage, hwords, hline⟩
  rw [happend _ _ _ (by decide) (List.all_eq_true.1 (by decide))]
  decide +kernel

end Transcode
