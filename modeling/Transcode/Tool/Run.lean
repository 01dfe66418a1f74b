/-
  Transcode — running tools.

  A run is judged by its exit status.  What a failed run has to say for itself is
  the last line that mentions an error, or else the last line at all, or else the
  exit status, so it is never blank.

  `probe` asks a prober for its report on a file.
-/
import Transcode.Tool
import Transcode.Media.Report

namespace Transcode

open Text (Bytes)

/-- The names of signals. -/
def signalNames : List (Nat × String) :=
  [(1, "SIGHUP"), (2, "SIGINT"), (3, "SIGQUIT"), (4, "SIGILL"), (5, "SIGTRAP"), (6, "SIGABRT"),
   (7, "SIGBUS"), (8, "SIGFPE"), (9, "SIGKILL"), (10, "SIGUSR1"), (11, "SIGSEGV"),
   (12, "SIGUSR2"), (13, "SIGPIPE"), (14, "SIGALRM"), (15, "SIGTERM"), (16, "SIGSTKFLT"),
   (17, "SIGCHLD"), (18, "SIGCONT"), (19, "SIGSTOP"), (20, "SIGTSTP"), (21, "SIGTTIN"),
   (22, "SIGTTOU"), (23, "SIGURG"), (24, "SIGXCPU"), (25, "SIGXFSZ"), (26, "SIGVTALRM"),
   (27, "SIGPROF"), (28, "SIGWINCH"), (29, "SIGIO"), (30, "SIGPWR"), (31, "SIGSYS")]

/-- The wording of a signal, with its name if it has one. -/
def signalText (n : Nat) : String :=
  let text := "signal: " ++ String.ofList (digitsOf n)
  match signalNames.lookup n with
  | some name => text ++ s!" ({name})"
  | none => text

/-- The wording of how a program ended. -/
def ExitStatus.message : ExitStatus → String
  | code n => "exit status: " ++ String.ofList (digitsOf n)
  | signal n coreDumped => if coreDumped then signalText n ++ " (core dumped)" else signalText n

namespace Tool

/-- What a program is called in messages. -/
def nameOf (program : Path) : String :=
  match program.fileName? with
  | some n => Text.decodeLossy n
  | none => program.display

/-- The output of a successful run. -/
structure Output where
  stdout : String
  stderr : String
  errorLines : List String
  deriving DecidableEq, Repr

/-- A program that cannot be started: not found, or refused. -/
def startError (program : Path) : IoError → ToolError
  | .os .notFound => .toolNotFound (nameOf program)
  | e => .io e

/-- What a failed run has to say for itself. -/
def lastWords (stderr : String) (status : ExitStatus) : String :=
  ((Text.errorLines stderr).getLast?.or (Text.lastLine? stderr)).getD status.message

/-- Judge a run that has ended. -/
def judge (program : Path) (c : Completion) : Except ToolError Output :=
  let stderr := Text.decodeLossy c.stderr
  if c.status = .code 0 then .ok ⟨Text.decodeLossy c.stdout, stderr, Text.errorLines stderr⟩
  else .error (.toolFailed (nameOf program) (lastWords stderr c.status))

/-- Run a program and judge it. -/
def run (h : Host) (d : Disk) (program : Path) (args : List String) :
    Disk × Except ToolError Output :=
  match h.spawn d program (args.map Text.encode) with
  | (d', .ok c) => (d', judge program c)
  | (d', .error e) => (d', .error (startError program e))

/-! ## Probing -/

/-- The arguments of a prober in front of the file. -/
def probeArgs : List String :=
  ["-v", "quiet", "-print_format", "json", "-show_format", "-show_streams"]

/-- What comes of asking for a report: a description, an error, or a duration that
    cannot be dealt with. -/
inductive Probing where
  | described (m : Media)
  | failed (e : ToolError)
  | endless

/-- Judge the answer of a prober. -/
def judgeReport (program file : Path) (c : Completion) : Probing :=
  if c.status ≠ .code 0 then
    .failed (.toolFailed (nameOf program) (Text.trim (Text.decodeLossy c.stderr)))
  else match Text.decode c.stdout with
    | .error e => .failed (.unreadable (nameOf program) e)
    | .ok text => match Media.ofReportText file text with
      | .ok m => .described m
      | .error .malformed => .failed .malformedReport
      | .error .endless => .endless

/-- Ask a prober about a file. -/
def probe (h : Host) (d : Disk) (program file : Path) : Disk × Probing :=
  if !h.fileExists d file then (d, .failed (.fileNotFound file))
  else match h.spawn d program (probeArgs.map Text.encode ++ [file.bytes]) with
    | (d', .ok c) => (d', judgeReport program file c)
    | (d', .error e) => (d', .failed (startError program e))

end Tool

end Transcode
