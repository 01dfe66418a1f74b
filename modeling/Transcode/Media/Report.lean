/-
  Transcode — media files as `ffprobe` reports them.

  A report is a JSON record of the container and its streams, most of whose
  numbers are written as texts.  A text that is no number is as good as none; but
  a report whose duration is finite and too long for a clock of 64 bits is given
  up (`ReportError.endless`).

  * `Media.push` takes one more stream: a video or audio stream becomes the next
    track of its kind, and any other is passed over;
  * `FrameRate.ofRatio?` reads a rate, written as a ratio or as a number.
-/
import Transcode.Media
import Transcode.Document.Record
import Transcode.Json.Reader

namespace Transcode

/-- Why a report cannot be used. -/
inductive ReportError where
  /-- It is not JSON, or its fields are not what they should be. -/
  | malformed
  /-- Its duration has more seconds than fit into 64 bits. -/
  | endless
  deriving DecidableEq, Repr

/-- A number, blanks around it aside. -/
def Binary64.ofTrimmed? (cs : List Char) : Option Binary64 :=
  Binary64.ofChars? (Text.trimmed cs)

/-- A rate that is written as `num/den` or as a number.  A number has to be
    finite; of a ratio only the denominator zero is refused. -/
def FrameRate.ofRatio? (text : String) : Option Binary64 :=
  match Text.cutAt (· == '/') text.toList with
  | some (num, den) =>
    match Binary64.ofTrimmed? num, Binary64.ofTrimmed? den with
    | some n, some d => if d.eq (.zero false) then none else some (n.div d)
    | _, _ => none
  | none => (Binary64.ofTrimmed? text.toList).filter (·.isFinite)

namespace Media

/-! ## Records -/

/-- What a report says about the container. -/
structure Container where
  format : Option String
  duration : Option String
  size : Option String

/-- What a report says about a stream. -/
structure Stream where
  kind : Option String
  codec : Option String
  width : Option UInt32
  height : Option UInt32
  frameRate : Option String
  channels : Option UInt32
  sampleRate : Option String

/-- A report. -/
structure Report where
  container : Option Container
  streams : List Stream

/-- The form of records all of whose fields have to be there. -/
def wholeForm : ListForm := ⟨true, false⟩

/-- The form of records whose last fields may be left off. -/
def shortForm : ListForm := ⟨false, false⟩

/-- Read the container of a report. -/
def Container.ofDocument? (d : Document) : Option Container := do
  let r ← Record.ofDocument? ["format_name", "duration", "size"] wholeForm d
  return ⟨← r.optional "format_name" Document.asText, ← r.optional "duration" Document.asText,
    ← r.optional "size" Document.asText⟩

/-- Read a stream of a report. -/
def Stream.ofDocument? (d : Document) : Option Stream := do
  let r ← Record.ofDocument? ["codec_type", "codec_name", "width", "height", "r_frame_rate",
    "channels", "sample_rate"] wholeForm d
  return ⟨← r.optional "codec_type" Document.asText, ← r.optional "codec_name" Document.asText,
    ← r.optional "width" Document.asWord, ← r.optional "height" Document.asWord,
    ← r.optional "r_frame_rate" Document.asText, ← r.optional "channels" Document.asWord,
    ← r.optional "sample_rate" Document.asText⟩

/-- Read a report. -/
def Report.ofDocument? (d : Document) : Option Report := do
  let r ← Record.ofDocument? ["format", "streams"] shortForm d
  return ⟨← r.optional "format" Container.ofDocument?,
    ← r.orElse "streams" [] (Document.asList Stream.ofDocument?)⟩

/-! ## Streams -/

namespace Stream

/-- A stream of pictures. -/
def isVideo (s : Stream) : Bool :=
  s.kind == some "video"

/-- A stream of sound. -/
def isAudio (s : Stream) : Bool :=
  s.kind == some "audio"

/-- The rate that a stream gives, if it is one. -/
def rate (s : Stream) : Option Binary64 :=
  s.frameRate.bind FrameRate.ofRatio?

/-- The channels of an audio stream that does not say. -/
def usualChannels : UInt32 := 2

/-- The video track of a number that a stream is. -/
def videoTrack (i : UInt32) (s : Stream) : VideoTrack :=
  ⟨i, s.codec.getD "", ⟨s.width.getD 0, s.height.getD 0⟩, s.rate⟩

/-- The audio track of a number that a stream is. -/
def audioTrack (i : UInt32) (s : Stream) : AudioTrack :=
  ⟨i, s.codec.getD "", s.channels.getD usualChannels,
    (s.sampleRate.bind fun t => boundedNaturalOf? 4294967295 t.toList).map UInt32.ofNat⟩

end Stream

/-- One more stream of a file: the next track of its kind, or none. -/
def push (m : Media) (s : Stream) : Media :=
  if s.isVideo then
    { m with video := m.video ++ [s.videoTrack (UInt32.ofNat m.video.length)] }
  else if s.isAudio then
    { m with audio := m.audio ++ [s.audioTrack (UInt32.ofNat m.audio.length)] }
  else m

/-! ## Durations -/

/-- The nanoseconds of a number of seconds, to the nearest, a half going to the
    even one. -/
def nanoseconds (units : Nat) : Nat :=
  Binary64.halfEven (units * nanosecond) Binary64.one

/-- A duration in seconds; a number that is not finite or negative is none. -/
def durationOf (text : String) : Except ReportError (Option Nat) :=
  match Binary64.ofText? text with
  | some (.finite negative units _) =>
    if negative && units ≠ 0 then .ok none
    else if twoTo 64 * Binary64.one ≤ units then .error .endless
    else .ok (some (nanoseconds units))
  | _ => .ok none

/-- The duration of a container. -/
def Container.play (c : Container) : Except ReportError (Option Nat) :=
  match c.duration with
  | some t => durationOf t
  | none => .ok none

/-! ## The description -/

/-- A file size of 64 bits; a text that is none counts as zero. -/
def sizeOf (text : String) : Nat :=
  (boundedNaturalOf? 18446744073709551615 text.toList).getD 0

/-- The description in a report. -/
def ofReport (file : Path) (r : Report) : Except ReportError Media :=
  match (r.container.map Container.play).getD (.ok none) with
  | .error e => .error e
  | .ok duration =>
    .ok (r.streams.foldl push ⟨file, ((r.container.bind (·.size)).map sizeOf).getD 0,
      (r.container.bind (·.format)).getD "", duration, [], []⟩)

/-- The description in the text of a report. -/
def ofReportText (file : Path) (text : String) : Except ReportError Media :=
  match (Document.ofJson? text).bind Report.ofDocument? with
  | some r => ofReport file r
  | none => .error .malformed

end Media

end Transcode
