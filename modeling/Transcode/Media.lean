/-
  Transcode — what is in a media file.

  The tracks of a file are numbered by kind, from zero on, in words of 32 bits.
  Encoding needs to know only the size and the rate of the first video track
  (`Media.source`); a side of zero pixels is not known.
-/
import Transcode.Source
import Transcode.Path
import Transcode.Document

namespace Transcode

/-- A video track. -/
structure VideoTrack where
  index : UInt32
  codec : String
  frame : FrameSize
  frameRate : Option Binary64
  deriving DecidableEq

/-- An audio track. -/
structure AudioTrack where
  index : UInt32
  codec : String
  channels : UInt32
  sampleRate : Option UInt32
  deriving DecidableEq

/-- What is in a media file. -/
structure Media where
  file : Path
  /-- The size of the file in bytes. -/
  size : Nat
  /-- The name of the container format. -/
  container : String
  /-- How long it plays, in nanoseconds. -/
  duration : Option Nat
  video : List VideoTrack
  audio : List AudioTrack
  deriving DecidableEq

namespace Media

/-- How many nanoseconds make a second. -/
def nanosecond : Nat := 1000000000

/-- A side of a frame, unless it is zero. -/
def knownSide (n : UInt32) : Option UInt32 :=
  if 0 < n then some n else none

/-- What encoding has to know about the file. -/
def source (m : Media) : Source :=
  match m.video.head? with
  | some t => ⟨knownSide t.frame.width, knownSide t.frame.height, t.frameRate⟩
  | none => .unknown

/-! ## As a document -/

/-- A whole number as a document. -/
def count (n : Nat) : Document :=
  .integer n

/-- What may be missing as a document. -/
def orNull {α : Type} (f : α → Document) : Option α → Document
  | some a => f a
  | none => .null

/-- A duration as a document: whole seconds, and nanoseconds besides. -/
def durationDocument (d : Nat) : Document :=
  .table [("secs", count (d / nanosecond)), ("nanos", count (d % nanosecond))]

/-- A video track as a document. -/
def videoDocument (t : VideoTrack) : Document :=
  .table [("index", count t.index.toNat), ("codec", .text t.codec),
    ("width", count t.frame.width.toNat), ("height", count t.frame.height.toNat),
    ("frame_rate", orNull .float t.frameRate)]

/-- An audio track as a document. -/
def audioDocument (t : AudioTrack) : Document :=
  .table [("index", count t.index.toNat), ("codec", .text t.codec),
    ("channels", count t.channels.toNat),
    ("sample_rate", orNull (fun r => count r.toNat) t.sampleRate)]

/-- The whole description as a document, for a file whose path is a text. -/
def toDocument (m : Media) (file : String) : Document :=
  .table [("file_path", .text file), ("file_size", count m.size), ("container", .text m.container),
    ("duration", orNull durationDocument m.duration),
    ("video_tracks", .list (m.video.map videoDocument)),
    ("audio_tracks", .list (m.audio.map audioDocument))]

end Media

end Transcode
