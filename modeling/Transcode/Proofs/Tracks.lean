/-
  Transcode — the tracks of a file.

  Streams become tracks one after another, and each kind counts its own.  So the tracks
  of a kind depend on the streams of that kind alone, wherever the others are.

  * `Media.tracksOfKind_append`: what one more stream adds to the tracks of a kind;
  * `Media.push_withStreams`: so one step of the pass adds it to both kinds;
  * `Media.foldl_push`: so one pass over all streams, with a count for each kind, finds both;
  * `Media.source_of_ofReport`: of all streams the first video stream alone tells the source;
  * `Media.tracks_of_streams`: what the streams of a report are turned into.
-/
import Mathlib.Data.List.Induction
import Transcode.Media.Report

namespace Transcode.Media

/-! ## Streams of a kind -/

namespace Stream

/-- What a video stream tells about the source: its sides, as far as they are positive, and
    its rate. -/
def source (s : Stream) : Source :=
  ⟨s.width.filter (0 < ·), s.height.filter (0 < ·), s.rate⟩

theorem not_isAudio_of_isVideo {s : Stream} (h : s.isVideo = true) : s.isAudio = false := by
  rw [isVideo, beq_iff_eq] at h
  rw [isAudio, h]
  decide

end Stream

section
variable {α : Type} {isKind : Stream → Bool} {track : UInt32 → Stream → α}

/-- The streams of a kind as tracks, numbered in their order from zero on. -/
def tracksOfKind (isKind : Stream → Bool) (track : UInt32 → Stream → α)
    (streams : List Stream) : List α :=
  (streams.filter isKind).mapIdx fun i s => track (UInt32.ofNat i) s

/-- **One more stream** is the next track of its kind, or none. -/
theorem tracksOfKind_append (streams : List Stream) (s : Stream) :
    tracksOfKind isKind track (streams ++ [s]) = tracksOfKind isKind track streams ++
      if isKind s then [track (UInt32.ofNat (tracksOfKind isKind track streams).length) s]
      else [] := by
  rw [tracksOfKind, List.filter_append, List.mapIdx_append, ← tracksOfKind, tracksOfKind,
    List.length_mapIdx]
  cases h : isKind s with
  | false => simp [h]
  | true => simp [h]

theorem head?_tracksOfKind (streams : List Stream) :
    (tracksOfKind isKind track streams).head? = (streams.find? isKind).map (track 0) := by
  rw [tracksOfKind, List.head?_mapIdx, List.head?_filter]
  rfl

end

/-- A file with the tracks of streams. -/
def withStreams (m : Media) (streams : List Stream) : Media :=
  { m with
    video := tracksOfKind Stream.isVideo Stream.videoTrack streams
    audio := tracksOfKind Stream.isAudio Stream.audioTrack streams }

/-- **One step of the pass**: the count of each kind is the length of what it has so far. -/
theorem push_withStreams (m : Media) (streams : List Stream) (s : Stream) :
    (m.withStreams streams).push s = m.withStreams (streams ++ [s]) := by
  simp only [withStreams, tracksOfKind_append]
  cases hvideo : s.isVideo with
  | true => simp [push, hvideo, Stream.not_isAudio_of_isVideo hvideo]
  | false =>
    cases haudio : s.isAudio with
    | true => simp [push, hvideo, haudio]
    | false => simp [push, hvideo, haudio]

/-- **One pass over the streams** finds the tracks of both kinds, wherever the streams of the
    other are. -/
theorem foldl_push (m : Media) (streams : List Stream) :
    streams.foldl push (m.withStreams []) = m.withStreams streams := by
  induction streams using List.reverseRecOn with
  | nil => rfl
  | append_singleton streams s ih =>
    rw [List.foldl_append, List.foldl_cons, List.foldl_nil, ih, push_withStreams]

/-! ## What reports are turned into -/

section
variable {file : Path} {r : Report} {m : Media}

/-- A description is one of the container, with the tracks of the streams. -/
theorem ofReport_eq_ok_iff :
    ofReport file r = .ok m ↔
      ∃ duration, (r.container.map Container.play).getD (.ok none) = .ok duration ∧
        m = (⟨file, ((r.container.bind (·.size)).map sizeOf).getD 0,
          (r.container.bind (·.format)).getD "", duration, [], []⟩ : Media).withStreams
            r.streams := by
  unfold ofReport
  cases (r.container.map Container.play).getD (.ok none) with
  | error e => simp
  | ok duration =>
    simp only [Except.ok.injEq, exists_eq_left']
    rw [← foldl_push]
    exact eq_comm

theorem withStreams_of_ofReport (h : ofReport file r = .ok m) : m.withStreams r.streams = m := by
  obtain ⟨_, -, rfl⟩ := ofReport_eq_ok_iff.1 h
  rfl

end

theorem knownSide_getD (n : Option UInt32) : knownSide (n.getD 0) = n.filter (0 < ·) := by
  cases n with
  | none => rfl
  | some n => simp [knownSide, Option.filter]

theorem source_withStreams (m : Media) (streams : List Stream) :
    (m.withStreams streams).source =
      ((streams.find? Stream.isVideo).map Stream.source).getD .unknown := by
  rw [source, withStreams, head?_tracksOfKind]
  cases streams.find? Stream.isVideo with
  | none => rfl
  | some s => simp [Stream.source, Stream.videoTrack, knownSide_getD]

/-- **The first video stream tells the source**, and no other stream does. -/
theorem source_of_ofReport {file : Path} {r : Report} {m : Media} (h : ofReport file r = .ok m) :
    m.source = ((r.streams.find? Stream.isVideo).map Stream.source).getD .unknown := by
  rw [← source_withStreams m, withStreams_of_ofReport h]

end Transcode.Media
