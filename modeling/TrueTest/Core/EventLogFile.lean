import TrueTest.Core.EventLog

/-!
# The file of an event log

`EventLogger` and `EventReplayer` of `core/event_log.h`. The logger writes a frame for each event
(its type, the size of its data and the data) and, at the end, an index with an entry for every
1000th event. The replayer finds the index from the end of the file, seeks to the frame that its
window starts with, and reads frames from there.

The file does not say whether its data is compressed. The replayer takes it for compressed if the
data of the first frame that it reads starts with the magic number of `zstd`. Uncompressed data
starts with the time of the event, so the time of one event decides how every frame is read.

`write` is the file of a list of events and `replay` all that the replayer gives. `replay_write`
says what that is, frame by frame; the rest of the module compares it with the list.
-/

namespace TrueTest.EventLog

open ByteFormat List

/-! ## Compression -/

/-- The number that the frames of `zstd` start with. -/
def zstdMagic : Nat := 0xFD2FB528

/-- The compression library. It is lossless, its output starts with the magic number, and its output
for a payload has a size that 32 bits hold. -/
structure Zstd where
  compress : Bytes → Bytes
  decompress : Bytes → Option Bytes
  decompress_compress : ∀ data, decompress (compress data) = some data
  take_compress : ∀ data, (compress data).take 4 = little 4 zstdMagic
  length_compress_lt : ∀ data, data.length < 2 ^ 31 → (compress data).length < 2 ^ 32

/-- A library that only puts the magic number first. -/
def Zstd.stored : Zstd where
  compress data := little 4 zstdMagic ++ data
  decompress bs := if bs.take 4 = little 4 zstdMagic then some (bs.drop 4) else none
  decompress_compress data := by
    rw [List.take_left' (length_little 4 _), List.drop_left' (length_little 4 _), if_pos rfl]
  take_compress data := List.take_left' (length_little 4 _)
  length_compress_lt data hdata := by
    rw [List.length_append, length_little]
    omega

variable (z : Zstd) (type : EventType) {compress : Bool} {es : List Event} {n i : Nat}

/-! ## The logger -/

structure IndexEntry where
  timestampUs : I64
  fileOffset : U64
deriving DecidableEq

/-- `EVENT_LOG_INDEX_INTERVAL`. -/
def indexInterval : Nat := 1000

def indexMagic : Nat := 0x58495454

structure EventLogger where
  compress : Bool
  out : Bytes
  index : List IndexEntry
  eventCount : Nat

def EventLogger.new (compress : Bool) : EventLogger := ⟨compress, [], [], 0⟩

def frameData (compress : Bool) (e : Event) : Bytes :=
  if compress then z.compress (serialise e) else serialise e

def frame (compress : Bool) (e : Event) : Bytes :=
  [little 1 (eventTypes.idxOf e.type), little 4 (frameData z compress e).length,
    frameData z compress e].flatten

def EventLogger.log (l : EventLogger) (e : Event) : EventLogger where
  compress := l.compress
  out := l.out ++ frame z l.compress e
  index :=
    if l.eventCount % indexInterval = 0 then
      l.index ++ [⟨BitVec.ofInt 64 (microseconds e.timestamp), BitVec.ofNat 64 l.out.length⟩]
    else l.index
  eventCount := l.eventCount + 1

def entryBytes (entry : IndexEntry) : Bytes :=
  [word64 entry.timestampUs, word64 entry.fileOffset].flatten

/-- The file with its index. -/
def EventLogger.finalize (l : EventLogger) : Bytes :=
  l.out ++ (l.index.flatMap entryBytes ++
    [word64 (BitVec.ofNat 64 l.out.length), little 4 l.index.length, little 4 indexMagic].flatten)

def logged (compress : Bool) (es : List Event) : EventLogger :=
  es.foldl (EventLogger.log z) (.new compress)

def write (compress : Bool) (es : List Event) : Bytes := (logged z compress es).finalize

/-! ## The replayer -/

def readEntry : Reader IndexEntry := do
  let timestampUs ← readWord64
  let fileOffset ← readWord64
  return ⟨timestampUs, fileOffset⟩

/-- The last 16 bytes: where the index is, how many entries it has, and a magic number. -/
def readTrailer : Reader (U64 × Nat × Nat) := do
  let indexOffset ← readWord64
  let entryCount ← readNat 4
  let magic ← readNat 4
  return (indexOffset, entryCount, magic)

structure EventReplayer where
  fileSize : Nat
  hasIndex : Bool
  dataEnd : Int
  /-- There is no index if it could not be read: the stream has failed and nothing more is read. -/
  index : Option (List IndexEntry)
  compressed : Bool
  replayFromUs : Int
  replayToUs : Int

variable (r : EventReplayer)

/-- The first part of the constructor. A position is a signed number. -/
def EventReplayer.readIndex (file : Bytes) (replayFromUs replayToUs : Int) : EventReplayer :=
  match if 16 ≤ file.length then readTrailer (file.drop (file.length - 16)) else none with
  | none => ⟨file.length, false, 0, some [], false, replayFromUs, replayToUs⟩
  | some ((indexOffset, entryCount, magic), _) =>
    if magic = indexMagic then
      ⟨file.length, true, indexOffset.toInt,
        (readTimes readEntry entryCount (file.drop indexOffset.toNat)).map Prod.fst,
        false, replayFromUs, replayToUs⟩
    else ⟨file.length, false, file.length, some [], false, replayFromUs, replayToUs⟩

/-- The first entry that is after a time, as `std::upper_bound` finds it in a sorted index. -/
def upperBound (index : List IndexEntry) (ts : Int) : Nat :=
  (index.takeWhile fun entry => decide (entry.timestampUs.toInt ≤ ts)).length

/-- The position that the replayer seeks to: that of the entry before the first one after the start
of the window, or of the first entry. -/
def seekOffset (index : List IndexEntry) (replayFromUs : Int) : Nat :=
  if 0 < replayFromUs then
    match index[upperBound index replayFromUs - 1]? with
    | some entry => entry.fileOffset.toNat
    | none => 0
  else 0

/-- The type, the size and the start of the data of the next frame. -/
def readPeek : Reader (Nat × Nat) := do
  let _ ← readBytes 1
  let payloadSize ← readNat 4
  let zmagic ← readNat 4
  return (payloadSize, zmagic)

/-- Does the data of the next frame start with the magic number? -/
def peekCompressed (stream : Bytes) : Bool :=
  match readPeek stream with
  | some ((payloadSize, zmagic), _) => decide (4 ≤ payloadSize ∧ zmagic = zstdMagic)
  | none => false

def readFrame : Reader (Nat × Bytes) := do
  let type ← readNat 1
  let payloadSize ← readNat 4
  let raw ← readBytes payloadSize
  return (type, raw)

/-- The event of a frame; an exception is `none`. -/
def EventReplayer.decode (type : Nat) (raw : Bytes) : Option Event := do
  let data ← if r.compressed then z.decompress raw else some raw
  let type ← eventTypes[type]?
  deserialise type data

/-- One turn of the loop in `next`. -/
inductive Turn
  | null
  | throws
  | skip (stream : Bytes)
  | give (ev : Event) (stream : Bytes)

def EventReplayer.turn (stream : Bytes) : Turn :=
  if r.hasIndex ∧ r.dataEnd ≤ (r.fileSize - stream.length : Nat) then .null
  else
    match readFrame stream with
    | none => .null
    | some ((type, raw), stream) =>
      match r.decode z type raw with
      | none => .throws
      | some ev =>
        if r.replayToUs < microseconds ev.timestamp then .null
        else if microseconds ev.timestamp < r.replayFromUs then .skip stream
        else .give ev stream

/-- Calls of `next` until it gives no event, in at most `n` turns; an exception is `none`. -/
def EventReplayer.drain (r : EventReplayer) : Nat → Bytes → Option (List Event)
  | 0, _ => some []
  | n + 1, stream =>
    match r.turn z stream with
    | .null => some []
    | .throws => none
    | .skip stream => r.drain n stream
    | .give ev stream => (r.drain n stream).map (ev :: ·)

/-- All that the replayer gives of a file. A turn that does not end the loop takes a byte or
more. -/
def replay (file : Bytes) (replayFromUs replayToUs : Int) : Option (List Event) :=
  let r := EventReplayer.readIndex file replayFromUs replayToUs
  match r.index with
  | none => some []
  | some index =>
    let stream := file.drop (seekOffset index replayFromUs)
    { r with compressed := peekCompressed stream }.drain z (file.length + 1) stream

/-! ## Frames -/

section Frames

variable {z}

theorem idxOf_lt : eventTypes.idxOf type < 256 ^ 1 := by cases type <;> decide

theorem getElem?_idxOf : eventTypes[eventTypes.idxOf type]? = some type := by
  cases type <;> rfl

variable (compress : Bool) (e : Event)

theorem length_frameData_lt : (frameData z compress e).length < 256 ^ 4 := by
  have hlt := length_serialise_lt e
  cases compress with
  | false => exact hlt.trans (by decide)
  | true => exact z.length_compress_lt _ hlt

theorem parses_frame :
    Parses readFrame (frame z compress e) (eventTypes.idxOf e.type, frameData z compress e) := by
  have htype := parses_readNat 1 (eventTypes.idxOf e.type)
  have hsize := parses_readNat 4 (frameData z compress e).length
  rw [Nat.mod_eq_of_lt (idxOf_lt e.type)] at htype
  rw [Nat.mod_eq_of_lt (length_frameData_lt compress e)] at hsize
  exact .field htype <| .field hsize <| .field (parses_readBytes rfl) <| .done _

theorem length_frame_pos : 0 < (frame z compress e).length := by
  simp only [frame, flatten_cons, length_append, length_little]
  omega

/-- The data of an event starts with the magic number of `zstd`. -/
def Event.Magic (e : Event) : Prop :=
  (BitVec.ofInt 64 (microseconds e.timestamp)).toNat % 2 ^ 32 = zstdMagic

instance (e : Event) : Decidable e.Magic := inferInstanceAs (Decidable (_ = _))

/-- The first four bytes of the data. -/
theorem value_take_frameData : 4 ≤ (frameData z compress e).length ∧
      (value ((frameData z compress e).take 4) = zstdMagic ↔ compress = true ∨ e.Magic) := by
  cases compress with
  | true =>
    have htake : (frameData z true e).take 4 = little 4 zstdMagic := z.take_compress _
    have hlen : min 4 (frameData z true e).length = 4 := by
      rw [← length_take, htake, length_little]
    exact ⟨by omega, by simp [htake, value_little, zstdMagic]⟩
  | false =>
    obtain ⟨tail, htail⟩ := serialise_eq_append e
    have hdata : frameData z false e = tsBytes e.timestamp ++ tail := htail
    have htake : (tsBytes e.timestamp ++ tail).take 4 =
        little 4 (BitVec.ofInt 64 (microseconds e.timestamp)).toNat := by
      rw [take_append_of_le_length (by rw [length_tsBytes]; decide)]
      exact take_little (by decide) _
    rw [hdata, htake, value_little, length_append, length_tsBytes]
    exact ⟨by omega, by simp [Event.Magic]⟩

theorem peekCompressed_frame (rest : Bytes) :
    peekCompressed (frame z compress e ++ rest) = decide (compress = true ∨ e.Magic) := by
  obtain ⟨hlen, hmagic⟩ := value_take_frameData (z := z) compress e
  have hsize := parses_readNat 4 (frameData z compress e).length
  rw [Nat.mod_eq_of_lt (length_frameData_lt compress e)] at hsize
  have hzmagic : Parses (readNat 4) ((frameData z compress e).take 4)
      (value ((frameData z compress e).take 4)) :=
    (parses_readBytes (by rw [length_take]; omega)).map
  have hpeek :
      Parses readPeek [little 1 (eventTypes.idxOf e.type), little 4 (frameData z compress e).length,
      (frameData z compress e).take 4].flatten
      ((frameData z compress e).length, value ((frameData z compress e).take 4)) :=
    .field (parses_readBytes (length_little 1 _)) <| .field hsize <| .field hzmagic <| .done _
  have hframe : frame z compress e ++ rest = [little 1 (eventTypes.idxOf e.type),
      little 4 (frameData z compress e).length, (frameData z compress e).take 4].flatten ++
        ((frameData z compress e).drop 4 ++ rest) := by
    simp [frame, ← append_assoc (take 4 _)]
  rw [peekCompressed, hframe, hpeek]
  simp [hlen, hmagic]

end Frames

/-! ## What a window gives -/

/-- What the loop gives if the frames decode to some events, or fail to. -/
def deliver (replayFromUs replayToUs : Int) : List (Option Event) → Option (List Event)
  | [] => some []
  | none :: _ => none
  | some ev :: evs =>
    if replayToUs < microseconds ev.timestamp then some []
    else if microseconds ev.timestamp < replayFromUs then deliver replayFromUs replayToUs evs
    else (deliver replayFromUs replayToUs evs).map (ev :: ·)

/-- **The loop gives the events of the frames up to the index.** -/
theorem drain_frames {r : EventReplayer} {tail : Bytes}
    (hindex : r.hasIndex = true) (hend : r.dataEnd = (r.fileSize - tail.length : Nat))
    (hsize : (es.flatMap (frame z compress) ++ tail).length ≤ r.fileSize) (hn : es.length < n) :
    r.drain z n (es.flatMap (frame z compress) ++ tail) =
      deliver r.replayFromUs r.replayToUs
        (es.map fun e => r.decode z (eventTypes.idxOf e.type) (frameData z compress e)) := by
  induction es generalizing n with
  | nil =>
    obtain ⟨n, rfl⟩ : ∃ m, n = m + 1 := ⟨n - 1, by simp at hn; omega⟩
    have hturn : r.turn z tail = .null := if_pos ⟨hindex, hend.le⟩
    rw [flatMap_nil, nil_append, EventReplayer.drain, hturn]
    rfl
  | cons e es ih =>
    obtain ⟨n, rfl⟩ : ∃ m, n = m + 1 := ⟨n - 1, by simp at hn; omega⟩
    rw [flatMap_cons, append_assoc, length_append] at hsize
    have hrest := ih (by omega) (by simp at hn; omega)
    have hbefore : ¬ (r.hasIndex = true ∧
        r.dataEnd ≤ (r.fileSize -
            (frame z compress e ++ (es.flatMap (frame z compress) ++ tail)).length : Nat)) := by
      rw [hend, length_append, length_append]
      have hpos := length_frame_pos (z := z) compress e
      rw [length_append] at hsize
      omega
    rw [flatMap_cons, append_assoc, EventReplayer.drain, EventReplayer.turn, if_neg hbefore,
      parses_frame compress e]
    simp only [map_cons]
    cases r.decode z (eventTypes.idxOf e.type) (frameData z compress e) with
    | none => rfl
    | some ev =>
      simp only [deliver]
      split_ifs
      · rfl
      · exact hrest
      · exact congrArg (Option.map (ev :: ·)) hrest

/-! ## The file -/

/-- The events that an index of `n` events has entries for. -/
def marks (n : Nat) : List Nat := (List.range n).filter fun i => decide (i % indexInterval = 0)

def micros (es : List Event) (i : Nat) : Int :=
  (es[i]?.map fun e => microseconds e.timestamp).getD 0

def entryAt (compress : Bool) (es : List Event) (i : Nat) : IndexEntry :=
  ⟨BitVec.ofInt 64 (micros es i), BitVec.ofNat 64 ((es.take i).flatMap (frame z compress)).length⟩

theorem mem_marks : i ∈ marks n ↔ i < n ∧ i % indexInterval = 0 := by simp [marks]

theorem marks_succ (n : Nat) :
    marks (n + 1) = marks n ++ if n % indexInterval = 0 then [n] else [] := by
  rw [marks, marks, range_succ, filter_append, filter_singleton]
  split <;> simp_all

theorem entryAt_append (hi : i < es.length) (more : List Event) :
    entryAt z compress (es ++ more) i = entryAt z compress es i := by
  rw [entryAt, entryAt, micros, micros, getElem?_append_left hi, take_append_of_le_length hi.le]

variable (compress : Bool) (es : List Event) (i : Nat) {outs : List (Option Event)}
  {replayFromUs replayToUs : Int} {evs : List Event}

theorem logged_eq : logged z compress es = ⟨compress, es.flatMap (frame z compress),
      (marks es.length).map (entryAt z compress es), es.length⟩ := by
  induction es using reverseRecOn with
  | nil => rfl
  | append_singleton es e ih =>
    have hold : (marks es.length).map (entryAt z compress (es ++ [e])) =
        (marks es.length).map (entryAt z compress es) :=
      map_congr_left fun i hi => entryAt_append z (mem_marks.1 hi).1 _
    have hnew : entryAt z compress (es ++ [e]) es.length =
        ⟨BitVec.ofInt 64 (microseconds e.timestamp),
         BitVec.ofNat 64 (es.flatMap (frame z compress)).length⟩ := by
      simp [entryAt, micros]
    rw [logged, foldl_append, foldl_cons, foldl_nil]
    rw [logged] at ih
    rw [ih, EventLogger.log]
    simp only [flatMap_append, flatMap_singleton, length_append, length_singleton,
      EventLogger.mk.injEq, and_true, true_and]
    rw [marks_succ, map_append, hold]
    split
    · rw [map_singleton, hnew]
    · rw [map_nil, append_nil]

/-- The events that the index of a file has entries for: the number of entries has 32 bits. -/
def indexed (es : List Event) : List Nat :=
  (marks es.length).take ((marks es.length).length % 256 ^ 4)

/-- The index and the trailer. -/
def indexBytes (compress : Bool) (es : List Event) : Bytes :=
  ((marks es.length).map (entryAt z compress es)).flatMap entryBytes ++
    [word64 (BitVec.ofNat 64 (es.flatMap (frame z compress)).length),
      little 4 (marks es.length).length,
      little 4 indexMagic].flatten

theorem write_eq :
    write z compress es = es.flatMap (frame z compress) ++ indexBytes z compress es := by
  rw [write, logged_eq, EventLogger.finalize, length_map, indexBytes]

theorem parses_entry (entry : IndexEntry) : Parses readEntry (entryBytes entry) entry :=
  .field (parses_word64 _) <| .field (parses_word64 _) <| .done _

theorem parses_trailer (indexOffset : U64) (entryCount : Nat) :
    Parses readTrailer [word64 indexOffset, little 4 entryCount, little 4 indexMagic].flatten
      (indexOffset, entryCount % 256 ^ 4, indexMagic) :=
  .field (parses_word64 _) <| .field (parses_readNat 4 _) <|
    .field (parses_readNat 4 indexMagic) <| .done _

/-- The entries that the replayer reads are the first of the index. -/
theorem readTimes_indexBytes :
    (readTimes readEntry ((marks es.length).length % 256 ^ 4)
      (indexBytes z compress es)).map Prod.fst =
      some ((indexed es).map (entryAt z compress es)) := by
  have hcount :
      (marks es.length).length % 256 ^ 4 = ((indexed es).map (entryAt z compress es)).length := by
    rw [length_map, indexed, length_take]
    exact (min_eq_left (Nat.mod_le _ _)).symm
  have hsplit :
      (marks es.length).map (entryAt z compress es) = (indexed es).map (entryAt z compress es) ++
        ((marks es.length).drop ((marks es.length).length % 256 ^ 4)).map
          (entryAt z compress es) := by
    rw [← map_append, indexed, take_append_drop]
  rw [indexBytes, hsplit, flatMap_append, append_assoc, hcount, parses_readTimes parses_entry]
  rfl

theorem toNat_ofNat_of_lt (h : n < 2 ^ 63) : (BitVec.ofNat 64 n).toNat = n := by
  rw [BitVec.toNat_ofNat]
  omega

/-- A position in a stream has 64 bits, with a sign. -/
theorem readIndex_write {compress : Bool} {es : List Event}
    (hsize : (write z compress es).length < 2 ^ 63) (replayFromUs replayToUs : Int) :
    EventReplayer.readIndex (write z compress es) replayFromUs replayToUs =
      ⟨(write z compress es).length, true, (es.flatMap (frame z compress)).length,
        some ((indexed es).map (entryAt z compress es)), false, replayFromUs, replayToUs⟩ := by
  have hwrite := write_eq z compress es
  have hdata : (es.flatMap (frame z compress)).length < 2 ^ 63 := by
    rw [hwrite, length_append] at hsize
    omega
  have htrailer : 16 ≤ (write z compress es).length ∧
      (write z compress es).drop ((write z compress es).length - 16) =
        [word64 (BitVec.ofNat 64 (es.flatMap (frame z compress)).length),
          little 4 (marks es.length).length,
          little 4 indexMagic].flatten := by
    rw [hwrite, indexBytes, ← append_assoc]
    refine ⟨by simp; omega, drop_left' ?_⟩
    simp
    omega
  have hdrop : (write z compress es).drop (es.flatMap (frame z compress)).length =
      indexBytes z compress es := by
    rw [hwrite, drop_left' rfl]
  rw [EventReplayer.readIndex, if_pos htrailer.1, htrailer.2, (parses_trailer _ _).run]
  simp only [if_true, toNat_ofNat_of_lt hdata, hdrop, readTimes_indexBytes]
  rw [BitVec.toInt_eq_toNat_of_lt (by rw [toNat_ofNat_of_lt hdata]; omega), toNat_ofNat_of_lt hdata]

/-! ## What a file gives -/

/-- The event whose frame the replayer seeks to. -/
def sought (es : List Event) (replayFromUs : Int) : Nat :=
  if 0 < replayFromUs then
    (indexed es)[((indexed es).takeWhile fun i => decide (micros es i ≤ replayFromUs)).length
      - 1]?.getD 0
  else 0

theorem toInt_timestampUs : (entryAt z compress es i).timestampUs.toInt = micros es i := by
  rw [entryAt, micros]
  cases es[i]? with
  | none => rfl
  | some e => exact toInt_ofInt_microseconds e.timestamp

theorem flatMap_frame_split : es.flatMap (frame z compress) =
      (es.take i).flatMap (frame z compress) ++ (es.drop i).flatMap (frame z compress) := by
  rw [← flatMap_append, take_append_drop]

theorem length_le_flatMap_frame : es.length ≤ (es.flatMap (frame z compress)).length := by
  induction es with
  | nil => exact Nat.zero_le _
  | cons e es ih =>
    have hpos := length_frame_pos (z := z) compress e
    rw [flatMap_cons, length_append, length_cons]
    omega

theorem drop_write : (write z compress es).drop ((es.take i).flatMap (frame z compress)).length =
      (es.drop i).flatMap (frame z compress) ++ indexBytes z compress es := by
  rw [write_eq, flatMap_frame_split z compress es i, append_assoc, drop_left' rfl]

theorem upperBound_index (ts : Int) : upperBound ((indexed es).map (entryAt z compress es)) ts =
      ((indexed es).takeWhile fun i => decide (micros es i ≤ ts)).length := by
  rw [upperBound, takeWhile_map, length_map]
  simp only [Function.comp_def, toInt_timestampUs]

theorem seekOffset_index {compress : Bool} {es : List Event}
    (hsize : (write z compress es).length < 2 ^ 63) (replayFromUs : Int) :
    seekOffset ((indexed es).map (entryAt z compress es)) replayFromUs =
      ((es.take (sought es replayFromUs)).flatMap (frame z compress)).length := by
  rw [seekOffset, sought]
  split
  · rw [upperBound_index, getElem?_map]
    cases (indexed es)[((indexed es).takeWhile fun i => decide (micros es i ≤ replayFromUs)).length
      - 1]? with
    | none => simp
    | some i =>
      rw [write_eq, flatMap_frame_split z compress es i, length_append, length_append] at hsize
      exact toNat_ofNat_of_lt (by omega)
  · simp

/-- How the replayer reads the data of some events, the first of which decides. -/
def decoded (compress : Bool) (es : List Event) : List (Option Event) :=
  es.map fun e =>
    if es.head?.any fun first => decide (compress = true ∨ first.Magic) then
      (z.decompress (frameData z compress e)).bind (deserialise e.type)
    else deserialise e.type (frameData z compress e)

/-- **A file gives the events from the sought one on, each as its data is read.** -/
theorem replay_write {compress : Bool} {es : List Event}
    (hsize : (write z compress es).length < 2 ^ 63) (replayFromUs replayToUs : Int) :
    replay z (write z compress es) replayFromUs replayToUs =
      deliver replayFromUs replayToUs (decoded z compress (es.drop (sought es replayFromUs))) := by
  have hlen : (write z compress es).length =
      (es.flatMap (frame z compress)).length + (indexBytes z compress es).length := by
    rw [write_eq, length_append]
  have hsplit := congrArg length (flatMap_frame_split z compress es (sought es replayFromUs))
  rw [length_append] at hsplit
  have hcount := length_le_flatMap_frame z compress (es.drop (sought es replayFromUs))
  rw [replay, readIndex_write z hsize]
  simp only [seekOffset_index z hsize, drop_write]
  rw [drain_frames z rfl (by simp only [hlen]; omega) (by simp only [hlen, length_append]; omega)
    (by omega)]
  cases es.drop (sought es replayFromUs) with
  | nil => rfl
  | cons first later =>
    simp only [flatMap_cons, append_assoc, peekCompressed_frame, decoded, EventReplayer.decode,
      getElem?_idxOf, head?_cons, Option.any_some]
    split <;> simp [*]

/-! ## The whole log -/

def EventData.strings : EventData → List Bytes
  | .market e => [e.symbol]
  | .signal e => [e.symbol]
  | .order e => [e.symbol]
  | .fill e => [e.symbol]
  | .tick e => [e.symbol]
  | .l2Snapshot e => [e.symbol]
  | .l2Update e => [e.symbol]
  | .cancel e => [e.symbol, e.reason]
  | .amend e => [e.symbol]
  | .rejection e => [e.symbol, e.reason]
  | .funding e => [e.symbol, e.reason]

def EventData.times : EventData → List I64
  | .order e => [e.timestamp, e.earliestEligibleTs]
  | e => [e.timestamp]

/-- Short strings, and times in whole microseconds. -/
def Event.Loggable (e : Event) : Prop :=
  (∀ s ∈ e.data.strings, s.length < 65536) ∧ ∀ ts ∈ e.data.times, 1000 ∣ ts.toInt

instance (e : Event) : Decidable e.Loggable :=
  decidable_of_iff (e.data.strings.all (fun s => decide (s.length < 65536)) ∧
    e.data.times.all fun ts => decide (1000 ∣ ts.toInt)) (by simp [Event.Loggable])

/-- No strategy and no opener is named. -/
def EventData.Unattributed : EventData → Prop
  | .order e => e.strategyName = [] ∧ e.openerOrderId = 0
  | .fill e => e.strategyName = [] ∧ e.openerOrderId = 0
  | _ => True

instance : (d : EventData) → Decidable d.Unattributed
  | .order _ | .fill _ => inferInstanceAs (Decidable (_ ∧ _))
  | .market _ | .signal _ | .tick _ | .l2Snapshot _ | .l2Update _ | .cancel _ | .amend _
  | .rejection _ | .funding _ => isTrue trivial

/-- Nothing is set that a payload has no field for. -/
def Event.Bare (e : Event) : Prop := e.data.Unattributed ∧ e.recvNs = 0 ∧ e.latencyNs = 0

instance (e : Event) : Decidable e.Bare := inferInstanceAs (Decidable (_ ∧ _ ∧ _))

theorem cut_two_eq_self {s : Bytes} (h : s.length < 65536) : cut 2 s = s := cut_eq_self h

/-- All that a payload loses of a loggable event is who it belongs to and its stamps. -/
theorem kept_eq_self_iff {e : Event} (h : e.Loggable) : e.kept = e ↔ e.Bare := by
  obtain ⟨d, recvNs, latencyNs⟩ := e
  obtain ⟨hstrings, htimes⟩ := h
  have hts : ∀ ts ∈ d.times, keptTs ts = ts := fun ts hts => keptTs_eq_self_iff.2 (htimes ts hts)
  have hcut : ∀ s ∈ d.strings, cut 2 s = s := fun s hs => cut_two_eq_self (hstrings s hs)
  have hdata : d.kept = d ↔ d.Unattributed := by
    cases d with
    | order e =>
      cases e
      simp_all [EventData.kept, EventData.Unattributed, EventData.strings, EventData.times,
        eq_comm (a := ([] : Bytes)), eq_comm (a := 0#64)]
    | fill e =>
      cases e
      simp_all [EventData.kept, EventData.Unattributed, EventData.strings, EventData.times,
        EventData.timestamp, eq_comm (a := ([] : Bytes)), eq_comm (a := 0#64)]
    | _ =>
      simp_all [EventData.kept, EventData.Unattributed, EventData.strings, EventData.times,
        EventData.timestamp]
  simp only [Event.kept, Event.Bare, Event.mk.injEq, hdata, eq_comm (a := (0 : I64))]

theorem length_deliver_le
    (h : deliver replayFromUs replayToUs outs = some evs) : evs.length ≤ outs.length := by
  induction outs generalizing evs with
  | nil => cases h; exact le_rfl
  | cons out outs ih =>
    cases out with
    | none => cases h
    | some ev =>
      rw [deliver] at h
      rw [length_cons]
      split_ifs at h
      · cases h; exact Nat.zero_le _
      · exact (ih h).trans (Nat.le_succ _)
      · obtain ⟨evs', hevs', rfl⟩ := Option.map_eq_some_iff.1 h
        exact Nat.succ_le_succ (ih hevs')

/-- With no end to the window, as many events as frames are given just if each frame gives its event
and none is before the window. -/
theorem deliver_eq_some_iff (hto : ∀ ev : Event, microseconds ev.timestamp ≤ replayToUs)
    (hlen : evs.length = outs.length) :
    deliver replayFromUs replayToUs outs = some evs ↔
      outs = evs.map some ∧ ∀ ev ∈ evs, replayFromUs ≤ microseconds ev.timestamp := by
  induction outs generalizing evs with
  | nil =>
    obtain rfl := length_eq_zero_iff.1 hlen
    simp [deliver]
  | cons out outs ih =>
    obtain ⟨ev, evs, rfl⟩ := exists_cons_of_length_eq_add_one hlen
    have hlen' : evs.length = outs.length := Nat.succ.inj hlen
    cases out with
    | none => simp [deliver]
    | some ev' =>
      rw [deliver, if_neg (hto ev').not_gt]
      split_ifs with hbefore
      · -- a skipped frame leaves too few
        constructor
        · intro h
          have hle := length_deliver_le h
          rw [length_cons] at hle
          omega
        · rintro ⟨houts, hfrom⟩
          obtain ⟨rfl, -⟩ : ev' = ev ∧ _ := by simpa using houts
          exact absurd hbefore (hfrom ev' mem_cons_self).not_gt
      · rw [Option.map_eq_some_iff]
        simp only [cons.injEq, map_cons, Option.some.injEq, forall_mem_cons]
        constructor
        · rintro ⟨evs', hevs', rfl, rfl⟩
          obtain ⟨houts, hfrom⟩ := (ih hlen').1 hevs'
          exact ⟨⟨rfl, houts⟩, not_lt.1 hbefore, hfrom⟩
        · rintro ⟨⟨rfl, houts⟩, -, hfrom⟩
          exact ⟨evs, (ih hlen').2 ⟨houts, hfrom⟩, rfl, rfl⟩

/-- The replayer takes the data of an uncompressed log for frames of `zstd`. -/
def Misread (compress : Bool) (es : List Event) : Prop :=
  compress = false ∧ ∃ first ∈ es.head?, first.Magic

instance (compress : Bool) (es : List Event) : Decidable (Misread compress es) :=
  inferInstanceAs (Decidable (_ ∧ _))

theorem decoded_of_misread {compress : Bool} {es : List Event} (h : Misread compress es) :
    decoded z compress es = es.map fun e =>
      (z.decompress (serialise e)).bind (deserialise e.type) := by
  obtain ⟨rfl, first, hfirst, hmagic⟩ := h
  refine map_congr_left fun e _ => ?_
  rw [Option.mem_def.1 hfirst, if_pos (by simp [hmagic])]
  rfl

theorem decoded_of_not_misread {compress : Bool} {es : List Event} (h : ¬ Misread compress es) :
    decoded z compress es = es.map fun e => some e.kept := by
  refine map_congr_left fun e he => ?_
  obtain ⟨first, hfirst⟩ : ∃ first, es.head? = some first := by
    cases es with
    | nil => cases he
    | cons first _ => exact ⟨first, rfl⟩
  cases compress with
  | true =>
    rw [hfirst, if_pos (by simp), frameData, if_pos rfl, z.decompress_compress]
    exact deserialise_serialise e
  | false =>
    have hmagic : ¬ first.Magic := fun hmagic => h ⟨rfl, first, hfirst, hmagic⟩
    rw [hfirst, if_neg (by simp [hmagic]), frameData, if_neg (by decide)]
    exact deserialise_serialise e

def int64Max : Int := 2 ^ 63 - 1

theorem microseconds_le (ts : I64) : microseconds ts ≤ int64Max := by
  have hhigh := BitVec.toInt_lt (x := ts)
  have hle := microseconds_mul_le ts
  rw [int64Max]
  omega

theorem sought_of_nonpos {es : List Event} (h : replayFromUs ≤ 0) :
    sought es replayFromUs = 0 := if_neg h.not_gt

/-- **A log gives back its events just if they are bare, none is before the start, and the first one
does not make the replayer take the log for a compressed one.** If it does, the log is given back in
the case that each payload is a frame of a payload of its event. -/
theorem replay_write_eq_some_iff {compress : Bool} {es : List Event}
    (hloggable : ∀ e ∈ es, e.Loggable)
    (hsize : (write z compress es).length < 2 ^ 63) {replayFromUs : Int}
    (hfrom : replayFromUs ≤ 0) :
    replay z (write z compress es) replayFromUs int64Max = some es ↔
      (∀ e ∈ es, replayFromUs ≤ microseconds e.timestamp) ∧
        if Misread compress es then
          ∀ e ∈ es, (z.decompress (serialise e)).bind (deserialise e.type) = some e
        else ∀ e ∈ es, e.Bare := by
  rw [replay_write z hsize, sought_of_nonpos hfrom, drop_zero,
    deliver_eq_some_iff (fun ev => microseconds_le ev.timestamp) (by rw [decoded, length_map]),
    and_comm]
  refine and_congr_right fun _ => ?_
  split_ifs with hmisread
  · rw [decoded_of_misread z hmisread]
    exact map_inj_left
  · rw [decoded_of_not_misread z hmisread, map_inj_left]
    exact forall₂_congr fun e he => by rw [Option.some.injEq, kept_eq_self_iff (hloggable e he)]

def quote (us : Nat) : Event where
  data := .tick ⟨BitVec.ofNat 64 (us * 1000), [65], 0, 1, .bid⟩

def namedOrder : Event where
  data := .order
    { OrderEvent.new 1000 [65] .limit .buy 1 1 .gtc 0 with orderId := 1, strategyName := [66] }

theorem replay_write_eq_some_of_quotes :
    replay .stored (write .stored false [quote 1, quote 2]) 0 int64Max = some [quote 1, quote 2] :=
  (replay_write_eq_some_iff .stored (by decide) (by decide +kernel) le_rfl).2
    ⟨by decide, by rw [if_neg (by decide)]; decide⟩

/-- A quote as a live run stamps it. -/
def stampedQuote : Event := { quote 1 with recvNs := 5 }

/-- A quote whose time ends in the magic number is lost, and so are the name of a strategy and a
stamp. -/
theorem replay_write_ne_some :
    (quote zstdMagic).Loggable ∧
      replay .stored (write .stored false [quote zstdMagic]) 0 int64Max ≠ some [quote zstdMagic] ∧
      namedOrder.Loggable ∧ stampedQuote.Loggable ∧
      ∀ compress, replay .stored (write .stored compress [namedOrder]) 0 int64Max ≠
        some [namedOrder] ∧
        replay .stored (write .stored compress [stampedQuote]) 0 int64Max ≠
          some [stampedQuote] := by
  decide +kernel

end TrueTest.EventLog
