import Mathlib.Algebra.Group.Nat.Defs
import Media2.StreamData

/-!
# The packet reader's stream table

On opening a container the reader sets up a stream object for each stream of the
container, and the read loop indexes the table of these objects with the number
that libav gave the packet's stream.

## Implementation notes

Set-up consults libavcodec once per stream and the answers need not agree, so
they are a function of the stream's number. A stream object is told apart by the
number of the stream it was made for.
-/

namespace Media2

/-- An opened container. libav numbers its streams by an `int`, in order. -/
structure FormatContext where
  streams : List AVStream
  index_eq : ∀ i (h : i < streams.length), streams[i].index = i
  length_lt : streams.length < 2 ^ 31

/-- The three vectors of stream objects that a reader holds. -/
structure StreamTables where
  streams : List Stream
  audioStreams : List Stream
  videoStreams : List Stream
  deriving DecidableEq

/-- The vectors of a new reader, and of one that was closed. -/
def StreamTables.empty : StreamTables := ⟨[], [], []⟩

namespace PacketReader

/-- What `setupStreams` sends to the state machine. -/
inductive Event
  | openError (err : String)
  | openSuccess
  deriving DecidableEq

/-- The vectors and the local variable that the loop of `setupStreams` changes. -/
structure Progress where
  tables : StreamTables
  foundStreams : Bool
  deriving DecidableEq

/-- The vectors after `setupStreams`, the events it sent and its return value. -/
structure Opened where
  tables : StreamTables
  events : List Event
  foundStreams : Bool
  deriving DecidableEq

/-- The stream data before a decoder is looked for. -/
def newData (filename : String) (av : AVStream) : StreamData where
  filename := filename
  stream := some av
  timeBase := av.timeBase
  avgFrameRate := ⟨0, 0⟩
  rFrameRate := ⟨0, 0⟩
  parameters := some av.codecpar
  mediaType := AVMediaType.unknown
  codec := none
  context := none

/-- A context as `avcodec_alloc_context3` and `avcodec_parameters_to_context` leave it. -/
def newContext (av : AVStream) (codec : AVCodec) : AVCodecContext where
  codec := codec
  parameters := some av.codecpar
  timeBase := ⟨0, 1⟩
  opened := false

/-- The stream object of a container stream whose codec was opened. -/
def openedStream (filename : String) (av : AVStream) (codec : AVCodec) : Stream where
  id := av.index
  data := some { newData filename av with
    codec := some codec
    mediaType := codec.type
    context := some { newContext av codec with opened := true } }

/-- The body of the loop over the streams of the container. -/
def setupStream (libav : Nat → Libav) (filename : String) (s : Progress) (av : AVStream) :
    Progress :=
  match (libav av.index).findDecoder av.codecpar.codecId with
  | none => s
  | some codec =>
      if (libav av.index).allocContext codec then
        if (libav av.index).openContext (newContext av codec) then
          let stream := openedStream filename av codec
          { foundStreams := true
            tables := {
              videoStreams :=
                if codec.type = AVMediaType.video then s.tables.videoStreams ++ [stream]
                else s.tables.videoStreams
              audioStreams :=
                if codec.type = AVMediaType.audio then s.tables.audioStreams ++ [stream]
                else s.tables.audioStreams
              streams := s.tables.streams ++ [stream] } }
        else
          let stream : Stream := { id := av.index, data := none }
          { s with tables.streams := s.tables.streams ++ [stream] }
      -- like a missing decoder, this outcome does not reach the `push_back`
      else s

/-- `setupStreams`. `found` is whether `avformat_find_stream_info` succeeds. -/
def setupStreams (libav : Nat → Libav) (filename : String) (found : Bool)
    (formatContext : FormatContext) (tables : StreamTables) : Opened :=
  let s : Progress × List Event :=
    if found then (formatContext.streams.foldl (setupStream libav filename) ⟨tables, false⟩, [])
    else
      -- `close` empties the vectors before the error is sent
      (⟨StreamTables.empty, false⟩, [.openError ("Could not find any streams in " ++ filename)])
  let event :=
    if s.1.foundStreams then .openSuccess
    else .openError ("Could not open any streams in " ++ filename)
  ⟨s.1.tables, s.2 ++ [event], s.1.foundStreams⟩

/-- `streams[streamIndex]`; a negative index is an enormous one to the vector. -/
def streamAt (streams : List Stream) (streamIndex : Int32) : Except Fault Stream :=
  if h : 0 ≤ streamIndex.toInt ∧ streamIndex.toInt.toNat < streams.length then
    .ok streams[streamIndex.toInt.toNat]
  else .error .outOfRange

/-- What the read loop of `processPrivately` does with a packet it has read. -/
def forwardRead (streams : List Stream) (packet : Packet) : Except Fault (Option Delivery) := do
  let stream ← streamAt streams packet.val.streamIndex
  if stream.data.isSome then pure (some (stream.forward packet)) else pure none

/-- What set-up pushes for one stream of the container. -/
def entry (libav : Nat → Libav) (filename : String) (av : AVStream) : Option Stream :=
  match (libav av.index).findDecoder av.codecpar.codecId with
  | none => none
  | some codec =>
      if (libav av.index).allocContext codec then
        if (libav av.index).openContext (newContext av codec) then
          some (openedStream filename av codec)
        else some ⟨av.index, none⟩
      else none

section Setup

variable (libav : Nat → Libav) (filename : String)

/-- One turn of the loop appends the stream's entry, if it has one. -/
theorem setupStream_streams (s : Progress) (av : AVStream) :
    (setupStream libav filename s av).tables.streams =
      s.tables.streams ++ (entry libav filename av).toList := by
  unfold entry setupStream
  split
  · simp
  · split
    · split <;> rfl
    · simp

/-- The whole loop appends the entries that there are. -/
theorem foldl_setupStream_streams (avs : List AVStream) (s : Progress) :
    (avs.foldl (setupStream libav filename) s).tables.streams =
      s.tables.streams ++ avs.filterMap (entry libav filename) := by
  induction avs generalizing s with
  | nil => simp
  | cons av avs ih =>
      rw [List.foldl_cons, ih, setupStream_streams, List.filterMap_cons]
      cases entry libav filename av <;> simp

/-- Set-up that succeeds on fresh vectors leaves the entries in the table. -/
theorem setupStreams_streams {found : Bool} {formatContext : FormatContext}
    (h : (setupStreams libav filename found formatContext StreamTables.empty).foundStreams = true) :
    (setupStreams libav filename found formatContext StreamTables.empty).tables.streams =
      formatContext.streams.filterMap (entry libav filename) := by
  cases found with
  | false => simp [setupStreams] at h
  | true => exact foldl_setupStream_streams libav filename formatContext.streams ⟨_, false⟩

/-- A stream has an entry when it has a decoder and there is room for a context. -/
theorem entry_isSome (av : AVStream) :
    (entry libav filename av).isSome = true ↔
      (libav av.index).Supports av.codecpar.codecId := by
  unfold entry Libav.Supports
  cases (libav av.index).findDecoder av.codecpar.codecId with
  | none => simp
  | some codec =>
      dsimp only
      split
      · rename_i halloc
        split <;> simp [halloc]
      · rename_i halloc
        simp [halloc]

/-- An entry is numbered by its stream and refers to it, if it has data at all. -/
theorem entry_refers {av : AVStream} {stream : Stream} (h : entry libav filename av = some stream) :
    stream.id = av.index ∧ ∀ data ∈ stream.data, data.stream = some av := by
  unfold entry at h
  split at h
  · cases h
  · split at h
    · split at h
      · obtain rfl := Option.some.inj h
        refine ⟨rfl, ?_⟩
        intro data heq
        cases heq
        rfl
      · obtain rfl := Option.some.inj h
        refine ⟨rfl, ?_⟩
        intro data heq
        cases heq
    · cases h

/-- An entry with data is the stream of an opened codec. -/
theorem entry_opened {av : AVStream} {stream : Stream} {data : StreamData}
    (h : entry libav filename av = some stream) (hdata : stream.data = some data) :
    ∃ ctx, data.context = some ctx ∧ ctx.opened = true := by
  unfold entry at h
  split at h
  · cases h
  · split at h
    · split at h
      · obtain rfl := Option.some.inj h
        obtain rfl := Option.some.inj hdata
        exact ⟨_, rfl, rfl⟩
      · obtain rfl := Option.some.inj h
        cases hdata
    · cases h

end Setup

/-- The table lines up with the container: an entry for each stream, which has no
data or refers to that stream, so that every packet of the container finds the
entry of its own stream. -/
structure Aligned (formatContext : FormatContext) (streams : List Stream) : Prop where
  length_eq : streams.length = formatContext.streams.length
  refers : ∀ i (h : i < streams.length), streams[i].data = none ∨
    ∃ data av, streams[i].data = some data ∧ data.stream = some av ∧
      formatContext.streams[i]? = some av
  routes : ∀ packet : Packet, ∀ i < formatContext.streams.length,
    packet.val.streamIndex.toInt = i →
      ∃ delivered, forwardRead streams packet = .ok delivered ∧
        ∀ d ∈ delivered, d.packet = packet ∧ ∃ data av, d.data = some data ∧
          data.stream = some av ∧ formatContext.streams[i]? = some av

theorem streamAt_eq {streams : List Stream} {streamIndex : Int32} {i : Nat}
    (h : streamIndex.toInt = i) (hi : i < streams.length) :
    streamAt streams streamIndex = .ok streams[i] := by
  have hrange : 0 ≤ streamIndex.toInt ∧ streamIndex.toInt.toNat < streams.length := by omega
  have hnat : streamIndex.toInt.toNat = i := by omega
  rw [streamAt, dif_pos hrange]
  simp only [hnat]

/-- When nothing is filtered out, positions are kept. -/
theorem getElem_filterMap_of_isSome {α β : Type} {f : α → Option β} {l : List α}
    (hall : ∀ a ∈ l, (f a).isSome = true) {i : Nat} (h : i < (l.filterMap f).length) :
    ∃ a, l[i]? = some a ∧ f a = some (l.filterMap f)[i] := by
  have hmap : (l.filterMap f).map some = l.map f := by
    rw [List.map_filterMap_some_eq_filter_map_isSome, List.filter_eq_self]
    intro b hb
    obtain ⟨a, ha, rfl⟩ := List.mem_map.mp hb
    exact hall a ha
  have hget : (l.map f)[i]? = some (some (l.filterMap f)[i]) := by
    rw [← hmap, List.getElem?_map, List.getElem?_eq_getElem h]
    rfl
  rw [List.getElem?_map, Option.map_eq_some_iff] at hget
  exact hget

/-- A table whose entries refer to their own streams routes packets to them. -/
theorem Aligned.of_refers {formatContext : FormatContext} {streams : List Stream}
    (hlen : streams.length = formatContext.streams.length)
    (hrefers : ∀ i (h : i < streams.length), streams[i].data = none ∨
      ∃ data av, streams[i].data = some data ∧ data.stream = some av ∧
        formatContext.streams[i]? = some av) : Aligned formatContext streams where
  length_eq := hlen
  refers := hrefers
  routes := by
    intro packet i hi hindex
    have hi' : i < streams.length := hlen ▸ hi
    simp only [forwardRead, streamAt_eq hindex hi', bind, Except.bind, pure, Except.pure]
    rcases hrefers i hi' with hnone | ⟨data, av, hdata, hstream, hav⟩
    · refine ⟨none, by simp [hnone], ?_⟩
      intro d heq
      cases heq
    · refine ⟨some (streams[i].forward packet), by simp [hdata], ?_⟩
      intro d heq
      cases heq
      exact ⟨rfl, data, av, hdata, hstream, hav⟩

/-- When set-up succeeds, the table lines up with the container if and only if
every stream of the container has a decoder and an allocatable context. -/
theorem setupStreams_aligned_iff (libav : Nat → Libav) (filename : String) (found : Bool)
    (formatContext : FormatContext)
    (h : (setupStreams libav filename found formatContext StreamTables.empty).foundStreams = true) :
    Aligned formatContext
        (setupStreams libav filename found formatContext StreamTables.empty).tables.streams ↔
      ∀ i (hi : i < formatContext.streams.length),
        (libav i).Supports formatContext.streams[i].codecpar.codecId := by
  rw [setupStreams_streams libav filename h]
  have hentry : (∀ i (hi : i < formatContext.streams.length),
      (libav i).Supports formatContext.streams[i].codecpar.codecId) ↔
      ∀ av ∈ formatContext.streams, (entry libav filename av).isSome = true := by
    rw [List.forall_mem_iff_forall_getElem]
    apply forall₂_congr
    intro i hi
    rw [entry_isSome, formatContext.index_eq i hi]
  rw [hentry]
  constructor
  · intro haligned
    exact List.filterMap_length_eq_length.mp haligned.length_eq
  · intro hall
    have hlen := List.filterMap_length_eq_length.mpr hall
    apply Aligned.of_refers hlen
    intro i hi
    obtain ⟨av, hav, hentry⟩ := getElem_filterMap_of_isSome hall hi
    have hrefers := (entry_refers libav filename hentry).2
    cases hdata : (formatContext.streams.filterMap (entry libav filename))[i].data with
    | none => exact Or.inl rfl
    | some data => exact Or.inr ⟨data, av, rfl, hrefers data hdata, hav⟩

/-- A container of two streams, the first of which that libav cannot decode. -/
def sampleContainer : FormatContext where
  streams := [⟨0, ⟨1, 90000⟩, ⟨25, 1⟩, ⟨25, 1⟩, { AVCodecParameters.zero with codecId := 1 }⟩,
    ⟨1, ⟨1, 90000⟩, ⟨25, 1⟩, ⟨25, 1⟩, AVCodecParameters.zero⟩]
  index_eq := by decide
  length_lt := by decide

/-- The first stream has no decoder: set-up succeeds, but packets of the second
stream fall outside the table and those of the first go to the second. -/
theorem setupStreams_misaligned :
    (setupStreams (fun _ => Libav.sample) "sample.mp4" true sampleContainer
        StreamTables.empty).foundStreams = true ∧
      ¬ Aligned sampleContainer (setupStreams (fun _ => Libav.sample) "sample.mp4" true
        sampleContainer StreamTables.empty).tables.streams := by
  refine ⟨by decide, fun h => ?_⟩
  have hlen := h.length_eq
  revert hlen
  decide

theorem setupStreams_aligned_iff_sample :
    Aligned sampleContainer (setupStreams (fun _ => Libav.sample) "sample.mp4" true
        sampleContainer StreamTables.empty).tables.streams ↔
      ∀ i (hi : i < sampleContainer.streams.length),
        Libav.sample.Supports sampleContainer.streams[i].codecpar.codecId :=
  setupStreams_aligned_iff (fun _ => Libav.sample) "sample.mp4" true sampleContainer (by decide)

end PacketReader

end Media2
