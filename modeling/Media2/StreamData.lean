import Media2.Segment

/-!
# Streams and what is known about them

A `StreamData` travels with every packet of a stream. It is filled in two
places: by the packet reader from an open container, and by `StreamData(Segment*)`
from a segment that came over the wire.
-/

namespace Media2

/-- The answers libavcodec gives while one stream is set up: whether it has a
decoder, whether there is memory for a context, whether the codec opens. -/
structure Libav where
  findDecoder : UInt32 → Option AVCodec
  allocContext : AVCodec → Bool
  openContext : AVCodecContext → Bool

/-- `StreamData`. A pointer that may be null is an option. -/
structure StreamData where
  filename : String
  stream : Option AVStream
  timeBase : AVRational
  avgFrameRate : AVRational
  rFrameRate : AVRational
  parameters : Option AVCodecParameters
  mediaType : AVMediaType
  codec : Option AVCodec
  context : Option AVCodecContext
  deriving DecidableEq

/-- A stream object; `id` stands for its address, which is how two pointers to
streams are compared. -/
structure Stream where
  id : Nat
  data : Option StreamData
  deriving DecidableEq

/-- The file name that a stream's data carry, which for a stream made from a segment
is the printed job id. -/
def Stream.name (stream : Stream) : Option String := stream.data.map StreamData.filename

/-- What one call of the subscribers is given, and on which stream. -/
structure Delivery where
  stream : Nat
  packet : Packet
  data : Option StreamData
  deriving DecidableEq

/-- `Stream::forward`. -/
def Stream.forward (stream : Stream) (packet : Packet) : Delivery where
  stream := stream.id
  packet := packet
  data := stream.data

/-- The name of the stream that the packet came on. -/
def Delivery.name (d : Delivery) : Option String := d.data.map StreamData.filename

/-- What `avcodec_alloc_context3`, the assignment of the time base and
`avcodec_parameters_to_context` leave in the context of a segment's stream. -/
def Segment.newContext (seg : Segment) (codec : AVCodec) : AVCodecContext where
  codec := codec
  parameters := some seg.parameters
  timeBase := seg.timeBase
  opened := false

/-- `StreamData::StreamData(Segment*, filename)`. -/
def StreamData.ofSegment (libav : Libav) (seg : Segment) (filename : String) :
    Except Fault StreamData :=
  match libav.findDecoder seg.parameters.codecId with
  | none => .error (.runtimeError
      ("Unknown codec id: " ++ toString seg.parameters.codecId.toInt32.toInt))
  | some codec =>
      if libav.allocContext codec then
        .ok {
          filename := filename
          stream := none
          timeBase := seg.timeBase
          avgFrameRate := ⟨0, 0⟩
          rFrameRate := ⟨0, 0⟩
          parameters := some seg.parameters
          mediaType := AVMediaType.unknown
          codec := some codec
          context := some (seg.newContext codec) }
      else .error (.runtimeError "Could not create codec context")

/-- `Stream::Stream(Segment*)`: the printed job id serves as the file name. -/
def Stream.ofSegment (libav : Libav) (id : Nat) (seg : Segment) : Except Fault Stream := do
  let data ← StreamData.ofSegment libav seg seg.jobId.unparse
  pure { id := id, data := some data }

/-- The first stream of a container, for concrete runs. -/
def AVStream.sample : AVStream := ⟨0, ⟨1, 90000⟩, ⟨25, 1⟩, ⟨25, 1⟩, AVCodecParameters.zero⟩

/-- Its data, as a video stream. -/
def StreamData.sampleVideo : StreamData where
  filename := "sample.mp4"
  stream := some AVStream.sample
  timeBase := ⟨1, 90000⟩
  avgFrameRate := ⟨0, 0⟩
  rFrameRate := ⟨0, 0⟩
  parameters := some AVCodecParameters.zero
  mediaType := AVMediaType.video
  codec := some ⟨0, AVMediaType.video⟩
  context := none

/-- A libav with one decoder, as in a build with few codecs. -/
def Libav.sample : Libav where
  findDecoder id := if id = 0 then some ⟨0, AVMediaType.video⟩ else none
  allocContext _ := true
  openContext _ := true

/-- A segment under the null job id with one key packet. -/
def Segment.sample : Segment :=
  (Segment.create Segment.Unassigned.zero Uuid.null AVCodecParameters.zero).append Packet.keyFrame

/-- Codec set-up of a segment's stream does not throw. -/
def Libav.Supports (libav : Libav) (codecId : UInt32) : Prop :=
  ∃ codec, libav.findDecoder codecId = some codec ∧ libav.allocContext codec = true

/-- What a rebuilt stream knows: everything that the segment carries, under the
job's name, with no container stream, no media type and an unopened context. -/
structure StreamData.Rebuilt (seg : Segment) (data : StreamData) : Prop where
  filename : data.filename = seg.jobId.unparse
  stream : data.stream = none
  timeBase : data.timeBase = seg.timeBase
  parameters : data.parameters = some seg.parameters
  mediaType : data.mediaType = AVMediaType.unknown
  unopened : ∀ ctx, data.context = some ctx → ctx.opened = false

theorem Stream.ofSegment_ok {libav : Libav} {id : Nat} {seg : Segment} {stream : Stream}
    (h : Stream.ofSegment libav id seg = .ok stream) :
    stream.id = id ∧ ∃ data, stream.data = some data ∧ data.Rebuilt seg := by
  unfold Stream.ofSegment StreamData.ofSegment at h
  cases hc : libav.findDecoder seg.parameters.codecId with
  | none => simp [hc, bind, Except.bind] at h
  | some codec =>
      cases ha : libav.allocContext codec with
      | false => simp [hc, ha, bind, Except.bind] at h
      | true =>
          simp only [hc, ha, if_pos, bind, Except.bind, pure, Except.pure, Except.ok.injEq] at h
          subst h
          refine ⟨rfl, _, rfl, rfl, rfl, rfl, rfl, rfl, ?_⟩
          intro ctx heq
          cases heq
          rfl

end Media2
