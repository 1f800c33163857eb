import Media2.Serialization.RoundTrip
import Media2.StreamData

/-!
# Sending segments over ZeroMQ

A publisher sends a segment as five frames: an envelope of job id, media type,
width and height, and the serialised segment. The subscriber copies the envelope
into local variables and passes the rest on as a buffer, which a republisher
sends on under any envelope. ZeroMQ delivers frames unchanged.
-/

namespace Media2

open ByteFormat Serialization

/-- A `std::stringstream`: all that was put in, and how far it was read. -/
structure StringStream where
  contents : List UInt8
  readPos : Nat
  deriving DecidableEq

namespace StringStream

/-- A stream into which a string was inserted. -/
def ofBytes (bytes : List UInt8) : StringStream := ⟨bytes, 0⟩

/-- What extraction sees. -/
def unread (buffer : StringStream) : List UInt8 := buffer.contents.drop buffer.readPos

end StringStream

/-- The frames of a `zmq::multipart_t`. -/
abbrev Multipart := List (List UInt8)

structure ZmqSegmentPublisher where
  jobId : Uuid
  deriving DecidableEq

namespace ZmqSegmentPublisher

/-- The constructor without an id. -/
def create : ZmqSegmentPublisher := ⟨Uuid.null⟩

/-- The constructor that forces an id. -/
def createWithId (id : Uuid) : ZmqSegmentPublisher := ⟨id⟩

/-- `process(buffer, id, mt, width, height)`. -/
def processBuffer (buffer : StringStream) (id : Uuid) (mt : AVMediaType) (width height : Int32) :
    Multipart :=
  [id.toList, put mt, put width, put height, buffer.contents]

/-- `process(segment, stream)`. It dereferences both pointers and the parameters. -/
def process (publisher : ZmqSegmentPublisher) (segment : Option Segment)
    (stream : Option StreamData) : Except Fault Multipart :=
  match segment, stream with
  | some segment, some stream =>
      match stream.parameters with
      | some parameters =>
          let id := if publisher.jobId.isNull then segment.jobId else publisher.jobId
          .ok [id.toList, put stream.mediaType, put parameters.width, put parameters.height,
            saveSegment segment]
      | none => .error .nullDereference
  | _, _ => .error .nullDereference

end ZmqSegmentPublisher

namespace ZmqSegmentSubscriber

/-- The local variables of the handler, with what the stack holds before the copies. -/
structure Locals where
  jobId : Vector UInt8 16
  mt : Vector UInt8 4
  width : Vector UInt8 4
  height : Vector UInt8 4

/-- What the listeners of `receivedSegment` are given. -/
structure Received where
  buffer : StringStream
  jobId : Uuid
  mediaType : AVMediaType
  width : Int32
  height : Int32
  deriving DecidableEq

/-- `memcpy` of a whole frame into a destination of `n` bytes. -/
def memcpy {n : Nat} (dst : Vector UInt8 n) (src : List UInt8) : Except Fault (Vector UInt8 n) :=
  if h : src.length ≤ n then
    .ok ⟨(src ++ dst.toList.drop src.length).toArray, by simp; omega⟩
  else .error .outOfRange

/-- The message handler of `processPrivately`. The iterator over the frames is
not compared with the end. -/
def handle (locals : Locals) (multimsg : Multipart) : Except Fault Received :=
  match multimsg with
  | uuidMsg :: mediaTypeMsg :: widthMsg :: heightMsg :: bufferMsg :: _ => do
      let jobId ← memcpy locals.jobId uuidMsg
      let mt ← memcpy locals.mt mediaTypeMsg
      let width ← memcpy locals.width widthMsg
      let height ← memcpy locals.height heightMsg
      pure {
        buffer := StringStream.ofBytes bufferMsg
        jobId := jobId
        mediaType := ofBytes AVMediaType mt.toList
        width := ofBytes Int32 width.toList
        height := ofBytes Int32 height.toList }
  | _ => .error .outOfRange

/-- A frame as long as the destination replaces it. -/
theorem memcpy_full {n : Nat} (dst : Vector UInt8 n) {src : List UInt8} (h : src.length = n) :
    ∃ v, memcpy dst src = .ok v ∧ v.toList = src := by
  refine ⟨_, dif_pos (Nat.le_of_eq h), ?_⟩
  have hdrop : dst.toList.drop src.length = [] := List.drop_of_length_le (by simp [h])
  rw [Vector.toList_mk, hdrop, List.append_nil]

/-- An envelope of the right sizes arrives as it was sent, whatever was on the stack. -/
theorem handle_processBuffer (locals : Locals) (buffer : StringStream) (id : Uuid)
    (mt : AVMediaType) (width height : Int32) :
    handle locals (ZmqSegmentPublisher.processBuffer buffer id mt width height) =
      .ok ⟨StringStream.ofBytes buffer.contents, id, mt, width, height⟩ := by
  have hlen : id.toList.length = 16 := Vector.length_toList
  obtain ⟨jobId, hid, hid'⟩ := memcpy_full locals.jobId hlen
  obtain ⟨v₁, hmt, hmt'⟩ := memcpy_full locals.mt (length_put mt)
  obtain ⟨v₂, hwidth, hwidth'⟩ := memcpy_full locals.width (length_put width)
  obtain ⟨v₃, hheight, hheight'⟩ := memcpy_full locals.height (length_put height)
  have hjob : jobId = id := Vector.toList_inj.mp hid'
  simp only [handle, ZmqSegmentPublisher.processBuffer, hid, hmt, hwidth, hheight, bind,
    Except.bind, pure, Except.pure, hjob, hmt', hwidth', hheight', ofBytes_put]

end ZmqSegmentSubscriber

namespace Transport

open ZmqSegmentSubscriber

/-- One republishing: a listener has read some of the buffer it was given and
sends it on under an envelope of its choice to the next subscriber. -/
structure Hop where
  readPos : Nat
  id : Uuid
  mediaType : AVMediaType
  width : Int32
  height : Int32
  locals : Locals

def Hop.relay (hop : Hop) (received : Received) : Except Fault Received :=
  handle hop.locals (ZmqSegmentPublisher.processBuffer
    { received.buffer with readPos := hop.readPos } hop.id hop.mediaType hop.width hop.height)

/-- Publish a segment, receive it, republish it along the hops and load what
arrives, with the bytes that are left over. -/
def transported (mem : Segment.Unassigned) (publisher : ZmqSegmentPublisher) (seg : Segment)
    (stream : StreamData) (locals : Locals) (hops : List Hop) :
    Except Fault (Segment × List UInt8) := do
  let message ← publisher.process (some seg) (some stream)
  let received ← handle locals message
  let received ← hops.foldlM (fun received hop => hop.relay received) received
  (loadSegment mem).run received.buffer.unread

theorem relay_buffer (hop : Hop) (received : Received) :
    ∃ received', hop.relay received = .ok received' ∧
      received'.buffer = StringStream.ofBytes received.buffer.contents :=
  ⟨_, handle_processBuffer hop.locals _ hop.id hop.mediaType hop.width hop.height, rfl⟩

/-- Every hop hands on the bytes that reached it, from the start. -/
theorem relays_buffer (hops : List Hop) {received : Received} {bytes : List UInt8}
    (h : received.buffer = StringStream.ofBytes bytes) :
    ∃ received', hops.foldlM (fun received hop => hop.relay received) received = .ok received' ∧
      received'.buffer = StringStream.ofBytes bytes := by
  induction hops generalizing received with
  | nil => exact ⟨received, rfl, h⟩
  | cons hop hops ih =>
      obtain ⟨next, hnext, hbuffer⟩ := relay_buffer hop received
      rw [h] at hbuffer
      obtain ⟨last, hlast, hbuffer⟩ := ih hbuffer
      exact ⟨last, by rw [List.foldlM_cons, hnext]; exact hlast, hbuffer⟩

/-- Transport adds nothing to saving and loading. -/
theorem transported_eq (mem : Segment.Unassigned) (publisher : ZmqSegmentPublisher) (seg : Segment)
    {stream : StreamData} (hparam : stream.parameters ≠ none) (locals : Locals)
    (hops : List Hop) :
    transported mem publisher seg stream locals hops =
      (loadSegment mem).run (saveSegment seg) := by
  obtain ⟨parameters, hp⟩ := Option.ne_none_iff_exists'.mp hparam
  obtain ⟨id, hsend⟩ : ∃ id, publisher.process (some seg) (some stream) =
      .ok (ZmqSegmentPublisher.processBuffer (StringStream.ofBytes (saveSegment seg)) id
        stream.mediaType parameters.width parameters.height) := by
    simp only [ZmqSegmentPublisher.process, hp]
    exact ⟨_, rfl⟩
  obtain ⟨received, hfirst, hbuffer⟩ : ∃ received, handle locals
      (ZmqSegmentPublisher.processBuffer (StringStream.ofBytes (saveSegment seg)) id
        stream.mediaType parameters.width parameters.height) = .ok received ∧
      received.buffer = StringStream.ofBytes (saveSegment seg) :=
    ⟨_, handle_processBuffer locals _ id stream.mediaType _ _, rfl⟩
  obtain ⟨last, hlast, hbuffer⟩ := relays_buffer hops hbuffer
  simp only [transported, hsend, hfirst, hlast, hbuffer, bind, Except.bind]
  rfl

/-- A segment arrives equal to the one sent, and the decoder consumes all that the
encoder wrote, if and only if an `int` can count its packets. -/
theorem transported_eq_iff (mem : Segment.Unassigned) (publisher : ZmqSegmentPublisher)
    (seg : Segment) (stream : StreamData) (locals : Locals) (hops : List Hop)
    (hbuilt : seg.Built) (hone : ∀ p ∈ seg.packets, p.val.sideData.length ≤ 1)
    (hparam : stream.parameters ≠ none) :
    transported mem publisher seg stream locals hops = .ok (seg, []) ↔
      seg.packets.length < 2 ^ 31 := by
  rw [transported_eq mem publisher seg hparam locals hops]
  exact loadSegment_saveSegment_iff mem hbuilt.valid hone

/-- Memory and local variables that happen to be zero. -/
def zeroLocals : Locals :=
  ⟨Vector.replicate 16 0, Vector.replicate 4 0, Vector.replicate 4 0, Vector.replicate 4 0⟩

/-- A segment of `n` packets without payload. -/
def blankSegment (n : Nat) : Segment :=
  (Segment.create Segment.Unassigned.zero Uuid.null AVCodecParameters.zero).appendAll
    (List.replicate n Packet.create)

theorem blankSegment_built (n : Nat) : (blankSegment n).Built :=
  (Segment.Built.create _ _ _).appendAll _

theorem blankSegment_packets (n : Nat) :
    (blankSegment n).packets = List.replicate n Packet.create := by
  rw [blankSegment, Segment.appendAll_packets]
  rfl

theorem blankSegment_sideData (n : Nat) :
    ∀ p ∈ (blankSegment n).packets, p.val.sideData.length ≤ 1 := by
  intro p hp
  rw [blankSegment_packets] at hp
  rw [List.eq_of_mem_replicate hp]
  decide

/-- The packet counter of `Segment::load` overflows on `2 ^ 31` packets. -/
theorem transport_overflow :
    ∃ seg : Segment, seg.Built ∧ (∀ p ∈ seg.packets, p.val.sideData.length ≤ 1) ∧
      transported Segment.Unassigned.zero ZmqSegmentPublisher.create seg StreamData.sampleVideo
        zeroLocals [] ≠ .ok (seg, []) := by
  refine ⟨blankSegment (2 ^ 31), blankSegment_built _, blankSegment_sideData _, ?_⟩
  intro h
  rw [transported_eq _ _ _ (by decide),
    loadSegment_saveSegment_iff _ (blankSegment_built _).valid (blankSegment_sideData _),
    blankSegment_packets, List.length_replicate] at h
  exact Nat.lt_irrefl _ h

theorem transported_eq_iff_sample :
    transported Segment.Unassigned.zero ZmqSegmentPublisher.create (blankSegment 2)
        StreamData.sampleVideo zeroLocals [⟨0, Uuid.null, AVMediaType.video, 0, 0, zeroLocals⟩] =
      .ok (blankSegment 2, []) ↔ (blankSegment 2).packets.length < 2 ^ 31 :=
  transported_eq_iff Segment.Unassigned.zero ZmqSegmentPublisher.create (blankSegment 2)
    StreamData.sampleVideo zeroLocals _ (blankSegment_built 2) (blankSegment_sideData 2) (by decide)

end Transport

end Media2
