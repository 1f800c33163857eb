import Media2.Decoder
import Media2.PacketReader
import Media2.SegmentUnpacker.Deliveries
import Media2.Segmenter.Delivery
import Media2.Transport

/-!
# A stream at the other end

The packets of a stream are segmented, the segments travel to another host and are
unpacked there, and subscribers of the rebuilt stream are given what the unpacker
delivers. A decoder among them works on a context that nobody opened.
-/

namespace Media2

open Execution StreamCache

/-- A complete run of an unpacker with one worker and a cache of its own: it took in
the given segments, in order, and is done with them. -/
structure SegmentUnpacker.UnpackedAll (received : List Segment) (s : SegmentUnpacker 1) : Prop where
  run : ∃ libav expSeconds labels,
    exec (step libav) (start 1 (create expSeconds)) labels = some s
  received_eq : s.received = received
  queue_empty : s.work = []
  idle : (s.workers 0).Idle

/-- The run of a segmenter that is fed packets of one stream and then destroyed. -/
def Segmenter.Segments (stream : StreamData) (packets : List Packet) (session : Session) : Prop :=
  ∃ mem jobId nframes, exec (Session.step mem) (Session.start jobId nframes)
    (feedOps (packets.map fun packet => (packet, stream))) = some session

/-- Every segment that was sent arrives, over any number of hops. -/
def Transport.Arrive (sent : List Emission) (received : List Segment) : Prop :=
  List.Forall₂ (fun e seg => ∃ mem publisher sent stream locals hops,
    e.segment = some sent ∧ e.stream = some stream ∧
      transported mem publisher sent stream locals hops = .ok (seg, []))
    (sent.filter fun e => e.segment.isSome) received

namespace Remote

open SegmentUnpacker

/-- What a subscriber is given that `setupStream` connects to the rebuilt streams. -/
def subscribed (s : SegmentUnpacker 1) : List Delivery := heard [] s.events

theorem deliveries_packets (events : List Event) :
    (deliveries events).map Delivery.packet = (forwarded events).map Prod.snd := by
  induction events with
  | nil => rfl
  | cons e events ih =>
      cases e with
      | setup stream => exact ih
      | forward d => exact congrArg (d.packet :: ·) ih

theorem pairs_packets (received : List Segment) :
    (received.flatMap pairs).map Prod.snd = received.flatMap Segment.packets := by
  rw [List.map_flatMap]
  congr 1
  funext seg
  rw [pairs, List.map_map]
  exact List.map_id _

section UnpackedAll

variable {received : List Segment} {s : SegmentUnpacker 1}

/-- Everything a subscriber hears comes with data rebuilt from a received segment. -/
theorem rebuilt (h : UnpackedAll received s) :
    ∀ d ∈ subscribed s, RebuiltFrom received d.data := by
  obtain ⟨libav, expSeconds, labels, hexec⟩ := h.run
  rw [subscribed, heard_of_one_worker hexec, ← h.received_eq]
  exact rebuilt_of_exec hexec

/-- What a subscriber hears are the packets of the received segments in order. -/
theorem packets (h : UnpackedAll received s) :
    (subscribed s).map Delivery.packet = received.flatMap Segment.packets := by
  obtain ⟨libav, expSeconds, labels, hexec⟩ := h.run
  have hlaw := (linear_of_exec (create_sound expSeconds) hexec).law
  rw [h.idle.inHand_eq, h.queue_empty, h.received_eq, queued, List.flatMap_nil,
    List.append_nil, List.append_nil] at hlaw
  rw [subscribed, heard_of_one_worker hexec, deliveries_packets, ← hlaw, pairs_packets]

end UnpackedAll

/-- A packet sequence of a stream travels to another host: it is segmented, the
segments arrive there, and an unpacker unpacks them. -/
structure Carried (stream : StreamData) (packets : List Packet) (s : SegmentUnpacker 1) :
    Prop where
  path : ∃ session received, Segmenter.Segments stream packets session ∧
    Transport.Arrive session.allSent received ∧ UnpackedAll received s

/-- No context at the other end was ever opened. -/
theorem Carried.unopened {stream : StreamData} {packets : List Packet} {s : SegmentUnpacker 1}
    (h : Carried stream packets s) : ∀ d ∈ subscribed s, Decoder.Unopened d := by
  obtain ⟨session, received, -, -, hunpacked⟩ := h.path
  rintro d hd data hdata ctx hctx
  obtain ⟨data', seg, hdata', -, hrebuilt⟩ := rebuilt hunpacked d hd
  obtain rfl := Option.some.inj (hdata.symm.trans hdata')
  exact hrebuilt.unopened ctx hctx

section Sample

/-- The stream object the packet reader makes of a video stream. -/
def sampleStream : Stream :=
  PacketReader.openedStream "sample.mp4" AVStream.sample ⟨0, AVMediaType.video⟩

def sampleData : StreamData := (sampleStream.data).getD StreamData.sampleVideo

/-- The segment that is cut of a single key packet. -/
def sampleSent : Segment :=
  (Segmenter.headerOf Segment.Unassigned.zero Uuid.null sampleData AVCodecParameters.zero).append
    Packet.keyFrame

/-- The unpacker receives it and unpacks it. -/
def sampleRun : List (Label 1) := .receive sampleSent :: turns 0 9

def sampleUnpacker : SegmentUnpacker 1 :=
  (exec (step Libav.sample) (start 1 (create 600)) sampleRun).getD (start 1 (create 600))

theorem sample_unpackedAll : UnpackedAll [sampleSent] sampleUnpacker where
  run := ⟨Libav.sample, 600, sampleRun, rfl⟩
  received_eq := rfl
  queue_empty := rfl
  idle := Worker.Idle.testFlag

theorem sampleSent_valid : sampleSent.Valid :=
  Segment.append_valid ⟨rfl, by rintro p ⟨⟩, by rintro p ⟨⟩⟩ Packet.keyFrame

theorem sample_carried : Carried sampleData [Packet.keyFrame] sampleUnpacker := by
  refine ⟨_, [sampleSent], ⟨Segment.Unassigned.zero, Uuid.null, 250, rfl⟩, ?_, sample_unpackedAll⟩
  refine List.Forall₂.cons ⟨Segment.Unassigned.zero, ZmqSegmentPublisher.create, sampleSent,
    sampleData, Transport.zeroLocals, [], rfl, rfl, ?_⟩ List.Forall₂.nil
  rw [Transport.transported_eq _ _ _ (by decide)]
  exact (Serialization.loadSegment_saveSegment_iff _ sampleSent_valid (by decide)).mpr (by decide)

end Sample

/-- For a stream that the packet reader opened, a decoder of the rebuilt stream emits
the frames that a decoder of the reader's stream emits if and only if the opened
codec has no frame for any of the packets. -/
theorem decoding_agrees_iff {Frame : Type} (lib : Libavcodec Frame) (libav : Nat → Libav)
    (filename : String) (av : AVStream) (stream : Stream) (data : StreamData)
    (packets : List Packet) (s : SegmentUnpacker 1)
    (hopen : PacketReader.entry libav filename av = some stream) (hdata : stream.data = some data)
    (hcarried : Carried data packets s) :
    ∃ ctx, data.context = some ctx ∧ ctx.opened = true ∧
      (Decoder.decode lib (fun _ => none) (subscribed s) =
          Decoder.decode lib (fun _ => none) (packets.map stream.forward) ↔
        Decoder.Silent lib (lib.setUp ctx) packets) := by
  obtain ⟨ctx, hctx, hopened⟩ := PacketReader.entry_opened libav filename hopen hdata
  refine ⟨ctx, hctx, hopened, ?_⟩
  have hremote : Decoder.decode lib (fun _ => none) (subscribed s) = [] :=
    Decoder.decode_unopened lib hcarried.unopened (by rintro stream c ⟨⟩)
  rw [hremote, Decoder.decode_forward lib hdata hctx, ← Decoder.decodePackets_eq_nil]
  exact eq_comm

/-- With a codec that has a frame for every packet, one packet makes the difference. -/
theorem decoding_differs :
    PacketReader.entry (fun _ => Libav.sample) "sample.mp4" AVStream.sample = some sampleStream ∧
      Carried sampleData [Packet.keyFrame] sampleUnpacker ∧
      Decoder.decode Libavcodec.passThrough (fun _ => none) (subscribed sampleUnpacker) ≠
        Decoder.decode Libavcodec.passThrough (fun _ => none)
          ([Packet.keyFrame].map sampleStream.forward) := by
  refine ⟨by decide, sample_carried, ?_⟩
  rw [Decoder.decode_unopened _ sample_carried.unopened (by rintro stream c ⟨⟩)]
  exact (List.cons_ne_nil _ _).symm

theorem decoding_agrees_iff_sample :
    ∃ ctx, sampleData.context = some ctx ∧ ctx.opened = true ∧
      (Decoder.decode Libavcodec.passThrough (fun _ => none) (subscribed sampleUnpacker) =
          Decoder.decode Libavcodec.passThrough (fun _ => none)
            ([Packet.keyFrame].map sampleStream.forward) ↔
        Decoder.Silent Libavcodec.passThrough (Libavcodec.passThrough.setUp ctx)
          [Packet.keyFrame]) :=
  decoding_agrees_iff Libavcodec.passThrough (fun _ => Libav.sample) "sample.mp4" AVStream.sample
    sampleStream sampleData [Packet.keyFrame] sampleUnpacker (by decide) rfl sample_carried

end Remote

end Media2
