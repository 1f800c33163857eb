import Media2.Decoder
import Media2.Encoder
import Media2.Foundation.DelayLine
import Media2.Muxer.Buffer
import Media2.PacketReader

/-!
# Decoding, encoding and muxing a stream

A packet that the reader reads goes through the decoder, the encoder and the muxer before
the next one is read. At the end of the file the reader stops, and the muxer is closed;
nothing tells the codecs, which keep what they have not put out yet.

## Implementation notes

A codec with a latency is a delay line with one output for each input. An exception that
is thrown on the way ends the reading thread and with it the process.
-/

namespace Media2

open PacketReader

variable {Frame : Type}

/-- A decoder with one frame for each packet and a latency of `d` packets. -/
def Libavcodec.delayed (d : Nat) (decodeOne : Packet → Frame) : Libavcodec Frame where
  Context := Bool × DelayLine Packet
  setUp ctx := (ctx.opened, DelayLine.empty)
  sendPacket c packet :=
    if c.1 then
      match c.2.push packet with
      | none => (.error averrorEof, c)
      | some line => (.ok (), (c.1, line))
    else (.error (-22), c)
  receiveFrame c :=
    match c.2.pop d with
    | none => (.error eagain, c)
    | some (packet, line) => (.ok (decodeOne packet), (c.1, line))
  backlog c := c.2.held.length
  receive_backlog := by
    intro c frame c' h
    cases hpop : c.2.pop d with
    | none => simp [hpop] at h
    | some out =>
        obtain ⟨packet, line⟩ := out
        simp only [hpop, Prod.mk.injEq] at h
        rw [← h.2, (DelayLine.pop_eq_some hpop).1]
        exact Nat.lt_succ_self _
  send_unopened := by
    intro ctx packet h
    exact ⟨-22, by simp [h]⟩

/-- An encoder with one packet for each frame and a latency of `d` frames. -/
def EncodingCodec.delayed (d : Nat) (encodeOne : Frame → Packet) : EncodingCodec Frame where
  Context := DelayLine Frame
  sendFrame c frame :=
    match c.push frame with
    | none => (.error averrorEof, c)
    | some line => (.ok (), line)
  receivePacket c :=
    match c.pop d with
    | none => (.error eagain, c)
    | some (frame, line) => (.ok (encodeOne frame), line)
  backlog c := c.held.length
  receive_backlog := by
    intro c packet c' h
    cases hpop : c.pop d with
    | none => simp [hpop] at h
    | some out =>
        obtain ⟨frame, line⟩ := out
        simp only [hpop, Prod.mk.injEq] at h
        rw [← h.2, (DelayLine.pop_eq_some hpop).1]
        exact Nat.lt_succ_self _

/-- The objects behind the reader: a decoder, an encoder that is subscribed to it and a
muxer that is subscribed to the encoder. -/
structure Transcoder (dec : Libavcodec Frame) (enc : EncodingCodec Frame) where
  used : Decoder.Contexts dec
  encoder : Encoder enc
  muxer : Muxer

namespace Transcoder

open Muxer

variable {dec : Libavcodec Frame} {enc : EncodingCodec Frame} (libav : Libavformat)

/-- The muxer's slot on the encoder's stream. -/
def mux (m : Muxer) (packet : Packet) (stream : Option StreamData) : Except Exception Muxer :=
  match m.streaminfo[0]? with
  | none => .ok m
  | some info =>
      match m.process libav 0 info packet stream with
      | (.error e, _) => .error e
      | (.ok _, m) => .ok m

/-- The encoder's slot on the decoder's frames. -/
def encode (streamIn : Option StreamData) (t : Transcoder dec enc) (frame : Frame) :
    Except Exception (Transcoder dec enc) := do
  let (packets, outcome, encoder) := t.encoder.process enc frame streamIn
  let m ← packets.foldlM (fun m packet => mux libav m packet streamIn) t.muxer
  match outcome with
  | .error e => .error (.fault e)
  | .ok _ => pure { t with encoder := encoder, muxer := m }

/-- The decoder's slot on the reader's stream. -/
def decode (t : Transcoder dec enc) (d : Delivery) : Except Exception (Transcoder dec enc) :=
  let (frames, used) := Decoder.process dec t.used d
  frames.foldlM (encode libav d.data) { t with used := used }

/-- One turn of the read loop. -/
def read (streams : List Stream) (t : Transcoder dec enc) (packet : Packet) :
    Except Exception (Transcoder dec enc) :=
  match forwardRead streams packet with
  | .error e => .error (.fault e)
  | .ok none => .ok t
  | .ok (some d) => t.decode libav d

/-- Read all packets up to the end of the file, and close the muxer. -/
def transcode (streams : List Stream) (packets : List Packet) (t : Transcoder dec enc) :
    Except Exception (Transcoder dec enc) := do
  let t ← packets.foldlM (read libav streams) t
  match t.muxer.close libav with
  | (.error e, _) => .error e
  | (.ok _, m) => pure { t with muxer := m }

theorem encode_ok {libav : Libavformat} {streamIn : Option StreamData} {t : Transcoder dec enc}
    {frame : Frame} {packets : List Packet} {encoder : Encoder enc} {m : Muxer}
    (hprocess : t.encoder.process enc frame streamIn = (packets, .ok (), encoder))
    (hfold : packets.foldlM (fun m packet => mux libav m packet streamIn) t.muxer = .ok m) :
    encode libav streamIn t frame = .ok { t with encoder := encoder, muxer := m } := by
  simp only [encode, hprocess, hfold]
  rfl

/-- A packet of the decoder's stream reaches the decoder. -/
theorem read_eq {libav : Libavformat} {streams : List Stream} {t : Transcoder dec enc}
    {stream : Stream} {packet : Packet} {data : StreamData} {ctx : AVCodecContext}
    (hat : streamAt streams packet.val.streamIndex = .ok stream)
    (hdata : stream.data = some data) (hctx : data.context = some ctx)
    {frames : List Frame} {c : dec.Context}
    (hframes : Decoder.processPacket dec ((t.used stream.id).getD (dec.setUp ctx)) packet =
      (frames, c)) :
    read libav streams t packet = frames.foldlM (encode libav (some data)) { t with
      used := fun id => if id = stream.id then some c else t.used id } := by
  have hforward : forwardRead streams packet = .ok (some (stream.forward packet)) := by
    simp only [forwardRead, hat, bind, Except.bind, pure, Except.pure, hdata, Option.isSome_some,
      if_true]
  rw [read, hforward]
  simp only [decode, Decoder.process, Stream.forward, hdata, hctx, hframes]

theorem transcode_ok {libav : Libavformat} {streams : List Stream} {packets : List Packet}
    {t t' : Transcoder dec enc} {m : Muxer}
    (hread : packets.foldlM (read libav streams) t = .ok t')
    (hclose : t'.muxer.close libav = (.ok (), m)) :
    transcode libav streams packets t = .ok { t' with muxer := m } := by
  simp only [transcode, hread, bind, Except.bind, hclose]
  rfl

end Transcoder

section Codecs

variable {d : Nat}

theorem receiveFrames_delayed (decodeOne : Packet → Frame) (opened : Bool) {fuel : Nat}
    {line : DelayLine Packet} (h : line.held.length < fuel) :
    Decoder.receiveFrames (.delayed d decodeOne) fuel (opened, line) =
      ((line.popAll d).1.map decodeOne, (opened, (line.popAll d).2)) := by
  induction fuel generalizing line with
  | zero => exact absurd h (Nat.not_lt_zero _)
  | succ fuel ih =>
      cases hpop : line.pop d with
      | none =>
          have hreceive : (Libavcodec.delayed d decodeOne).receiveFrame (opened, line) =
              (.error eagain, (opened, line)) := by
            simp [Libavcodec.delayed, hpop]
          rw [DelayLine.pop_eq_none hpop]
          exact Decoder.receiveFrames_error hreceive fuel
      | some out =>
          obtain ⟨packet, rest⟩ := out
          obtain ⟨hheld, hall⟩ := DelayLine.pop_eq_some hpop
          have hreceive : (Libavcodec.delayed d decodeOne).receiveFrame (opened, line) =
              (.ok (decodeOne packet), (opened, rest)) := by
            simp [Libavcodec.delayed, hpop]
          have hless : rest.held.length < fuel := by
            rw [hheld, List.length_cons] at h
            omega
          have hrest := ih hless
          rw [hall]
          apply (Decoder.receiveFrames_ok hreceive fuel).trans
          rw [hrest]
          rfl

/-- A packet that is sent to an opened decoder passes through its line. -/
theorem processPacket_delayed (decodeOne : Packet → Frame) (line : DelayLine Packet)
    (packet : Packet) :
    Decoder.processPacket (.delayed d decodeOne) (true, line) packet =
      ((line.feed d [packet]).1.map decodeOne, (true, (line.feed d [packet]).2)) := by
  cases hpush : line.push packet with
  | none =>
      have hsend : (Libavcodec.delayed d decodeOne).sendPacket (true, line) packet =
          (.error averrorEof, (true, line)) := by
        simp [Libavcodec.delayed, hpush]
      rw [DelayLine.feed_refused hpush]
      exact Decoder.processPacket_error hsend
  | some pushed =>
      have hsend : (Libavcodec.delayed d decodeOne).sendPacket (true, line) packet =
          (.ok (), (true, pushed)) := by
        simp [Libavcodec.delayed, hpush]
      rw [DelayLine.feed_singleton hpush]
      apply (Decoder.processPacket_ok hsend).trans
      exact receiveFrames_delayed decodeOne true (Nat.lt_succ_self _)

theorem receivePackets_delayed (encodeOne : Frame → Packet) {fuel : Nat} {line : DelayLine Frame}
    (h : line.held.length < fuel) :
    Encoder.receivePackets (.delayed d encodeOne) fuel line =
      ((line.popAll d).1.map encodeOne, .ok (), (line.popAll d).2) := by
  induction fuel generalizing line with
  | zero => exact absurd h (Nat.not_lt_zero _)
  | succ fuel ih =>
      cases hpop : line.pop d with
      | none =>
          have hreceive : (EncodingCodec.delayed d encodeOne).receivePacket line =
              (.error eagain, line) := by
            simp [EncodingCodec.delayed, hpop]
          rw [DelayLine.pop_eq_none hpop]
          exact Encoder.receivePackets_done hreceive (Or.inl rfl) fuel
      | some out =>
          obtain ⟨frame, rest⟩ := out
          obtain ⟨hheld, hall⟩ := DelayLine.pop_eq_some hpop
          have hreceive : (EncodingCodec.delayed d encodeOne).receivePacket line =
              (.ok (encodeOne frame), rest) := by
            simp [EncodingCodec.delayed, hpop]
          have hless : rest.held.length < fuel := by
            rw [hheld, List.length_cons] at h
            omega
          have hrest := ih hless
          rw [hall]
          apply (Encoder.receivePackets_ok hreceive fuel).trans
          rw [hrest]
          rfl

/-- A frame that is sent to an encoder passes through its line. -/
theorem encoder_process_delayed (encodeOne : Frame → Packet) (ctx : AVCodecContext)
    {line : DelayLine Frame} (hline : line.draining = false) (firstPacket : Bool) (frame : Frame)
    (data : StreamData) :
    ∃ ctx', Encoder.process (.delayed d encodeOne) ⟨some (ctx, line), firstPacket⟩ frame
        (some data) =
      ((line.feed d [frame]).1.map encodeOne, .ok (),
        ⟨some (ctx', (line.feed d [frame]).2), false⟩) := by
  obtain ⟨pushed, hpush⟩ : ∃ pushed, line.push frame = some pushed := by
    rw [DelayLine.push, hline]
    exact ⟨_, rfl⟩
  have hsend : (EncodingCodec.delayed d encodeOne).sendFrame line frame = (.ok (), pushed) := by
    simp [EncodingCodec.delayed, hpush]
  obtain ⟨ctx', hprocess⟩ := Encoder.process_ok hsend ctx firstPacket data
  have hall := @receivePackets_delayed Frame d encodeOne (pushed.held.length + 1) pushed
    (Nat.lt_succ_self _)
  have hbacklog : (EncodingCodec.delayed d encodeOne).backlog pushed = pushed.held.length := rfl
  rw [hbacklog, hall] at hprocess
  refine ⟨ctx', ?_⟩
  rw [DelayLine.feed_singleton hpush]
  exact hprocess

end Codecs

namespace Transcoder

open Muxer

section Run

variable {libav : Libavformat} {decodeOne : Packet → Frame} {encodeOne : Frame → Packet}
  {d₁ d₂ : Nat}

/-- The muxer holds what came out of the encoder, on the stream with the given index. -/
structure Muxed (index : Nat) (content : List Packet) (m : Muxer) : Prop where
  holding : Holding (content.map fun packet => packet.setStreamIndex index) m
  owned : m.outputIndex 0 = some index

theorem mux_muxed (hlibav : libav.Writes) {index : Nat} {content : List Packet} {m : Muxer}
    (hm : Muxed index content m) (packet : Packet) (stream : Option StreamData) :
    ∃ m', mux libav m packet stream = .ok m' ∧ Muxed index (content ++ [packet]) m' := by
  obtain ⟨info, hinfo⟩ : ∃ info, m.streaminfo[0]? = some info := by
    cases hinfo : m.streaminfo[0]? with
    | none =>
        have howned := hm.owned
        rw [outputIndex, hinfo] at howned
        cases howned
    | some info => exact ⟨info, rfl⟩
  obtain ⟨m', hprocess, hholding, hindex⟩ :=
    process_holding hlibav hm.holding hm.owned hinfo packet stream
  refine ⟨m', ?_, ?_, hindex⟩
  · rw [mux, hinfo]
    dsimp only
    rw [hprocess]
  · rw [List.map_append]
    exact hholding

theorem foldlM_mux (hlibav : libav.Writes) {index : Nat} {content : List Packet} {m : Muxer}
    (hm : Muxed index content m) (packets : List Packet) (stream : Option StreamData) :
    ∃ m', packets.foldlM (fun m packet => mux libav m packet stream) m = .ok m' ∧
      Muxed index (content ++ packets) m' := by
  induction packets generalizing content m with
  | nil => exact ⟨m, rfl, by rw [List.append_nil]; exact hm⟩
  | cons packet packets ih =>
      obtain ⟨next, hnext, hm'⟩ := mux_muxed hlibav hm packet stream
      obtain ⟨last, hlast, hm''⟩ := ih hm'
      refine ⟨last, ?_, ?_⟩
      · rw [List.foldlM_cons, hnext]
        exact hlast
      · rw [List.append_assoc] at hm''
        exact hm''

/-- The contexts of the decoder and the encoder hold these lines. -/
structure InCodecs (stream : Stream) (ctx : AVCodecContext) (line₁ : DelayLine Packet)
    (line₂ : DelayLine Frame)
    (t : Transcoder (Libavcodec.delayed d₁ decodeOne) (EncodingCodec.delayed d₂ encodeOne)) :
    Prop where
  decoding : (t.used stream.id).getD ((Libavcodec.delayed d₁ decodeOne).setUp ctx) = (true, line₁)
  encoding : ∃ ectx firstPacket, t.encoder = ⟨some (ectx, line₂), firstPacket⟩

/-- Where the packets of a stream are after some of them were read. -/
structure Tracks (stream : Stream) (ctx : AVCodecContext) (index : Nat)
    (line₁ : DelayLine Packet) (line₂ : DelayLine Frame) (content : List Packet)
    (t : Transcoder (Libavcodec.delayed d₁ decodeOne) (EncodingCodec.delayed d₂ encodeOne)) :
    Prop extends InCodecs stream ctx line₁ line₂ t where
  running : line₂.draining = false
  muxed : Muxed index content t.muxer

variable {stream : Stream} {ctx : AVCodecContext} {index : Nat} {line₁ : DelayLine Packet}
  {line₂ : DelayLine Frame} {content : List Packet}
  {t : Transcoder (Libavcodec.delayed d₁ decodeOne) (EncodingCodec.delayed d₂ encodeOne)}

theorem encode_tracks (hlibav : libav.Writes)
    (ht : Tracks stream ctx index line₁ line₂ content t) (data : StreamData) (frame : Frame) :
    ∃ t', encode libav (some data) t frame = .ok t' ∧
      Tracks stream ctx index line₁ (line₂.feed d₂ [frame]).2
        (content ++ (line₂.feed d₂ [frame]).1.map encodeOne) t' := by
  obtain ⟨ectx, firstPacket, hencoder⟩ := ht.encoding
  obtain ⟨ectx', hprocess⟩ :=
    encoder_process_delayed (d := d₂) encodeOne ectx ht.running firstPacket frame data
  obtain ⟨m, hfold, hm⟩ := foldlM_mux hlibav ht.muxed
    ((line₂.feed d₂ [frame]).1.map encodeOne) (some data)
  rw [← hencoder] at hprocess
  exact ⟨_, encode_ok hprocess hfold, ⟨ht.decoding, ectx', false, rfl⟩,
    DelayLine.feed_running ht.running _ _, hm⟩

/-- The frames of one packet pass through the encoder's line. -/
theorem foldlM_encode (hlibav : libav.Writes)
    (ht : Tracks stream ctx index line₁ line₂ content t) (data : StreamData)
    (frames : List Frame) :
    ∃ t', frames.foldlM (encode libav (some data)) t = .ok t' ∧
      Tracks stream ctx index line₁ (line₂.feed d₂ frames).2
        (content ++ (line₂.feed d₂ frames).1.map encodeOne) t' := by
  induction frames generalizing line₂ content t with
  | nil => exact ⟨t, rfl, by simpa [DelayLine.feed] using ht⟩
  | cons frame frames ih =>
      obtain ⟨next, hnext, ht'⟩ := encode_tracks hlibav ht data frame
      obtain ⟨last, hlast, ht''⟩ := ih ht'
      have hfeed := DelayLine.feed_append d₂ line₂ [frame] frames
      rw [List.singleton_append] at hfeed
      refine ⟨last, ?_, ?_⟩
      · rw [List.foldlM_cons, hnext]
        exact hlast
      · rw [hfeed, List.map_append, ← List.append_assoc]
        exact ht''

theorem read_tracks (hlibav : libav.Writes)
    (ht : Tracks stream ctx index line₁ line₂ content t) {streams : List Stream}
    {packet : Packet} (hat : streamAt streams packet.val.streamIndex = .ok stream)
    {data : StreamData} (hdata : stream.data = some data) (hctx : data.context = some ctx) :
    ∃ t', read libav streams t packet = .ok t' ∧
      Tracks stream ctx index (line₁.feed d₁ [packet]).2
        (line₂.feed d₂ ((line₁.feed d₁ [packet]).1.map decodeOne)).2
        (content ++ (line₂.feed d₂ ((line₁.feed d₁ [packet]).1.map decodeOne)).1.map encodeOne)
        t' := by
  have hframes := @processPacket_delayed Frame d₁ decodeOne line₁ packet
  rw [← ht.decoding] at hframes
  have hread := @read_eq Frame (.delayed d₁ decodeOne) (.delayed d₂ encodeOne) libav streams t
    stream packet data ctx hat hdata hctx _ _ hframes
  let used : Decoder.Contexts (Libavcodec.delayed d₁ decodeOne) := fun id =>
    if id = stream.id then some (true, (line₁.feed d₁ [packet]).2) else t.used id
  have hused : Tracks stream ctx index (line₁.feed d₁ [packet]).2 line₂ content
      { t with used := used } := by
    refine ⟨⟨?_, ht.encoding⟩, ht.running, ht.muxed⟩
    have hself : used stream.id = some (true, (line₁.feed d₁ [packet]).2) := if_pos rfl
    exact congrArg (fun c => c.getD ((Libavcodec.delayed d₁ decodeOne).setUp ctx)) hself
  obtain ⟨t', hfold, ht'⟩ := foldlM_encode hlibav hused data
    ((line₁.feed d₁ [packet]).1.map decodeOne)
  exact ⟨t', hread.trans hfold, ht'⟩

/-- All packets pass through the two lines, one behind the other. -/
theorem foldlM_read (hlibav : libav.Writes)
    (ht : Tracks stream ctx index line₁ line₂ content t) {streams : List Stream}
    {packets : List Packet}
    (hat : ∀ packet ∈ packets, streamAt streams packet.val.streamIndex = .ok stream)
    {data : StreamData} (hdata : stream.data = some data) (hctx : data.context = some ctx) :
    ∃ t', packets.foldlM (read libav streams) t = .ok t' ∧
      Tracks stream ctx index (line₁.feed d₁ packets).2
        (line₂.feed d₂ ((line₁.feed d₁ packets).1.map decodeOne)).2
        (content ++ (line₂.feed d₂ ((line₁.feed d₁ packets).1.map decodeOne)).1.map encodeOne)
        t' := by
  induction packets generalizing line₁ line₂ content t with
  | nil => exact ⟨t, rfl, by simpa [DelayLine.feed] using ht⟩
  | cons packet packets ih =>
      obtain ⟨next, hnext, ht'⟩ := read_tracks hlibav ht (hat packet (List.mem_cons_self ..))
        hdata hctx
      obtain ⟨last, hlast, ht''⟩ := ih ht' fun p hp => hat p (List.mem_cons_of_mem packet hp)
      have hfeed := DelayLine.feed_append d₁ line₁ [packet] packets
      rw [List.singleton_append] at hfeed
      refine ⟨last, ?_, ?_⟩
      · rw [List.foldlM_cons, hnext]
        exact hlast
      · rw [hfeed, List.map_append, DelayLine.feed_append, List.map_append, ← List.append_assoc]
        exact ht''

/-- Before the first packet: a subscribed muxer, and codecs that hold nothing. -/
def start (decodeOne : Packet → Frame) (encodeOne : Frame → Packet) (d₁ d₂ : Nat)
    (ectx : AVCodecContext) (m : Muxer) :
    Transcoder (Libavcodec.delayed d₁ decodeOne) (EncodingCodec.delayed d₂ encodeOne) where
  used _ := none
  encoder := ⟨some (ectx, DelayLine.empty), true⟩
  muxer := m

/-- A muxer that was made and subscribed to one stream. -/
structure Subscribed (libav : Libavformat) (m : Muxer) : Prop where
  made : ∃ filename format bufferMax m₀ source,
    create libav filename format bufferMax = .ok m₀ ∧ m₀.subscribe libav source = (.ok (), m)

theorem Subscribed.muxed {m : Muxer} (h : Subscribed libav m) : ∃ index, Muxed index [] m := by
  obtain ⟨filename, format, bufferMax, m₀, source, hcreate, hsubscribe⟩ := h.made
  obtain ⟨hm₀, hnil⟩ := create_holding hcreate
  obtain ⟨hm, info, hinfos, hsome⟩ := subscribe_holding hm₀ hsubscribe
  obtain ⟨output, houtput⟩ := Option.isSome_iff_exists.mp hsome
  refine ⟨output.index, hm, ?_⟩
  rw [outputIndex, hinfos, hnil, List.nil_append, List.getElem?_cons_zero, Option.bind_some,
    houtput]
  rfl

/-- The whole run. What is written went through both lines, and each of the lines keeps
what it was still holding at the end of the file. -/
theorem transcode_tracks (hlibav : libav.Writes) {m : Muxer} (hm : Subscribed libav m)
    {data : StreamData} (hdata : stream.data = some data) (hctx : data.context = some ctx)
    (hopened : ctx.opened = true) {streams : List Stream} {packets : List Packet}
    (hat : ∀ packet ∈ packets, streamAt streams packet.val.streamIndex = .ok stream)
    (decodeOne : Packet → Frame) (encodeOne : Frame → Packet) (d₁ d₂ : Nat)
    (ectx : AVCodecContext) :
    ∃ t line₁ line₂ index,
      transcode libav streams packets (start decodeOne encodeOne d₁ d₂ ectx m) = .ok t ∧
      InCodecs stream ctx line₁ line₂ t ∧
      line₁ = (DelayLine.empty.feed d₁ packets).2 ∧
      line₂ = (DelayLine.empty.feed d₂ ((DelayLine.empty.feed d₁ packets).1.map decodeOne)).2 ∧
      written t.muxer.log = ((DelayLine.empty.feed d₂
        ((DelayLine.empty.feed d₁ packets).1.map decodeOne)).1.map encodeOne).map
          fun packet => packet.setStreamIndex index := by
  obtain ⟨index, hmuxed⟩ := hm.muxed
  have hstart : Tracks stream ctx index DelayLine.empty DelayLine.empty []
      (start decodeOne encodeOne d₁ d₂ ectx m) := by
    refine ⟨⟨?_, ectx, true, rfl⟩, rfl, hmuxed⟩
    have hsetUp : (Libavcodec.delayed d₁ decodeOne).setUp ctx = (ctx.opened, DelayLine.empty) := rfl
    exact hsetUp.trans (congrArg (fun opened => (opened, DelayLine.empty)) hopened)
  obtain ⟨t, hread, ht⟩ := foldlM_read hlibav hstart hat hdata hctx
  obtain ⟨m', hclose, hwritten⟩ := close_holding hlibav ht.muxed.holding
  exact ⟨_, _, _, index, transcode_ok hread hclose, ⟨ht.decoding, ht.encoding⟩, rfl, rfl, hwritten⟩

/-- The packets that are missing from the output are in the codecs, and would come out if
these were drained. -/
theorem lost_in_codecs (hlibav : libav.Writes) {m : Muxer} (hm : Subscribed libav m)
    {data : StreamData} (hdata : stream.data = some data) (hctx : data.context = some ctx)
    (hopened : ctx.opened = true) {streams : List Stream} {packets : List Packet}
    (hat : ∀ packet ∈ packets, streamAt streams packet.val.streamIndex = .ok stream)
    (decodeOne : Packet → Frame) (encodeOne : Frame → Packet) (d₁ d₂ : Nat)
    (ectx : AVCodecContext) :
    ∃ t line₁ line₂,
      transcode libav streams packets (start decodeOne encodeOne d₁ d₂ ectx m) = .ok t ∧
      InCodecs stream ctx line₁ line₂ t ∧
      (written t.muxer.log).length + (line₂.drain.popAll d₂).1.length +
        (line₁.drain.popAll d₁).1.length = packets.length := by
  obtain ⟨t, line₁, line₂, index, htranscode, hin, hline₁, hline₂, hwritten⟩ :=
    transcode_tracks hlibav hm hdata hctx hopened hat decodeOne encodeOne d₁ d₂ ectx
  refine ⟨t, line₁, line₂, htranscode, hin, ?_⟩
  have hfirst := congrArg List.length (DelayLine.feed_conserves d₁ packets)
  have hsecond := congrArg List.length
    (DelayLine.feed_conserves d₂ ((DelayLine.empty.feed d₁ packets).1.map decodeOne))
  rw [List.length_append, ← hline₁] at hfirst
  rw [List.length_append, List.length_map, ← hline₂] at hsecond
  rw [hwritten, List.length_map, List.length_map, DelayLine.popAll_drain, DelayLine.popAll_drain,
    hsecond, hfirst]

/-- All packets of a stream that was read to its end are written if and only if neither
codec has a latency, or there are none. -/
theorem written_all_iff (hlibav : libav.Writes) {m : Muxer} (hm : Subscribed libav m)
    {data : StreamData} (hdata : stream.data = some data) (hctx : data.context = some ctx)
    (hopened : ctx.opened = true) {streams : List Stream} {packets : List Packet}
    (hat : ∀ packet ∈ packets, streamAt streams packet.val.streamIndex = .ok stream)
    (decodeOne : Packet → Frame) (encodeOne : Frame → Packet) (d₁ d₂ : Nat)
    (ectx : AVCodecContext) :
    ∃ t, transcode libav streams packets (start decodeOne encodeOne d₁ d₂ ectx m) = .ok t ∧
      ((written t.muxer.log).length = packets.length ↔ packets = [] ∨ d₁ = 0 ∧ d₂ = 0) := by
  obtain ⟨t, _, _, index, htranscode, -, -, -, hwritten⟩ :=
    transcode_tracks hlibav hm hdata hctx hopened hat decodeOne encodeOne d₁ d₂ ectx
  refine ⟨t, htranscode, ?_⟩
  have hcount : (written t.muxer.log).length = packets.length - d₁ - d₂ := by
    rw [hwritten, List.length_map, List.length_map, DelayLine.length_feed, List.length_map,
      DelayLine.length_feed]
  rw [hcount, ← List.length_eq_zero_iff]
  omega

/-- A codec context that was opened, for concrete runs. -/
def sampleContext : AVCodecContext := ⟨⟨0, AVMediaType.video⟩, none, ⟨1, 25⟩, true⟩

/-- A stream with that context. -/
def sampleStream : Stream :=
  ⟨0, some { StreamData.sampleVideo with context := some sampleContext }⟩

/-- A new muxer, subscribed to a stream. -/
def sampleMuxer : Muxer :=
  (Traffic.sampleMuxer.subscribe Libavformat.sample ⟨1, some StreamData.sampleVideo⟩).2

/-- One packet is read to the end of the file, with a decoder that holds back `d` packets. -/
def sampleRun (d : Nat) : Except Exception
    (Transcoder (Libavcodec.delayed d id) (EncodingCodec.delayed 0 id)) :=
  transcode Libavformat.sample [sampleStream] [Packet.keyFrame]
    (start id id d 0 sampleContext sampleMuxer)

/-- With a latency of one packet in the decoder nothing is written. -/
theorem packet_left_in_decoder :
    (sampleRun 0).toOption.map (fun t => (written t.muxer.log).length) = some 1 ∧
      (sampleRun 1).toOption.map (fun t => (written t.muxer.log).length) = some 0 := by
  exact ⟨rfl, rfl⟩

theorem written_all_iff_sample :
    ∃ t, sampleRun 1 = .ok t ∧ ((written t.muxer.log).length = [Packet.keyFrame].length ↔
      [Packet.keyFrame] = [] ∨ 1 = 0 ∧ 0 = 0) := by
  have hcreate : create Libavformat.sample "sample.mp4" "" 1 = .ok Traffic.sampleMuxer := rfl
  have hsubscribe : Traffic.sampleMuxer.subscribe Libavformat.sample
      ⟨1, some StreamData.sampleVideo⟩ = (.ok (), sampleMuxer) := rfl
  have hat : ∀ packet ∈ [Packet.keyFrame],
      streamAt [sampleStream] packet.val.streamIndex = .ok sampleStream := by
    intro packet hp
    rw [List.mem_singleton.mp hp]
    rfl
  have hwrites : Libavformat.sample.Writes := fun _ _ _ => Int.le_refl 0
  exact written_all_iff hwrites ⟨_, _, _, _, _, hcreate, hsubscribe⟩ rfl rfl rfl hat id id 1 0
    sampleContext

end Run

end Transcoder

end Media2
