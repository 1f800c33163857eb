import Media2.Foundation.SendReceive
import Media2.Transcoding

/-!
# The codec loops drain

A codec refuses an input only as long as it has outputs to give. The decoder does not look at
a refusal, and the encoder throws; but each call of either takes all outputs out of the codec
before it returns, so that the next input is accepted.
-/

namespace Media2

variable {Frame : Type}

/-- A codec that decodes, as what it is sent and asked for. -/
def Libavcodec.device (lib : Libavcodec Frame) : Device Packet Frame Int where
  State := lib.Context
  send := lib.sendPacket
  receive := lib.receiveFrame
  again := eagain

/-- A codec that encodes, as what it is sent and asked for. -/
def EncodingCodec.device (lib : EncodingCodec Frame) : Device Frame Packet Int where
  State := lib.Context
  send := lib.sendFrame
  receive := lib.receivePacket
  again := eagain

/-- A context that was opened and not used yet has no frames. -/
structure Libavcodec.Contract (lib : Libavcodec Frame) extends lib.device.Contract where
  idle_setUp : ∀ ctx : AVCodecContext, ctx.opened = true → toContract.Idle (lib.setUp ctx)

/-- The contract of a codec that encodes. -/
abbrev EncodingCodec.Contract (lib : EncodingCodec Frame) := lib.device.Contract

theorem Libavcodec.delayed_send (d : Nat) (decodeOne : Packet → Frame) {line : DelayLine Packet}
    (h : line.draining = false) (packet : Packet) :
    (delayed d decodeOne).device.send (true, line) packet =
      (.ok (), (true, { line with held := line.held ++ [packet] })) := by
  simp only [delayed, device, DelayLine.push, h, if_true, Bool.false_eq_true, if_false]

theorem EncodingCodec.delayed_send (d : Nat) (encodeOne : Frame → Packet) {line : DelayLine Frame}
    (h : line.draining = false) (frame : Frame) :
    (delayed d encodeOne).device.send line frame =
      (.ok (), { line with held := line.held ++ [frame] }) := by
  simp only [delayed, device, DelayLine.push, h, Bool.false_eq_true, if_false]

/-- What is available are the outputs that the delay line releases. -/
def Libavcodec.delayedContract (d : Nat) (decodeOne : Packet → Frame) :
    (Libavcodec.delayed d decodeOne).Contract where
  Working c := c.1 = true ∧ c.2.draining = false
  pending c := (c.2.popAll d).1.map decodeOne
  pending_of_refused := by
    rintro ⟨opened, line⟩ c' packet ⟨rfl, hrunning⟩ h
    cases (Libavcodec.delayed_send d decodeOne hrunning packet).symm.trans h
  receive_pending := by
    rintro ⟨opened, line⟩ frame frames ⟨hopened, hrunning⟩ hpending
    obtain ⟨-, hnone⟩ | ⟨packet, rest, hpop, hdraining, hall⟩ := line.pop_cases d
    · simp [hnone] at hpending
    · simp only [hall, List.map_cons, List.cons.injEq] at hpending
      refine ⟨(opened, rest), ?_, ⟨hopened, hdraining.trans hrunning⟩, hpending.2⟩
      simp [Libavcodec.delayed, Libavcodec.device, hpop, hpending.1]
  receive_again := by
    rintro ⟨opened, line⟩ hworking hpending
    obtain ⟨hpop, -⟩ | ⟨packet, rest, -, -, hall⟩ := line.pop_cases d
    · refine ⟨(opened, line), ?_, hworking, hpending⟩
      simp [Libavcodec.delayed, Libavcodec.device, hpop]
    · simp [hall] at hpending
  idle_setUp := by
    intro ctx hopened
    exact ⟨⟨hopened, rfl⟩, by simp [Libavcodec.delayed, DelayLine.empty, DelayLine.popAll]⟩

/-- As for a decoder, without the flag of the context. -/
def EncodingCodec.delayedContract (d : Nat) (encodeOne : Frame → Packet) :
    (EncodingCodec.delayed d encodeOne).Contract where
  Working c := c.draining = false
  pending c := (c.popAll d).1.map encodeOne
  pending_of_refused := by
    intro line c' frame hrunning h
    cases (EncodingCodec.delayed_send d encodeOne hrunning frame).symm.trans h
  receive_pending := by
    intro line packet packets hrunning hpending
    obtain ⟨-, hnone⟩ | ⟨frame, rest, hpop, hdraining, hall⟩ := line.pop_cases d
    · simp [hnone] at hpending
    · simp only [hall, List.map_cons, List.cons.injEq] at hpending
      refine ⟨rest, ?_, hdraining.trans hrunning, hpending.2⟩
      simp [EncodingCodec.delayed, EncodingCodec.device, hpop, hpending.1]
  receive_again := by
    intro line hrunning hpending
    obtain ⟨hpop, -⟩ | ⟨frame, rest, -, -, hall⟩ := line.pop_cases d
    · refine ⟨line, ?_, hrunning, hpending⟩
      simp [EncodingCodec.delayed, EncodingCodec.device, hpop]
    · simp [hall] at hpending

/-- An opened decoder with a latency takes any packet. -/
theorem Libavcodec.delayedContract_sound (d : Nat) (decodeOne : Packet → Frame)
    {line : DelayLine Packet} (h : line.draining = false) (packet : Packet) :
    (delayedContract d decodeOne).Sound (true, line) packet := by
  have hsend := delayed_send d decodeOne h packet
  constructor
  · intro code c' herror
    cases hsend.symm.trans herror
  · rw [hsend]
    exact ⟨rfl, h⟩

theorem EncodingCodec.delayedContract_sound (d : Nat) (encodeOne : Frame → Packet)
    {line : DelayLine Frame} (h : line.draining = false) (frame : Frame) :
    (delayedContract d encodeOne).Sound line frame := by
  have hsend := delayed_send d encodeOne h frame
  constructor
  · intro code c' herror
    cases hsend.symm.trans herror
  · rw [hsend]
    exact h

namespace Decoder

variable {lib : Libavcodec Frame}

theorem receives_of_drains {c c' : lib.device.State} {frames : List Frame}
    (h : lib.device.Drains c frames c') : Receives lib c frames c' := by
  induction h with
  | stop h => exact Receives.stop h
  | output h _ ih => exact Receives.frame h ih

/-- The rounds suffice for all frames that the context has. -/
theorem receiveFrames_of_drains {c c' : lib.device.State} {frames : List Frame} {fuel : Nat}
    (h : lib.device.Drains c frames c') (hfuel : lib.backlog c < fuel) :
    receiveFrames lib fuel c = (frames, c') := by
  induction h generalizing fuel with
  | stop h =>
      cases fuel with
      | zero => exact absurd hfuel (Nat.not_lt_zero _)
      | succ fuel => exact receiveFrames_error h fuel
  | output h _ ih =>
      cases fuel with
      | zero => exact absurd hfuel (Nat.not_lt_zero _)
      | succ fuel =>
          have hless := lib.receive_backlog _ _ _ h
          rw [receiveFrames_ok h, ih (by omega)]
          rfl

variable (contract : lib.Contract)

/-- The context that the stream data of a packet come with. -/
def codecContext (d : Delivery) : Option AVCodecContext := d.data.bind StreamData.context

/-- The context that the packet is sent to. -/
def contextOf (used : Contexts lib) (d : Delivery) (ctx : AVCodecContext) : lib.Context :=
  (used d.stream).getD (lib.setUp ctx)

/-- The contexts after a call. -/
def step (used : Contexts lib) (d : Delivery) : Contexts lib := (process lib used d).2

/-- No context in use has a frame left. -/
def Drained (used : Contexts lib) : Prop :=
  ∀ stream c, used stream = some c → contract.Idle c

/-- If the packet comes with a context, then that was opened and does not fail on it. -/
def ErrorFree (used : Contexts lib) (d : Delivery) : Prop :=
  ∀ ctx ∈ codecContext d, ctx.opened = true ∧ contract.Sound (contextOf used d ctx) d.packet

/-- If the packet comes with a context, then that accepts it, the loop ends by itself with all
frames that there are now, and nothing is left. -/
def Served (used : Contexts lib) (d : Delivery) : Prop :=
  ∀ ctx ∈ codecContext d, ∃ accepted left,
    contract.Serves (contextOf used d ctx) d.packet accepted (process lib used d).1 left ∧
      Receives lib accepted (process lib used d).1 left ∧
      (process lib used d).2 d.stream = some left

/-- Without a context nothing is done. -/
theorem process_of_none {d : Delivery} (h : codecContext d = none) (used : Contexts lib) :
    process lib used d = ([], used) := by
  unfold process
  cases hdata : d.data with
  | none => rfl
  | some data =>
      have hctx : data.context = none := by
        rw [codecContext, hdata] at h
        exact h
      simp only [hctx]

theorem process_of_some {d : Delivery} {ctx : AVCodecContext} (h : codecContext d = some ctx)
    (used : Contexts lib) :
    process lib used d = ((processPacket lib (contextOf used d ctx) d.packet).1,
      fun stream => if stream = d.stream then
        some (processPacket lib (contextOf used d ctx) d.packet).2 else used stream) := by
  obtain ⟨data, hdata, hctx⟩ := Option.bind_eq_some_iff.mp h
  simp only [process, hdata, hctx, contextOf]

/-- An accepted packet is followed by the loop. -/
theorem processPacket_of_serves {contract : lib.device.Contract} {c accepted left : lib.device.State}
    {packet : Packet} {frames : List Frame}
    (h : contract.Serves c packet accepted frames left) :
    processPacket lib c packet = (frames, left) :=
  (processPacket_ok h.accepted_eq).trans (receiveFrames_of_drains h.drains (Nat.lt_succ_self _))

/-- One call. -/
theorem process_served {used : Contexts lib} {d : Delivery} (hused : Drained contract used)
    (hd : ErrorFree contract used d) :
    Served contract used d ∧ Drained contract (step used d) := by
  rw [step]
  cases hctx : codecContext d with
  | none =>
      rw [process_of_none hctx]
      refine ⟨?_, hused⟩
      intro ctx hmem
      rw [hctx] at hmem
      cases hmem
  | some ctx =>
      obtain ⟨hopened, hsound⟩ := hd ctx hctx
      have hidle : contract.Idle (contextOf used d ctx) := by
        unfold contextOf
        cases hstream : used d.stream with
        | none => exact contract.idle_setUp ctx hopened
        | some c => exact hused d.stream c hstream
      obtain ⟨accepted, frames, left, hserves⟩ := hidle.serves hsound
      have hprocess := process_of_some hctx used
      rw [processPacket_of_serves hserves] at hprocess
      rw [Served, hprocess]
      constructor
      · intro ctx' hmem
        obtain rfl : ctx = ctx' := Option.some.inj (hctx.symm.trans hmem)
        exact ⟨accepted, left, hserves, receives_of_drains hserves.drains, if_pos rfl⟩
      · intro stream c hstream
        by_cases hsame : stream = d.stream
        · obtain rfl := Option.some.inj ((if_pos hsame).symm.trans hstream)
          exact hserves.idle
        · exact hused stream c ((if_neg hsame).symm.trans hstream)

end Decoder

namespace Encoder

variable {lib : EncodingCodec Frame}

theorem receives_of_drains {c c' : lib.device.State} {packets : List Packet}
    (h : lib.device.Drains c packets c') : Receives lib c packets (.ok ()) c' := by
  induction h with
  | stop h => exact Receives.done h (Or.inl rfl)
  | output h _ ih => exact Receives.packet h ih

/-- The rounds suffice for all packets that the context has. -/
theorem receivePackets_of_drains {c c' : lib.device.State} {packets : List Packet} {fuel : Nat}
    (h : lib.device.Drains c packets c') (hfuel : lib.backlog c < fuel) :
    receivePackets lib fuel c = (packets, .ok (), c') := by
  induction h generalizing fuel with
  | stop h =>
      cases fuel with
      | zero => exact absurd hfuel (Nat.not_lt_zero _)
      | succ fuel => exact receivePackets_done h (Or.inl rfl) fuel
  | output h _ ih =>
      cases fuel with
      | zero => exact absurd hfuel (Nat.not_lt_zero _)
      | succ fuel =>
          have hless := lib.receive_backlog _ _ _ h
          rw [receivePackets_ok h, ih (by omega)]
          rfl

variable (contract : lib.Contract)

/-- A frame, and the data of the stream that it came from. -/
abbrev Input (Frame : Type) := Frame × Option StreamData

/-- The encoder after a call. -/
def step (encoder : Encoder lib) (input : Input Frame) : Encoder lib :=
  (process lib encoder input.1 input.2).2.2

/-- The context has no packet left. -/
def Drained (encoder : Encoder lib) : Prop :=
  ∀ ctx c, encoder.context = some (ctx, c) → contract.Idle c

/-- There is a context that does not fail on the frame, and a time base for it. -/
def ErrorFree (encoder : Encoder lib) (input : Input Frame) : Prop :=
  ∃ ctx c, encoder.context = some (ctx, c) ∧ (ctx.timeBase.den = 0 → input.2.isSome) ∧
    contract.Sound c input.1

/-- The context accepts the frame, the loop ends by itself with all packets that there are
now, nothing is left, and the call returns. -/
def Served (encoder : Encoder lib) (input : Input Frame) : Prop :=
  ∃ ctx c ctx' accepted packets left, encoder.context = some (ctx, c) ∧
    contract.Serves c input.1 accepted packets left ∧
    Receives lib accepted packets (.ok ()) left ∧
    process lib encoder input.1 input.2 = (packets, .ok (), ⟨some (ctx', left), false⟩)

theorem setTimeBase_ok {ctx : AVCodecContext} {streamIn : Option StreamData}
    (h : ctx.timeBase.den = 0 → streamIn.isSome) : ∃ ctx', setTimeBase ctx streamIn = .ok ctx' := by
  unfold setTimeBase
  split
  · rename_i hden
    obtain ⟨data, rfl⟩ := Option.isSome_iff_exists.mp (h hden)
    exact ⟨_, rfl⟩
  · exact ⟨_, rfl⟩

/-- One call. -/
theorem process_served {encoder : Encoder lib} {input : Input Frame}
    (hencoder : Drained contract encoder) (hinput : ErrorFree contract encoder input) :
    Served contract encoder input ∧ Drained contract (step encoder input) := by
  obtain ⟨ctx, c, hcontext, htime, hsound⟩ := hinput
  obtain ⟨ctx', hctx'⟩ := setTimeBase_ok htime
  obtain ⟨accepted, packets, left, hserves⟩ := (hencoder ctx c hcontext).serves hsound
  have hpackets := receivePackets_of_drains hserves.drains (Nat.lt_succ_self _)
  have hsend : lib.sendFrame c input.1 = (.ok (), accepted) := hserves.accepted_eq
  have hprocess : process lib encoder input.1 input.2 =
      (packets, .ok (), ⟨some (ctx', left), false⟩) := by
    simp only [process, hcontext, hctx', hsend, hpackets]
  refine ⟨⟨ctx, c, ctx', accepted, packets, left, hcontext, hserves,
    receives_of_drains hserves.drains, hprocess⟩, ?_⟩
  intro ctx'' c'' hleft
  rw [step, hprocess] at hleft
  obtain ⟨-, rfl⟩ := Prod.mk.inj (Option.some.inj hleft)
  exact hserves.idle

end Encoder

/-- On packets and frames on which the codecs do not fail, each call of the decoder and of the
encoder is accepted by its codec, emits all that became available in order, and leaves nothing
behind. -/
theorem codec_loops_drain {dec : Libavcodec Frame} (decodes : dec.Contract)
    {enc : EncodingCodec Frame} (encodes : enc.Contract)
    {used : Decoder.Contexts dec} (hused : Decoder.Drained decodes used)
    {ds : List Delivery} (hds : Along Decoder.step (Decoder.ErrorFree decodes) used ds)
    {encoder : Encoder enc} (hencoder : Encoder.Drained encodes encoder)
    {inputs : List (Encoder.Input Frame)}
    (hinputs : Along Encoder.step (Encoder.ErrorFree encodes) encoder inputs) :
    Along Decoder.step (Decoder.Served decodes) used ds ∧
      Along Encoder.step (Encoder.Served encodes) encoder inputs := by
  constructor
  · apply Along.of_invariant _ hused hds
    exact fun used d => Decoder.process_served decodes
  · apply Along.of_invariant _ hencoder hinputs
    exact fun encoder input => Encoder.process_served encodes

/-- Two packets of a stream, for a decoder with a latency of one. -/
def sampleDeliveries : List Delivery :=
  [Transcoder.sampleStream.forward Packet.keyFrame, Transcoder.sampleStream.forward Packet.create]

theorem codec_loops_drain_sample :
    Along Decoder.step (Decoder.Served (Libavcodec.delayedContract 1 id)) (fun _ => none)
        sampleDeliveries ∧
      Along Encoder.step (Encoder.Served (EncodingCodec.delayedContract 1 id))
        ⟨some (Transcoder.sampleContext, DelayLine.empty), true⟩
        [(Packet.keyFrame, none), (Packet.create, none)] := by
  apply codec_loops_drain
  · intro stream c h
    cases h
  · refine ⟨?_, ?_, trivial⟩
    · intro ctx hctx
      obtain rfl := Option.some.inj hctx
      exact ⟨rfl, Libavcodec.delayedContract_sound 1 id rfl _⟩
    · intro ctx hctx
      obtain rfl := Option.some.inj hctx
      exact ⟨rfl, Libavcodec.delayedContract_sound 1 id rfl _⟩
  · intro ctx c h
    obtain ⟨rfl, rfl⟩ := Prod.mk.inj (Option.some.inj h)
    exact ⟨rfl, rfl⟩
  · refine ⟨?_, ?_, trivial⟩
    · exact ⟨_, _, rfl, by decide, EncodingCodec.delayedContract_sound 1 id rfl _⟩
    · exact ⟨_, _, rfl, by decide, EncodingCodec.delayedContract_sound 1 id rfl _⟩

end Media2
