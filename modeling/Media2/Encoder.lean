import Media2.StreamData

/-!
# The encoder

An encoder sends every frame it is given to the codec context of its own stream, and
passes on the packets that the context then has. The packets travel with the data of the
stream that the frame came from.

## Implementation notes

As in the decoder, libavcodec is a parameter, of which it is only asked that a context
runs out of packets when no frame is sent.
-/

namespace Media2

/-- What libavcodec does with a context that encodes. -/
structure EncodingCodec (Frame : Type) where
  Context : Type
  sendFrame : Context → Frame → Except Int Unit × Context
  receivePacket : Context → Except Int Packet × Context
  backlog : Context → Nat
  receive_backlog : ∀ c packet c', receivePacket c = (.ok packet, c') → backlog c' < backlog c

/-- `AVERROR(EAGAIN)`. -/
def eagain : Int := -11

/-- `AVERROR_EOF`. -/
def averrorEof : Int := -541478725

/-- An encoder; `subscribeCallback` makes and opens the context. -/
structure Encoder {Frame : Type} (lib : EncodingCodec Frame) where
  context : Option (AVCodecContext × lib.Context)
  firstPacket : Bool

namespace Encoder

variable {Frame : Type} (lib : EncodingCodec Frame)

/-- The exception of `process`. -/
def failure (retval : Int) : Fault :=
  .runtimeError ("Error encoding frame: " ++ toString retval)

/-- The rounds of `while (retval >= 0)`: the packets that were passed on, and how the loop
ended. -/
def receivePackets : (fuel : Nat) → lib.Context → List Packet × Except Fault Unit × lib.Context
  | 0, c => ([], .ok (), c)
  | fuel + 1, c =>
      match lib.receivePacket c with
      | (.error retval, c) =>
          ([], if retval = eagain ∨ retval = averrorEof then .ok () else .error (failure retval), c)
      | (.ok packet, c) =>
          let (packets, outcome, c) := receivePackets fuel c
          (packet :: packets, outcome, c)

/-- The time base that a context without one takes from the incoming stream. -/
def setTimeBase (ctx : AVCodecContext) (streamIn : Option StreamData) :
    Except Fault AVCodecContext :=
  if ctx.timeBase.den = 0 then
    match streamIn with
    | none => .error .nullDereference
    | some data => .ok { ctx with timeBase := data.timeBase }
  else .ok ctx

/-- `Encoder::process`: the packets that were passed on, and the outcome. -/
def process (encoder : Encoder lib) (frame : Frame) (streamIn : Option StreamData) :
    List Packet × Except Fault Unit × Encoder lib :=
  match encoder.context with
  | none => ([], .error .nullDereference, encoder)
  | some (ctx, c) =>
      match setTimeBase ctx streamIn with
      | .error e => ([], .error e, encoder)
      | .ok ctx =>
          match lib.sendFrame c frame with
          | (.error retval, c) => ([], .error (failure retval), ⟨some (ctx, c), false⟩)
          | (.ok _, c) =>
              let (packets, outcome, c) := receivePackets lib (lib.backlog c + 1) c
              (packets, outcome, ⟨some (ctx, c), false⟩)

/-- The loop, without a bound on its rounds. -/
inductive Receives : lib.Context → List Packet → Except Fault Unit → lib.Context → Prop
  | done {c c' retval} (h : lib.receivePacket c = (.error retval, c'))
      (hend : retval = eagain ∨ retval = averrorEof) : Receives c [] (.ok ()) c'
  | failed {c c' retval} (h : lib.receivePacket c = (.error retval, c'))
      (hend : ¬ (retval = eagain ∨ retval = averrorEof)) :
      Receives c [] (.error (failure retval)) c'
  | packet {c c' c'' packet packets outcome} (h : lib.receivePacket c = (.ok packet, c'))
      (hrest : Receives c' packets outcome c'') : Receives c (packet :: packets) outcome c''

/-- The rounds suffice: the loop ends by itself. -/
theorem receivePackets_receives {fuel : Nat} {c : lib.Context} (h : lib.backlog c < fuel) :
    Receives lib c (receivePackets lib fuel c).1 (receivePackets lib fuel c).2.1
      (receivePackets lib fuel c).2.2 := by
  induction fuel generalizing c with
  | zero => exact absurd h (Nat.not_lt_zero _)
  | succ fuel ih =>
      unfold receivePackets
      split
      · rename_i retval c' hreceive
        split
        · exact Receives.done hreceive ‹_›
        · exact Receives.failed hreceive ‹_›
      · rename_i packet c' hreceive
        have hless := lib.receive_backlog c packet c' hreceive
        exact Receives.packet hreceive (ih (by omega))

section Rounds

variable {lib} {c c' : lib.Context} {frame : Frame}

theorem receivePackets_done {retval : Int} (h : lib.receivePacket c = (.error retval, c'))
    (hend : retval = eagain ∨ retval = averrorEof) (fuel : Nat) :
    receivePackets lib (fuel + 1) c = ([], .ok (), c') := by
  rw [receivePackets, h]
  simp only [if_pos hend]

theorem receivePackets_ok {packet : Packet} (h : lib.receivePacket c = (.ok packet, c'))
    (fuel : Nat) :
    receivePackets lib (fuel + 1) c =
      (packet :: (receivePackets lib fuel c').1, (receivePackets lib fuel c').2) := by
  rw [receivePackets, h]

/-- With data at hand a frame that is accepted is followed by the loop. -/
theorem process_ok (h : lib.sendFrame c frame = (.ok (), c')) (ctx : AVCodecContext)
    (firstPacket : Bool) (data : StreamData) :
    ∃ ctx', process lib ⟨some (ctx, c), firstPacket⟩ frame (some data) =
      ((receivePackets lib (lib.backlog c' + 1) c').1,
        (receivePackets lib (lib.backlog c' + 1) c').2.1,
        ⟨some (ctx', (receivePackets lib (lib.backlog c' + 1) c').2.2), false⟩) := by
  obtain ⟨ctx', htime⟩ : ∃ ctx', setTimeBase ctx (some data) = .ok ctx' := by
    unfold setTimeBase
    split
    · exact ⟨_, rfl⟩
    · exact ⟨_, rfl⟩
  refine ⟨ctx', ?_⟩
  simp only [process, htime, h]

end Rounds

end Encoder

end Media2
