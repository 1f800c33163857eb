import Media2.StreamData

/-!
# The decoder

A decoder sends every packet it is given to the codec context in the stream data
that come with the packet, and passes on the frames the context then has.

## Implementation notes

libavcodec is a parameter. All that is asked of it is that a context runs out of
frames when no packet is sent, and that a context which was never opened refuses
packets. A context belongs to the stream object, so the contexts in use are kept
by stream.
-/

namespace Media2

/-- What libavcodec does with the contexts that the program sets up. A call returns
a negative code on failure; `backlog` bounds the frames that a context has. -/
structure Libavcodec (Frame : Type) where
  Context : Type
  setUp : AVCodecContext → Context
  sendPacket : Context → Packet → Except Int Unit × Context
  receiveFrame : Context → Except Int Frame × Context
  backlog : Context → Nat
  receive_backlog : ∀ c frame c', receiveFrame c = (.ok frame, c') → backlog c' < backlog c
  send_unopened : ∀ ctx packet, ctx.opened = false →
    ∃ code, sendPacket (setUp ctx) packet = (.error code, setUp ctx)

/-- A codec with a frame for every packet: the packet. -/
def Libavcodec.passThrough : Libavcodec Packet where
  Context := Bool × List Packet
  setUp ctx := (ctx.opened, [])
  sendPacket c packet :=
    if c.1 then (.ok (), (c.1, c.2 ++ [packet])) else (.error (-22), c)
  receiveFrame c :=
    match c.2 with
    | [] => (.error (-11), c)
    | packet :: packets => (.ok packet, (c.1, packets))
  backlog c := c.2.length
  receive_backlog := by
    rintro ⟨opened, packets⟩ frame c' h
    cases packets with
    | nil => simp at h
    | cons packet packets =>
        obtain ⟨-, rfl⟩ := Prod.mk.inj h
        exact Nat.lt_succ_self _
  send_unopened := by
    intro ctx packet h
    exact ⟨-22, by simp [h]⟩

namespace Decoder

variable {Frame : Type} (lib : Libavcodec Frame)

/-- The rounds of `while (avret >= 0)`. `EAGAIN` and `EOF` break out of the loop and
any other error ends it. -/
def receiveFrames : (fuel : Nat) → lib.Context → List Frame × lib.Context
  | 0, c => ([], c)
  | fuel + 1, c =>
      match lib.receiveFrame c with
      | (.error _, c) => ([], c)
      | (.ok frame, c) =>
          let (frames, c) := receiveFrames fuel c
          (frame :: frames, c)

/-- The body of `Decoder::process`, on a context that is there. -/
def processPacket (c : lib.Context) (packet : Packet) : List Frame × lib.Context :=
  match lib.sendPacket c packet with
  | (.error _, c) => ([], c)
  | (.ok _, c) => receiveFrames lib (lib.backlog c + 1) c

/-- The contexts that were used, by stream. -/
abbrev Contexts : Type := Nat → Option lib.Context

/-- `Decoder::process`. -/
def process (used : Contexts lib) (d : Delivery) : List Frame × Contexts lib :=
  match d.data with
  | none => ([], used)
  | some data =>
      match data.context with
      | none => ([], used)
      | some ctx =>
          let (frames, c) := processPacket lib ((used d.stream).getD (lib.setUp ctx)) d.packet
          (frames, fun stream => if stream = d.stream then some c else used stream)

/-- All the frames that a decoder emits for what it is given. -/
def decode (used : Contexts lib) : List Delivery → List Frame
  | [] => []
  | d :: ds => (process lib used d).1 ++ decode (process lib used d).2 ds

/-- The loop, without a bound on its rounds. -/
inductive Receives : lib.Context → List Frame → lib.Context → Prop
  | stop {c c' code} (h : lib.receiveFrame c = (.error code, c')) : Receives c [] c'
  | frame {c c' c'' frame frames} (h : lib.receiveFrame c = (.ok frame, c'))
      (hrest : Receives c' frames c'') : Receives c (frame :: frames) c''

/-- The rounds suffice: the loop ends by itself. -/
theorem receiveFrames_receives {fuel : Nat} {c : lib.Context} (h : lib.backlog c < fuel) :
    Receives lib c (receiveFrames lib fuel c).1 (receiveFrames lib fuel c).2 := by
  induction fuel generalizing c with
  | zero => exact absurd h (Nat.not_lt_zero _)
  | succ fuel ih =>
      unfold receiveFrames
      split
      · exact Receives.stop ‹_›
      · rename_i frame c' hframe
        have hless := lib.receive_backlog c frame c' hframe
        exact Receives.frame hframe (ih (by omega))

section Rounds

variable {lib} {c c' : lib.Context} {packet : Packet} {code : Int}

theorem receiveFrames_error (h : lib.receiveFrame c = (.error code, c')) (fuel : Nat) :
    receiveFrames lib (fuel + 1) c = ([], c') := by
  rw [receiveFrames, h]

theorem receiveFrames_ok {frame : Frame} (h : lib.receiveFrame c = (.ok frame, c')) (fuel : Nat) :
    receiveFrames lib (fuel + 1) c =
      (frame :: (receiveFrames lib fuel c').1, (receiveFrames lib fuel c').2) := by
  rw [receiveFrames, h]

theorem processPacket_error (h : lib.sendPacket c packet = (.error code, c')) :
    processPacket lib c packet = ([], c') := by
  rw [processPacket, h]

theorem processPacket_ok (h : lib.sendPacket c packet = (.ok (), c')) :
    processPacket lib c packet = receiveFrames lib (lib.backlog c' + 1) c' := by
  rw [processPacket, h]

end Rounds

/-- The frames for packets that are all sent to one context. -/
def decodePackets (c : lib.Context) : List Packet → List Frame
  | [] => []
  | packet :: packets =>
      (processPacket lib c packet).1 ++ decodePackets (processPacket lib c packet).2 packets

/-- A decoder on one stream object sends every packet to the stream's context. -/
theorem decode_forward {stream : Stream} {data : StreamData} {ctx : AVCodecContext}
    (hdata : stream.data = some data) (hctx : data.context = some ctx) (used : Contexts lib)
    (packets : List Packet) :
    decode lib used (packets.map stream.forward) =
      decodePackets lib ((used stream.id).getD (lib.setUp ctx)) packets := by
  induction packets generalizing used with
  | nil => rfl
  | cons packet packets ih =>
      rw [List.map_cons, decode, decodePackets, ih]
      simp only [process, Stream.forward, hdata, hctx, if_true, Option.getD_some]

/-- The codec has no frame after any of the packets. -/
def Silent (c : lib.Context) : List Packet → Prop
  | [] => True
  | packet :: packets =>
      match lib.sendPacket c packet with
      | (.error _, c) => Silent c packets
      | (.ok _, c) =>
          match lib.receiveFrame c with
          | (.ok _, _) => False
          | (.error _, c) => Silent c packets

theorem decodePackets_eq_nil {c : lib.Context} {packets : List Packet} :
    decodePackets lib c packets = [] ↔ Silent lib c packets := by
  induction packets generalizing c with
  | nil => simp [decodePackets, Silent]
  | cons packet packets ih =>
      rw [decodePackets, List.append_eq_nil_iff, ih, Silent]
      unfold processPacket receiveFrames
      rcases lib.sendPacket c packet with ⟨code | ⟨⟩, c'⟩
      · simp
      · dsimp only
        rcases lib.receiveFrame c' with ⟨code | frame, c''⟩
        · simp
        · simp

/-- The data carry no context, or one that was never opened. -/
def Unopened (d : Delivery) : Prop :=
  ∀ data ∈ d.data, ∀ ctx ∈ data.context, ctx.opened = false

/-- A decoder that only meets unopened contexts emits nothing. -/
theorem decode_unopened {ds : List Delivery} (hds : ∀ d ∈ ds, Unopened d) {used : Contexts lib}
    (hused : ∀ stream c, used stream = some c →
      ∃ ctx : AVCodecContext, ctx.opened = false ∧ c = lib.setUp ctx) :
    decode lib used ds = [] := by
  induction ds generalizing used with
  | nil => rfl
  | cons d ds ih =>
      have hrest := fun d' hd' => hds d' (List.mem_cons_of_mem d hd')
      have hd := hds d (List.mem_cons_self ..)
      unfold decode process
      split
      · exact ih hrest hused
      · rename_i data hdata
        split
        · exact ih hrest hused
        · rename_i ctx hctx
          obtain ⟨ctx', hopened, hc⟩ : ∃ ctx' : AVCodecContext, ctx'.opened = false ∧
              (used d.stream).getD (lib.setUp ctx) = lib.setUp ctx' := by
            cases hu : used d.stream with
            | none => exact ⟨ctx, hd data hdata ctx hctx, rfl⟩
            | some c => exact hused d.stream c hu
          obtain ⟨code, hsend⟩ := lib.send_unopened ctx' d.packet hopened
          simp only [processPacket, hc, hsend, List.nil_append]
          apply ih hrest
          intro stream c hstream
          split at hstream
          · exact ⟨ctx', hopened, (Option.some.inj hstream).symm⟩
          · exact hused stream c hstream

end Decoder

end Media2
