import Media2.Muxer.Protocol

/-!
# Closing

`close` begins with a flush. If libav refuses a packet, or the header before it, the flush
throws before anything of the output is closed: the muxer stays open with its handle, and the
exception leaves the destructor as it leaves `close`, which ends the process.
-/

namespace Media2.Muxer

open Execution

/-- Whether the output handle is held: `avio_open` opened it and `avio_closep` has not
released it since. -/
def handle (held : Bool) (e : Entry) : Bool :=
  match e.call with
  | .avioOpen => held || 0 ≤ e.rc
  | .avioClosep => false
  | _ => held

def holdsOutput (log : List Entry) : Bool := log.foldl handle false

/-- `close` returns, and an output that was open is closed and its handle released. -/
structure Closes (libav : Libavformat) (m : Muxer) : Prop where
  returns : (m.close libav).1 = .ok ()
  closed : m.state = .opened →
    (m.close libav).2.state = .closed ∧ holdsOutput (m.close libav).2.log = false

/-- libav takes the packets in turn, and before the first of them the header, if it was not
asked to write it yet. -/
def Accepts (libav : Libavformat) (state : States) : Bool → List Entry → List Packet → Prop
  | _, _, [] => True
  | true, log, packet :: packets =>
      let log := log ++ [⟨.taken packet, 0, state⟩]
      let header := libav.rc log .writeHeader
      let log := log ++ [⟨.writeHeader, header, state⟩]
      let frame := libav.rc log (.writeFrame packet)
      0 ≤ header ∧ 0 ≤ frame ∧
        Accepts libav state false (log ++ [⟨.writeFrame packet, frame, state⟩]) packets
  | false, log, packet :: packets =>
      let log := log ++ [⟨.taken packet, 0, state⟩]
      let frame := libav.rc log (.writeFrame packet)
      0 ≤ frame ∧ Accepts libav state false (log ++ [⟨.writeFrame packet, frame, state⟩]) packets

/-- libav takes all that is in the buffer. -/
def Flushable (libav : Libavformat) (m : Muxer) : Prop :=
  Accepts libav m.state m.streamStart m.log m.buffer

section Flush

variable {libav : Libavformat} {m : Muxer} {packet : Packet}

theorem writeFrame_returns_iff (libav : Libavformat) (m : Muxer) (packet : Packet) :
    (m.writeFrame libav packet).1 = .ok () ↔ 0 ≤ libav.rc m.log (.writeFrame packet) := by
  rw [writeFrame]
  dsimp only [ask]
  split
  · rename_i hneg
    simp [failure, hneg]
  · rename_i hneg
    simpa using hneg

theorem writeFrame_snd (libav : Libavformat) (m : Muxer) (packet : Packet) :
    (m.writeFrame libav packet).2 =
      m.note (.writeFrame packet) (libav.rc m.log (.writeFrame packet)) := by
  rw [writeFrame]
  dsimp only [ask]
  split <;> rfl

/-- A write after the header is the write of a frame. -/
theorem write_started (hstart : m.streamStart = false) (packet : Packet) :
    m.write libav packet = (m.note (.taken packet) 0).writeFrame libav packet := by
  rw [write]
  exact if_neg (by simp [note, hstart])

/-- The muxer when the first write has asked for the header. -/
def headed (libav : Libavformat) (m : Muxer) (packet : Packet) : Muxer :=
  (({ m.note (.taken packet) 0 with streamStart := false }).ask libav .writeHeader).2

/-- The first write goes on if libav takes the header. -/
theorem write_first (hstart : m.streamStart = true)
    (hheader : 0 ≤ libav.rc (m.note (.taken packet) 0).log .writeHeader) :
    m.write libav packet = (m.headed libav packet).writeFrame libav packet := by
  rw [write]
  exact (if_pos hstart).trans (if_neg (Int.not_lt.mpr hheader))

theorem write_first_throws (hstart : m.streamStart = true)
    (hheader : ¬ 0 ≤ libav.rc (m.note (.taken packet) 0).log .writeHeader) :
    m.write libav packet =
      (failure "Could not write media header.", m.headed libav packet) := by
  rw [write]
  exact (if_pos hstart).trans (if_pos (Int.not_le.mp hheader))

/-- The loop goes on after a write that returned, and throws what a write throws. -/
theorem drain_cons_returns_iff (libav : Libavformat) (m : Muxer) (packet : Packet)
    (packets : List Packet) :
    (drain libav (packet :: packets) m).1 = .ok () ↔
      ({ m with buffer := packets }.write libav packet).1 = .ok () ∧
        (drain libav packets ({ m with buffer := packets }.write libav packet).2).1 = .ok () := by
  rw [drain]
  cases { m with buffer := packets }.write libav packet with
  | mk outcome m' => cases outcome <;> simp

/-- The loop of `flush` returns if and only if libav takes all the packets. -/
theorem drain_returns_iff (packets : List Packet) (m : Muxer) :
    (drain libav packets m).1 = .ok () ↔ Accepts libav m.state m.streamStart m.log packets := by
  induction packets generalizing m with
  | nil => simp [drain, Accepts]
  | cons packet packets ih =>
      have hframe : ∀ m' : Muxer,
          (m'.writeFrame libav packet).1 = .ok () ∧
            (drain libav packets (m'.writeFrame libav packet).2).1 = .ok () ↔
          0 ≤ libav.rc m'.log (.writeFrame packet) ∧
            Accepts libav m'.state m'.streamStart
              (m'.log ++ [⟨.writeFrame packet, libav.rc m'.log (.writeFrame packet), m'.state⟩])
              packets := by
        intro m'
        rw [writeFrame_returns_iff, writeFrame_snd, ih]
        rfl
      have hwrite : ∀ m' : Muxer,
          (m'.write libav packet).1 = .ok () ∧
            (drain libav packets (m'.write libav packet).2).1 = .ok () ↔
          Accepts libav m'.state m'.streamStart m'.log (packet :: packets) := by
        intro m'
        cases hstart : m'.streamStart with
        | false =>
            rw [write_started hstart, hframe, Accepts]
            simp only [note, hstart]
        | true =>
            by_cases hheader : 0 ≤ libav.rc (m'.note (.taken packet) 0).log .writeHeader
            · rw [write_first hstart hheader, hframe, Accepts]
              exact (and_iff_right hheader).symm
            · rw [write_first_throws hstart hheader, Accepts]
              simp only [failure, reduceCtorEq, false_and, false_iff, not_and]
              exact fun hpos => absurd hpos hheader
      rw [drain_cons_returns_iff]
      exact hwrite { m with buffer := packets }

/-- A write returns if and only if libav takes the packet. -/
theorem write_returns_iff (libav : Libavformat) (m : Muxer) (packet : Packet) :
    (m.write libav packet).1 = .ok () ↔ Accepts libav m.state m.streamStart m.log [packet] := by
  cases hstart : m.streamStart with
  | false =>
      rw [write_started hstart, writeFrame_returns_iff, Accepts, Accepts, and_true]
      rfl
  | true =>
      by_cases hheader : 0 ≤ libav.rc (m.note (.taken packet) 0).log .writeHeader
      · rw [write_first hstart hheader, writeFrame_returns_iff, Accepts, Accepts, and_true]
        exact (and_iff_right hheader).symm
      · rw [write_first_throws hstart hheader, Accepts]
        simp only [failure, reduceCtorEq, false_iff, not_and]
        exact fun hpos => absurd hpos hheader

/-- `process` returns if there is room, or if libav takes the packet in front. -/
theorem enter_returns_iff (libav : Libavformat) (m : Muxer) (arrival : Arrival) :
    (m.enter libav arrival).1 = .ok () ↔ arrival.room = true ∨
      Accepts libav m.state m.streamStart m.log ((m.buffer ++ [arrival.packet]).take 1) := by
  rw [enter, Packet.copy_val]
  dsimp only
  cases hroom : arrival.room with
  | true => simp
  | false =>
      rw [if_neg Bool.false_ne_true]
      cases hbuffer : m.buffer ++ [arrival.packet] with
      | nil => exact absurd hbuffer (List.append_ne_nil_of_right_ne_nil _ (List.cons_ne_nil _ _))
      | cons front rest =>
          have hwrite := write_returns_iff libav { m with buffer := rest } front
          simpa only [Bool.false_eq_true, false_or, List.take_succ_cons, List.take_zero] using hwrite

theorem flush_returns_iff (libav : Libavformat) (m : Muxer) :
    (m.flush libav).1 = .ok () ↔ Flushable libav m :=
  drain_returns_iff m.buffer m

theorem close_fst (libav : Libavformat) (m : Muxer) :
    (m.close libav).1 = (m.flush libav).1 := by
  rcases close_cases libav m with ⟨e, hthrows, hclose⟩ | ⟨hreturns, hclose⟩
  · rw [hclose, hthrows]
  · rw [hclose, hreturns]

end Flush

/-- The handle is held while the muxer is open, if the output is a file. -/
def Handled (libav : Libavformat) (m : Muxer) : Prop :=
  holdsOutput m.log = (decide (m.state = .opened) && !libav.noFile)

/-- The call does not open or release the handle. -/
def Call.Apart (call : Call) : Prop := call ≠ .avioOpen ∧ call ≠ .avioClosep

theorem holdsOutput_snoc (log : List Entry) (e : Entry) :
    holdsOutput (log ++ [e]) = handle (holdsOutput log) e :=
  List.foldl_append

theorem handle_apart {e : Entry} (h : e.call.Apart) (held : Bool) : handle held e = held := by
  obtain ⟨hopen, hclosep⟩ := h
  unfold handle
  split
  · rename_i hcall
    exact absurd hcall hopen
  · rename_i hcall
    exact absurd hcall hclosep
  · rfl

theorem holdsOutput_apart {entries : List Entry} (h : ∀ e ∈ entries, e.call.Apart)
    (log : List Entry) : holdsOutput (log ++ entries) = holdsOutput log := by
  induction entries generalizing log with
  | nil => rw [List.append_nil]
  | cons e entries ih =>
      have hfirst : holdsOutput (log ++ [e]) = holdsOutput log := by
        rw [holdsOutput_snoc, handle_apart (h e List.mem_cons_self)]
      rw [List.append_cons, ih fun e' he' => h e' (List.mem_cons_of_mem e he'), hfirst]

theorem Written.apart {libav : Libavformat} {state : States} {packet : Packet} {start ok : Bool}
    {entries : List Entry} (h : Written libav state packet start ok entries) :
    ∀ e ∈ ⟨.taken packet, 0, state⟩ :: entries, e.call.Apart := by
  cases h <;> simp [Call.Apart]

section Handle

variable {libav : Libavformat} {m : Muxer}

theorem Handled.note (h : Handled libav m) {call : Call} (hcall : call.Apart) (rc : Int) :
    Handled libav (m.note call rc) := by
  rw [Handled, note_log, holdsOutput_snoc, handle_apart hcall]
  exact h

theorem Handled.wrote (h : Handled libav m) {packet : Packet} {packets : List Packet} {ok : Bool}
    {entries : List Entry} (hw : Written libav m.state packet m.streamStart ok entries) :
    Handled libav (m.wrote packet packets entries) := by
  rw [Handled, Muxer.wrote, holdsOutput_apart hw.apart]
  exact h

/-- A flush leaves the handle and the state as they are, also when it throws. -/
theorem flush_handled (h : Handled libav m) :
    Handled libav (m.flush libav).2 ∧ (m.flush libav).2.state = m.state := by
  apply flush_rule libav (I := fun m' => Handled libav m' ∧ m'.state = m.state)
    (J := fun _ m' => Handled libav m' ∧ m'.state = m.state) _ _ ⟨h, rfl⟩
  · intro m' packet packets ok entries hI _ hw
    have hnext : Handled libav (m'.wrote packet packets entries) ∧
        (m'.wrote packet packets entries).state = m.state := ⟨hI.1.wrote hw, hI.2⟩
    split
    · exact hnext
    · exact hnext
  · exact fun m' hI _ => hI

theorem openOutput_handled (h : Handled libav m) : Handled libav (m.openOutput libav).2 := by
  have hopened : ∀ m' : Muxer, holdsOutput m'.log = !libav.noFile →
      Handled libav ({ m' with state := .opened }.note .opened 0) := by
    intro m' hheld
    rw [Handled, note_log, holdsOutput_snoc, handle_apart (by simp [Call.Apart])]
    exact hheld
  unfold openOutput
  split
  · exact h
  · rename_i hstate
    have hnone : holdsOutput m.log = false := by
      rw [h, decide_eq_false hstate, Bool.false_and]
    split
    · rename_i hfile
      exact hopened m (by rw [hnone, hfile]; rfl)
    · rename_i hfile
      dsimp only [ask]
      have hasked : holdsOutput (m.note .avioOpen (libav.rc m.log .avioOpen)).log =
          decide (0 ≤ libav.rc m.log .avioOpen) := by
        rw [note_log, holdsOutput_snoc, hnone]
        rfl
      split
      · rename_i hneg
        rw [Handled, hasked]
        simpa using hneg
      · rename_i hneg
        apply hopened
        rw [hasked, Bool.eq_false_iff.mpr hfile]
        simpa using hneg

/-- What comes after the flush closes what is open. -/
theorem closeOutput_handled (h : Handled libav m) :
    Handled libav (m.closeOutput libav) ∧
      (m.state = .opened → (m.closeOutput libav).state = .closed) := by
  have hclosed : ∀ m' : Muxer, Handled libav m' →
      Handled libav { (if libav.noFile then m' else (m'.ask libav .avioClosep).2) with
        state := .closed, streamStart := true } := by
    intro m' hm'
    split
    · rename_i hfile
      rw [Handled, hfile] at hm' ⊢
      simpa using hm'
    · rw [Handled]
      dsimp only [ask]
      rw [note_log, holdsOutput_snoc]
      rfl
  unfold closeOutput
  split
  · refine ⟨?_, fun _ => rfl⟩
    split
    · apply hclosed
      exact (h.note (by simp [Call.Apart]) _).note (by simp [Call.Apart]) _
    · exact hclosed m h
  · rename_i hstate
    exact ⟨h, fun hopened => absurd hopened hstate⟩

theorem close_handled (h : Handled libav m) : Handled libav (m.close libav).2 := by
  obtain ⟨hflush, -⟩ := flush_handled h
  rcases close_cases libav m with ⟨e, -, hclose⟩ | ⟨-, hclose⟩
  · rw [hclose]
    exact hflush
  · rw [hclose]
    exact (closeOutput_handled hflush).1

theorem subscribe_handled (h : Handled libav m) (source : Stream) :
    Handled libav (m.subscribe libav source).2 := by
  have hasked : Handled libav (m.note .newStream (libav.rc m.log .newStream)) :=
    h.note (by simp [Call.Apart]) _
  unfold subscribe
  split
  · exact h
  · cases source.data with
    | none => exact h
    | some data =>
        dsimp only [ask]
        split
        · exact hasked
        · cases data.parameters with
          | none => exact hasked
          | some parameters => exact hasked

theorem process_handled (h : Handled libav m) (i : Nat) (info : StreamInfo) (packet : Packet)
    (stream : Option StreamData) : Handled libav (m.process libav i info packet stream).2 := by
  unfold process
  rcases arrive_cases m i info packet stream with ⟨-, herror⟩ | ⟨info', output, -, -, hok⟩
  · rw [herror]
    exact h
  · rw [hok]
    dsimp only
    have hsame : Handled libav { m with streaminfo := m.streaminfo.set i info' } := h
    rcases enter_cases libav { m with streaminfo := m.streaminfo.set i info' }
      ⟨packet.setStreamIndex output.index, m.buffer.length < m.limit⟩ with
      ⟨-, heq⟩ | ⟨-, front, rest, entries, -, hw, heq⟩
    · rw [heq]
      exact h
    · rw [heq]
      exact hsame.wrote hw

/-- `close` returns if and only if libav takes what is in the buffer, and it closes the output
whenever it returns. -/
theorem Handled.closes_iff (h : Handled libav m) : Closes libav m ↔ Flushable libav m := by
  rw [← flush_returns_iff, ← close_fst]
  constructor
  · exact fun hcloses => hcloses.returns
  · intro hreturns
    refine ⟨hreturns, fun hopened => ?_⟩
    obtain ⟨hflush, hstate⟩ := flush_handled h
    have hclosed : (m.close libav).2 = (m.flush libav).2.closeOutput libav := by
      rcases close_cases libav m with ⟨e, -, hclose⟩ | ⟨-, hclose⟩
      · rw [hclose] at hreturns
        cases hreturns
      · rw [hclose]
    obtain ⟨hhandled, hcloses⟩ := closeOutput_handled hflush
    rw [hclosed]
    have hafter := hcloses (hstate.trans hopened)
    refine ⟨hafter, ?_⟩
    rw [hhandled, hafter]
    rfl

end Handle

namespace Session

variable {libav : Libavformat}

theorem step_handled {s t : Session} {op : Op} (hs : Handled libav s.muxer)
    (h : s.step libav op = some t) : Handled libav t.muxer := by
  unfold step at h
  split at h
  · cases h
  · cases op with
    | subscribe source => exact Option.some.inj h ▸ subscribe_handled hs source
    | process i packet stream =>
        obtain ⟨info, -, rfl⟩ := Option.map_eq_some_iff.mp h
        exact process_handled hs i info packet stream
    | flush => exact Option.some.inj h ▸ (flush_handled hs).1
    | openOutput => exact Option.some.inj h ▸ openOutput_handled hs
    | close => exact Option.some.inj h ▸ close_handled hs
    | destroy => exact Option.some.inj h ▸ close_handled hs

theorem create_handled {filename format : String} {bufferMax : Int64} {m : Muxer}
    (h : create libav filename format bufferMax = .ok m) : Handled libav m := by
  have hinitial : Handled libav (initial filename bufferMax) := rfl
  rw [create_cases libav h]
  exact openOutput_handled (hinitial.note (by simp [Call.Apart]) _)

/-- A libav that writes to a file and takes no frames. -/
def refusing : Libavformat where
  noFile := false
  rc _ call := if call = .writeFrame (Packet.keyFrame.setStreamIndex 0) then -1 else 0

/-- A muxer with room for one packet. -/
def oneSlot : Muxer :=
  ((create refusing "sample.mp4" "" 1).toOption).getD (initial "sample.mp4" 1)

/-- A packet is put into the buffer. -/
def bufferOne : List Op :=
  [.subscribe ⟨0, some StreamData.sampleVideo⟩, .process 0 Packet.keyFrame none]

end Session

end Media2.Muxer
