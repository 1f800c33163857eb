import Media2.StreamData

/-!
# The muxer

A muxer buffers the packets of the streams it subscribed to and writes them to one
output. The header is written with the first packet and the trailer on closing.

## Implementation notes

What a libav call returns may depend on all that was called before it. The log has
these calls in order, each with its return code and the state that the muxer was in.
It also has a mark where the output comes to count as open and one where a packet is
taken off the buffer to be written.

An exception leaves what was changed before it, so every operation returns the muxer
along with its outcome. `process` is split at the lock, for what comes before it can
overlap other calls.
-/

namespace Media2

/-- `Muxer::States`, with `OPEN` as `opened`. -/
inductive States
  | ready
  | opened
  | closed
  | error
  deriving DecidableEq

/-- `packet->stream_index = index`. -/
def Packet.setStreamIndex (packet : Packet) (index : Nat) : Packet :=
  ⟨{ packet.val with streamIndex := Int32.ofNat index },
    packet.property.size_eq, packet.property.sideDataElems_eq, packet.property.sideData_wf⟩

namespace Muxer

/-- What the muxer asks of libav, and the two marks of the log. -/
inductive Call
  | allocOutputContext
  | newStream
  | avioOpen
  | opened
  | taken (packet : Packet)
  | writeHeader
  | writeFrame (packet : Packet)
  | writeNullFrame
  | writeTrailer
  | avioClosep
  deriving DecidableEq

/-- `avformat_write_header`, `av_interleaved_write_frame` and `av_write_trailer`. -/
def Call.isWrite : Call → Bool
  | .writeHeader | .writeFrame _ | .writeNullFrame | .writeTrailer => true
  | _ => false

structure Entry where
  call : Call
  rc : Int
  state : States
  deriving DecidableEq

/-- libavformat: the flag `AVFMT_NOFILE` of the context and the return codes, where a
null pointer counts as a negative code. -/
structure Libavformat where
  noFile : Bool
  rc : List Entry → Call → Int

/-- A libav that always succeeds, for an output that is no file. -/
def Libavformat.sample : Libavformat := ⟨true, fun _ _ => 0⟩

/-- What is thrown; `open` throws a string. -/
inductive Exception
  | fault (e : Fault)
  | string (text : String)
  deriving DecidableEq

/-- `StreamInfo`: the stream it is subscribed to and the output stream it owns, which is
null if libav could not make one. -/
structure StreamInfo where
  source : Nat
  stream : Option AVStream
  deriving DecidableEq

end Muxer

open Muxer in
structure Muxer where
  filename : String
  state : States
  streaminfo : List StreamInfo
  nbStreams : Nat
  buffer : List Packet
  streamStart : Bool
  bufferMax : Int64
  log : List Entry

namespace Muxer

abbrev Outcome := Except Exception Unit

/-- A call that throws `std::runtime_error`. -/
def failure (what : String) : Outcome := .error (.fault (.runtimeError what))

/-- Nothing comes after a null dereference. -/
def fatal (outcome : Outcome) : Bool := outcome = .error (.fault .nullDereference)

theorem eq_ok_of_isOk {outcome : Outcome} (h : outcome.isOk = true) : outcome = .ok () := by
  cases outcome with
  | error e => cases h
  | ok u => rfl

/-- `bufferMax`, as the size of the buffer is compared with it. -/
def limit (m : Muxer) : Nat := m.bufferMax.toUInt64.toNat

/-- The index of the output stream that a `StreamInfo` owns. -/
def outputIndex (m : Muxer) (i : Nat) : Option Nat :=
  (m.streaminfo[i]?.bind StreamInfo.stream).map AVStream.index

/-- Put a mark or the result of a call on the log. -/
def note (m : Muxer) (call : Call) (rc : Int) : Muxer :=
  { m with log := m.log ++ [⟨call, rc, m.state⟩] }

@[simp] theorem note_log (m : Muxer) (call : Call) (rc : Int) :
    (m.note call rc).log = m.log ++ [⟨call, rc, m.state⟩] := rfl

section Operations

variable (libav : Libavformat)

/-- Call libav. -/
def ask (m : Muxer) (call : Call) : Int × Muxer :=
  (libav.rc m.log call, m.note call (libav.rc m.log call))

/-- `open`. -/
def openOutput (m : Muxer) : Outcome × Muxer :=
  if m.state = .opened then (.ok (), m)
  else if libav.noFile then (.ok (), { m with state := .opened }.note .opened 0)
  else
    let (avRet, m) := m.ask libav .avioOpen
    if avRet < 0 then
      (.error (.string ("Error opening " ++ m.filename ++ " rc = " ++ toString avRet)),
        { m with state := .error })
    else (.ok (), { m with state := .opened }.note .opened 0)

/-- The members before the constructor's body. -/
def initial (filename : String) (bufferMax : Int64) : Muxer where
  filename := filename
  state := .ready
  streaminfo := []
  nbStreams := 0
  buffer := []
  streamStart := true
  bufferMax := bufferMax
  log := []

/-- The constructor. When it throws there is no muxer. -/
def create (filename format : String) (bufferMax : Int64) : Except Exception Muxer :=
  let (rc, m) := (initial filename bufferMax).ask libav .allocOutputContext
  if rc < 0 then
    .error (.fault (.runtimeError ("Error allocating output format context for " ++ filename ++
      if format = "" then "" else " with format specified as " ++ format)))
  else
    match m.openOutput libav with
    | (.error e, _) => .error e
    | (.ok _, m) => .ok m

theorem create_cases {filename format : String} {bufferMax : Int64} {m : Muxer}
    (h : create libav filename format bufferMax = .ok m) :
    m = (openOutput libav ((initial filename bufferMax).note .allocOutputContext
      (libav.rc [] .allocOutputContext))).2 := by
  unfold create at h
  dsimp only [ask] at h
  split at h
  · cases h
  · split at h
    · cases h
    · rename_i heq
      obtain rfl := Except.ok.inj h
      exact (congrArg Prod.snd heq).symm

/-- `subscribe`. The new `StreamInfo` is connected and kept before its output stream is
asked for. -/
def subscribe (m : Muxer) (source : Stream) : Outcome × Muxer :=
  if !m.streamStart then
    (failure "Can not add a new stream after muxer has written its header.", m)
  else
    let infos := m.streaminfo
    let m := { m with streaminfo := infos ++ [⟨source.id, none⟩] }
    match source.data with
    | none => (.error (.fault .nullDereference), m)
    | some data =>
        let (rc, m) := m.ask libav .newStream
        if rc < 0 then (failure "Error creating new stream", m)
        else
          match data.parameters with
          | none => (.error (.fault .nullDereference), m)
          | some parameters =>
              let stream : AVStream := {
                index := m.nbStreams
                timeBase := data.timeBase
                avgFrameRate := data.avgFrameRate
                rFrameRate := data.rFrameRate
                codecpar := parameters }
              (.ok (), { m with
                nbStreams := m.nbStreams + 1
                streaminfo := infos ++ [⟨source.id, some stream⟩] })

/-- The second half of `write`. -/
def writeFrame (m : Muxer) (packet : Packet) : Outcome × Muxer :=
  let (avRet, m) := m.ask libav (.writeFrame packet)
  if avRet < 0 then (failure ("Error writing packet. RC = " ++ toString avRet), m)
  else (.ok (), m)

/-- `write`. -/
def write (m : Muxer) (packet : Packet) : Outcome × Muxer :=
  let m := m.note (.taken packet) 0
  if m.streamStart then
    let (avRet, m) := { m with streamStart := false }.ask libav .writeHeader
    if avRet < 0 then (failure "Could not write media header.", m)
    else m.writeFrame libav packet
  else m.writeFrame libav packet

/-- The loop of `flush`, with what is left of the buffer. -/
def drain : List Packet → Muxer → Outcome × Muxer
  | [], m => (.ok (), m)
  | packet :: packets, m =>
      match { m with buffer := packets }.write libav packet with
      | (.error e, m) => (.error e, m)
      | (.ok _, m) => drain packets m

/-- `flush`. -/
def flush (m : Muxer) : Outcome × Muxer := drain libav m.buffer m

/-- What `close` does after the flush. -/
def closeOutput (m : Muxer) : Muxer :=
  if m.state = .opened then
    let m := if !m.streamStart then
        ((m.ask libav .writeNullFrame).2.ask libav .writeTrailer).2
      else m
    let m := if libav.noFile then m else (m.ask libav .avioClosep).2
    { m with state := .closed, streamStart := true }
  else m

/-- `close`. -/
def close (m : Muxer) : Outcome × Muxer :=
  match m.flush libav with
  | (.error e, m) => (.error e, m)
  | (.ok _, m) => (.ok (), m.closeOutput libav)

/-- `copyTimingData` between streams that are there, or its exception. -/
def copyTimingData (inputStream : Option StreamData) (outputInfo : StreamInfo) :
    Except Exception StreamInfo :=
  match outputInfo.stream with
  | none => .error (.fault (.runtimeError "outputInfo->stream is null"))
  | some output =>
      match inputStream with
      | none => .error (.fault (.runtimeError "inputStream is null"))
      | some data =>
          match data.stream with
          | none => .error (.fault (.runtimeError "inputStream->stream is null"))
          | some input => .ok { outputInfo with stream := some { output with
              timeBase := input.timeBase
              avgFrameRate := input.avgFrameRate
              rFrameRate := input.rFrameRate } }

/-- What a call of `process` has found out before it waits for the lock: the packet with
its new index, and whether there is room in the buffer. -/
structure Arrival where
  packet : Packet
  room : Bool
  deriving DecidableEq

/-- `process`, up to the lock. An exception about timing data is reported and ignored.
The size is compared with a `long` that becomes unsigned. -/
def arrive (m : Muxer) (i : Nat) (info : StreamInfo) (packet : Packet)
    (stream : Option StreamData) : Except Exception (Muxer × Arrival) :=
  let info := match copyTimingData stream info with
    | .ok copied => copied
    | .error _ => info
  match info.stream with
  | none => .error (.fault .nullDereference)
  | some output => .ok ({ m with streaminfo := m.streaminfo.set i info },
      ⟨packet.setStreamIndex output.index, m.buffer.length < m.limit⟩)

/-- `process`, from the lock on. -/
def enter (m : Muxer) (arrival : Arrival) : Outcome × Muxer :=
  match Packet.copy arrival.packet.val with
  | .error e => (.error (.fault e), m)
  | .ok copied =>
      if arrival.room then (.ok (), { m with buffer := m.buffer ++ [copied] })
      else
        match m.buffer ++ [copied] with
        | [] => (.error (.fault .nullDereference), m)
        | front :: rest => { m with buffer := rest }.write libav front

/-- `process` of the `StreamInfo` at a place of the vector, not interrupted. -/
def process (m : Muxer) (i : Nat) (info : StreamInfo) (packet : Packet)
    (stream : Option StreamData) : Outcome × Muxer :=
  match m.arrive i info packet stream with
  | .error e => (.error e, m)
  | .ok (m, arrival) => m.enter libav arrival

end Operations

/-- `close` throws what its flush throws, and closes the output after a flush that returns. -/
theorem close_cases (libav : Libavformat) (m : Muxer) :
    (∃ e, (m.flush libav).1 = .error e ∧ m.close libav = (.error e, (m.flush libav).2)) ∨
    ((m.flush libav).1 = .ok () ∧
      m.close libav = (.ok (), (m.flush libav).2.closeOutput libav)) := by
  rw [close]
  cases m.flush libav with
  | mk outcome m' =>
      cases outcome with
      | error e => exact Or.inl ⟨e, rfl, rfl⟩
      | ok u => exact Or.inr ⟨rfl, rfl⟩

theorem copyTimingData_index {stream : Option StreamData} {info copied : StreamInfo}
    (h : copyTimingData stream info = .ok copied) :
    copied.stream.map AVStream.index = info.stream.map AVStream.index := by
  unfold copyTimingData at h
  split at h
  · cases h
  · rename_i output houtput
    split at h
    · cases h
    · split at h
      · cases h
      · rw [← Except.ok.inj h, houtput]
        rfl

/-- `process` dies on a `StreamInfo` without output stream. Otherwise it writes to the
output stream, but not to its index. -/
theorem arrive_cases (m : Muxer) (i : Nat) (info : StreamInfo) (packet : Packet)
    (stream : Option StreamData) :
    (info.stream = none ∧ m.arrive i info packet stream = .error (.fault .nullDereference)) ∨
    ∃ info' output, info'.stream = some output ∧ info.stream.map AVStream.index =
        some output.index ∧
      m.arrive i info packet stream = .ok ({ m with streaminfo := m.streaminfo.set i info' },
        ⟨packet.setStreamIndex output.index, m.buffer.length < m.limit⟩) := by
  obtain ⟨info', hindex, harrive⟩ : ∃ info' : StreamInfo,
      info'.stream.map AVStream.index = info.stream.map AVStream.index ∧
      m.arrive i info packet stream = match info'.stream with
        | none => .error (.fault .nullDereference)
        | some output => .ok ({ m with streaminfo := m.streaminfo.set i info' },
            ⟨packet.setStreamIndex output.index, m.buffer.length < m.limit⟩) := by
    unfold arrive
    cases hcopy : copyTimingData stream info with
    | error e => exact ⟨info, rfl, rfl⟩
    | ok copied => exact ⟨copied, copyTimingData_index hcopy, rfl⟩
  rw [harrive]
  cases hstream : info'.stream with
  | none =>
      rw [hstream] at hindex
      exact Or.inl ⟨Option.map_eq_none_iff.mp hindex.symm, rfl⟩
  | some output =>
      rw [hstream] at hindex
      exact Or.inr ⟨info', output, hstream, hindex.symm, rfl⟩

/-- The entries that a write leaves on the log after its mark, by what `streamStart` was
and by whether the write succeeds. -/
inductive Written (libav : Libavformat) (state : States) (packet : Packet) :
    Bool → Bool → List Entry → Prop
  | frame (rc : Int) (hrc : ∃ log, libav.rc log (.writeFrame packet) = rc) :
      Written libav state packet false (0 ≤ rc) [⟨.writeFrame packet, rc, state⟩]
  | headerFailed (rc : Int) (hrc : ∃ log, libav.rc log .writeHeader = rc) (hneg : rc < 0) :
      Written libav state packet true false [⟨.writeHeader, rc, state⟩]
  | both (rc rc' : Int) (hrc : ∃ log, libav.rc log .writeHeader = rc)
      (hrc' : ∃ log, libav.rc log (.writeFrame packet) = rc') (hpos : 0 ≤ rc) :
      Written libav state packet true (0 ≤ rc')
        [⟨.writeHeader, rc, state⟩, ⟨.writeFrame packet, rc', state⟩]

/-- The muxer after a write, with what is left of the buffer. -/
def wrote (m : Muxer) (packet : Packet) (packets : List Packet) (entries : List Entry) : Muxer :=
  { m with
    buffer := packets
    streamStart := false
    log := m.log ++ ⟨.taken packet, 0, m.state⟩ :: entries }

section Write

variable (libav : Libavformat) (m : Muxer) (packet : Packet)

theorem writeFrame_cases : ∃ rc, (∃ log, libav.rc log (.writeFrame packet) = rc) ∧
    (m.writeFrame libav packet).1.isOk = decide (0 ≤ rc) ∧
    (m.writeFrame libav packet).2 = m.note (.writeFrame packet) rc := by
  refine ⟨libav.rc m.log (.writeFrame packet), ⟨m.log, rfl⟩, ?_⟩
  by_cases hneg : libav.rc m.log (.writeFrame packet) < 0
  · have heq : m.writeFrame libav packet = (failure ("Error writing packet. RC = " ++
        toString (libav.rc m.log (.writeFrame packet))), m.note (.writeFrame packet) _) :=
      if_pos hneg
    rw [heq]
    exact ⟨(decide_eq_false (by omega)).symm, rfl⟩
  · have heq : m.writeFrame libav packet = (.ok (), m.note (.writeFrame packet) _) :=
      if_neg hneg
    rw [heq]
    exact ⟨(decide_eq_true (by omega)).symm, rfl⟩

/-- A write of a packet that was just taken off the buffer changes the flag and the log
only. -/
theorem write_cases (packets : List Packet) : ∃ entries,
    Written libav m.state packet m.streamStart
        ({ m with buffer := packets }.write libav packet).1.isOk entries ∧
      ({ m with buffer := packets }.write libav packet).2 = m.wrote packet packets entries := by
  let marked := note { m with buffer := packets } (.taken packet) 0
  by_cases hstart : m.streamStart = true
  · let opened := { marked with streamStart := false }
    let rc := libav.rc opened.log .writeHeader
    by_cases hneg : rc < 0
    · have heq : { m with buffer := packets }.write libav packet =
          (failure "Could not write media header.", opened.note .writeHeader rc) := by
        unfold write
        exact (if_pos hstart).trans (if_pos hneg)
      rw [heq, hstart]
      exact ⟨_, Written.headerFailed rc ⟨_, rfl⟩ hneg, by simp [opened, marked, note, wrote]⟩
    · have heq : { m with buffer := packets }.write libav packet =
          (opened.note .writeHeader rc).writeFrame libav packet := by
        unfold write
        exact (if_pos hstart).trans (if_neg hneg)
      obtain ⟨rc', hrc', hok, hm⟩ := writeFrame_cases libav (opened.note .writeHeader rc) packet
      rw [heq, hok, hm, hstart]
      exact ⟨_, Written.both rc rc' ⟨_, rfl⟩ hrc' (by omega), by simp [opened, marked, note, wrote]⟩
  · have heq : { m with buffer := packets }.write libav packet =
        marked.writeFrame libav packet := if_neg hstart
    obtain ⟨rc, hrc, hok, hm⟩ := writeFrame_cases libav marked packet
    rw [heq, hok, hm, Bool.eq_false_iff.mpr hstart]
    exact ⟨_, Written.frame rc hrc, by simp [marked, note, wrote, Bool.eq_false_iff.mpr hstart]⟩

/-- The critical section of `process` puts the packet into the buffer, and without room it
writes the packet in front. -/
theorem enter_cases (arrival : Arrival) :
    (arrival.room = true ∧
      m.enter libav arrival = (.ok (), { m with buffer := m.buffer ++ [arrival.packet] })) ∨
    (arrival.room = false ∧ ∃ front rest entries, m.buffer ++ [arrival.packet] = front :: rest ∧
      Written libav m.state front m.streamStart (m.enter libav arrival).1.isOk entries ∧
      (m.enter libav arrival).2 = m.wrote front rest entries) := by
  unfold enter
  rw [Packet.copy_val]
  dsimp only
  cases hroom : arrival.room with
  | true => exact Or.inl ⟨rfl, rfl⟩
  | false =>
      right
      cases hbuffer : m.buffer ++ [arrival.packet] with
      | nil => exact absurd hbuffer (List.append_ne_nil_of_right_ne_nil _ (List.cons_ne_nil _ _))
      | cons front rest =>
          obtain ⟨entries, hwritten, heq⟩ := write_cases libav m front rest
          exact ⟨rfl, front, rest, entries, rfl, hwritten, heq⟩

/-- The loop rule for `flush`: `I` holds whenever the buffer is tested for packets. -/
theorem flush_rule {I : Muxer → Prop} {J : Bool → Muxer → Prop}
    (hwrite : ∀ m packet packets ok entries, I m → m.buffer = packet :: packets →
      Written libav m.state packet m.streamStart ok entries →
      if ok then I (m.wrote packet packets entries) else J false (m.wrote packet packets entries))
    (hdone : ∀ m, I m → m.buffer = [] → J true m) {m : Muxer} (hm : I m) :
    J (m.flush libav).1.isOk (m.flush libav).2 := by
  unfold flush
  generalize hpackets : m.buffer = packets
  induction packets generalizing m with
  | nil => exact hdone m hm hpackets
  | cons packet packets ih =>
      obtain ⟨entries, hwritten, heq⟩ := write_cases libav m packet packets
      have hstep := hwrite m packet packets _ entries hm hpackets hwritten
      rw [← heq] at hstep
      unfold drain
      cases hresult : { m with buffer := packets }.write libav packet with
      | mk outcome m' =>
          rw [hresult] at hstep heq
          cases outcome with
          | error e => exact hstep
          | ok u => exact ih hstep (congrArg Muxer.buffer heq)

end Write

end Muxer

end Media2
