import Media2.Transport

/-!
# The listeners of `receivedSegment`

The subscriber calls its listeners one after the other with the job id of the
envelope and with one string stream that all of them share. Unpackers extract a
segment from the stream and keep the segment's own job id; republishers copy all
that was ever put into the stream.

## Implementation notes

An exception that leaves a listener leaves the call of the signal too, and the
listeners that are left are not called. Where the read position stands after an
exception does not matter.
-/

namespace Media2

open ByteFormat Serialization ZmqSegmentSubscriber

namespace SegmentUnpacker

/-- `segFrom`. It moves the read position of the stream it is given. -/
def segFrom (mem : Segment.Unassigned) (buffer : StringStream) :
    Except Fault (Segment × StringStream) := do
  let (seg, rest) ← (loadSegment mem).run buffer.unread
  pure (seg, { buffer with readPos := buffer.contents.length - rest.length })

end SegmentUnpacker

namespace Transport

open SegmentUnpacker

theorem appendRaw_jobId {seg seg' : Segment} {packet : AVPacket}
    (h : seg.appendRaw packet = .ok seg') : seg'.jobId = seg.jobId := by
  unfold Segment.appendRaw at h
  cases hc : Packet.copy packet with
  | error e => simp [hc, bind, Except.bind] at h
  | ok copied =>
      simp only [hc, bind, Except.bind, pure, Except.pure, Except.ok.injEq] at h
      rw [← h]

/-- The packet loop leaves the job id alone. -/
theorem loadPackets_jobId {left i : Nat} {seg seg' : Segment} {bytes rest : List UInt8}
    (h : (loadPackets left i seg).run bytes = .ok (seg', rest)) : seg'.jobId = seg.jobId := by
  induction left generalizing i seg bytes with
  | zero =>
      rw [loadPackets_zero, StateT.run_pure] at h
      cases h
      rfl
  | succ left ih =>
      obtain ⟨pkt, mid, -, h⟩ := bind_run_eq_ok.mp h
      obtain ⟨next, mid', happ, h⟩ := bind_run_eq_ok.mp h
      have hnext : next.jobId = seg.jobId := appendRaw_jobId (liftM_run_eq_ok.mp happ).1
      split at h
      · rw [ih h, hnext]
      · simp [throw, throwThe, MonadExceptOf.throw, StateT.run, StateT.lift, bind, Except.bind] at h

/-- Whatever a saved segment loads to, it keeps its job id. -/
theorem loadSegment_jobId {mem : Segment.Unassigned} {seg decoded : Segment} {rest : List UInt8}
    (h : (loadSegment mem).run (saveSegment seg) = .ok (decoded, rest)) :
    decoded.jobId = seg.jobId := by
  rw [← List.append_nil (saveSegment seg), loadSegment_saveSegment] at h
  have hjob := loadPackets_jobId h
  exact hjob

/-- What was sent in place of a message's frames: the id that the publisher chose,
and the segment. -/
theorem process_ok {publisher : ZmqSegmentPublisher} {seg : Segment} {stream : StreamData}
    {message : Multipart} (h : publisher.process (some seg) (some stream) = .ok message) :
    ∃ mt width height, message = ZmqSegmentPublisher.processBuffer
      (StringStream.ofBytes (saveSegment seg))
      (if publisher.jobId.isNull then seg.jobId else publisher.jobId) mt width height := by
  unfold ZmqSegmentPublisher.process at h
  cases hparam : stream.parameters with
  | none => simp only [hparam, reduceCtorEq] at h
  | some parameters =>
      simp only [hparam] at h
      exact ⟨stream.mediaType, parameters.width, parameters.height, (Except.ok.inj h).symm⟩

theorem received_eq {publisher : ZmqSegmentPublisher} {seg : Segment} {stream : StreamData}
    {message : Multipart} {locals : Locals} {received : Received}
    (hsent : publisher.process (some seg) (some stream) = .ok message)
    (hreceived : handle locals message = .ok received) :
    received.buffer = StringStream.ofBytes (saveSegment seg) ∧
      received.jobId = if publisher.jobId.isNull then seg.jobId else publisher.jobId := by
  obtain ⟨mt, width, height, rfl⟩ := process_ok hsent
  rw [handle_processBuffer] at hreceived
  obtain rfl := Except.ok.inj hreceived
  exact ⟨rfl, rfl⟩

theorem segFrom_ok {mem : Segment.Unassigned} {buffer buffer' : StringStream} {seg : Segment}
    (h : segFrom mem buffer = .ok (seg, buffer')) :
    ∃ rest, (loadSegment mem).run buffer.unread = .ok (seg, rest) ∧
      buffer' = { buffer with readPos := buffer.contents.length - rest.length } := by
  unfold segFrom at h
  cases hload : (loadSegment mem).run buffer.unread with
  | error e => simp [hload, bind, Except.bind] at h
  | ok out =>
      obtain ⟨seg', rest⟩ := out
      simp only [hload, bind, Except.bind, pure, Except.pure, Except.ok.injEq, Prod.mk.injEq] at h
      obtain ⟨rfl, rfl⟩ := h
      exact ⟨rest, rfl, rfl⟩

/-- The listeners are given the job id of the segment that an unpacker decodes, so
that all file it under one job, if and only if the publisher forces no other id. -/
theorem received_jobId_iff {mem : Segment.Unassigned} {publisher : ZmqSegmentPublisher}
    {seg decoded : Segment} {stream : StreamData} {message : Multipart} {locals : Locals}
    {received : Received} {buffer : StringStream}
    (hsent : publisher.process (some seg) (some stream) = .ok message)
    (hreceived : handle locals message = .ok received)
    (hdecoded : segFrom mem received.buffer = .ok (decoded, buffer)) :
    received.jobId = decoded.jobId ↔
      publisher.jobId.isNull = true ∨ publisher.jobId = seg.jobId := by
  obtain ⟨hbuffer, hid⟩ := received_eq hsent hreceived
  obtain ⟨rest, hload, -⟩ := segFrom_ok hdecoded
  rw [hbuffer] at hload
  have hjob : decoded.jobId = seg.jobId := loadSegment_jobId hload
  rw [hid, hjob]
  by_cases hnull : publisher.jobId.isNull = true
  · rw [if_pos hnull]
    exact ⟨fun _ => Or.inl hnull, fun _ => rfl⟩
  · rw [if_neg hnull]
    exact ⟨Or.inr, fun h => h.resolve_left hnull⟩

/-- Memory does not show in a loaded segment: every field is read. -/
theorem loadSegment_mem (mem mem' : Segment.Unassigned) : loadSegment mem = loadSegment mem' := rfl

/-- Extraction of the one segment in a stream moves the read position to the end. -/
theorem segFrom_fresh {bytes : List UInt8} {mem : Segment.Unassigned} {seg : Segment}
    (hload : (loadSegment mem).run bytes = .ok (seg, [])) (mem' : Segment.Unassigned) :
    segFrom mem' (StringStream.ofBytes bytes) = .ok (seg, ⟨bytes, bytes.length⟩) := by
  have hunread : (StringStream.ofBytes bytes).unread = bytes := rfl
  rw [loadSegment_mem mem mem'] at hload
  simp only [segFrom, hunread, hload, bind, Except.bind, pure, Except.pure, List.length_nil,
    Nat.sub_zero]
  rfl

/-- A job that is not the null job. -/
def sampleJob : Uuid := Vector.replicate 16 1

theorem loadSegment_blankSegment (mem : Segment.Unassigned) :
    (loadSegment mem).run (saveSegment (blankSegment 0)) = .ok (blankSegment 0, []) :=
  (loadSegment_saveSegment_iff mem (blankSegment_built 0).valid (blankSegment_sideData 0)).mpr
    (by decide)

/-- A segment of that job with one packet. -/
def jobSegment : Segment :=
  (Segment.create Segment.Unassigned.zero sampleJob AVCodecParameters.zero).append Packet.create

theorem loadSegment_jobSegment (mem : Segment.Unassigned) :
    (loadSegment mem).run (saveSegment jobSegment) = .ok (jobSegment, []) := by
  have hbuilt : jobSegment.Built := Segment.Built.append _ (Segment.Built.create _ _ _)
  have hone : ∀ p ∈ jobSegment.packets, p.val.sideData.length ≤ 1 := by
    intro p hp
    rw [List.mem_singleton.mp hp]
    decide
  exact (loadSegment_saveSegment_iff mem hbuilt.valid hone).mpr (by decide)

/-- What a subscriber is given of a blank segment. -/
def sampleReceived : Received :=
  ⟨StringStream.ofBytes (saveSegment (blankSegment 0)), Uuid.null, AVMediaType.video, 0, 0⟩

theorem sampleReceived_handled :
    ∃ message, ZmqSegmentPublisher.create.process (some (blankSegment 0))
        (some StreamData.sampleVideo) = .ok message ∧
      handle zeroLocals message = .ok sampleReceived :=
  ⟨_, rfl, handle_processBuffer zeroLocals (StringStream.ofBytes (saveSegment (blankSegment 0)))
    Uuid.null AVMediaType.video 0 0⟩

/-- A publisher that forces an id sends it beside a segment that keeps its own. -/
theorem received_jobId_differs :
    ∃ message received decoded buffer,
      (ZmqSegmentPublisher.createWithId sampleJob).process (some (blankSegment 0))
        (some StreamData.sampleVideo) = .ok message ∧
      handle zeroLocals message = .ok received ∧
      segFrom Segment.Unassigned.zero received.buffer = .ok (decoded, buffer) ∧
      received.jobId ≠ decoded.jobId :=
  ⟨_, _, _, _, rfl, handle_processBuffer zeroLocals (StringStream.ofBytes _) sampleJob _ _ _,
    segFrom_fresh (loadSegment_blankSegment Segment.Unassigned.zero) _, by decide⟩

/-- The id that is forced here is the segment's own. -/
theorem received_jobId_iff_sample :
    ∃ message received buffer,
      (ZmqSegmentPublisher.createWithId sampleJob).process (some jobSegment)
        (some StreamData.sampleVideo) = .ok message ∧
      handle zeroLocals message = .ok received ∧
      segFrom Segment.Unassigned.zero received.buffer = .ok (jobSegment, buffer) ∧
      (received.jobId = jobSegment.jobId ↔
        (ZmqSegmentPublisher.createWithId sampleJob).jobId.isNull = true ∨
          (ZmqSegmentPublisher.createWithId sampleJob).jobId = jobSegment.jobId) := by
  have hhandle := handle_processBuffer zeroLocals (StringStream.ofBytes (saveSegment jobSegment))
    sampleJob AVMediaType.video 0 0
  have hdecoded := segFrom_fresh (loadSegment_jobSegment Segment.Unassigned.zero)
    Segment.Unassigned.zero
  have hsent : (ZmqSegmentPublisher.createWithId sampleJob).process (some jobSegment)
      (some StreamData.sampleVideo) = .ok (ZmqSegmentPublisher.processBuffer
        (StringStream.ofBytes (saveSegment jobSegment)) sampleJob AVMediaType.video 0 0) := rfl
  exact ⟨_, _, _, hsent, hhandle, hdecoded, received_jobId_iff hsent hhandle hdecoded⟩

/-- A slot that is connected to `receivedSegment`: `SegmentUnpacker::subscribe`, or a
publisher that sends the buffer on under an envelope of its choice. -/
inductive Listener
  | unpacker (mem : Segment.Unassigned)
  | republisher (id : Uuid) (mt : AVMediaType) (width height : Int32)

/-- What came of a listener when the signal was called. -/
inductive Reaction
  | enqueued (seg : Segment)
  | sent (message : Multipart)
  | threw (e : Fault)
  | notCalled
  deriving DecidableEq

def Listener.isUnpacker : Listener → Bool
  | .unpacker _ => true
  | .republisher .. => false

/-- The body of a slot, which is given the stream by reference. -/
def Listener.slot (buffer : StringStream) : Listener → Except Fault (Reaction × StringStream)
  | .unpacker mem => do
      let (seg, buffer) ← segFrom mem buffer
      pure (.enqueued seg, buffer)
  | .republisher id mt width height =>
      pure (.sent (ZmqSegmentPublisher.processBuffer buffer id mt width height), buffer)

/-- A call of the signal. -/
def receivedSegment : List Listener → StringStream → List Reaction
  | [], _ => []
  | listener :: listeners, buffer =>
      match listener.slot buffer with
      | .ok (reaction, buffer) => reaction :: receivedSegment listeners buffer
      | .error e => .threw e :: listeners.map fun _ => .notCalled

/-- What is expected of a listener. -/
def Listener.due (seg : Segment) (bytes : List UInt8) : Listener → Reaction
  | .unpacker _ => .enqueued seg
  | .republisher id mt width height =>
      .sent (ZmqSegmentPublisher.processBuffer (StringStream.ofBytes bytes) id mt width height)

/-- What each listener would do if it were the only one. -/
def alone (listeners : List Listener) (buffer : StringStream) : List Reaction :=
  listeners.flatMap fun listener => receivedSegment [listener] buffer

section Buffer

variable {bytes : List UInt8} {seg : Segment} {mem : Segment.Unassigned}

/-- Nothing can be extracted from a stream that was read to its end. -/
theorem segFrom_exhausted (mem : Segment.Unassigned) :
    segFrom mem ⟨bytes, bytes.length⟩ = .error .archiveException := by
  have hunread : (StringStream.mk bytes bytes.length).unread = [] := List.drop_length
  rw [segFrom, hunread]
  rfl

theorem slot_fresh (hload : (loadSegment mem).run bytes = .ok (seg, []))
    (mem' : Segment.Unassigned) :
    (Listener.unpacker mem').slot (StringStream.ofBytes bytes) =
      .ok (.enqueued seg, ⟨bytes, bytes.length⟩) := by
  simp only [Listener.slot, segFrom_fresh hload, bind, Except.bind, pure, Except.pure]

theorem slot_exhausted (mem : Segment.Unassigned) :
    (Listener.unpacker mem).slot ⟨bytes, bytes.length⟩ = .error .archiveException := by
  simp only [Listener.slot, segFrom_exhausted, bind, Except.bind]

theorem receivedSegment_ok {listener : Listener} {buffer buffer' : StringStream}
    {reaction : Reaction} (h : listener.slot buffer = .ok (reaction, buffer'))
    (listeners : List Listener) :
    receivedSegment (listener :: listeners) buffer =
      reaction :: receivedSegment listeners buffer' := by
  rw [receivedSegment, h]

theorem receivedSegment_error {listener : Listener} {buffer : StringStream} {e : Fault}
    (h : listener.slot buffer = .error e) (listeners : List Listener) :
    receivedSegment (listener :: listeners) buffer =
      .threw e :: listeners.map fun _ => .notCalled := by
  rw [receivedSegment, h]

/-- Alone, an unpacker enqueues the segment and a republisher sends the payload. -/
theorem alone_eq (hload : (loadSegment mem).run bytes = .ok (seg, []))
    (listeners : List Listener) :
    alone listeners (StringStream.ofBytes bytes) = listeners.map (Listener.due seg bytes) := by
  induction listeners with
  | nil => rfl
  | cons listener listeners ih =>
      rw [alone, List.flatMap_cons, ← alone, ih]
      cases listener with
      | unpacker mem' => rw [receivedSegment_ok (slot_fresh hload mem')]; rfl
      | republisher id mt width height => rfl

/-- On an exhausted stream republishers still do their work, and unpackers cannot. -/
theorem receivedSegment_exhausted_iff (bytes : List UInt8) (seg : Segment)
    (listeners : List Listener) :
    receivedSegment listeners ⟨bytes, bytes.length⟩ =
        listeners.map (Listener.due seg bytes) ↔
      listeners.countP Listener.isUnpacker = 0 := by
  induction listeners with
  | nil => exact ⟨fun _ => rfl, fun _ => rfl⟩
  | cons listener listeners ih =>
      cases listener with
      | unpacker mem' =>
          rw [receivedSegment_error (slot_exhausted mem'), List.countP_cons_of_pos rfl]
          simp [Listener.due]
      | republisher id mt width height =>
          rw [receivedSegment_ok rfl, List.countP_cons_of_neg Bool.false_ne_true, ← ih]
          exact List.cons_inj_right _

/-- On a fresh stream there is one segment for one unpacker. -/
theorem receivedSegment_fresh_iff (hload : (loadSegment mem).run bytes = .ok (seg, []))
    (listeners : List Listener) :
    receivedSegment listeners (StringStream.ofBytes bytes) =
        listeners.map (Listener.due seg bytes) ↔
      listeners.countP Listener.isUnpacker ≤ 1 := by
  induction listeners with
  | nil => exact ⟨fun _ => Nat.zero_le 1, fun _ => rfl⟩
  | cons listener listeners ih =>
      cases listener with
      | unpacker mem' =>
          have hrest := receivedSegment_exhausted_iff bytes seg listeners
          have hcount : listeners.countP Listener.isUnpacker + 1 ≤ 1 ↔
              listeners.countP Listener.isUnpacker = 0 := by omega
          rw [receivedSegment_ok (slot_fresh hload mem'), List.countP_cons_of_pos rfl, hcount,
            ← hrest]
          exact List.cons_inj_right _
      | republisher id mt width height =>
          rw [receivedSegment_ok rfl, List.countP_cons_of_neg Bool.false_ne_true, ← ih]
          exact List.cons_inj_right _

end Buffer

/-- A message arrives with the read position at the start. -/
theorem handle_buffer {locals : Locals} {message : Multipart} {received : Received}
    (h : handle locals message = .ok received) :
    received.buffer = StringStream.ofBytes received.buffer.contents := by
  unfold handle at h
  split at h
  · simp only [bind, Except.bind, pure, Except.pure] at h
    repeat' split at h
    · cases h
    · cases h
    · cases h
    · cases h
    · rw [← Except.ok.inj h]
      rfl
  · cases h

/-- When a message carries one segment, every listener does with it what it would do
alone if and only if no more than one of them is an unpacker. -/
theorem receivedSegment_undisturbed_iff {locals : Locals} {message : Multipart}
    {received : Received} {mem : Segment.Unassigned} {seg : Segment}
    (hreceived : handle locals message = .ok received)
    (hload : (loadSegment mem).run received.buffer.contents = .ok (seg, []))
    (listeners : List Listener) :
    receivedSegment listeners received.buffer = alone listeners received.buffer ↔
      listeners.countP Listener.isUnpacker ≤ 1 := by
  rw [handle_buffer hreceived, alone_eq hload]
  exact receivedSegment_fresh_iff hload listeners

/-- The second of two unpackers finds the stream at its end, and throws. -/
theorem second_unpacker_throws :
    ∃ message listeners,
      handle zeroLocals message = .ok sampleReceived ∧
      alone listeners sampleReceived.buffer =
        [.enqueued (blankSegment 0), .enqueued (blankSegment 0)] ∧
      receivedSegment listeners sampleReceived.buffer =
        [.enqueued (blankSegment 0), .threw .archiveException] := by
  obtain ⟨message, -, hhandle⟩ := sampleReceived_handled
  have hload := loadSegment_blankSegment Segment.Unassigned.zero
  let unpacker := Listener.unpacker Segment.Unassigned.zero
  refine ⟨message, [unpacker, unpacker], hhandle, ?_, ?_⟩
  · rw [sampleReceived, alone_eq hload]
    rfl
  · rw [sampleReceived, receivedSegment_ok (slot_fresh hload _),
      receivedSegment_error (slot_exhausted _)]
    rfl

/-- An unpacker between two republishers. -/
def sampleListeners : List Listener :=
  [.republisher sampleJob AVMediaType.video 0 0, .unpacker Segment.Unassigned.zero,
    .republisher Uuid.null AVMediaType.audio 0 0]

theorem receivedSegment_undisturbed_iff_sample :
    ∃ message received,
      (ZmqSegmentPublisher.createWithId sampleJob).process (some jobSegment)
        (some StreamData.sampleVideo) = .ok message ∧
      handle zeroLocals message = .ok received ∧
      (receivedSegment sampleListeners received.buffer = alone sampleListeners received.buffer ↔
        sampleListeners.countP Listener.isUnpacker ≤ 1) := by
  have hhandle := handle_processBuffer zeroLocals (StringStream.ofBytes (saveSegment jobSegment))
    sampleJob AVMediaType.video 0 0
  exact ⟨_, _, rfl, hhandle, receivedSegment_undisturbed_iff hhandle
    (loadSegment_jobSegment Segment.Unassigned.zero) sampleListeners⟩

end Transport

end Media2
