import Media2.Foundation.Chunking
import Media2.Foundation.Execution
import Media2.StreamData

/-!
# The segmenter

A segmenter is subscribed to one stream and sends a segment to its listeners
whenever it cuts: video before every key packet, anything else once the segment
holds `nframes` packets. Seen from outside it cuts the packets it is fed into
chunks; `exec_process` says so.

## Implementation notes

A member call may throw half way and may raise the `segments` signal before it
does, so its outcome keeps the object, the signals and the exception apart. One
`Unassigned` serves for every segment that a segmenter allocates: `append`
overwrites the stamps at once and `next` copies the time base, so only what the
first allocation left in the time base can ever be seen.
-/

namespace Media2

open Chunking Execution

/-- What the listeners of the `segments` signal are given. -/
structure Emission where
  segment : Option Segment
  stream : Option StreamData
  deriving DecidableEq

structure Segmenter where
  jobId : Uuid
  nframes : Nat
  currentFrames : Nat
  currentSegment : Option Segment
  stream : Option StreamData
  deriving DecidableEq

namespace Segmenter

/-- The object after a call, the signals the call raised and what it threw. -/
structure Outcome where
  state : Segmenter
  emitted : List Emission
  thrown : Option Fault
  deriving DecidableEq

/-- `Segmenter::Segmenter(nframes)` with the job id that `uuid_generate` made. -/
def create (jobId : Uuid) (nframes : Nat) : Segmenter where
  jobId := jobId
  nframes := nframes
  currentFrames := 0
  currentSegment := none
  stream := none

/-- `Segmenter::flush`, which is all the destructor does. -/
def flush (s : Segmenter) : Outcome where
  state := s
  emitted := [⟨s.currentSegment, s.stream⟩]
  thrown := none

/-- The first statement of `process`: remember the first stream seen. -/
def keepStream (s : Segmenter) (stream : Option StreamData) : Segmenter :=
  match s.stream with
  | none => { s with stream := stream }
  | some _ => s

/-- The condition under which `process` sends the current segment first. -/
def cutsBefore (s : Segmenter) (data : StreamData) (packet : Packet) : Bool :=
  (data.mediaType = AVMediaType.video && packet.containsIFrame) ||
    (data.mediaType ≠ AVMediaType.video && decide (s.nframes ≤ s.currentFrames))

/-- The segment that `process` installs for the first packet. -/
def firstSegment (mem : Segment.Unassigned) (s : Segmenter) (data : StreamData)
    (parameters : AVCodecParameters) : Segment :=
  let seg := Segment.create mem s.jobId parameters
  match data.stream with
  | some av => { seg with timeBase := av.timeBase }
  | none => seg

/-- `Segmenter::process`. -/
def process (mem : Segment.Unassigned) (s : Segmenter) (packet : Packet)
    (stream : Option StreamData) : Outcome :=
  let s := s.keepStream stream
  match s.currentSegment, stream with
  | none, none => ⟨s, [], some (.runtimeError "Stream is missing parameters.")⟩
  | none, some data =>
      match data.parameters with
      | none => ⟨s, [], some (.runtimeError "Stream is missing parameters.")⟩
      | some parameters =>
          let seg := s.firstSegment mem data parameters
          if data.mediaType = AVMediaType.video ∧ packet.containsIFrame = false then
            -- the segment is installed already when the exception leaves
            ⟨{ s with currentSegment := some seg }, [],
              some (.runtimeError "First packet in stream is not an IFrame.")⟩
          else
            ⟨{ s with currentSegment := some (seg.append packet),
                      currentFrames := s.currentFrames + 1 }, [], none⟩
  | some _, none => ⟨s, [], some .nullDereference⟩
  | some seg, some data =>
      if s.cutsBefore data packet then
        ⟨{ s with currentSegment := some ((seg.next mem).append packet),
                  currentFrames := 1 }, [⟨some seg, stream⟩], none⟩
      else
        ⟨{ s with currentSegment := some (seg.append packet),
                  currentFrames := s.currentFrames + 1 }, [], none⟩

/-- The calls a program makes on a segmenter before it destroys it. -/
inductive Op
  | process (packet : Packet) (stream : Option StreamData)
  | flush
  deriving DecidableEq

/-- A segmenter together with everything it has sent. -/
structure Session where
  segmenter : Segmenter
  sent : List Emission
  deriving DecidableEq

namespace Session

def start (jobId : Uuid) (nframes : Nat) : Session where
  segmenter := Segmenter.create jobId nframes
  sent := []

/-- What a call does. -/
def outcome (mem : Segment.Unassigned) (s : Session) : Op → Outcome
  | .process packet stream => s.segmenter.process mem packet stream
  | .flush => s.segmenter.flush

/-- One call that does not throw. -/
def step (mem : Segment.Unassigned) (s : Session) (op : Op) : Option Session :=
  if (s.outcome mem op).thrown = none then
    some ⟨(s.outcome mem op).state, s.sent ++ (s.outcome mem op).emitted⟩
  else none

/-- The segments among the emissions. -/
def segments (s : Session) : List Segment := s.sent.filterMap Emission.segment

/-- The packets of the current segment. -/
def openPackets (s : Session) : List Packet :=
  match s.segmenter.currentSegment with
  | none => []
  | some seg => seg.packets

end Session

section KeepStream

variable (s : Segmenter) (stream : Option StreamData)

@[simp] theorem keepStream_nframes : (s.keepStream stream).nframes = s.nframes := by
  unfold keepStream
  split <;> rfl

@[simp] theorem keepStream_currentFrames :
    (s.keepStream stream).currentFrames = s.currentFrames := by
  unfold keepStream
  split <;> rfl

@[simp] theorem keepStream_currentSegment :
    (s.keepStream stream).currentSegment = s.currentSegment := by
  unfold keepStream
  split <;> rfl

end KeepStream

/-- What a call of `process` that does not throw leaves as the current segment:
a first segment, a segment after a cut, or the old segment with one packet more. -/
theorem process_ok {mem : Segment.Unassigned} {s : Segmenter} {packet : Packet}
    {stream : Option StreamData} (h : (s.process mem packet stream).thrown = none) :
    ∃ seg', (s.process mem packet stream).state.currentSegment = some seg' ∧
      ((s.currentSegment = none ∧ (s.process mem packet stream).emitted = [] ∧
          seg'.packets = [packet]) ∨
        ∃ seg, s.currentSegment = some seg ∧
          (((s.process mem packet stream).emitted = [⟨some seg, stream⟩] ∧
              seg'.packets = [packet]) ∨
            ((s.process mem packet stream).emitted = [] ∧
              seg'.packets = seg.packets ++ [packet]))) := by
  cases hcur : s.currentSegment with
  | none =>
      cases stream with
      | none => simp [process, hcur] at h
      | some data =>
          cases hpar : data.parameters with
          | none => simp [process, hcur, hpar] at h
          | some parameters =>
              simp only [process, keepStream_currentSegment, hcur, hpar] at h ⊢
              split
              · rename_i hbad
                simp only [if_pos hbad, reduceCtorEq] at h
              · refine ⟨_, rfl, Or.inl ⟨trivial, rfl, ?_⟩⟩
                unfold firstSegment
                cases data.stream <;> rfl
  | some seg =>
      cases stream with
      | none => simp [process, hcur] at h
      | some data =>
          simp only [process, keepStream_currentSegment, hcur]
          split
          · exact ⟨_, rfl, Or.inr ⟨seg, rfl, Or.inl ⟨rfl, rfl⟩⟩⟩
          · exact ⟨_, rfl, Or.inr ⟨seg, rfl, Or.inr ⟨rfl, rfl⟩⟩⟩

/-- The rule by which the packets of a stream are cut. -/
def rule (mediaType : AVMediaType) (nframes : Nat) : List Packet → Packet → Bool :=
  if mediaType = AVMediaType.video then cutOn Packet.containsIFrame else cutAt nframes

/-- A segment with a given header that holds the given packets. -/
def segmentOf (header : Segment) (packets : List Packet) : Segment :=
  ({ header with npackets := 0, packets := [] } : Segment).appendAll packets

section SegmentOf

variable (header : Segment)

theorem segmentOf_snoc (packets : List Packet) (p : Packet) :
    segmentOf header (packets ++ [p]) = (segmentOf header packets).append p := by
  simp [segmentOf, Segment.appendAll]

/-- Appending changes neither the job id, the parameters nor the time base. -/
theorem segmentOf_header (packets : List Packet) :
    (segmentOf header packets).jobId = header.jobId ∧
      (segmentOf header packets).parameters = header.parameters ∧
      (segmentOf header packets).timeBase = header.timeBase := by
  induction packets using List.reverseRecOn with
  | nil => exact ⟨rfl, rfl, rfl⟩
  | append_singleton packets p ih =>
      rw [segmentOf_snoc]
      exact ih

@[simp] theorem segmentOf_packets (packets : List Packet) :
    (segmentOf header packets).packets = packets := by
  induction packets using List.reverseRecOn with
  | nil => rfl
  | append_singleton packets p ih => rw [segmentOf_snoc, Segment.append_packets, ih]

theorem segmentOf_valid (packets : List Packet) : (segmentOf header packets).Valid := by
  induction packets using List.reverseRecOn with
  | nil => exact ⟨rfl, by simp, by simp⟩
  | append_singleton packets p ih =>
      rw [segmentOf_snoc]
      exact Segment.append_valid ih p

/-- A segment started from another one keeps the header and forgets the rest. -/
theorem next_append (mem : Segment.Unassigned) (packets : List Packet) (p : Packet) :
    ((segmentOf header packets).next mem).append p = segmentOf header [p] := by
  obtain ⟨hjob, hparam, htime⟩ := segmentOf_header header packets
  simp only [Segment.next, Segment.create, hjob, hparam, htime]
  rfl

end SegmentOf

/-- The state of a session in which the packets were fed: the closed chunks are
sent, the open one is the current segment. -/
structure Tracks (header : Segment) (cut : List Packet → Packet → Bool) (nframes : Nat)
    (packets : List Packet) (s : Session) : Prop where
  nframes_eq : s.segmenter.nframes = nframes
  sent_eq : s.sent.map Emission.segment =
    (chunks cut packets).closed.map fun chunk => some (segmentOf header chunk)
  current_eq : s.segmenter.currentSegment =
    some (segmentOf header (chunks cut packets).current)
  frames_eq : s.segmenter.currentFrames = (chunks cut packets).current.length

/-- The segment that the first call of a session installs, before its packet. -/
def headerOf (mem : Segment.Unassigned) (jobId : Uuid) (data : StreamData)
    (parameters : AVCodecParameters) : Segment :=
  firstSegment mem (create jobId 0) data parameters

section Simulation

variable (mem : Segment.Unassigned) {jobId : Uuid} {nframes : Nat} {data : StreamData}

variable (jobId nframes) in
/-- The first call opens the first chunk. -/
theorem step_first {parameters : AVCodecParameters} {packet : Packet}
    (hparam : data.parameters = some parameters)
    (hkey : data.mediaType = AVMediaType.video → packet.containsIFrame = true) :
    ∃ s, (Session.start jobId nframes).step mem (.process packet (some data)) = some s ∧
      Tracks (headerOf mem jobId data parameters) (rule data.mediaType nframes) nframes
        [packet] s := by
  have hok : ¬ (data.mediaType = AVMediaType.video ∧ packet.containsIFrame = false) := by
    rintro ⟨hv, hk⟩
    rw [hkey hv] at hk
    exact Bool.noConfusion hk
  simp only [Session.step, Session.outcome, Session.start, process, keepStream, create, hparam,
    if_neg hok, if_true]
  refine ⟨_, rfl, rfl, rfl, ?_, rfl⟩
  simp only [chunks, List.foldl_cons, List.foldl_nil, feed_empty, segmentOf, Segment.appendAll,
    headerOf]
  congr 1
  unfold firstSegment create Segment.create
  cases data.stream <;> rfl

/-- Every later call feeds the cutter. -/
theorem step_next {header : Segment} {packets : List Packet} {s : Session} (packet : Packet)
    (h : Tracks header (rule data.mediaType nframes) nframes packets s) (hne : packets ≠ []) :
    ∃ s', s.step mem (.process packet (some data)) = some s' ∧
      Tracks header (rule data.mediaType nframes) nframes (packets ++ [packet]) s' := by
  have hcur := chunks_current_ne_nil (rule data.mediaType nframes) hne
  have hdec : (s.segmenter.keepStream (some data)).cutsBefore data packet =
      rule data.mediaType nframes (chunks (rule data.mediaType nframes) packets).current packet := by
    simp only [cutsBefore, keepStream_nframes, keepStream_currentFrames, h.nframes_eq,
      h.frames_eq]
    by_cases hv : data.mediaType = AVMediaType.video
    · simp [rule, hv, cutOn]
    · simp [rule, hv, cutAt]
  cases hcut : rule data.mediaType nframes
      (chunks (rule data.mediaType nframes) packets).current packet with
  | true =>
      simp only [Session.step, Session.outcome, process, keepStream_currentSegment, h.current_eq,
        hdec, hcut, if_true]
      refine ⟨_, rfl, ⟨by simpa using h.nframes_eq, ?_, ?_, ?_⟩⟩
      · rw [chunks_snoc, feed_cut _ hcur hcut]
        simp [h.sent_eq]
      · rw [chunks_snoc, feed_cut _ hcur hcut]
        exact congrArg some (next_append header mem _ packet)
      · rw [chunks_snoc, feed_cut _ hcur hcut]
        rfl
  | false =>
      simp only [Session.step, Session.outcome, process, keepStream_currentSegment, h.current_eq,
        hdec, hcut, Bool.false_eq_true, if_false, if_true]
      refine ⟨_, rfl, ⟨by simpa using h.nframes_eq, ?_, ?_, ?_⟩⟩
      · rw [chunks_snoc, feed_keep _ hcut]
        simp [h.sent_eq]
      · rw [chunks_snoc, feed_keep _ hcut]
        exact congrArg some (segmentOf_snoc header _ packet).symm
      · rw [chunks_snoc, feed_keep _ hcut]
        simp [h.frames_eq]

/-- The calls that feed a list of packets, each with the stream data it comes with. -/
def feedOps (calls : List (Packet × StreamData)) : List Op :=
  calls.map fun call => .process call.1 (some call.2)

variable (jobId nframes) in
/-- A session that is only fed packets of one media type, the first one fit to
start the stream, never throws and tracks the cutter. -/
theorem exec_feedOps {parameters : AVCodecParameters} (first : Packet × StreamData)
    (rest : List (Packet × StreamData)) (hparam : first.2.parameters = some parameters)
    (hmedia : ∀ call ∈ rest, call.2.mediaType = first.2.mediaType)
    (hkey : first.2.mediaType = AVMediaType.video → first.1.containsIFrame = true) :
    ∃ s, exec (Session.step mem) (Session.start jobId nframes) (feedOps (first :: rest)) = some s ∧
      Tracks (headerOf mem jobId first.2 parameters) (rule first.2.mediaType nframes) nframes
        ((first :: rest).map Prod.fst) s := by
  induction rest using List.reverseRecOn with
  | nil =>
      obtain ⟨s, hstep, htracks⟩ := step_first mem jobId nframes hparam hkey
      exact ⟨s, by simpa [feedOps] using hstep, htracks⟩
  | append_singleton rest call ih =>
      obtain ⟨s, hexec, htracks⟩ := ih fun c hc => hmedia c (List.mem_append_left _ hc)
      have hcall : call.2.mediaType = first.2.mediaType := hmedia call (by simp)
      rw [← hcall] at htracks ⊢
      obtain ⟨s', hstep, htracks'⟩ := step_next mem call.1 htracks (by simp)
      refine ⟨s', ?_, by simpa using htracks'⟩
      have hops : feedOps (first :: (rest ++ [call])) =
          feedOps (first :: rest) ++ [.process call.1 (some call.2)] := by
        simp [feedOps]
      rw [hops, exec_snoc, hexec]
      exact hstep

end Simulation

section Tracks

variable {header : Segment} {cut : List Packet → Packet → Bool} {nframes : Nat}
  {packets : List Packet} {s : Session}

/-- The segments sent are the closed chunks, each under the common header. -/
theorem Tracks.segments_eq (h : Tracks header cut nframes packets s) :
    s.segments = (chunks cut packets).closed.map (segmentOf header) := by
  have hmap : s.segments = (s.sent.map Emission.segment).filterMap id := by
    simp [Session.segments, List.filterMap_map]
  rw [hmap, h.sent_eq, List.filterMap_map]
  exact congrFun List.filterMap_eq_map' _

theorem Tracks.openPackets_eq (h : Tracks header cut nframes packets s) :
    s.openPackets = (chunks cut packets).current := by
  simp [Session.openPackets, h.current_eq]

end Tracks

end Segmenter

end Media2
