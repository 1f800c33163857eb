import Media2.Loss
import Media2.Muxer.Reel

/-!
# Reassembly

An unpacker with one worker, whose `setupStream` subscribes a muxer to every new stream and
catches what that throws, writes the segments that it receives to one container.
-/

namespace Media2

open Execution SegmentUnpacker

open Muxer in
/-- The unpacker together with the muxer that its `setupStream` subscribes. -/
structure Reassembly where
  unpacker : SegmentUnpacker 1
  muxer : Muxer

namespace Reassembly

/-- What the worker does to the muxer when it takes a step. -/
def told (out : Muxer.Libavformat) (m : Muxer) : Worker → Option Muxer
  | .made _ stream => m.setupStream out stream
  | .forwarding stream (packet :: _) =>
      (m.connected stream.id).foldlM (Muxer.hear out (stream.forward packet)) m
  | _ => some m

/-- One step of the process. -/
def step (libav : Libav) (out : Muxer.Libavformat) (r : Reassembly) (l : Label 1) :
    Option Reassembly :=
  (SegmentUnpacker.step libav r.unpacker l).bind fun unpacker =>
    match l with
    | .worker i _ => (told out r.muxer (r.unpacker.workers i)).map fun m => ⟨unpacker, m⟩
    | _ => some ⟨unpacker, r.muxer⟩

/-- The line that the worker adds when it takes a step. -/
def said : Worker → List Line
  | .made _ stream => [.setup stream.id]
  | .forwarding stream (packet :: _) => [.packet stream.id packet]
  | _ => []

theorem doSomeWork_said {libav : Libav} {now : Int} {s s' : SegmentUnpacker 1} {i : Fin 1}
    (h : s.doSomeWork libav now i = some s') :
    s'.events.map Event.line = s.events.map Event.line ++ said (s.workers i) := by
  unfold doSomeWork at h
  cases hpc : s.workers i with
  | made t stream =>
      simp only [hpc] at h
      obtain rfl := Option.some.inj h
      rw [goto_events, List.map_append]
      rfl
  | forwarding stream packets =>
      cases packets with
      | nil =>
          simp only [hpc] at h
          obtain rfl := Option.some.inj h
          exact (List.append_nil _).symm
      | cons packet packets =>
          simp only [hpc] at h
          obtain rfl := Option.some.inj h
          rw [goto_events, List.map_append]
          rfl
  | unpack seg =>
      simp only [hpc] at h
      cases seg with
      | none =>
          obtain rfl := Option.some.inj h
          exact (List.append_nil _).symm
      | some t =>
          simp only at h
          split at h
          · obtain rfl := Option.some.inj h
            exact (List.append_nil _).symm
          · obtain rfl := Option.some.inj h
            exact (List.append_nil _).symm
  | pop =>
      simp only [hpc] at h
      split at h
      · obtain rfl := Option.some.inj h
        exact (List.append_nil _).symm
      · obtain rfl := Option.some.inj h
        exact (List.append_nil _).symm
  | missed t =>
      simp only [hpc] at h
      split at h
      · obtain rfl := Option.some.inj h
        exact (List.append_nil _).symm
      · obtain rfl := Option.some.inj h
        exact (List.append_nil _).symm
  | exited =>
      simp only [hpc] at h
      cases h
  | _ =>
      simp only [hpc] at h
      obtain rfl := Option.some.inj h
      exact (List.append_nil _).symm

section Runs

variable {libav : Libav} {out : Muxer.Libavformat} {bound : Nat}

/-- Only streams that were set up are on the reel. -/
theorem reel_ids (bound : Nat) (events : List Event) :
    (Muxer.reel bound (events.map Event.line)).ids.Sublist (setups events) := by
  induction events using List.reverseRecOn with
  | nil => exact List.Sublist.refl _
  | append_singleton events e ih =>
      rw [List.map_append, List.map_singleton, Muxer.reel_snoc]
      cases e with
      | setup id =>
          rw [setups_setup, Event.line, Muxer.Reel.add]
          split
          · exact ih.append (List.Sublist.refl _)
          · exact ih.trans (List.sublist_append_left _ _)
      | forward d =>
          rw [setups_forward, Event.line, Muxer.Reel.add]
          split
          · exact ih
          · exact ih

/-- Whatever the worker does, the muxer can follow. -/
theorem told_remuxed (hout : out.Succeeds) {s : SegmentUnpacker 1} (hs : Rebuilding s)
    (honce : (setups s.events).Nodup) {m : Muxer}
    (hm : Muxer.Remuxed bound (Muxer.reel bound (s.events.map Event.line)) m) (i : Fin 1) :
    ∃ m', told out m (s.workers i) = some m' ∧
      Muxer.Remuxed bound (Muxer.reel bound (s.events.map Event.line ++ said (s.workers i))) m' := by
  have hused := hs.used i
  cases hpc : s.workers i with
  | made t stream =>
      obtain ⟨data, seg, hdata, -, hrebuilt⟩ := hused stream (by rw [hpc]; rfl)
      have hparameters : data.parameters ≠ none := by
        rw [hrebuilt.parameters]
        exact Option.some_ne_none _
      rw [said, Muxer.reel_snoc]
      exact Muxer.setupStream_remuxed hout hm hdata hparameters
  | forwarding stream packets =>
      cases packets with
      | nil =>
          refine ⟨m, rfl, ?_⟩
          simpa only [said, List.append_nil] using hm
      | cons packet packets =>
          rw [said, Muxer.reel_snoc]
          exact Muxer.hear_remuxed hout hm (honce.sublist (reel_ids bound s.events))
            (stream.forward packet)
  | _ =>
      refine ⟨m, rfl, ?_⟩
      simpa only [said, List.append_nil] using hm

theorem events_of_quiet {s s' : SegmentUnpacker 1} {l : Label 1}
    (hl : ∀ i now, l ≠ .worker i now) (h : SegmentUnpacker.step libav s l = some s') :
    s'.events = s.events := by
  obtain ⟨-, ⟨seg, rfl, rfl⟩ | ⟨i, now, rfl, -⟩ | ⟨doomed, rfl, rfl⟩ | ⟨rfl, hclose⟩⟩ :=
    step_cases h
  · rfl
  · exact absurd rfl (hl i now)
  · rfl
  · rcases closeStep_cases hclose with ⟨flag, closer, rfl, -⟩ | rfl | ⟨-, -, rfl⟩
    · rfl
    · rfl
    · rfl

/-- The muxer never ends the process, and follows the events of the unpacker. -/
theorem follows_of_exec (hout : out.Succeeds) {expSeconds : Int} {m : Muxer}
    (hm : Muxer.Remuxed bound ⟨[], []⟩ m) {labels : List (Label 1)} {s : SegmentUnpacker 1}
    (hexec : exec (SegmentUnpacker.step libav) (start 1 (StreamCache.create expSeconds)) labels =
      some s) :
    ∃ m', exec (step libav out) ⟨start 1 (StreamCache.create expSeconds), m⟩ labels =
        some ⟨s, m'⟩ ∧
      Muxer.Remuxed bound (Muxer.reel bound (s.events.map Event.line)) m' := by
  induction labels using List.reverseRecOn generalizing s with
  | nil =>
      obtain rfl := Option.some.inj hexec
      exact ⟨m, rfl, hm⟩
  | append_singleton labels l ih =>
      obtain ⟨mid, hmid, hstep⟩ := exec_snoc_eq_some _ hexec
      obtain ⟨m', hrun, hm'⟩ := ih hmid
      have hrebuilding := invariant_of_step (fun _ _ _ => step_rebuilding)
        (start_rebuilding expSeconds) hmid
      have honce := (alone_of_exec hmid).inv.once
      rw [exec_snoc, hrun, Option.bind_some, step, hstep, Option.bind_some]
      cases l with
      | worker i now =>
          obtain ⟨m'', htold, hm''⟩ := told_remuxed hout hrebuilding honce hm' i
          have hsaid : s.events.map Event.line = mid.events.map Event.line ++ said (mid.workers i) := by
            rw [SegmentUnpacker.step] at hstep
            split at hstep
            · exact doSomeWork_said hstep
            · cases hstep
          refine ⟨m'', ?_, ?_⟩
          · exact congrArg (Option.map _) htold
          · rw [hsaid]
            exact hm''
      | _ =>
          have hevents := events_of_quiet (by rintro i now ⟨⟩) hstep
          rw [hevents]
          exact ⟨m', rfl, hm'⟩

theorem create_remuxed {filename format : String} {bufferMax : Int64} {m : Muxer}
    (h : Muxer.create out filename format bufferMax = .ok m) :
    Muxer.Remuxed m.limit ⟨[], []⟩ m := by
  obtain ⟨hholding, hinfos⟩ := Muxer.create_holding h
  obtain ⟨hbuffer, hnb, hstart⟩ : m.buffer = [] ∧ m.nbStreams = 0 ∧ m.streamStart = true := by
    rw [Muxer.create_cases out h]
    exact Muxer.openOutput_rest out _
  refine ⟨hholding, rfl, ?_, ?_, ?_, ?_, ?_⟩
  · rw [hinfos]
    rfl
  · intro i hi
    rw [hinfos] at hi
    exact absurd hi (Nat.not_lt_zero i)
  · rw [hnb, hinfos]
    rfl
  · rw [hbuffer]
    exact (Nat.zero_min _).symm
  · rw [hstart]
    exact (decide_eq_true (Nat.zero_le _)).symm

/-- A segmenter sends the packets of one stream under the job, and all its segments arrive,
among those of other jobs. -/
structure Carried (jobId : Uuid) (packets : List Packet) (received : List Segment) : Prop where
  sideData : ∀ p ∈ packets, p.val.sideData.length ≤ 1
  count : packets.length < 2 ^ 31
  path : ∃ mem nframes data session,
    exec (Segmenter.Session.step mem) (Segmenter.Session.start jobId nframes)
      (Segmenter.feedOps (packets.map fun packet => (packet, data))) = some session ∧
    Transport.Arrive session.allSent (received.filter fun seg => seg.jobId = jobId)

theorem Carried.packets_eq {jobId : Uuid} {packets : List Packet} {received : List Segment}
    (h : Carried jobId packets received) :
    (received.filter fun seg => seg.jobId = jobId).flatMap Segment.packets = packets := by
  obtain ⟨mem, nframes, data, session, hsent, harrive⟩ := h.path
  obtain ⟨groups, header, hgroups, hsegments⟩ := Remote.groups_of_exec hsent
  have hgood : ∀ e ∈ session.allSent, ∀ seg, e.segment = some seg → seg.Valid ∧
      (∀ p ∈ seg.packets, p.val.sideData.length ≤ 1) ∧ seg.packets.length < 2 ^ 31 := by
    intro e he seg hseg
    have hmem : seg ∈ groups.map (Segmenter.segmentOf header) :=
      hsegments ▸ List.mem_filterMap.mpr ⟨e, he, hseg⟩
    exact Remote.segmentOf_sendable hgroups h.sideData h.count hmem
  rw [Remote.arrive_eq hgood harrive, hsegments, List.flatMap_map]
  simp only [Segmenter.segmentOf_packets]
  exact List.flatMap_id'.trans hgroups.flatten_eq

/-- The muxer is closed with what was received in time. -/
theorem written_of_settled (hout : out.Succeeds) {filename format : String} {bufferMax : Int64}
    {expSeconds : Int} {m : Muxer} {labels : List (Label 1)} {s : SegmentUnpacker 1}
    (hcreate : Muxer.create out filename format bufferMax = .ok m)
    (hkept : ∀ doomed, Label.evict doomed ∉ labels)
    (hexec : exec (SegmentUnpacker.step libav) (start 1 (StreamCache.create expSeconds)) labels =
      some s)
    (hsettled : Settled s) :
    ∃ m' closed, exec (step libav out) ⟨start 1 (StreamCache.create expSeconds), m⟩ labels =
        some ⟨s, m'⟩ ∧
      m'.close out = (.ok (), closed) ∧
      Muxer.written closed.log = Muxer.reassembled m.limit s.received := by
  obtain ⟨m', hrun, hm'⟩ := follows_of_exec hout (create_remuxed hcreate) hexec
  rw [events_of_settled hkept hexec hsettled] at hm'
  obtain ⟨count, hwound⟩ := Muxer.wound_script m.limit s.received
  obtain ⟨closed, hclose, hwritten⟩ := Muxer.close_holding hout.writes hm'.holding
  exact ⟨m', closed, hrun, hclose, hwritten.trans hwound.frames⟩

/-- The frames that stand for a stream whose segments all arrived. -/
theorem Carried.frames {jobId : Uuid} {packets : List Packet} {received : List Segment}
    (h : Carried jobId packets received) (bound : Nat)
    (hfew : (jobs [] received).length < 2 ^ 32) :
    (Muxer.reassembled bound received).filter (fun frame =>
        frame.val.streamIndex = Int32.ofNat ((jobs [] received).idxOf jobId)) =
      if Muxer.InTime bound received jobId then packets.map fun packet =>
        packet.setStreamIndex ((jobs [] received).idxOf jobId)
      else [] := by
  rw [Muxer.reassembled_filter bound hfew jobId, h.packets_eq]

/-- The container has the packets of the jobs that were in time, in the order in which they
were received and each under the number of its job. A stream whose segments all arrived is in
it as it was fed, or not at all. -/
structure Reassembled (bound : Nat) (received : List Segment) (closed : Muxer) : Prop where
  frames : Muxer.written closed.log = Muxer.reassembled bound received
  streams : ∀ (jobId : Uuid) (packets : List Packet), Carried jobId packets received →
    (Muxer.written closed.log).filter (fun frame =>
        frame.val.streamIndex = Int32.ofNat ((jobs [] received).idxOf jobId)) =
      if Muxer.InTime bound received jobId then packets.map fun packet =>
        packet.setStreamIndex ((jobs [] received).idxOf jobId)
      else []

/-- When everything that was received has been unpacked, and no stream has expired, the muxer
has not ended the process and closes the container with all that was received in time. -/
theorem reassembled_of_exec (libav : Libav) (out : Muxer.Libavformat) (expSeconds : Int)
    (filename format : String) (bufferMax : Int64) (m : Muxer) (labels : List (Label 1))
    (s : SegmentUnpacker 1) (hout : out.Succeeds)
    (hcreate : Muxer.create out filename format bufferMax = .ok m)
    (hkept : ∀ doomed, Label.evict doomed ∉ labels)
    (hexec : exec (SegmentUnpacker.step libav) (start 1 (StreamCache.create expSeconds)) labels =
      some s)
    (hsettled : Settled s) (hfew : (jobs [] s.received).length < 2 ^ 32) :
    ∃ m' closed, exec (step libav out) ⟨start 1 (StreamCache.create expSeconds), m⟩ labels =
        some ⟨s, m'⟩ ∧
      m'.close out = (.ok (), closed) ∧ Reassembled m.limit s.received closed := by
  obtain ⟨m', closed, hrun, hclose, hwritten⟩ :=
    written_of_settled hout hcreate hkept hexec hsettled
  refine ⟨m', closed, hrun, hclose, hwritten, fun jobId packets hcarried => ?_⟩
  rw [hwritten]
  exact hcarried.frames m.limit hfew

/-- A segment of another job, which comes too late for a muxer without a buffer. -/
def lateSegment : Segment := { Segment.sample with jobId := Vector.replicate 16 1 }

def twoJobs : List (Label 1) :=
  [.receive Segment.sample, .receive lateSegment] ++ turns 0 18

theorem reassembled_of_exec_sample :
    ∃ s m, exec (SegmentUnpacker.step Libav.sample) (start 1 (StreamCache.create 600)) twoJobs =
        some s ∧
      Muxer.create Muxer.Libavformat.sample "out.mp4" "" 0 = .ok m ∧
      Muxer.reassembled m.limit s.received = [Packet.keyFrame.setStreamIndex 0] ∧
      ∃ m' closed, exec (step Libav.sample Muxer.Libavformat.sample)
          ⟨start 1 (StreamCache.create 600), m⟩ twoJobs = some ⟨s, m'⟩ ∧
        m'.close Muxer.Libavformat.sample = (.ok (), closed) ∧
        Reassembled m.limit s.received closed := by
  refine ⟨_, _, rfl, rfl, rfl, reassembled_of_exec Libav.sample Muxer.Libavformat.sample 600
    "out.mp4" "" 0 _ twoJobs _ (fun _ _ => Int.le_refl 0) rfl ?_ rfl ⟨rfl, ?_⟩ ?_⟩
  · simp [twoJobs, turns]
  · exact Worker.Idle.testFlag
  · decide

end Runs

end Reassembly

end Media2
