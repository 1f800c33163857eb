import Media2.Resegmentation

/-!
# Losing segments

A ZeroMQ subscriber that joins late or is slow misses whole messages, and a message is a
segment. What is forwarded on the rebuilt stream then lacks whole groups of packets. A group
of video starts on its only key packet, so every gap ends on a key packet.
-/

namespace Media2

open Execution SegmentUnpacker

/-- Some of the segments that were sent arrive, in order. -/
def Transport.ArriveSome (sent : List Emission) (received : List Segment) : Prop :=
  ∃ kept, kept.Sublist sent ∧ Arrive kept received

/-- The groups that a segmenter cuts a sequence into. -/
structure Segmenter.Groups (mediaType : AVMediaType) (nframes : Nat) (packets : List Packet)
    (groups : List (List Packet)) : Prop where
  flatten_eq : groups.flatten = packets
  nonempty : [] ∉ groups
  video : mediaType = AVMediaType.video → ∀ group ∈ groups, ∃ key rest, group = key :: rest ∧
    key.containsIFrame = true ∧ ∀ p ∈ rest, p.containsIFrame = false
  counted : mediaType ≠ AVMediaType.video → ∀ group ∈ groups.dropLast,
    group.length = max 1 nframes

namespace Remote

open Segmenter

/-- The pieces of a sequence that the segmenter accepts are such groups. -/
theorem pieces_groups {mediaType : AVMediaType} {nframes : Nat} {packets : List Packet}
    (hne : packets ≠ [])
    (hkey : mediaType = AVMediaType.video → ∀ p ∈ packets.head?, p.containsIFrame = true) :
    Groups mediaType nframes packets (pieces (rule mediaType nframes) packets) where
  flatten_eq := pieces_flatten _ packets
  nonempty := by
    intro hmem
    rcases List.mem_append.mp hmem with hclosed | hcurrent
    · exact (Chunking.closed_spec _ packets [] hclosed).1 rfl
    · exact Chunking.chunks_current_ne_nil _ hne (List.mem_singleton.mp hcurrent).symm
  video := by
    intro hv group hgroup
    rw [rule, if_pos hv] at hgroup
    rcases List.mem_append.mp hgroup with hclosed | hcurrent
    · exact video_chunk (hkey hv) hclosed
    · obtain rfl := List.mem_singleton.mp hcurrent
      have huncut := Chunking.chunks_current_uncut (Chunking.cutOn Packet.containsIFrame) packets
      have hstart := (Chunking.cutOn_starts Packet.containsIFrame packets (hkey hv)).2
      obtain ⟨key, rest, heq⟩ := List.exists_cons_of_ne_nil
        (Chunking.chunks_current_ne_nil (Chunking.cutOn Packet.containsIFrame) hne)
      rw [heq] at huncut hstart ⊢
      exact ⟨key, rest, rfl, hstart key rfl,
        Chunking.tail_unmarked Packet.containsIFrame huncut⟩
  counted := by
    intro hv group hgroup
    rw [pieces, List.dropLast_concat, rule, if_neg hv] at hgroup
    exact Chunking.cutAt_closed_length nframes packets group hgroup

/-- What a decoder takes from the wire is what was saved, as long as an `int` counts the
packets. -/
theorem arrived_eq {mem : Segment.Unassigned} {publisher : ZmqSegmentPublisher}
    {sent seg : Segment} {stream : StreamData} {locals : ZmqSegmentSubscriber.Locals}
    {hops : List Transport.Hop} (hvalid : sent.Valid)
    (hone : ∀ p ∈ sent.packets, p.val.sideData.length ≤ 1) (hcount : sent.packets.length < 2 ^ 31)
    (h : Transport.transported mem publisher sent stream locals hops = .ok (seg, [])) :
    seg = sent := by
  have hparam : stream.parameters ≠ none := by
    intro hnone
    simp [Transport.transported, ZmqSegmentPublisher.process, hnone, bind, Except.bind] at h
  rw [Transport.transported_eq mem publisher sent hparam locals hops,
    (Serialization.loadSegment_saveSegment_iff mem hvalid hone).mpr hcount] at h
  exact (Prod.mk.inj (Except.ok.inj h)).1.symm

theorem arrive_eq {kept : List Emission} {received : List Segment}
    (hgood : ∀ e ∈ kept, ∀ seg, e.segment = some seg → seg.Valid ∧
      (∀ p ∈ seg.packets, p.val.sideData.length ≤ 1) ∧ seg.packets.length < 2 ^ 31)
    (h : Transport.Arrive kept received) : received = kept.filterMap Emission.segment := by
  unfold Transport.Arrive at h
  induction kept generalizing received with
  | nil => exact List.forall₂_nil_left_iff.mp h
  | cons e kept ih =>
      have hrest := fun e' he' => hgood e' (List.mem_cons_of_mem e he')
      cases hseg : e.segment with
      | none =>
          rw [List.filter_cons_of_neg (by simp [hseg])] at h
          rw [List.filterMap_cons_none hseg]
          exact ih hrest h
      | some sent =>
          rw [List.filter_cons_of_pos (by simp [hseg])] at h
          rw [List.filterMap_cons_some hseg]
          obtain ⟨seg, tail, hfirst, htail, rfl⟩ := List.forall₂_cons_left_iff.mp h
          obtain ⟨mem, publisher, sent', stream, locals, hops, hsent, -, hok⟩ := hfirst
          obtain rfl := Option.some.inj (hseg.symm.trans hsent)
          obtain ⟨hvalid, hone, hcount⟩ := hgood e (List.mem_cons_self ..) sent hseg
          rw [arrived_eq hvalid hone hcount hok, ih hrest htail]

/-- The packets that were forwarded on a job's streams. -/
def forwardedOn (job : Uuid) (events : List Event) : List Packet :=
  ((forwarded events).filter fun d => d.1 = some job.unparse).map Prod.snd

/-- Sorting the packets of segments by job is sorting the segments. -/
theorem filter_pairs (job : Uuid) (received : List Segment) :
    ((received.flatMap pairs).filter fun d => d.1 = some job.unparse).map Prod.snd =
      (received.filter fun seg => seg.jobId = job).flatMap Segment.packets := by
  induction received with
  | nil => rfl
  | cons seg received ih =>
      rw [List.flatMap_cons, List.filter_append, List.map_append, ih]
      by_cases hjob : seg.jobId = job
      · have hall : ∀ d ∈ pairs seg, decide (d.1 = some job.unparse) = true := by
          intro d hd
          obtain ⟨packet, -, rfl⟩ := List.mem_map.mp hd
          exact decide_eq_true (by rw [hjob])
        rw [List.filter_cons_of_pos (by simpa using hjob), List.flatMap_cons,
          List.filter_eq_self.mpr hall, pairs, List.map_map]
        exact congrArg (· ++ _) (List.map_id _)
      · have hnone : ∀ d ∈ pairs seg, ¬ decide (d.1 = some job.unparse) = true := by
          intro d hd hname
          obtain ⟨packet, -, rfl⟩ := List.mem_map.mp hd
          exact hjob (Uuid.unparse_injective (Option.some.inj (of_decide_eq_true hname)))
        rw [List.filter_cons_of_neg (by simpa using hjob), List.filter_eq_nil_iff.mpr hnone]
        rfl

/-- A single worker forwards a job's packets in the order of its received segments. -/
theorem forwardedOn_prefix {s : SegmentUnpacker 1} (h : Linear s) (job : Uuid) :
    forwardedOn job s.events <+:
        (s.received.filter fun seg => seg.jobId = job).flatMap Segment.packets ∧
      (s.work = [] → (s.workers 0).Idle → forwardedOn job s.events =
        (s.received.filter fun seg => seg.jobId = job).flatMap Segment.packets) := by
  rw [← filter_pairs, h.law, List.append_assoc, List.filter_append, List.map_append]
  refine ⟨List.prefix_append _ _, fun hwork hidle => ?_⟩
  rw [hwork, hidle.inHand_eq]
  exact (List.append_nil _).symm

/-- A session that is fed the packets of one stream sends them in groups. -/
theorem groups_of_exec {mem : Segment.Unassigned} {jobId : Uuid} {nframes : Nat}
    {data : StreamData} {packets : List Packet} {session : Session}
    (hsent : exec (Session.step mem) (Session.start jobId nframes)
      (feedOps (packets.map fun packet => (packet, data))) = some session) :
    ∃ groups header, Groups data.mediaType nframes packets groups ∧
      session.allSent.filterMap Emission.segment = groups.map (segmentOf header) := by
  by_cases hne : packets = []
  · subst hne
    obtain rfl : Session.start jobId nframes = session := by simpa [feedOps] using hsent
    exact ⟨[], Segment.create mem jobId AVCodecParameters.zero,
      ⟨rfl, List.not_mem_nil, by simp, by simp⟩, rfl⟩
  · obtain ⟨parameters, -, htracks⟩ := tracks_of_exec hne hsent
    obtain ⟨first, rest, rfl⟩ := List.exists_cons_of_ne_nil hne
    rw [List.map_cons, feedOps, List.map_cons, exec_cons] at hsent
    obtain ⟨t, ht, -⟩ := Option.bind_eq_some_iff.mp hsent
    obtain ⟨-, -, hkey⟩ := step_first_ok ht
    refine ⟨_, _, pieces_groups hne ?_, htracks.received⟩
    intro hv p hp
    obtain rfl : first = p := by simpa using hp
    exact hkey hv

/-- The segment of a group can be sent. -/
theorem segmentOf_sendable {mediaType : AVMediaType} {nframes : Nat} {packets : List Packet}
    {groups : List (List Packet)} (hgroups : Groups mediaType nframes packets groups)
    (hone : ∀ p ∈ packets, p.val.sideData.length ≤ 1) (hcount : packets.length < 2 ^ 31)
    {header seg : Segment} (hseg : seg ∈ groups.map (segmentOf header)) :
    seg.Valid ∧ (∀ p ∈ seg.packets, p.val.sideData.length ≤ 1) ∧ seg.packets.length < 2 ^ 31 := by
  obtain ⟨group, hgroup, rfl⟩ := List.mem_map.mp hseg
  have hpart : group.Sublist packets := hgroups.flatten_eq ▸ List.sublist_flatten_of_mem hgroup
  rw [segmentOf_packets]
  exact ⟨segmentOf_valid header group, fun p hp => hone p (hpart.subset hp),
    Nat.lt_of_le_of_lt hpart.length_le hcount⟩

/-- Whatever segments of a stream get lost on the way and whatever else the unpacker
receives, the packets forwarded on the rebuilt stream are whole groups of the original ones,
in order, up to the packet that the worker has come to. -/
theorem whole_groups (mem : Segment.Unassigned) (jobId : Uuid) (nframes : Nat)
    (data : StreamData) (packets : List Packet) (session : Session)
    (hsent : exec (Session.step mem) (Session.start jobId nframes)
      (feedOps (packets.map fun packet => (packet, data))) = some session)
    (hone : ∀ p ∈ packets, p.val.sideData.length ≤ 1) (hcount : packets.length < 2 ^ 31)
    (libav : Libav) (expSeconds : Int) (labels : List (Label 1)) (s : SegmentUnpacker 1)
    (hrun : exec (step libav) (start 1 (StreamCache.create expSeconds)) labels = some s)
    (harrive : Transport.ArriveSome session.allSent
      (s.received.filter fun seg => seg.jobId = jobId)) :
    ∃ groups kept : List (List Packet), Groups data.mediaType nframes packets groups ∧
      kept.Sublist groups ∧
      forwardedOn jobId s.events <+: kept.flatten ∧
      (s.work = [] → (s.workers 0).Idle → forwardedOn jobId s.events = kept.flatten) := by
  obtain ⟨sublist, hsublist, harrive⟩ := harrive
  obtain ⟨groups, header, hgroups, hsegments⟩ := groups_of_exec hsent
  have hkept : (sublist.filterMap Emission.segment).Sublist (groups.map (segmentOf header)) := by
    rw [← hsegments]
    exact hsublist.filterMap _
  obtain ⟨kept, hkeptGroups, hkeptEq⟩ := List.sublist_map_iff.mp hkept
  have hgood : ∀ e ∈ sublist, ∀ seg, e.segment = some seg → seg.Valid ∧
      (∀ p ∈ seg.packets, p.val.sideData.length ≤ 1) ∧ seg.packets.length < 2 ^ 31 := by
    intro e he seg hseg
    exact segmentOf_sendable hgroups hone hcount
      (hkept.subset (List.mem_filterMap.mpr ⟨e, he, hseg⟩))
  have hpackets : (s.received.filter fun seg => seg.jobId = jobId).flatMap Segment.packets =
      kept.flatten := by
    rw [arrive_eq hgood harrive, hkeptEq, List.flatMap_map]
    simp only [segmentOf_packets]
    exact List.flatMap_id'
  have hforwarded := forwardedOn_prefix
    (linear_of_exec (StreamCache.create_sound expSeconds) hrun) jobId
  rw [hpackets] at hforwarded
  exact ⟨groups, kept, hgroups, hkeptGroups, hforwarded⟩

/-- The second of the two segments that `sampleFirst` sends. -/
def sampleSecond : Segment :=
  segmentOf (headerOf Segment.Unassigned.zero Uuid.null StreamData.sampleVideo
    AVCodecParameters.zero) [Packet.keyFrame]

/-- The first segment is lost and the second one is unpacked. -/
def secondOnly : List (Label 1) := .receive sampleSecond :: turns 0 9

theorem sampleSecond_arrives : Transport.ArriveSome sampleFirst.allSent [sampleSecond] := by
  refine ⟨sampleFirst.allSent.tail, List.tail_sublist _, ?_⟩
  refine List.Forall₂.cons ⟨Segment.Unassigned.zero, ZmqSegmentPublisher.create, sampleSecond,
    StreamData.sampleVideo, Transport.zeroLocals, [], rfl, rfl, ?_⟩ List.Forall₂.nil
  rw [Transport.transported_eq _ _ _ (by decide)]
  exact (Serialization.loadSegment_saveSegment_iff _ (segmentOf_valid _ _) (by decide)).mpr
    (by decide)

theorem whole_groups_sample :
    ∃ s, exec (step Libav.sample) (start 1 (StreamCache.create 600)) secondOnly = some s ∧
      ∃ groups kept : List (List Packet), Groups AVMediaType.video 250
        [Packet.keyFrame, Packet.keyFrame] groups ∧ kept.Sublist groups ∧
        forwardedOn Uuid.null s.events <+: kept.flatten ∧
        (s.work = [] → (s.workers 0).Idle → forwardedOn Uuid.null s.events = kept.flatten) :=
  ⟨_, rfl, whole_groups Segment.Unassigned.zero Uuid.null 250 StreamData.sampleVideo
    [Packet.keyFrame, Packet.keyFrame] sampleFirst rfl (by decide) (by decide) Libav.sample 600
    secondOnly _ rfl sampleSecond_arrives⟩

end Remote

end Media2
