import Media2.Segmenter

/-!
# The partition law

Whatever the packets, the segments sent and the current segment together hold
them in order, and every segment sent is cut where its media type says.
-/

namespace Media2.Segmenter

open Chunking Execution

/-- What is true of a session at any point while it is fed `calls`. -/
structure Partition (jobId : Uuid) (nframes : Nat) (mediaType : AVMediaType)
    (calls : List (Packet × StreamData)) (s : Session) : Prop where
  sent_nonnull : ∀ e ∈ s.sent, e.segment ≠ none
  packets_eq : s.segments.flatMap Segment.packets ++ s.openPackets = calls.map Prod.fst
  video_cut : mediaType = AVMediaType.video → ∀ seg ∈ s.segments, ∃ key rest,
    seg.packets = key :: rest ∧ key.containsIFrame = true ∧
      ∀ p ∈ rest, p.containsIFrame = false
  counted_cut : mediaType ≠ AVMediaType.video → ∀ seg ∈ s.segments,
    seg.packets.length = max 1 nframes
  currentFrames_eq : s.segmenter.currentFrames = s.openPackets.length
  header : ∀ seg ∈ s.segments ++ s.segmenter.currentSegment.toList,
    seg.jobId = jobId ∧ (∀ call ∈ calls.head?, call.2.parameters = some seg.parameters) ∧
      seg.Valid

theorem headerOf_fields (mem : Segment.Unassigned) (jobId : Uuid) (data : StreamData)
    (parameters : AVCodecParameters) :
    (headerOf mem jobId data parameters).jobId = jobId ∧
      (headerOf mem jobId data parameters).parameters = parameters := by
  unfold headerOf firstSegment
  split <;> exact ⟨rfl, rfl⟩

/-- A chunk cut on key packets that starts with one has no other. -/
theorem video_chunk {packets chunk : List Packet}
    (hfirst : ∀ p ∈ packets.head?, p.containsIFrame = true)
    (hmem : chunk ∈ (chunks (cutOn Packet.containsIFrame) packets).closed) :
    ∃ key rest, chunk = key :: rest ∧ key.containsIFrame = true ∧
      ∀ p ∈ rest, p.containsIFrame = false := by
  obtain ⟨hne, -, huncut⟩ := closed_spec _ packets chunk hmem
  have hstart := (cutOn_starts Packet.containsIFrame packets hfirst).1 chunk hmem
  cases chunk with
  | nil => exact absurd rfl hne
  | cons key rest =>
      exact ⟨key, rest, rfl, hstart key rfl, tail_unmarked Packet.containsIFrame huncut⟩

/-- The law holds wherever a session tracks the cutter. -/
theorem Tracks.partition {mem : Segment.Unassigned} {jobId : Uuid} {nframes : Nat}
    {first : Packet × StreamData} {rest : List (Packet × StreamData)}
    {parameters : AVCodecParameters} {s : Session}
    (hparam : first.2.parameters = some parameters)
    (hkey : first.2.mediaType = AVMediaType.video → first.1.containsIFrame = true)
    (h : Tracks (headerOf mem jobId first.2 parameters) (rule first.2.mediaType nframes) nframes
      ((first :: rest).map Prod.fst) s) :
    Partition jobId nframes first.2.mediaType (first :: rest) s where
  sent_nonnull := by
    intro e he hnull
    have hmem : none ∈ s.sent.map Emission.segment := List.mem_map.mpr ⟨e, he, hnull⟩
    rw [h.sent_eq] at hmem
    simp at hmem
  packets_eq := by
    have hflat := chunks_flatten (rule first.2.mediaType nframes) ((first :: rest).map Prod.fst)
    rw [h.segments_eq, h.openPackets_eq, List.flatMap_map]
    simpa only [segmentOf_packets, List.flatMap_id'] using hflat
  video_cut := by
    intro hv seg hseg
    rw [h.segments_eq, rule, if_pos hv] at hseg
    obtain ⟨chunk, hmem, rfl⟩ := List.mem_map.mp hseg
    rw [segmentOf_packets]
    exact video_chunk (by simpa using hkey hv) hmem
  counted_cut := by
    intro hv seg hseg
    rw [h.segments_eq, rule, if_neg hv] at hseg
    obtain ⟨chunk, hmem, rfl⟩ := List.mem_map.mp hseg
    rw [segmentOf_packets]
    exact cutAt_closed_length nframes _ chunk hmem
  currentFrames_eq := by
    rw [h.frames_eq, h.openPackets_eq]
  header := by
    have hone : ∀ chunk, (segmentOf (headerOf mem jobId first.2 parameters) chunk).jobId = jobId ∧
        (∀ call ∈ (first :: rest).head?, call.2.parameters =
          some (segmentOf (headerOf mem jobId first.2 parameters) chunk).parameters) ∧
        (segmentOf (headerOf mem jobId first.2 parameters) chunk).Valid := by
      intro chunk
      obtain ⟨hjob, hpar, -⟩ := segmentOf_header (headerOf mem jobId first.2 parameters) chunk
      obtain ⟨hjob', hpar'⟩ := headerOf_fields mem jobId first.2 parameters
      refine ⟨hjob.trans hjob', ?_, segmentOf_valid _ chunk⟩
      intro call hcall
      obtain rfl : first = call := by simpa using hcall
      rw [hparam, hpar, hpar']
    intro seg hseg
    rw [h.segments_eq, h.current_eq] at hseg
    rcases List.mem_append.mp hseg with hseg | hseg
    · obtain ⟨chunk, -, rfl⟩ := List.mem_map.mp hseg
      exact hone chunk
    · obtain rfl : segmentOf _ _ = seg := by simpa [eq_comm] using hseg
      exact hone _

/-- Feeding the packets of one stream never throws, and at the point reached the
law holds. The list is arbitrary, so the law holds at every point on the way. -/
theorem process_partition (mem : Segment.Unassigned) (jobId : Uuid) (nframes : Nat)
    (mediaType : AVMediaType) (calls : List (Packet × StreamData))
    (hparam : ∀ call ∈ calls, call.2.parameters ≠ none)
    (hmedia : ∀ call ∈ calls, call.2.mediaType = mediaType)
    (hkey : mediaType = AVMediaType.video → ∀ call ∈ calls.head?, call.1.containsIFrame = true) :
    ∃ s, exec (Session.step mem) (Session.start jobId nframes) (feedOps calls) = some s ∧
      Partition jobId nframes mediaType calls s := by
  cases calls with
  | nil =>
      refine ⟨Session.start jobId nframes, rfl, ?_⟩
      constructor <;> simp [Session.start, Session.segments, Session.openPackets, create]
  | cons first rest =>
      obtain ⟨parameters, hp⟩ := Option.ne_none_iff_exists'.mp (hparam first (by simp))
      have hfirst := hmedia first (by simp)
      have hkey' : first.2.mediaType = AVMediaType.video → first.1.containsIFrame = true :=
        fun hv => hkey (hfirst.symm.trans hv) first rfl
      obtain ⟨s, hexec, htracks⟩ := exec_feedOps mem jobId nframes first
        rest hp (fun call hc => (hmedia call (by simp [hc])).trans hfirst.symm) hkey'
      exact ⟨s, hexec, hfirst ▸ htracks.partition hp hkey'⟩

theorem process_partition_sample :
    ∃ s, exec (Session.step Segment.Unassigned.zero) (Session.start Uuid.null 250)
        (feedOps [(Packet.keyFrame, StreamData.sampleVideo), (Packet.create, StreamData.sampleVideo),
          (Packet.keyFrame, StreamData.sampleVideo)]) = some s ∧
      Partition Uuid.null 250 AVMediaType.video
        [(Packet.keyFrame, StreamData.sampleVideo), (Packet.create, StreamData.sampleVideo),
          (Packet.keyFrame, StreamData.sampleVideo)] s :=
  process_partition Segment.Unassigned.zero Uuid.null 250 AVMediaType.video _ (by decide)
    (by decide) (by decide)

end Media2.Segmenter
