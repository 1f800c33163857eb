import Media2.Remote
import Media2.Segmenter.Partition

/-!
# Segmenting a rebuilt stream

A second segmenter, fed from the rebuilt stream, is told neither that the stream is
video nor which container stream it came from. It therefore cuts by count, and its
first segment keeps whatever time base the memory held.
-/

namespace Media2

open Chunking Execution SegmentUnpacker

namespace Segmenter

/-- What a cut makes of an emission: the packets, the codec parameters and the time
base of its segment. -/
def cut (e : Emission) : Option (List Packet × AVCodecParameters × AVRational) :=
  e.segment.map fun seg => (seg.packets, seg.parameters, seg.timeBase)

/-- The packets that a rule cuts a sequence into, the open rest included. -/
def pieces (rule : List Packet → Packet → Bool) (packets : List Packet) : List (List Packet) :=
  (chunks rule packets).closed ++ [(chunks rule packets).current]

theorem pieces_inj {rule rule' : List Packet → Packet → Bool} {packets : List Packet} :
    pieces rule packets = pieces rule' packets ↔ chunks rule packets = chunks rule' packets := by
  constructor
  · intro h
    obtain ⟨hclosed, hcurrent⟩ := List.append_inj' h rfl
    exact Chunks.ext hclosed (List.singleton_inj.mp hcurrent)
  · intro h
    rw [pieces, h, pieces]

theorem pieces_flatten (rule : List Packet → Packet → Bool) (packets : List Packet) :
    (pieces rule packets).flatten = packets := by
  simpa [pieces] using chunks_flatten rule packets

section Cuts

variable {header : Segment} {rule : List Packet → Packet → Bool} {nframes : Nat}
  {packets : List Packet} {s : Session}

/-- What a segmenter sends until it is gone, in terms of the cutter. -/
theorem Tracks.allSent_segments (h : Tracks header rule nframes packets s) :
    s.allSent.map Emission.segment =
      (pieces rule packets).map fun piece => some (segmentOf header piece) := by
  rw [Session.allSent, List.map_append, h.sent_eq, pieces, List.map_append]
  simp only [flush, List.map_cons, List.map_nil, h.current_eq]

theorem Tracks.received (h : Tracks header rule nframes packets s) :
    s.allSent.filterMap Emission.segment = (pieces rule packets).map (segmentOf header) := by
  have hmap : s.allSent.filterMap Emission.segment =
      (s.allSent.map Emission.segment).filterMap id := by
    rw [List.filterMap_map]
    rfl
  rw [hmap, h.allSent_segments, List.filterMap_map]
  exact congrFun List.filterMap_eq_map' _

theorem Tracks.cuts (h : Tracks header rule nframes packets s) :
    s.allSent.map cut =
      (pieces rule packets).map fun piece => some (piece, header.parameters, header.timeBase) := by
  have hcut : cut = (Option.map fun seg : Segment =>
      (seg.packets, seg.parameters, seg.timeBase)) ∘ Emission.segment := rfl
  rw [hcut, ← List.map_map, h.allSent_segments, List.map_map]
  apply List.map_congr_left
  intro piece _
  obtain ⟨-, hparam, htime⟩ := segmentOf_header header piece
  simp only [Function.comp_apply, Option.map_some, segmentOf_packets, hparam, htime]

end Cuts

/-- Pieces under one label are told apart by the piece and the label. -/
theorem label_inj {α β : Type} {l l' : List α} {b b' : β} (hne : l ≠ []) :
    l.map (fun a => some (a, b)) = l'.map (fun a => some (a, b')) ↔ l = l' ∧ b = b' := by
  constructor
  · intro h
    have hfst : ∀ (l : List α) (b : β),
        (l.map fun a => some (a, b)).map (Option.map Prod.fst) = l.map some := by
      intro l b
      rw [List.map_map]
      rfl
    have hl : l = l' := by
      have hmap := congrArg (List.map (Option.map Prod.fst)) h
      rw [hfst, hfst] at hmap
      exact List.map_injective_iff.mpr (fun _ _ heq => Option.some.inj heq) hmap
    obtain ⟨a, rest, rfl⟩ := List.exists_cons_of_ne_nil hne
    subst hl
    have hhead := (List.cons.inj h).1
    exact ⟨rfl, (Prod.mk.inj (Option.some.inj hhead)).2⟩
  · rintro ⟨rfl, rfl⟩
    rfl

/-- Cutting by count does what the segmenter of the stream does unless the stream is
video with its key packets elsewhere. -/
theorem cutAt_agrees_iff {mediaType : AVMediaType} {nframes : Nat} {packets : List Packet} :
    chunks (cutAt nframes) packets = chunks (rule mediaType nframes) packets ↔
      (mediaType = AVMediaType.video → ∀ i (h : i < packets.length), 0 < i →
        (packets[i].containsIFrame = true ↔ max 1 nframes ∣ i)) := by
  by_cases hv : mediaType = AVMediaType.video
  · rw [rule, if_pos hv, eq_comm, cutOn_eq_cutAt_iff]
    exact ⟨fun h _ => h, fun h => h hv⟩
  · rw [rule, if_neg hv]
    exact ⟨fun _ hv' => absurd hv' hv, fun _ => rfl⟩

/-- A first call that does not throw is given parameters and, for video, a key packet. -/
theorem step_first_ok {mem : Segment.Unassigned} {jobId : Uuid} {nframes : Nat} {packet : Packet}
    {data : StreamData} {s : Session}
    (h : (Session.start jobId nframes).step mem (.process packet (some data)) = some s) :
    ∃ parameters, data.parameters = some parameters ∧
      (data.mediaType = AVMediaType.video → packet.containsIFrame = true) := by
  obtain ⟨hok, -, -⟩ := step_eq_some h
  cases hparam : data.parameters with
  | none => simp [Session.outcome, Session.start, process, keepStream, create, hparam] at hok
  | some parameters =>
      refine ⟨parameters, rfl, fun hv => ?_⟩
      cases hkey : packet.containsIFrame with
      | true => rfl
      | false =>
          simp [Session.outcome, Session.start, process, keepStream, create, hparam, hv, hkey] at hok

/-- A run that feeds the packets of one stream tracks the cutter. -/
theorem tracks_of_exec {mem : Segment.Unassigned} {jobId : Uuid} {nframes : Nat}
    {data : StreamData} {packets : List Packet} {s : Session} (hne : packets ≠ [])
    (h : exec (Session.step mem) (Session.start jobId nframes)
      (feedOps (packets.map fun packet => (packet, data))) = some s) :
    ∃ parameters, data.parameters = some parameters ∧
      Tracks (headerOf mem jobId data parameters) (rule data.mediaType nframes) nframes packets s := by
  obtain ⟨first, rest, rfl⟩ := List.exists_cons_of_ne_nil hne
  have hfirst := h
  rw [List.map_cons, feedOps, List.map_cons, exec_cons] at hfirst
  obtain ⟨t, ht, -⟩ := Option.bind_eq_some_iff.mp hfirst
  obtain ⟨parameters, hparam, hkey⟩ := step_first_ok ht
  have hmedia : ∀ call ∈ rest.map (fun packet => (packet, data)),
      call.2.mediaType = data.mediaType := by
    intro call hcall
    obtain ⟨packet, -, rfl⟩ := List.mem_map.mp hcall
    rfl
  obtain ⟨s', hexec, htracks⟩ := exec_feedOps mem jobId nframes
    (first, data) (rest.map fun packet => (packet, data)) hparam hmedia hkey
  obtain rfl : s' = s := Option.some.inj (hexec.symm.trans h)
  have hmap : ((first, data) :: rest.map fun packet => (packet, data)).map Prod.fst =
      first :: rest := by
    rw [List.map_cons, List.map_map]
    exact congrArg (first :: ·) (List.map_id rest)
  exact ⟨parameters, hparam, hmap ▸ htracks⟩

end Segmenter

namespace Remote

open Segmenter

/-- The calls that a segmenter subscribed to the rebuilt stream gets. -/
def feedDeliveries (ds : List Delivery) : List Op :=
  ds.map fun d => .process d.packet d.data

/-- Deliveries that all come with data are calls with stream data. -/
theorem feedDeliveries_eq {P : StreamData → Prop} {ds : List Delivery}
    (h : ∀ d ∈ ds, ∃ data, d.data = some data ∧ P data) :
    ∃ calls : List (Packet × StreamData), feedDeliveries ds = feedOps calls ∧
      calls.map Prod.fst = ds.map Delivery.packet ∧ ∀ call ∈ calls, P call.2 := by
  induction ds with
  | nil => exact ⟨[], rfl, rfl, by rintro call ⟨⟩⟩
  | cons d ds ih =>
      obtain ⟨data, hdata, hP⟩ := h d (List.mem_cons_self ..)
      obtain ⟨calls, hops, hpackets, hall⟩ := ih fun d' hd' => h d' (List.mem_cons_of_mem d hd')
      refine ⟨(d.packet, data) :: calls, ?_, ?_, ?_⟩
      · rw [feedDeliveries, List.map_cons, hdata]
        exact congrArg (_ :: ·) hops
      · rw [List.map_cons, List.map_cons, hpackets]
      · rintro call hcall
        rcases List.mem_cons.mp hcall with rfl | hcall
        · exact hP
        · exact hall call hcall

/-- The second segmenter's segments are cut like the first one's, and carry the same
parameters and time base. -/
def Resegments (first second : Session) : Prop :=
  second.allSent.map cut = first.allSent.map cut

/-- What the segmenter of a rebuilt stream does: it cuts by count, whatever the
stream, and its time base is the memory's. -/
theorem rebuilt_tracks {received : List Segment} {s : SegmentUnpacker 1}
    {parameters : AVCodecParameters} (h : UnpackedAll received s)
    (hparam : ∀ seg ∈ received, seg.parameters = parameters)
    (hne : received.flatMap Segment.packets ≠ []) (mem : Segment.Unassigned) (jobId : Uuid)
    (nframes : Nat) :
    ∃ header session, exec (Session.step mem) (Session.start jobId nframes)
        (feedDeliveries (subscribed s)) = some session ∧
      header.parameters = parameters ∧ header.timeBase = mem.timeBase ∧
      Tracks header (cutAt nframes) nframes (received.flatMap Segment.packets) session := by
  have hall : ∀ d ∈ subscribed s, ∃ data, d.data = some data ∧ data.parameters = some parameters ∧
      data.stream = none ∧ data.mediaType = AVMediaType.unknown := by
    intro d hd
    obtain ⟨data, seg, hdata, hseg, hrebuilt⟩ := rebuilt h d hd
    refine ⟨data, hdata, ?_, hrebuilt.stream, hrebuilt.mediaType⟩
    rw [hrebuilt.parameters, hparam seg hseg]
  obtain ⟨calls, hops, hpackets, hcalls⟩ := feedDeliveries_eq hall
  rw [Remote.packets h] at hpackets
  rw [hops, ← hpackets]
  have hcne : calls ≠ [] := by
    rintro rfl
    exact hne hpackets.symm
  obtain ⟨first, rest, rfl⟩ := List.exists_cons_of_ne_nil hcne
  obtain ⟨hp, hstream, hmedia⟩ := hcalls first (List.mem_cons_self ..)
  have hmedia' : ∀ call ∈ rest, call.2.mediaType = first.2.mediaType := fun call hc =>
    (hcalls call (List.mem_cons_of_mem first hc)).2.2.trans hmedia.symm
  have hnot : first.2.mediaType ≠ AVMediaType.video := by
    rw [hmedia]
    decide
  obtain ⟨session, hexec, htracks⟩ := exec_feedOps mem jobId nframes
    first rest hp hmedia' (fun hv => absurd hv hnot)
  rw [rule, if_neg hnot] at htracks
  refine ⟨_, session, hexec, (headerOf_fields mem jobId first.2 parameters).2, ?_, htracks⟩
  simp only [headerOf, firstSegment, hstream]
  rfl

section Sample

/-- Two key packets of a video stream. -/
def sampleCalls : List Op :=
  feedOps ([Packet.keyFrame, Packet.keyFrame].map fun packet => (packet, StreamData.sampleVideo))

/-- The run of a segmenter that is fed them. -/
def sampleFirst : Session :=
  (exec (Session.step Segment.Unassigned.zero) (Session.start Uuid.null 250) sampleCalls).getD
    (Session.start Uuid.null 250)

/-- The unpacker receives the two segments and unpacks them. -/
def resegmentRun : List (Label 1) :=
  (sampleFirst.allSent.filterMap Emission.segment).map .receive ++ SegmentUnpacker.turns 0 16

def resegmentUnpacker : SegmentUnpacker 1 :=
  (exec (SegmentUnpacker.step Libav.sample) (start 1 (StreamCache.create 600)) resegmentRun).getD
    (start 1 (StreamCache.create 600))

theorem resegment_unpackedAll :
    UnpackedAll (sampleFirst.allSent.filterMap Emission.segment) resegmentUnpacker where
  run := ⟨Libav.sample, 600, resegmentRun, rfl⟩
  received_eq := rfl
  queue_empty := rfl
  idle := Worker.Idle.testFlag

/-- The second segmenter puts both key packets into one segment. -/
theorem video_cut_by_count :
    exec (Session.step Segment.Unassigned.zero) (Session.start Uuid.null 250) sampleCalls =
        some sampleFirst ∧
      UnpackedAll (sampleFirst.allSent.filterMap Emission.segment) resegmentUnpacker ∧
      ∃ second, exec (Session.step Segment.Unassigned.zero) (Session.start Uuid.null 250)
          (feedDeliveries (subscribed resegmentUnpacker)) = some second ∧
        ¬ Resegments sampleFirst second := by
  refine ⟨rfl, resegment_unpackedAll, _, rfl, fun h => ?_⟩
  have hlength := congrArg List.length h
  revert hlength
  decide

end Sample

/-- A second segmenter with the same `nframes`, subscribed to the rebuilt stream, never
throws. It cuts as the first one did, with the same parameters and time base, if and
only if there was nothing to cut, or its memory happened to hold the stream's time
base and the stream is not video or has its key packets at the multiples of the count. -/
theorem resegments_iff (mem mem' : Segment.Unassigned) (jobId jobId' : Uuid) (nframes : Nat)
    (data : StreamData) (av : AVStream) (packets : List Packet) (first : Session)
    (s : SegmentUnpacker 1) (hstream : data.stream = some av)
    (hfirst : exec (Session.step mem) (Session.start jobId nframes)
      (feedOps (packets.map fun packet => (packet, data))) = some first)
    (hunpacked : UnpackedAll (first.allSent.filterMap Emission.segment) s) :
    ∃ second, exec (Session.step mem') (Session.start jobId' nframes)
        (feedDeliveries (subscribed s)) = some second ∧
      (Resegments first second ↔ packets = [] ∨ (mem'.timeBase = av.timeBase ∧
        (data.mediaType = AVMediaType.video → ∀ i (h : i < packets.length), 0 < i →
          (packets[i].containsIFrame = true ↔ max 1 nframes ∣ i)))) := by
  by_cases hne : packets = []
  · subst hne
    obtain rfl : Session.start jobId nframes = first := by simpa [feedOps] using hfirst
    have hnothing : subscribed s = [] := by
      have hpackets := Remote.packets hunpacked
      exact List.map_eq_nil_iff.mp hpackets
    refine ⟨Session.start jobId' nframes, by rw [hnothing]; rfl, ?_⟩
    exact iff_of_true rfl (Or.inl rfl)
  · obtain ⟨parameters, -, htracks⟩ := tracks_of_exec hne hfirst
    have hheader : (headerOf mem jobId data parameters).timeBase = av.timeBase := by
      simp only [headerOf, firstSegment, hstream]
    have hparam := (headerOf_fields mem jobId data parameters).2
    rw [htracks.received] at hunpacked
    have hflat : ((pieces (rule data.mediaType nframes) packets).map
        (segmentOf (headerOf mem jobId data parameters))).flatMap Segment.packets = packets := by
      rw [List.flatMap_map]
      simp only [segmentOf_packets]
      exact List.flatMap_id'.trans (pieces_flatten _ packets)
    obtain ⟨header', second, hexec, hparam', htime', htracks'⟩ := rebuilt_tracks hunpacked
      (by
        intro seg hseg
        obtain ⟨piece, -, rfl⟩ := List.mem_map.mp hseg
        exact ((segmentOf_header _ piece).2.1).trans hparam)
      (by rwa [hflat]) mem' jobId' nframes
    rw [hflat] at htracks'
    refine ⟨second, hexec, ?_⟩
    have hpieces : pieces (cutAt nframes) packets ≠ [] := by
      rw [pieces]
      exact List.concat_ne_nil _ _
    rw [Resegments, htracks'.cuts, htracks.cuts, hparam, hparam', htime', hheader,
      label_inj hpieces, pieces_inj, cutAt_agrees_iff, Prod.mk.injEq]
    constructor
    · rintro ⟨hkeys, -, htime⟩
      exact Or.inr ⟨htime, hkeys⟩
    · rintro (hnil | ⟨htime, hkeys⟩)
      · exact absurd hnil hne
      · exact ⟨hkeys, rfl, htime⟩

theorem resegments_iff_sample :
    ∃ second, exec (Session.step Segment.Unassigned.zero) (Session.start Uuid.null 250)
        (feedDeliveries (subscribed resegmentUnpacker)) = some second ∧
      (Resegments sampleFirst second ↔ [Packet.keyFrame, Packet.keyFrame] = [] ∨
        (Segment.Unassigned.zero.timeBase = AVStream.sample.timeBase ∧
          (StreamData.sampleVideo.mediaType = AVMediaType.video →
            ∀ i (h : i < [Packet.keyFrame, Packet.keyFrame].length), 0 < i →
              ([Packet.keyFrame, Packet.keyFrame][i].containsIFrame = true ↔ max 1 250 ∣ i)))) :=
  resegments_iff Segment.Unassigned.zero Segment.Unassigned.zero Uuid.null Uuid.null 250
    StreamData.sampleVideo AVStream.sample [Packet.keyFrame, Packet.keyFrame] sampleFirst
    resegmentUnpacker rfl rfl resegment_unpackedAll

end Remote

end Media2
