import Media2.PacketReader.Reading
import Media2.PacketReader.Reopening
import Media2.Reassembly

/-!
# From container to container

A container is read to its end, each of its streams is segmented under a job of its own, and
what arrives at the other end is written to a container there. What users do meanwhile is to
pause and play.
-/

namespace Media2.Reassembly

open Execution SegmentUnpacker PacketReader

/-- The packets that were forwarded on an entry of the table. -/
def forwardedOn (stream : Stream) (r : Reading) : List Packet :=
  ((forwards r.reader.log).filter fun d => d.stream = stream.id).map Delivery.packet

section Reader

variable {filename : String} {libav : Nat → Libav} {formatContext : FormatContext}
  {packets : List Packet}

/-- Two entries of the table are two objects. -/
theorem opened_nodup :
    ((Reading.opened filename libav formatContext).tables.streams.map Stream.id).Nodup := by
  have hclean : Clean (Reading.opened filename libav formatContext) := setUp_clean rfl
  exact (hclean _ (List.mem_cons_self ..)).2

/-- A reader that was joined after the end of the source has forwarded everything. -/
theorem forwards_of_joined {r : Reading}
    (h : Follows (Reading.opened filename libav formatContext).tables.streams packets r)
    (hjoined : r.reader.threads = [.finished]) :
    forwards r.reader.log = packets.filterMap
      (deliver (Reading.opened filename libav formatContext).tables.streams) := by
  obtain ⟨handled, hreads, hforwards⟩ := h.forwarded
  have hinput : r.input = [] := by
    cases h.phase with
    | unstarted hthreads => cases hthreads.symm.trans hjoined
    | looping t hthreads ht =>
        exact absurd (List.singleton_inj.mp (hthreads.symm.trans hjoined)) ht
    | ended t pre hthreads ht hstate hinput => exact hinput
  have hread := h.read
  rw [hinput, List.append_nil, hreads, hjoined] at hread
  rw [hforwards, ← hread]
  exact congrArg _ (List.append_nil handled).symm

/-- A packet is delivered on the entry at the place that it names, and on no other. -/
theorem deliver_cases {streams : List Stream} (hnodup : (streams.map Stream.id).Nodup) {i j : Nat}
    {stream : Stream} (hstream : streams[i]? = some stream) (hdata : stream.data.isSome = true)
    {packet : Packet} (hindex : packet.val.streamIndex.toInt = (j : Int)) :
    (j = i ∧ deliver streams packet = some (stream.forward packet)) ∨
      (j ≠ i ∧ ∀ d, deliver streams packet = some d → d.stream ≠ stream.id) := by
  have hplace : packet.val.streamIndex.toInt.toNat = j := by rw [hindex, Int.toNat_natCast]
  by_cases hj : j = i
  · refine Or.inl ⟨hj, ?_⟩
    rw [deliver, hplace, hj, hstream]
    exact if_pos hdata
  · refine Or.inr ⟨hj, fun d hd heq => hj ?_⟩
    rw [deliver, hplace] at hd
    cases hother : streams[j]? with
    | none =>
        rw [hother] at hd
        cases hd
    | some other =>
        rw [hother] at hd
        dsimp only at hd
        split at hd
        · obtain rfl := Option.some.inj hd
          have hsame : (streams.map Stream.id)[j]? = (streams.map Stream.id)[i]? := by
            rw [List.getElem?_map, List.getElem?_map, hother, hstream]
            exact congrArg some heq
          have hlt : j < (streams.map Stream.id).length := by
            rw [List.length_map]
            exact (List.getElem?_eq_some_iff.mp hother).1
          exact (List.getElem?_inj hlt hnodup).mp hsame
        · cases hd

/-- What is forwarded on an entry are the packets of the stream at its place. -/
theorem delivered_eq {streams : List Stream} (hnodup : (streams.map Stream.id).Nodup)
    (hpackets : OnStreams formatContext packets) {i : Nat} {stream : Stream}
    (hstream : streams[i]? = some stream) (hdata : stream.data.isSome = true) :
    ((packets.filterMap (deliver streams)).filter fun d => d.stream = stream.id).map
        Delivery.packet = packets.filter fun packet => packet.val.streamIndex.toInt = (i : Int) := by
  induction packets with
  | nil => rfl
  | cons packet packets ih =>
      obtain ⟨hpacket, hrest⟩ := List.forall_mem_cons.mp hpackets
      obtain ⟨j, -, hindex⟩ := hpacket
      rcases deliver_cases hnodup hstream hdata hindex with ⟨rfl, hsome⟩ | ⟨hne, hnone⟩
      · have hself : (stream.forward packet).stream = stream.id := rfl
        rw [List.filterMap_cons_some hsome, List.filter_cons, if_pos (decide_eq_true hself),
          List.map_cons, ih hrest, List.filter_cons, if_pos (decide_eq_true hindex)]
        rfl
      · have hout : ¬ packet.val.streamIndex.toInt = (i : Int) := by
          rw [hindex]
          exact_mod_cast hne
        rw [List.filter_cons, if_neg (by simpa using hout), ← ih hrest]
        cases hdeliver : deliver streams packet with
        | none => rw [List.filterMap_cons_none hdeliver]
        | some d =>
            have hother := hnone d hdeliver
            rw [List.filterMap_cons_some hdeliver, List.filter_cons, if_neg (by simpa using hother)]

end Reader

/-- A stream of the container whose segments all arrive is in the new container with the packets
that it had, in the same order and under the number of its job, if the job turns up in time. -/
theorem copied_of_exec (filename : String) (source : Nat → Libav) (formatContext : FormatContext)
    (packets : List Packet)
    (haligned : Aligned formatContext
      (Reading.opened filename source formatContext).tables.streams)
    (hpackets : OnStreams formatContext packets) (controls : List Control) (r : Reading)
    (hread : exec Reading.step (Reading.start filename source formatContext packets) controls =
      some r)
    (hjoined : r.reader.threads = [.finished])
    (libav : Libav) (out : Muxer.Libavformat) (expSeconds : Int) (output format : String)
    (bufferMax : Int64) (m : Muxer) (labels : List (Label 1)) (s : SegmentUnpacker 1)
    (hout : out.Succeeds) (hcreate : Muxer.create out output format bufferMax = .ok m)
    (hkept : ∀ doomed, Label.evict doomed ∉ labels)
    (hexec : exec (SegmentUnpacker.step libav) (start 1 (StreamCache.create expSeconds)) labels =
      some s)
    (hsettled : Settled s) (hfew : (jobs [] s.received).length < 2 ^ 32) :
    ∃ m' closed, exec (step libav out) ⟨start 1 (StreamCache.create expSeconds), m⟩ labels =
        some ⟨s, m'⟩ ∧
      m'.close out = (.ok (), closed) ∧
      ∀ (i : Nat) (stream : Stream) (jobId : Uuid),
        (Reading.opened filename source formatContext).tables.streams[i]? = some stream →
        stream.data.isSome = true → Carried jobId (forwardedOn stream r) s.received →
        (Muxer.written closed.log).filter (fun frame =>
            frame.val.streamIndex = Int32.ofNat ((jobs [] s.received).idxOf jobId)) =
          if Muxer.InTime m.limit s.received jobId then
            (packets.filter fun packet => packet.val.streamIndex.toInt = (i : Int)).map fun packet =>
              packet.setStreamIndex ((jobs [] s.received).idxOf jobId)
          else [] := by
  have hroutes : ∀ packet ∈ packets,
      forwardRead (Reading.opened filename source formatContext).tables.streams packet =
        .ok (deliver (Reading.opened filename source formatContext).tables.streams packet) := by
    intro packet hmem
    obtain ⟨i, hi, hindex⟩ := hpackets packet hmem
    exact forwardRead_eq (haligned.length_eq ▸ hi) hindex
  have hfollows := invariant_of_step (fun _ _ _ hs hstep => step_follows hroutes hs hstep)
    (start_follows filename source formatContext packets) hread
  obtain ⟨m', closed, hrun, hclose, hwritten⟩ :=
    written_of_settled hout hcreate hkept hexec hsettled
  refine ⟨m', closed, hrun, hclose, fun i stream jobId hstream hdata hcarried => ?_⟩
  rw [forwardedOn, forwards_of_joined hfollows hjoined,
    delivered_eq opened_nodup hpackets hstream hdata] at hcarried
  rw [hwritten]
  exact hcarried.frames m.limit hfew

/-- The container is played to its end. -/
def playToEnd : List Control := .sendEvent .play :: List.replicate 12 .reader

theorem sample_carried : Carried Uuid.null [Packet.keyFrame] [Remote.sampleSent] where
  sideData := by decide
  count := by decide
  path := by
    refine ⟨Segment.Unassigned.zero, 250, Remote.sampleData, _, rfl, ?_⟩
    refine List.Forall₂.cons ⟨Segment.Unassigned.zero, ZmqSegmentPublisher.create,
      Remote.sampleSent, Remote.sampleData, Transport.zeroLocals, [], rfl, rfl, ?_⟩
      List.Forall₂.nil
    rw [Transport.transported_eq _ _ _ (by decide)]
    exact (Serialization.loadSegment_saveSegment_iff _ Remote.sampleSent_valid (by decide)).mpr
      (by decide)

theorem copied_of_exec_sample :
    ∃ r s m m' closed,
      exec Reading.step (Reading.start "sample.mp4" (fun _ => Libav.sample) decodableContainer
        [Packet.keyFrame]) playToEnd = some r ∧
      r.reader.threads = [.finished] ∧
      Muxer.create Muxer.Libavformat.sample "out.mp4" "" 1500 = .ok m ∧
      exec (step Libav.sample Muxer.Libavformat.sample)
          ⟨start 1 (StreamCache.create 600), m⟩ Remote.sampleRun = some ⟨s, m'⟩ ∧
      m'.close Muxer.Libavformat.sample = (.ok (), closed) ∧
      (Muxer.written closed.log).filter (fun frame => frame.val.streamIndex = Int32.ofNat 0) =
        [Packet.keyFrame.setStreamIndex 0] := by
  have hkept : ∀ doomed, Label.evict doomed ∉ Remote.sampleRun := by
    simp [Remote.sampleRun, turns]
  obtain ⟨m', closed, hrun, hclose, hframes⟩ := copied_of_exec "sample.mp4"
    (fun _ => Libav.sample) decodableContainer [Packet.keyFrame] decodableContainer_aligned
    (List.forall_mem_singleton.mpr ⟨0, by decide, rfl⟩) playToEnd _ rfl rfl Libav.sample
    Muxer.Libavformat.sample 600 "out.mp4" "" 1500 _ Remote.sampleRun _
    (fun _ _ => Int.le_refl 0) rfl hkept rfl ⟨rfl, Worker.Idle.testFlag⟩ (by decide)
  refine ⟨_, _, _, m', closed, rfl, rfl, rfl, hrun, hclose, ?_⟩
  exact hframes 0 Remote.sampleStream Uuid.null rfl rfl sample_carried

end Media2.Reassembly
