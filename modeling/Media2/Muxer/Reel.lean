import Mathlib.Algebra.Order.BigOperators.Group.List
import Mathlib.Algebra.Order.Group.Nat
import Mathlib.Data.List.TakeWhile
import Media2.Muxer.Buffer
import Media2.SegmentUnpacker.Script

/-!
# A muxer behind an unpacker

What becomes of a muxer that is subscribed to every stream that an unpacker sets up, as a fold
over the set-ups and packets. It takes no stream once it has written its header, so a job that
turns up late is left out.
-/

namespace Media2

open Execution SegmentUnpacker

namespace Muxer

/-- The places of the `StreamInfo`s that are connected to a stream. -/
def connected (m : Muxer) (id : Nat) : List Nat :=
  (List.range m.streaminfo.length).filter fun i =>
    (m.streaminfo[i]?.map StreamInfo.source) = some id

/-- One of them is called. An exception leaves the worker and ends the process. -/
def hear (out : Libavformat) (d : Delivery) (m : Muxer) (i : Nat) : Option Muxer :=
  m.streaminfo[i]?.bind fun info =>
    match m.process out i info d.packet d.data with
    | (.ok _, m) => some m
    | (.error _, _) => none

/-- `setupStream`: a `std::exception` is printed. -/
def setupStream (out : Libavformat) (stream : Stream) (m : Muxer) : Option Muxer :=
  match m.subscribe out stream with
  | (.ok _, m) => some m
  | (.error (.fault (.runtimeError _)), m) => some m
  | (.error _, _) => none

/-- The streams that were taken, and the frames that stand for the packets on them. -/
structure Reel where
  ids : List Nat
  frames : List Packet
  deriving DecidableEq

/-- A stream is taken unless the buffer has overflowed, and only its packets are. -/
def Reel.add (bound : Nat) (reel : Reel) : Line → Reel
  | .setup id =>
      if reel.frames.length ≤ bound then { reel with ids := reel.ids ++ [id] } else reel
  | .packet id packet =>
      if id ∈ reel.ids then
        { reel with frames := reel.frames ++ [packet.setStreamIndex (reel.ids.idxOf id)] }
      else reel

/-- The reel that lines are added to. -/
def reel (bound : Nat) (lines : List Line) : Reel := lines.foldl (Reel.add bound) ⟨[], []⟩

theorem reel_snoc (bound : Nat) (lines : List Line) (line : Line) :
    reel bound (lines ++ [line]) = (reel bound lines).add bound line :=
  List.foldl_concat ..

theorem reel_append (bound : Nat) (lines lines' : List Line) :
    reel bound (lines ++ lines') = lines'.foldl (Reel.add bound) (reel bound lines) :=
  List.foldl_append

/-- The muxer has the streams of the reel, holds its frames, and has written its header if
they were too many for the buffer. -/
structure Remuxed (bound : Nat) (reel : Reel) (m : Muxer) : Prop where
  holding : Holding reel.frames m
  limit_eq : m.limit = bound
  sources : m.streaminfo.map StreamInfo.source = reel.ids
  indices : ∀ i < m.streaminfo.length, m.outputIndex i = some i
  streams : m.nbStreams = m.streaminfo.length
  buffered : m.buffer.length = min reel.frames.length bound
  fresh : m.streamStart = decide (reel.frames.length ≤ bound)

section Steps

variable {out : Libavformat} {m m' : Muxer} {bound : Nat} {r : Reel}

/-- Every call succeeds. -/
def Libavformat.Succeeds (out : Libavformat) : Prop := ∀ log call, 0 ≤ out.rc log call

theorem Libavformat.Succeeds.writes (h : out.Succeeds) : out.Writes := fun log call _ => h log call

theorem setupStream_remuxed (hout : out.Succeeds) (h : Remuxed bound r m) {stream : Stream}
    {data : StreamData} (hdata : stream.data = some data) (hparameters : data.parameters ≠ none) :
    ∃ m', m.setupStream out stream = some m' ∧
      Remuxed bound (r.add bound (.setup stream.id)) m' := by
  by_cases hle : r.frames.length ≤ bound
  · obtain ⟨parameters, hparameters⟩ := Option.ne_none_iff_exists'.mp hparameters
    have hstart : m.streamStart = true := h.fresh.trans (decide_eq_true hle)
    have hpos : ¬ out.rc m.log .newStream < 0 := Int.not_lt.mpr (hout _ _)
    obtain ⟨output, m', hsubscribe, hindex, hinfos, hnb, hmax, hbuffer, hfresh⟩ :
        ∃ output m', m.subscribe out stream = (.ok (), m') ∧ output.index = m.nbStreams ∧
          m'.streaminfo = m.streaminfo ++ [⟨stream.id, some output⟩] ∧
          m'.nbStreams = m.nbStreams + 1 ∧ m'.bufferMax = m.bufferMax ∧
          m'.buffer = m.buffer ∧ m'.streamStart = true := by
      simp only [subscribe, hstart, hdata, ask, hparameters, if_neg hpos, Bool.not_true,
        Bool.false_eq_true, if_false]
      exact ⟨_, _, rfl, rfl, rfl, rfl, rfl, rfl, rfl⟩
    refine ⟨m', by rw [setupStream, hsubscribe], ?_⟩
    rw [Reel.add, if_pos hle]
    constructor
    · exact (subscribe_holding h.holding hsubscribe).1
    · rw [limit, hmax]
      exact h.limit_eq
    · rw [hinfos, List.map_append, h.sources]
      rfl
    · intro i hi
      rw [hinfos, List.length_append, List.length_singleton] at hi
      rw [outputIndex, hinfos]
      rcases Nat.lt_succ_iff_lt_or_eq.mp hi with hlt | rfl
      · rw [List.getElem?_append_left hlt]
        exact h.indices i hlt
      · rw [List.getElem?_concat_length]
        exact congrArg some (hindex.trans h.streams)
    · rw [hnb, hinfos, List.length_append, h.streams]
      rfl
    · rw [hbuffer, h.buffered]
    · rw [hfresh]
      exact (decide_eq_true hle).symm
  · have hstart : m.streamStart = false := h.fresh.trans (decide_eq_false hle)
    refine ⟨m, ?_, ?_⟩
    · simp only [setupStream, subscribe, hstart, Bool.not_false, if_true, failure]
    · rw [Reel.add, if_neg hle]
      exact h

/-- The one place in a list without repetitions. -/
theorem connected_eq {ids : List Nat} (hsources : m.streaminfo.map StreamInfo.source = ids)
    (hnodup : ids.Nodup) {id : Nat} (hid : id ∈ ids) : m.connected id = [ids.idxOf id] := by
  have hplace : ∀ i, (m.streaminfo[i]?.map StreamInfo.source) = some id ↔ i = ids.idxOf id := by
    intro i
    rw [← List.getElem?_map, hsources]
    constructor
    · intro hi
      obtain ⟨hlt, rfl⟩ := List.getElem?_eq_some_iff.mp hi
      exact (hnodup.idxOf_getElem i hlt).symm
    · rintro rfl
      exact List.getElem?_idxOf hid
  have hlength : m.streaminfo.length = ids.length := by rw [← hsources, List.length_map]
  have hmem : ids.idxOf id ∈ List.range m.streaminfo.length := by
    rw [List.mem_range, hlength]
    exact List.idxOf_lt_length_iff.mpr hid
  unfold connected
  simp only [hplace]
  refine (List.filter_beq _).trans ?_
  rw [List.count_eq_one_of_mem List.nodup_range hmem]
  rfl

theorem connected_eq_nil {ids : List Nat} (hsources : m.streaminfo.map StreamInfo.source = ids)
    {id : Nat} (hid : id ∉ ids) : m.connected id = [] := by
  apply List.filter_eq_nil_iff.mpr
  intro i _ hi
  rw [← List.getElem?_map, hsources] at hi
  exact hid (List.mem_of_getElem? (of_decide_eq_true hi))

/-- Timing data are no other subscription. -/
theorem copyTimingData_source {stream : Option StreamData} {info copied : StreamInfo}
    (h : copyTimingData stream info = .ok copied) : copied.source = info.source := by
  unfold copyTimingData at h
  split at h
  · cases h
  · split at h
    · cases h
    · split at h
      · cases h
      · rw [← Except.ok.inj h]

/-- `process` up to the lock replaces a `StreamInfo` by one of the same subscription. -/
theorem arrive_ok {i : Nat} {info : StreamInfo} {packet : Packet} {stream : Option StreamData}
    {arrival : Arrival} (h : m.arrive i info packet stream = .ok (m', arrival)) :
    ∃ info' : StreamInfo, info'.source = info.source ∧
      m' = { m with streaminfo := m.streaminfo.set i info' } ∧
      arrival.room = decide (m.buffer.length < m.limit) := by
  unfold arrive at h
  cases hcopy : copyTimingData stream info with
  | error e =>
      rw [hcopy] at h
      dsimp only at h
      split at h
      · cases h
      · obtain ⟨rfl, rfl⟩ := Prod.mk.inj (Except.ok.inj h)
        exact ⟨info, rfl, rfl, rfl⟩
  | ok copied =>
      rw [hcopy] at h
      dsimp only at h
      split at h
      · cases h
      · obtain ⟨rfl, rfl⟩ := Prod.mk.inj (Except.ok.inj h)
        exact ⟨copied, copyTimingData_source hcopy, rfl, rfl⟩

theorem enter_marks (out : Libavformat) (m : Muxer) (arrival : Arrival) :
    (m.enter out arrival).2.nbStreams = m.nbStreams ∧
      (m.enter out arrival).2.streamStart = (arrival.room && m.streamStart) := by
  rcases enter_cases out m arrival with ⟨hroom, heq⟩ | ⟨hroom, front, rest, entries, -, -, heq⟩
  · rw [heq, hroom]
    exact ⟨rfl, rfl⟩
  · rw [heq, hroom]
    exact ⟨rfl, rfl⟩

/-- What `process` leaves alone, and what it does to the buffer and the flag. -/
theorem process_frame (out : Libavformat) {i : Nat} {info : StreamInfo}
    (hinfo : m.streaminfo[i]? = some info) (packet : Packet) (stream : Option StreamData)
    (h : m.process out i info packet stream = (.ok (), m')) :
    m'.streaminfo.map StreamInfo.source = m.streaminfo.map StreamInfo.source ∧
      m'.limit = m.limit ∧ m'.nbStreams = m.nbStreams ∧
      (∀ j index, m.outputIndex j = some index → m'.outputIndex j = some index) ∧
      m'.buffer.length = (if m.buffer.length < m.limit then m.buffer.length + 1
        else m.buffer.length) ∧
      m'.streamStart = (decide (m.buffer.length < m.limit) && m.streamStart) := by
  unfold process at h
  cases harrive : m.arrive i info packet stream with
  | error e =>
      rw [harrive] at h
      cases h
  | ok result =>
      obtain ⟨arrived, arrival⟩ := result
      rw [harrive] at h
      obtain ⟨huntouched, -⟩ := arrive_untouched m hinfo harrive
      obtain ⟨info', hsource, rfl, hroom⟩ := arrive_ok harrive
      have hsources : (m.streaminfo.set i info').map StreamInfo.source =
          m.streaminfo.map StreamInfo.source := by
        apply List.ext_getElem?
        intro j
        rw [List.getElem?_map, List.getElem?_map]
        by_cases hij : i = j
        · subst hij
          rw [List.getElem?_set_self (List.getElem?_eq_some_iff.mp hinfo).1, hinfo]
          exact congrArg some hsource
        · rw [List.getElem?_set_ne hij]
      obtain ⟨hmax, hinfos, hlength⟩ := enter_frame out
        { m with streaminfo := m.streaminfo.set i info' } arrival
      have hm' := congrArg Prod.snd h
      dsimp only at hm'
      obtain ⟨hnb, hstart⟩ := enter_marks out
        { m with streaminfo := m.streaminfo.set i info' } arrival
      rw [hm'] at hmax hinfos hlength hnb hstart
      refine ⟨by rw [hinfos]; exact hsources, by rw [limit, hmax]; rfl, hnb, ?_, ?_, ?_⟩
      · intro j index hj
        have hkept := huntouched.outputIndex_eq j index hj
        rw [outputIndex, hinfos]
        exact hkept
      · rw [hlength, hroom]
        simp only [decide_eq_true_eq]
      · rw [hstart, hroom]

/-- A packet is taken in under the number of its stream, if the stream was taken. -/
theorem hear_remuxed (hout : out.Succeeds) (h : Remuxed bound r m) (hnodup : r.ids.Nodup)
    (d : Delivery) :
    ∃ m', (m.connected d.stream).foldlM (hear out d) m = some m' ∧
      Remuxed bound (r.add bound (.packet d.stream d.packet)) m' := by
  by_cases hd : d.stream ∈ r.ids
  · have hplace := connected_eq h.sources hnodup hd
    have hlt : r.ids.idxOf d.stream < m.streaminfo.length := by
      have hlength := congrArg List.length h.sources
      rw [List.length_map] at hlength
      rw [hlength]
      exact List.idxOf_lt_length_iff.mpr hd
    obtain ⟨info, hinfo⟩ : ∃ info, m.streaminfo[r.ids.idxOf d.stream]? = some info :=
      ⟨_, List.getElem?_eq_getElem hlt⟩
    obtain ⟨m', hprocess, hholding, -⟩ :=
      process_holding hout.writes h.holding (h.indices _ hlt) hinfo d.packet d.data
    obtain ⟨hsources, hlimit, hnb, hindices, hlength, hstart⟩ :=
      process_frame out hinfo d.packet d.data hprocess
    have hcount : m'.streaminfo.length = m.streaminfo.length := by
      have hmap := congrArg List.length hsources
      rwa [List.length_map, List.length_map] at hmap
    have hbuffered := h.buffered
    refine ⟨m', ?_, ?_⟩
    · rw [hplace, List.foldlM_cons]
      simp only [hear, hinfo, Option.bind_some, hprocess, List.foldlM_nil]
      rfl
    · rw [Reel.add, if_pos hd]
      constructor
      · exact hholding
      · exact hlimit.trans h.limit_eq
      · rw [hsources, h.sources]
      · intro i hi
        exact hindices i i (h.indices i (hcount ▸ hi))
      · rw [hnb, hcount, h.streams]
      · rw [hlength, List.length_append, List.length_singleton, h.limit_eq]
        split <;> omega
      · rw [hstart, h.fresh, h.limit_eq, List.length_append, List.length_singleton,
          Bool.eq_iff_iff]
        simp only [Bool.and_eq_true, decide_eq_true_eq]
        omega
  · refine ⟨m, ?_, ?_⟩
    · rw [connected_eq_nil h.sources hd]
      rfl
    · rw [Reel.add, if_neg hd]
      exact h

end Steps

theorem openOutput_rest (out : Libavformat) (m : Muxer) :
    (m.openOutput out).2.buffer = m.buffer ∧ (m.openOutput out).2.nbStreams = m.nbStreams ∧
      (m.openOutput out).2.streamStart = m.streamStart := by
  unfold openOutput
  split
  · exact ⟨rfl, rfl, rfl⟩
  · split
    · exact ⟨rfl, rfl, rfl⟩
    · dsimp only [ask]
      split
      · exact ⟨rfl, rfl, rfl⟩
      · exact ⟨rfl, rfl, rfl⟩

/-- A job is in time if what was received before it fits the buffer. -/
def InTime (bound : Nat) (received : List Segment) (job : Uuid) : Prop :=
  ((received.takeWhile fun seg => seg.jobId ≠ job).flatMap Segment.packets).length ≤ bound

instance (bound : Nat) (received : List Segment) (job : Uuid) :
    Decidable (InTime bound received job) := Nat.decLe _ _

/-- The packets of the jobs that are in time, each under the number of its job. -/
def reassembled (bound : Nat) (received : List Segment) : List Packet :=
  received.flatMap fun seg =>
    if InTime bound received seg.jobId then
      seg.packets.map fun packet => packet.setStreamIndex ((jobs [] received).idxOf seg.jobId)
    else []

/-- More segments do not change how a job that turned up before them stands. -/
theorem inTime_append (bound : Nat) {segs : List Segment} {job : Uuid}
    (hjob : ∃ seg ∈ segs, seg.jobId = job) (more : List Segment) :
    InTime bound (segs ++ more) job ↔ InTime bound segs job := by
  have htake : (segs ++ more).takeWhile (fun seg => seg.jobId ≠ job) =
      segs.takeWhile fun seg => seg.jobId ≠ job := by
    rw [List.takeWhile_append, if_neg]
    intro hlength
    obtain ⟨seg, hmem, rfl⟩ := hjob
    have hself := (List.takeWhile_prefix _).eq_of_length hlength
    have hne := List.takeWhile_eq_self_iff.mp hself seg hmem
    simp at hne
  rw [InTime, htake, ← InTime]

/-- A new job is in time if everything so far fits. -/
theorem inTime_new (bound : Nat) {segs : List Segment} {seg : Segment}
    (hnew : ∀ seg' ∈ segs, seg'.jobId ≠ seg.jobId) :
    InTime bound (segs ++ [seg]) seg.jobId ↔ (segs.flatMap Segment.packets).length ≤ bound := by
  have hself : segs.takeWhile (fun seg' => seg'.jobId ≠ seg.jobId) = segs :=
    List.takeWhile_eq_self_iff.mpr fun seg' hmem => decide_eq_true (hnew seg' hmem)
  have htake : (segs ++ [seg]).takeWhile (fun seg' => seg'.jobId ≠ seg.jobId) = segs := by
    rw [List.takeWhile_append, hself, if_pos rfl, List.takeWhile_cons_of_neg (by simp),
      List.append_nil]
  rw [InTime, htake]

theorem reel_packets (bound : Nat) (id : Nat) (packets : List Packet) (r : Reel) :
    (packets.map (.packet id)).foldl (Reel.add bound) r =
      if id ∈ r.ids then
        { r with frames := r.frames ++ packets.map fun p => p.setStreamIndex (r.ids.idxOf id) }
      else r := by
  induction packets generalizing r with
  | nil => simp
  | cons packet packets ih =>
      rw [List.map_cons, List.foldl_cons, ih, Reel.add]
      by_cases hid : id ∈ r.ids
      · simp [hid]
      · simp [hid]

/-- The streams that are taken are the first ones, and those are the jobs in time. Until the
buffer overflows that is all of them. -/
structure Wound (bound : Nat) (segs : List Segment) (count : Nat) (r : Reel) : Prop where
  ids : r.ids = List.range count
  taken : ∀ job ∈ jobs [] segs, (jobs [] segs).idxOf job < count ↔ InTime bound segs job
  frames : r.frames = reassembled bound segs
  most : count ≤ (jobs [] segs).length
  full : r.frames.length ≤ bound → count = (jobs [] segs).length ∧
    r.frames.length = (segs.flatMap Segment.packets).length

/-- Nothing is added to what is received. -/
theorem length_reassembled (bound : Nat) (segs : List Segment) :
    (reassembled bound segs).length ≤ (segs.flatMap Segment.packets).length := by
  rw [reassembled, List.length_flatMap, List.length_flatMap]
  apply List.sum_le_sum
  intro seg _
  split
  · rw [List.length_map]
  · exact Nat.zero_le _

theorem reassembled_snoc (bound : Nat) (segs : List Segment) (seg : Segment) :
    reassembled bound (segs ++ [seg]) = reassembled bound segs ++
      if InTime bound (segs ++ [seg]) seg.jobId then seg.packets.map fun packet =>
        packet.setStreamIndex ((jobs [] (segs ++ [seg])).idxOf seg.jobId)
      else [] := by
  rw [reassembled, List.flatMap_append, List.flatMap_singleton, reassembled]
  congr 1
  apply List.flatMap_congr
  intro seg' hmem
  have hplace : (jobs [] (segs ++ [seg])).idxOf seg'.jobId = (jobs [] segs).idxOf seg'.jobId := by
    obtain ⟨more, hmore⟩ := prefix_jobs (jobs [] segs) [seg]
    rw [jobs_append, ← hmore,
      List.idxOf_append_of_mem (mem_jobs.mpr (Or.inr ⟨seg', hmem, rfl⟩))]
  rw [hplace]
  simp only [inTime_append bound ⟨seg', hmem, rfl⟩ [seg]]

/-- The packets of a segment, once its stream has been dealt with. -/
theorem wound_snoc {bound : Nat} {segs : List Segment} {seg : Segment} {count : Nat} {r : Reel}
    (hids : r.ids = List.range count) (hframes : r.frames = reassembled bound segs)
    (htaken : ∀ job ∈ jobs [] (segs ++ [seg]),
      (jobs [] (segs ++ [seg])).idxOf job < count ↔ InTime bound (segs ++ [seg]) job)
    (hmost : count ≤ (jobs [] (segs ++ [seg])).length)
    (hfull : r.frames.length ≤ bound → count = (jobs [] (segs ++ [seg])).length ∧
      r.frames.length = (segs.flatMap Segment.packets).length) :
    Wound bound (segs ++ [seg]) count
      ((seg.packets.map (.packet ((jobs [] (segs ++ [seg])).idxOf seg.jobId))).foldl
        (Reel.add bound) r) := by
  have hmem : seg.jobId ∈ jobs [] (segs ++ [seg]) :=
    mem_jobs.mpr (Or.inr ⟨seg, by simp, rfl⟩)
  have hiff := htaken seg.jobId hmem
  rw [reel_packets]
  by_cases hnumber : (jobs [] (segs ++ [seg])).idxOf seg.jobId < count
  · have htime := hiff.mp hnumber
    have hin : (jobs [] (segs ++ [seg])).idxOf seg.jobId ∈ r.ids := by
      rw [hids]
      exact List.mem_range.mpr hnumber
    have hplace : r.ids.idxOf ((jobs [] (segs ++ [seg])).idxOf seg.jobId) =
        (jobs [] (segs ++ [seg])).idxOf seg.jobId := by
      have hlt : (jobs [] (segs ++ [seg])).idxOf seg.jobId < (List.range count).length := by
        rwa [List.length_range]
      have hself := List.nodup_range.idxOf_getElem _ hlt
      rw [List.getElem_range] at hself
      rw [hids, hself]
    rw [if_pos hin, hplace]
    refine ⟨hids, htaken, ?_, hmost, ?_⟩
    · rw [reassembled_snoc, if_pos htime, hframes]
    · intro hle
      rw [List.length_append] at hle
      obtain ⟨hcount, hlength⟩ := hfull (Nat.le_of_add_right_le hle)
      refine ⟨hcount, ?_⟩
      rw [List.length_append, hlength, List.flatMap_append, List.length_append,
        List.flatMap_singleton, List.length_map]
  · have hlate : ¬ InTime bound (segs ++ [seg]) seg.jobId := fun h => hnumber (hiff.mpr h)
    have hout : (jobs [] (segs ++ [seg])).idxOf seg.jobId ∉ r.ids := by
      rw [hids]
      exact fun h => hnumber (List.mem_range.mp h)
    rw [if_neg hout]
    refine ⟨hids, htaken, ?_, hmost, ?_⟩
    · rw [reassembled_snoc, if_neg hlate, List.append_nil, hframes]
    · intro hle
      have hall := (hfull hle).1
      exact absurd (hall ▸ List.idxOf_lt_length_iff.mpr hmem) hnumber

section Wound

variable {bound : Nat} {segs : List Segment} {seg : Segment} {count : Nat}

theorem seen_of_mem_jobs {job : Uuid} (h : job ∈ jobs [] segs) : ∃ seg ∈ segs, seg.jobId = job :=
  (mem_jobs.mp h).resolve_left List.not_mem_nil

/-- The lines of one more segment. -/
theorem reel_script_snoc (bound : Nat) (segs : List Segment) (seg : Segment) :
    reel bound (script [] (segs ++ [seg])) =
      (seg.packets.map (.packet ((jobs [] (segs ++ [seg])).idxOf seg.jobId))).foldl
        (Reel.add bound)
        (if seg.jobId ∈ jobs [] segs then reel bound (script [] segs)
          else (reel bound (script [] segs)).add bound (.setup (jobs [] segs).length)) := by
  have hjobs : jobs [] (segs ++ [seg]) = meet (jobs [] segs) seg := jobs_append [] segs [seg]
  rw [script_append, script, script, List.append_nil, reel_append, lines, ← hjobs]
  split
  · rfl
  · rfl

/-- A job that is known stands as it did. -/
theorem wound_known (h : Wound bound segs count (reel bound (script [] segs)))
    (hmem : seg.jobId ∈ jobs [] segs) :
    Wound bound (segs ++ [seg]) count (reel bound (script [] (segs ++ [seg]))) := by
  have hjobs : jobs [] (segs ++ [seg]) = jobs [] segs := by
    rw [jobs_append]
    exact if_pos hmem
  rw [reel_script_snoc, if_pos hmem]
  refine wound_snoc h.ids h.frames ?_ ?_ ?_
  · rw [hjobs]
    intro job hjob
    rw [inTime_append bound (seen_of_mem_jobs hjob)]
    exact h.taken job hjob
  · rw [hjobs]
    exact h.most
  · rw [hjobs]
    exact h.full

/-- A new job gets the next number, and is taken if everything so far fits the buffer. -/
theorem wound_new (h : Wound bound segs count (reel bound (script [] segs)))
    (hmem : seg.jobId ∉ jobs [] segs) :
    ∃ count', Wound bound (segs ++ [seg]) count' (reel bound (script [] (segs ++ [seg]))) := by
  have hjobs : jobs [] (segs ++ [seg]) = jobs [] segs ++ [seg.jobId] := by
    rw [jobs_append]
    exact if_neg hmem
  have hlength : (jobs [] segs ++ [seg.jobId]).length = (jobs [] segs).length + 1 := by
    rw [List.length_append, List.length_singleton]
  have hlast : (jobs [] segs ++ [seg.jobId]).idxOf seg.jobId = (jobs [] segs).length := by
    rw [List.idxOf_append_of_notMem hmem, List.idxOf_cons_self]
    rfl
  have hnew : InTime bound (segs ++ [seg]) seg.jobId ↔ _ := inTime_new bound
    fun seg' hseg' heq => hmem (mem_jobs.mpr (Or.inr ⟨seg', hseg', heq⟩))
  -- the jobs before keep their numbers and stand as they did
  have hold : ∀ job ∈ jobs [] segs, ((jobs [] segs ++ [seg.jobId]).idxOf job < count ↔
      InTime bound (segs ++ [seg]) job) := by
    intro job hjob
    rw [List.idxOf_append_of_mem hjob, inTime_append bound (seen_of_mem_jobs hjob)]
    exact h.taken job hjob
  rw [reel_script_snoc, if_neg hmem, Reel.add]
  by_cases hle : (reel bound (script [] segs)).frames.length ≤ bound
  · obtain ⟨hcount, hframes⟩ := h.full hle
    rw [if_pos hle]
    refine ⟨count + 1, wound_snoc ?_ h.frames ?_ ?_ ?_⟩
    · rw [h.ids, List.range_succ, hcount]
    · rw [hjobs]
      intro job hjob
      rcases List.mem_append.mp hjob with hjob | hjob
      · rw [← hold job hjob, List.idxOf_append_of_mem hjob]
        have hlt := List.idxOf_lt_length_iff.mpr hjob
        omega
      · obtain rfl := List.mem_singleton.mp hjob
        rw [hlast, hnew, ← hframes]
        exact iff_of_true (by omega) hle
    · rw [hjobs, hlength, hcount]
    · intro _
      rw [hjobs, hlength, hcount]
      exact ⟨rfl, hframes⟩
  · rw [if_neg hle]
    refine ⟨count, wound_snoc h.ids h.frames ?_ ?_ fun hle' => absurd hle' hle⟩
    · rw [hjobs]
      intro job hjob
      rcases List.mem_append.mp hjob with hjob | hjob
      · exact hold job hjob
      · obtain rfl := List.mem_singleton.mp hjob
        rw [hlast, hnew]
        refine iff_of_false (Nat.not_lt.mpr h.most) fun hfits => hle ?_
        rw [h.frames]
        exact (length_reassembled bound segs).trans hfits
    · rw [hjobs, hlength]
      exact h.most.trans (Nat.le_succ _)

/-- The reel of what the unpacker does is wound. -/
theorem wound_script (bound : Nat) (segs : List Segment) :
    ∃ count, Wound bound segs count (reel bound (script [] segs)) := by
  induction segs using List.reverseRecOn with
  | nil =>
      refine ⟨0, rfl, ?_, rfl, Nat.le_refl 0, fun _ => ⟨rfl, rfl⟩⟩
      intro job hjob
      cases hjob
  | append_singleton segs seg ih =>
      obtain ⟨count, h⟩ := ih
      by_cases hmem : seg.jobId ∈ jobs [] segs
      · exact ⟨count, wound_known h hmem⟩
      · exact wound_new h hmem

end Wound

/-- The indices of `packet->stream_index` are apart as long as they fit. -/
theorem ofNat_inj {i j : Nat} (hi : i < 2 ^ 32) (hj : j < 2 ^ 32)
    (h : Int32.ofNat i = Int32.ofNat j) : i = j := by
  have hbits : BitVec.ofNat 32 i = BitVec.ofNat 32 j := congrArg Int32.toBitVec h
  have hnat := congrArg BitVec.toNat hbits
  rwa [BitVec.toNat_ofNat, BitVec.toNat_ofNat, Nat.mod_eq_of_lt hi, Nat.mod_eq_of_lt hj] at hnat

theorem flatMap_if {α β : Type} (p : α → Prop) [DecidablePred p] (f : α → List β) (l : List α) :
    (l.flatMap fun x => if p x then f x else []) = (l.filter fun x => p x).flatMap f := by
  induction l with
  | nil => rfl
  | cons x l ih =>
      rw [List.flatMap_cons, ih]
      by_cases hx : p x
      · rw [if_pos hx, List.filter_cons, if_pos (decide_eq_true hx), List.flatMap_cons]
      · rw [if_neg hx, List.filter_cons, if_neg (by simpa using hx), List.nil_append]

/-- The frames under the number of a job are the packets of its segments, or none. -/
theorem reassembled_filter (bound : Nat) {received : List Segment}
    (hfew : (jobs [] received).length < 2 ^ 32) (job : Uuid) :
    (reassembled bound received).filter (fun frame =>
        frame.val.streamIndex = Int32.ofNat ((jobs [] received).idxOf job)) =
      if InTime bound received job then
        ((received.filter fun seg => seg.jobId = job).flatMap Segment.packets).map fun packet =>
          packet.setStreamIndex ((jobs [] received).idxOf job)
      else [] := by
  have hsmall : ∀ job', (jobs [] received).idxOf job' < 2 ^ 32 := fun job' =>
    Nat.lt_of_le_of_lt List.idxOf_le_length hfew
  have hsegment : ∀ seg ∈ received,
      (if InTime bound received seg.jobId then seg.packets.map fun packet =>
          packet.setStreamIndex ((jobs [] received).idxOf seg.jobId)
        else []).filter (fun frame =>
          frame.val.streamIndex = Int32.ofNat ((jobs [] received).idxOf job)) =
      if seg.jobId = job then
        if InTime bound received job then seg.packets.map fun packet =>
          packet.setStreamIndex ((jobs [] received).idxOf job)
        else []
      else [] := by
    intro seg hseg
    by_cases hjob : seg.jobId = job
    · subst hjob
      rw [if_pos rfl]
      split
      · apply List.filter_eq_self.mpr
        intro frame hframe
        obtain ⟨packet, -, rfl⟩ := List.mem_map.mp hframe
        exact decide_eq_true rfl
      · rfl
    · rw [if_neg hjob]
      apply List.filter_eq_nil_iff.mpr
      intro frame hframe
      split at hframe
      · obtain ⟨packet, -, rfl⟩ := List.mem_map.mp hframe
        intro hsame
        have hindex := ofNat_inj (hsmall _) (hsmall _) (of_decide_eq_true hsame)
        exact hjob ((List.idxOf_inj (mem_jobs.mpr (Or.inr ⟨seg, hseg, rfl⟩))).mp hindex)
      · cases hframe
  rw [reassembled, List.filter_flatMap, List.flatMap_congr hsegment, flatMap_if]
  split
  · rw [List.map_flatMap]
  · exact List.flatMap_eq_nil_iff.mpr fun _ _ => rfl

end Muxer

end Media2
