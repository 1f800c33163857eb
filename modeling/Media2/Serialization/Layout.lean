import Media2.Serialization.RoundTrip

/-!
# What decoding accepts

The packets of a message lie one behind the other, and the fields of each lie at offsets that
its length fields determine. Read off at these offsets, the counts of side-data elements tell
for any bytes which packets the loop of `Segment::load` hands on: `load(AVPacket)` keeps the
count as it is announced, but never has room for more than one element.
-/

namespace Media2.Serialization

open ByteFormat

/-- The bytes of payload of the packet in front. Its `size` lies behind `pts` and `dts`. -/
def payloadSize (bytes : List UInt8) : Nat := (wordAt Int32 bytes 16).toInt.toNat

/-- The `side_data_elems` of the packet in front, behind payload, `stream_index` and
`flags`. -/
def announcedElems (bytes : List UInt8) : Int32 := wordAt Int32 bytes (28 + payloadSize bytes)

/-- The bytes of side data of the packet in front: `size`, `type` and contents of an
element, if the count is positive. -/
def sideDataSpan (bytes : List UInt8) : Nat :=
  if announcedElems bytes > 0 then 12 + (wordAt UInt64 bytes (32 + payloadSize bytes)).toNat else 0

/-- The bytes of the packet in front. -/
def packetSpan (bytes : List UInt8) : Nat := 48 + payloadSize bytes + sideDataSpan bytes

/-- The counts that up to `left` packets announce, as far as the bytes go. -/
def announced : (left : Nat) → List UInt8 → List Int32
  | 0, _ => []
  | left + 1, bytes =>
      if packetSpan bytes ≤ bytes.length then
        announcedElems bytes :: announced left (bytes.drop (packetSpan bytes))
      else []

/-- The bytes of extradata of a segment. Their number lies behind job id, stamps, time
base and the first three codec parameters. -/
def extradataSpan (bytes : List UInt8) : Nat := (wordAt Int32 bytes 52).toInt.toNat

/-- The bytes of a segment before its packets. -/
def frontSpan (bytes : List UInt8) : Nat := 172 + extradataSpan bytes

/-- The number of packets that a segment announces. -/
def announcedPackets (bytes : List UInt8) : Nat :=
  (wordAt UInt64 bytes (164 + extradataSpan bytes)).toNat

/-- The counts of side-data elements that a segment announces, for as many packets as the
`int` of the loop can count. -/
def announcedCounts (bytes : List UInt8) : List Int32 :=
  announced (min (announcedPackets bytes) (2 ^ 31)) (bytes.drop (frontSpan bytes))

/-- The packets that the loop of `Segment::load` hands to `append`. It ends at the end of its
count or where a call does not return. -/
def handedWith (malloc : Malloc) : (left : Nat) → (i : Nat) → List UInt8 → List AVPacket
  | 0, _, _ => []
  | left + 1, i, bytes =>
      match (loadPacketWith malloc).run bytes with
      | .error _ => []
      | .ok (pkt, rest) =>
          pkt :: match Packet.copy pkt with
            | .error _ => []
            | .ok _ => if i + 1 < 2 ^ 31 then handedWith malloc left (i + 1) rest else []

abbrev handed (left i : Nat) (bytes : List UInt8) : List AVPacket := handedWith roomy left i bytes

/-- `Segment::load` up to its loop: the segment as it is then, and `pkts`. -/
def loadFrontWith (malloc : Malloc) (mem : Segment.Unassigned) : Archive (Segment × UInt64) := do
  let jobId ← getUuid
  let pts ← get Int64
  let dts ← get Int64
  let num ← get Int32
  let den ← get Int32
  let parameters ← loadParametersWith malloc
  let pkts ← get UInt64
  pure ({ Segment.default mem with jobId, pts, dts, timeBase := ⟨num, den⟩, parameters }, pkts)

abbrev loadFront (mem : Segment.Unassigned) : Archive (Segment × UInt64) :=
  loadFrontWith roomy mem

/-- The packets that `Segment::load` hands to `append`. -/
def handedOnWith (malloc : Malloc) (mem : Segment.Unassigned) (bytes : List UInt8) :
    List AVPacket :=
  match (loadFrontWith malloc mem).run bytes with
  | .error _ => []
  | .ok ((_, pkts), rest) => handedWith malloc pkts.toNat 0 rest

abbrev handedOn (mem : Segment.Unassigned) (bytes : List UInt8) : List AVPacket :=
  handedOnWith roomy mem bytes

theorem loadSegmentWith_eq (malloc : Malloc) (mem : Segment.Unassigned) :
    loadSegmentWith malloc mem =
      loadFrontWith malloc mem >>= fun front => loadPacketsWith malloc front.2.toNat 0 front.1 := by
  simp only [loadSegmentWith, loadFrontWith, bind_assoc, pure_bind]

theorem loadSegment_eq (mem : Segment.Unassigned) :
    loadSegment mem = loadFront mem >>= fun front => loadPackets front.2.toNat 0 front.1 :=
  loadSegmentWith_eq roomy mem

/-- When the loop ends, the segment holds copies of what was handed on. -/
theorem loadPackets_handed {left i : Nat} {seg seg' : Segment} {bytes rest : List UInt8}
    (h : (loadPackets left i seg).run bytes = .ok (seg', rest)) :
    ∃ copies, (handed left i bytes).mapM Packet.copy = .ok copies ∧
      seg'.packets = seg.packets ++ copies := by
  induction left generalizing i seg bytes with
  | zero =>
      rw [loadPackets_zero, StateT.run_pure] at h
      obtain ⟨rfl, -⟩ := Prod.mk.inj (Except.ok.inj h)
      exact ⟨[], rfl, (List.append_nil _).symm⟩
  | succ left ih =>
      obtain ⟨pkt, mid, hpkt, h⟩ := bind_run_eq_ok.mp h
      obtain ⟨seg₁, mid', happ, h⟩ := bind_run_eq_ok.mp h
      obtain ⟨happend, rfl⟩ := liftM_run_eq_ok.mp happ
      obtain ⟨copied, hcopy, hpackets⟩ := Segment.appendRaw_copied happend
      split at h
      · rename_i hlt
        obtain ⟨copies, hcopies, hseg'⟩ := ih h
        refine ⟨copied :: copies, ?_, ?_⟩
        · rw [handed, handedWith, hpkt]
          dsimp only
          rw [hcopy]
          dsimp only
          rw [if_pos hlt, List.mapM_cons, hcopy, hcopies]
          rfl
        · rw [hseg', hpackets, List.append_assoc]
          rfl
      · rw [throw_run] at h
        cases h

theorem getBinary_run_eq_ok {n : Int} {bytes rest : List UInt8}
    {out : { data : List UInt8 // n = data.length }} (h : (getBinary n).run bytes = .ok (out, rest)) :
    n.toNat ≤ bytes.length ∧ rest = bytes.drop n.toNat := by
  change getBinary n bytes = _ at h
  rw [getBinary] at h
  split at h
  · rename_i hrange
    obtain ⟨-, rfl⟩ := Prod.mk.inj (Except.ok.inj h)
    exact ⟨by omega, rfl⟩
  · cases h

/-- What `load(AVPacketSideData)` leaves behind. -/
theorem loadSideData_run {bytes rest : List UInt8} {d : AVPacketSideData}
    (h : loadSideData.run bytes = .ok (d, rest)) :
    d.WellFormed ∧ 12 + (wordAt UInt64 bytes 0).toNat ≤ bytes.length ∧
      rest = bytes.drop (12 + (wordAt UInt64 bytes 0).toNat) := by
  obtain ⟨size, _, hsize, h⟩ := bind_run_eq_ok.mp h
  obtain ⟨type, _, htype, h⟩ := bind_run_eq_ok.mp h
  obtain ⟨data, _, hdata, h⟩ := bind_run_eq_ok.mp h
  obtain ⟨-, rfl, rfl⟩ := getWord_run_eq_ok.mp hsize
  obtain ⟨hlen, -, rfl⟩ := getWord_run_eq_ok.mp htype
  obtain ⟨hle, rfl⟩ := getBinary_run_eq_ok hdata
  rw [StateT.run_pure] at h
  obtain ⟨rfl, rfl⟩ := Prod.mk.inj (Except.ok.inj h)
  simp only [List.drop_drop, List.length_drop, Int.toNat_natCast, MachineWord.width] at hlen hle ⊢
  refine ⟨?_, by omega, trivial⟩
  have hcount := data.property
  exact_mod_cast hcount

/-- What the conditional block of `load(AVPacket)` leaves behind. -/
theorem loadFirstSideData_run {elems : Int32} {bytes rest : List UInt8}
    {sideData : List AVPacketSideData}
    (h : (loadFirstSideData elems).run bytes = .ok (sideData, rest)) :
    sideData.length = (if elems > 0 then 1 else 0) ∧ (∀ d ∈ sideData, d.WellFormed) ∧
      ∃ span, span = (if elems > 0 then 12 + (wordAt UInt64 bytes 0).toNat else 0) ∧
        span ≤ bytes.length ∧ rest = bytes.drop span := by
  unfold loadFirstSideData loadFirstSideDataWith at h
  split at h
  · rename_i hpos
    obtain ⟨d, _, hd, h⟩ := bind_run_eq_ok.mp h
    obtain ⟨hwf, hle, rfl⟩ := loadSideData_run hd
    rw [StateT.run_pure] at h
    obtain ⟨rfl, rfl⟩ := Prod.mk.inj (Except.ok.inj h)
    refine ⟨(if_pos hpos).symm, ?_, _, (if_pos hpos).symm, hle, rfl⟩
    intro d' hmem
    rw [List.mem_singleton.mp hmem]
    exact hwf
  · rename_i hpos
    rw [StateT.run_pure] at h
    obtain ⟨rfl, rfl⟩ := Prod.mk.inj (Except.ok.inj h)
    exact ⟨(if_neg hpos).symm, fun _ hmem => absurd hmem List.not_mem_nil, 0,
      (if_neg hpos).symm, Nat.zero_le _, rfl⟩

/-- A packet that was loaded: its counts are those announced, and what is allocated for it. -/
structure Loaded (bytes : List UInt8) (p : AVPacket) (rest : List UInt8) : Prop where
  span_le : packetSpan bytes ≤ bytes.length
  rest_eq : rest = bytes.drop (packetSpan bytes)
  elems_eq : p.sideDataElems = announcedElems bytes
  size_eq : p.size.toInt = p.data.length
  sideData_length : p.sideData.length = if p.sideDataElems > 0 then 1 else 0
  sideData_wf : ∀ d ∈ p.sideData, d.WellFormed

theorem loadPacket_loaded {bytes rest : List UInt8} {p : AVPacket}
    (h : loadPacket.run bytes = .ok (p, rest)) : Loaded bytes p rest := by
  obtain ⟨pts, _, hpts, h⟩ := bind_run_eq_ok.mp h
  obtain ⟨dts, _, hdts, h⟩ := bind_run_eq_ok.mp h
  obtain ⟨size, _, hsize, h⟩ := bind_run_eq_ok.mp h
  obtain ⟨data, _, hdata, h⟩ := bind_run_eq_ok.mp h
  obtain ⟨streamIndex, _, hindex, h⟩ := bind_run_eq_ok.mp h
  obtain ⟨flags, _, hflags, h⟩ := bind_run_eq_ok.mp h
  obtain ⟨elems, _, helems, h⟩ := bind_run_eq_ok.mp h
  obtain ⟨sideData, _, hside, h⟩ := bind_run_eq_ok.mp h
  obtain ⟨duration, _, hduration, h⟩ := bind_run_eq_ok.mp h
  obtain ⟨pos, _, hpos, h⟩ := bind_run_eq_ok.mp h
  rw [StateT.run_pure] at h
  obtain ⟨rfl, rfl⟩ := Prod.mk.inj (Except.ok.inj h)
  -- each word lies where the ones before it end
  obtain ⟨-, -, rfl⟩ := getWord_run_eq_ok.mp hpts
  obtain ⟨-, -, rfl⟩ := getWord_run_eq_ok.mp hdts
  obtain ⟨-, rfl, rfl⟩ := getWord_run_eq_ok.mp hsize
  obtain ⟨-, rfl⟩ := getBinary_run_eq_ok hdata
  obtain ⟨-, -, rfl⟩ := getWord_run_eq_ok.mp hindex
  obtain ⟨-, -, rfl⟩ := getWord_run_eq_ok.mp hflags
  obtain ⟨-, rfl, rfl⟩ := getWord_run_eq_ok.mp helems
  obtain ⟨hlength, hwf, span, hspan, -, rfl⟩ := loadFirstSideData_run hside
  obtain ⟨-, -, rfl⟩ := getWord_run_eq_ok.mp hduration
  obtain ⟨hle, -, rfl⟩ := getWord_run_eq_ok.mp hpos
  have hsize := data.property
  simp only [wordAt_drop, List.drop_drop, MachineWord.width] at hle hspan hlength hsize ⊢
  have hpayload : (wordAt Int32 bytes (8 + 8 + 0)).toInt.toNat = payloadSize bytes := rfl
  rw [hpayload] at hle hspan hlength ⊢
  have hcount : 8 + 8 + 4 + payloadSize bytes + 4 + 4 + 0 = 28 + payloadSize bytes := by omega
  have hcontents : 28 + payloadSize bytes + 4 + 0 = 32 + payloadSize bytes := by omega
  rw [hcount, ← announcedElems] at hspan hlength ⊢
  rw [hcontents, ← sideDataSpan] at hspan
  rw [List.length_drop, hspan] at hle
  have hend : 28 + payloadSize bytes + 4 + span + 8 + 8 = packetSpan bytes := by
    rw [hspan, packetSpan]
    omega
  rw [hend]
  refine ⟨?_, rfl, rfl, hsize, hlength, hwf⟩
  rw [packetSpan]
  omega

/-- A loaded packet has what its counts say if and only if it announces none or one
side-data element. -/
theorem Loaded.wellFormed_iff {bytes rest : List UInt8} {p : AVPacket} (h : Loaded bytes p rest) :
    p.WellFormed ↔ announcedElems bytes = 0 ∨ announcedElems bytes = 1 := by
  have hlength := h.sideData_length
  rw [← h.elems_eq]
  constructor
  · intro hwf
    have helems := hwf.sideDataElems_eq
    by_cases hpos : p.sideDataElems > 0
    · rw [if_pos hpos] at hlength
      rw [hlength] at helems
      exact Or.inr (Int32.toInt_inj.mp helems)
    · rw [if_neg hpos] at hlength
      rw [hlength] at helems
      exact Or.inl (Int32.toInt_inj.mp helems)
  · rintro (hzero | hone)
    · refine ⟨h.size_eq, ?_, h.sideData_wf⟩
      rw [hzero] at hlength ⊢
      rw [hlength]
      rfl
    · refine ⟨h.size_eq, ?_, h.sideData_wf⟩
      rw [hone] at hlength ⊢
      rw [hlength]
      rfl

theorem getUuid_run_eq_ok {bytes rest : List UInt8} {id : Uuid}
    (h : getUuid.run bytes = .ok (id, rest)) : rest = bytes.drop 16 := by
  change getUuid bytes = _ at h
  rw [getUuid] at h
  split at h
  · obtain ⟨-, rfl⟩ := Prod.mk.inj (Except.ok.inj h)
    rfl
  · cases h

theorem loadExtradata_run {size : Int32} {bytes rest : List UInt8}
    {out : { data : List UInt8 // size.toInt = data.length }}
    (h : (loadExtradata size).run bytes = .ok (out, rest)) :
    rest = bytes.drop size.toInt.toNat := by
  unfold loadExtradata loadExtradataWith at h
  split at h
  · rename_i hzero
    rw [StateT.run_pure] at h
    obtain ⟨-, rfl⟩ := Prod.mk.inj (Except.ok.inj h)
    rw [hzero]
    rfl
  · exact (getBinary_run_eq_ok h).2

theorem loadParameters_run {bytes rest : List UInt8} {par : AVCodecParameters}
    (h : loadParameters.run bytes = .ok (par, rest)) :
    rest = bytes.drop (124 + (wordAt Int32 bytes 12).toInt.toNat) := by
  obtain ⟨codecType, _, htype, h⟩ := bind_run_eq_ok.mp h
  obtain ⟨codecId, _, hid, h⟩ := bind_run_eq_ok.mp h
  obtain ⟨codecTag, _, htag, h⟩ := bind_run_eq_ok.mp h
  obtain ⟨extradataSize, _, hsize, h⟩ := bind_run_eq_ok.mp h
  obtain ⟨extradata, mid, hextradata, h⟩ := bind_run_eq_ok.mp h
  obtain ⟨-, rfl⟩ : 108 ≤ mid.length ∧ rest = mid.drop 108 := by
    refine (?_ : Consumes _ 108) _ _ _ h
    iterate 25 refine consumes_word (by decide) fun _ => ?_
    exact consumes_pure _
  obtain ⟨-, -, rfl⟩ := getWord_run_eq_ok.mp htype
  obtain ⟨-, -, rfl⟩ := getWord_run_eq_ok.mp hid
  obtain ⟨-, -, rfl⟩ := getWord_run_eq_ok.mp htag
  obtain ⟨-, rfl, rfl⟩ := getWord_run_eq_ok.mp hsize
  obtain rfl := loadExtradata_run hextradata
  have hlies : wordAt Int32 bytes (4 + 4 + 4 + 0) = wordAt Int32 bytes 12 := rfl
  simp only [wordAt_drop, List.drop_drop, MachineWord.width]
  rw [hlies]
  generalize (wordAt Int32 bytes 12).toInt.toNat = span
  have hend : 4 + 4 + 4 + 4 + span + 108 = 124 + span := by omega
  exact congrArg bytes.drop hend

/-- The loop starts behind the front, with the count that the segment announces. -/
theorem loadFront_run {mem : Segment.Unassigned} {bytes rest : List UInt8} {seg : Segment}
    {pkts : UInt64} (h : (loadFront mem).run bytes = .ok ((seg, pkts), rest)) :
    pkts.toNat = announcedPackets bytes ∧ rest = bytes.drop (frontSpan bytes) := by
  obtain ⟨jobId, _, hjob, h⟩ := bind_run_eq_ok.mp h
  obtain ⟨pts, _, hpts, h⟩ := bind_run_eq_ok.mp h
  obtain ⟨dts, _, hdts, h⟩ := bind_run_eq_ok.mp h
  obtain ⟨num, _, hnum, h⟩ := bind_run_eq_ok.mp h
  obtain ⟨den, _, hden, h⟩ := bind_run_eq_ok.mp h
  obtain ⟨parameters, _, hpar, h⟩ := bind_run_eq_ok.mp h
  obtain ⟨count, _, hcount, h⟩ := bind_run_eq_ok.mp h
  rw [StateT.run_pure] at h
  obtain ⟨hout, rfl⟩ := Prod.mk.inj (Except.ok.inj h)
  obtain rfl : count = pkts := congrArg Prod.snd hout
  obtain rfl := getUuid_run_eq_ok hjob
  obtain ⟨-, -, rfl⟩ := getWord_run_eq_ok.mp hpts
  obtain ⟨-, -, rfl⟩ := getWord_run_eq_ok.mp hdts
  obtain ⟨-, -, rfl⟩ := getWord_run_eq_ok.mp hnum
  obtain ⟨-, -, rfl⟩ := getWord_run_eq_ok.mp hden
  obtain rfl := loadParameters_run hpar
  obtain ⟨-, rfl, rfl⟩ := getWord_run_eq_ok.mp hcount
  have hlies : wordAt Int32 bytes (16 + 8 + 8 + 4 + 4 + 12) = wordAt Int32 bytes 52 := rfl
  simp only [wordAt_drop, List.drop_drop, MachineWord.width, announcedPackets, frontSpan,
    extradataSpan]
  rw [hlies]
  generalize (wordAt Int32 bytes 52).toInt.toNat = span
  have hcount : 16 + 8 + 8 + 4 + 4 + (124 + span) + 0 = 164 + span := by omega
  have hend : 16 + 8 + 8 + 4 + 4 + (124 + span) + 8 = 172 + span := by omega
  exact ⟨congrArg (fun offset => (wordAt UInt64 bytes offset).toNat) hcount,
    congrArg bytes.drop hend⟩

theorem failsWith_get (α : Type) [MachineWord α] : FailsWith (get α) .archiveException :=
  failsWith_getWord _

theorem failsWith_getBinary (n : Int) : FailsWith (getBinary n) .archiveException := by
  intro bytes e h
  change getBinary n bytes = _ at h
  rw [getBinary] at h
  split at h
  · cases h
  · exact (Except.error.inj h).symm

theorem failsWith_sideData (elems : Int32) :
    FailsWith (loadFirstSideData elems) .archiveException := by
  unfold loadFirstSideData loadFirstSideDataWith
  split
  · refine FailsWith.bind ?_ fun _ => failsWith_pure _ _
    refine (failsWith_get _).bind fun _ => (failsWith_get _).bind fun _ => ?_
    exact (failsWith_getBinary _).bind fun _ => failsWith_pure _ _
  · exact failsWith_pure _ _

/-- A packet fails to load on a short read only. -/
theorem failsWith_loadPacket : FailsWith loadPacket .archiveException := by
  iterate 3 refine (failsWith_get _).bind fun _ => ?_
  refine (failsWith_getBinary _).bind fun _ => ?_
  iterate 3 refine (failsWith_get _).bind fun _ => ?_
  refine (failsWith_sideData _).bind fun _ => ?_
  iterate 2 refine (failsWith_get _).bind fun _ => ?_
  exact failsWith_pure _ _

theorem failsWith_getUuid : FailsWith getUuid .archiveException := by
  intro bytes e h
  change getUuid bytes = _ at h
  rw [getUuid] at h
  split at h
  · cases h
  · exact (Except.error.inj h).symm

theorem failsWith_loadParameters : FailsWith loadParameters .archiveException := by
  iterate 4 refine (failsWith_get _).bind fun _ => ?_
  apply FailsWith.bind
  · unfold loadExtradataWith
    split
    · exact failsWith_pure _ _
    · exact failsWith_getBinary _
  · intro extradata
    iterate 25 refine (failsWith_get _).bind fun _ => ?_
    exact failsWith_pure _ _

theorem failsWith_loadFront (mem : Segment.Unassigned) :
    FailsWith (loadFront mem) .archiveException := by
  refine failsWith_getUuid.bind fun _ => ?_
  iterate 4 refine (failsWith_get _).bind fun _ => ?_
  refine failsWith_loadParameters.bind fun _ => ?_
  refine (failsWith_get _).bind fun _ => ?_
  exact failsWith_pure _ _

/-- One turn of the loop. -/
theorem loadPackets_turn (left i : Nat) {seg seg' : Segment} {bytes rest : List UInt8}
    {pkt : AVPacket} (hrun : loadPacket.run bytes = .ok (pkt, rest))
    (happend : seg.appendRaw pkt = .ok seg') :
    (loadPackets (left + 1) i seg).run bytes =
      (if i + 1 < 2 ^ 31 then loadPackets left (i + 1) seg' else throw .signedOverflow).run rest := by
  rw [loadPackets_succ, run_bind_of_ok hrun, run_bind_of_ok (liftM_run_eq_ok.mpr ⟨happend, rfl⟩)]

/-- A loop that is not left by an exception hands on well-formed packets if and only if
each packet announces none or one side-data element. -/
theorem handed_wellFormed_iff {left i : Nat} {seg : Segment} {bytes : List UInt8}
    (h : (loadPackets left i seg).run bytes ≠ .error .archiveException) (hi : i < 2 ^ 31) :
    (∀ p ∈ handed left i bytes, p.WellFormed) ↔
      ∀ count ∈ announced (min left (2 ^ 31 - i)) bytes, count = 0 ∨ count = 1 := by
  induction left generalizing i seg bytes with
  | zero => simp [handedWith, announced]
  | succ left ih =>
      cases hrun : loadPacket.run bytes with
      | error e =>
          obtain rfl := failsWith_loadPacket bytes e hrun
          exact absurd (run_bind_of_error hrun _) h
      | ok out =>
          obtain ⟨pkt, rest⟩ := out
          have hloaded := loadPacket_loaded hrun
          have hmin : min (left + 1) (2 ^ 31 - i) = min left (2 ^ 31 - (i + 1)) + 1 := by omega
          rw [hmin, announced, if_pos hloaded.span_le, ← hloaded.rest_eq, handed, handedWith, hrun]
          dsimp only
          rw [List.forall_mem_cons, List.forall_mem_cons, hloaded.wellFormed_iff]
          apply and_congr_right
          intro hcount
          have hwf := hloaded.wellFormed_iff.mpr hcount
          have hcopy : Packet.copy pkt = .ok ⟨pkt, hwf⟩ := Packet.copy_val ⟨pkt, hwf⟩
          have hturn := loadPackets_turn left i hrun
            (Segment.appendRaw_val seg ⟨pkt, hwf⟩)
          rw [hcopy]
          dsimp only
          rw [hturn] at h
          split
          · rename_i hlt
            rw [if_pos hlt] at h
            exact ih h hlt
          · rename_i hlast
            have hnone : min left (2 ^ 31 - (i + 1)) = 0 := by omega
            rw [hnone]
            simp [announced]

/-- When bytes are decoded without an exception, every packet handed to `append` has the
payload and the side data that its counts say if and only if each packet announces none or
one side-data element. -/
theorem handedOn_wellFormed_iff (mem : Segment.Unassigned) (bytes : List UInt8)
    (h : (loadSegment mem).run bytes ≠ .error .archiveException) :
    (∀ p ∈ handedOn mem bytes, p.WellFormed) ↔
      ∀ count ∈ announcedCounts bytes, count = 0 ∨ count = 1 := by
  rw [loadSegment_eq] at h
  cases hfront : (loadFront mem).run bytes with
  | error e =>
      obtain rfl := failsWith_loadFront mem bytes e hfront
      exact absurd (run_bind_of_error hfront _) h
  | ok out =>
      obtain ⟨⟨seg, pkts⟩, rest⟩ := out
      obtain ⟨hpkts, rfl⟩ := loadFront_run hfront
      rw [run_bind_of_ok hfront] at h
      have hloop := handed_wellFormed_iff h (by decide)
      rw [handedOn, handedOnWith, hfront, announcedCounts, ← hpkts]
      exact hloop

/-- A segment with one packet. -/
def segmentWith (packet : Packet) : Segment :=
  (Segment.create Segment.Unassigned.zero Uuid.null AVCodecParameters.zero).append packet

/-- Of two side-data elements that are saved one is read. The copy that `append` makes of
the packet walks off the end. -/
theorem loadSegment_twoSideData :
    (loadSegment Segment.Unassigned.zero).run (saveSegment (segmentWith twoSideData)) =
      .error .outOfRange := by
  have hload := loadSegment_saveSegment Segment.Unassigned.zero (segmentWith twoSideData) []
  have hpacket := reads_packet_first twoSideData.property []
  rw [List.append_nil, List.append_nil] at hload
  rw [List.append_nil] at hpacket
  rw [hload]
  exact run_bind_of_ok hpacket _

/-- The packet is handed on with room for one element. -/
theorem second_sideData_missing :
    (loadSegment Segment.Unassigned.zero).run (saveSegment (segmentWith twoSideData)) ≠
        .error .archiveException ∧
      ¬ ∀ p ∈ handedOn Segment.Unassigned.zero (saveSegment (segmentWith twoSideData)),
        p.WellFormed := by
  have hhanded : handedOn Segment.Unassigned.zero (saveSegment (segmentWith twoSideData)) =
      [{ twoSideData.val with sideData := [⟨[], 0, 0⟩] }] := by decide +kernel
  constructor
  · rw [loadSegment_twoSideData]
    simp
  · intro h
    rw [hhanded] at h
    have hcount := (h _ (List.mem_singleton_self _)).sideDataElems_eq
    exact absurd hcount (by decide)

theorem handedOn_wellFormed_iff_sample :
    (∀ p ∈ handedOn Segment.Unassigned.zero (saveSegment (segmentWith Packet.keyFrame)),
        p.WellFormed) ↔
      ∀ count ∈ announcedCounts (saveSegment (segmentWith Packet.keyFrame)),
        count = 0 ∨ count = 1 := by
  have hvalid : (segmentWith Packet.keyFrame).Valid :=
    Segment.append_valid (Segment.create_valid _ _ _) _
  have hload := (loadSegment_saveSegment_iff Segment.Unassigned.zero hvalid (by decide)).mpr
    (by decide)
  apply handedOn_wellFormed_iff
  rw [hload]
  simp

end Media2.Serialization
