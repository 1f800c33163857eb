import Media2.Serialization

/-!
# Loading what was saved

Each load function reads back, from any archive that continues with arbitrary
bytes, exactly what its save function wrote. The packet loop carries the `int`
counter along: it reads every packet as long as the counter does not overflow.
-/

namespace Media2.Serialization

open ByteFormat

theorem reads_get {α : Type} [MachineWord α] (x : α) : Reads (get α) (put x) x :=
  reads_getWord Fault.archiveException x

/-- A word at the front of a longer record. -/
theorem reads_word {α β : Type} [MachineWord α] (x : α) {f : α → Archive β}
    {bytes : List UInt8} {b : β} (h : Reads (f x) bytes b) :
    Reads (get α >>= f) (put x ++ bytes) b :=
  (reads_get x).bind h

theorem putBinary_eq {data : List UInt8} {n : Int} (h : n = data.length) :
    putBinary data n = data := by
  rw [putBinary, List.take_of_length_le (by omega)]

theorem reads_getBinary {n : Int} (data : List UInt8) (h : n = data.length) :
    Reads (getBinary n) (putBinary data n) ⟨data, h⟩ := by
  intro rest
  rw [putBinary_eq h]
  have hle : 0 ≤ n ∧ n ≤ (data ++ rest).length := by
    rw [List.length_append]
    omega
  have hn : n.toNat = data.length := by omega
  change getBinary n (data ++ rest) = _
  simp only [getBinary, dif_pos hle, hn, List.take_left, List.drop_left]

theorem reads_getUuid (id : Uuid) : Reads getUuid id.toList id := by
  intro rest
  have hlen : id.toList.length = 16 := by simp
  have hle : 16 ≤ (id.toList ++ rest).length := by
    rw [List.length_append, hlen]
    omega
  change getUuid (id.toList ++ rest) = _
  have htake : (id.toList ++ rest).take 16 = id.toList := List.take_left' hlen
  have hdrop : (id.toList ++ rest).drop 16 = rest := List.drop_left' hlen
  simp only [getUuid, dif_pos hle, hdrop]
  congr 2
  apply Vector.toList_inj.mp
  simp [Vector.toList]

theorem reads_sideData {d : AVPacketSideData} (h : d.WellFormed) :
    Reads loadSideData (saveSideData d) d := by
  have hlen : (d.size.toNat : Int) = d.data.length := by
    exact_mod_cast h
  apply reads_word
  apply reads_word
  apply (reads_getBinary d.data hlen).bind
  exact Reads.pure d

/-- Of the side data the first element comes back. -/
theorem reads_firstSideData {p : AVPacket} (h : p.WellFormed) :
    Reads (loadFirstSideData p.sideDataElems) (saveFirstSideData p) (p.sideData.take 1) := by
  have helems := h.sideDataElems_eq
  cases hside : p.sideData with
  | nil =>
      have hzero : ¬ p.sideDataElems > 0 := by
        rw [gt_iff_lt, Int32.lt_iff_toInt_lt, helems, hside]
        simp
      simp only [loadFirstSideData_of_not_pos hzero, saveFirstSideData, hside]
      exact Reads.pure _
  | cons d rest =>
      have hlen : p.sideDataElems.toInt = rest.length + 1 := by
        rw [helems, hside]
        rfl
      have hpos : p.sideDataElems > 0 := by
        rw [gt_iff_lt, Int32.lt_iff_toInt_lt, hlen, Int32.toInt_zero]
        omega
      have hne : p.sideDataElems ≠ 0 := by
        intro hzero
        rw [hzero, Int32.toInt_zero] at hlen
        omega
      simp only [loadFirstSideData_of_pos hpos, saveFirstSideData, hside, if_pos hne]
      have hd := reads_sideData (h.sideData_wf d (by simp [hside]))
      rw [← List.append_nil (saveSideData d)]
      exact hd.bind (Reads.pure [d])

/-- A packet comes back with the first of its side-data elements. -/
theorem reads_packet_first {p : AVPacket} (h : p.WellFormed) :
    Reads loadPacket (savePacket p) { p with sideData := p.sideData.take 1 } := by
  apply reads_word
  apply reads_word
  apply reads_word
  apply (reads_getBinary p.data h.size_eq).bind
  apply reads_word
  apply reads_word
  apply reads_word
  apply (reads_firstSideData h).bind
  apply reads_word
  apply reads_word
  exact Reads.pure { p with sideData := p.sideData.take 1 }

/-- A packet with at most one side-data element comes back whole. -/
theorem reads_packet {p : AVPacket} (h : p.WellFormed) (hone : p.sideData.length ≤ 1) :
    Reads loadPacket (savePacket p) p := by
  have hfirst := reads_packet_first h
  rw [List.take_of_length_le hone] at hfirst
  exact hfirst

/-- No more than the first element comes back. -/
theorem sideData_of_reads {packet : Packet}
    (h : Reads loadPacket (savePacket packet.val) packet.val) :
    packet.val.sideData.length ≤ 1 := by
  have hout := (reads_packet_first packet.property []).symm.trans (h [])
  have hpacket := congrArg Prod.fst (Except.ok.inj hout)
  have hside : packet.val.sideData.take 1 = packet.val.sideData :=
    congrArg AVPacket.sideData hpacket
  rw [← hside]
  exact List.length_take_le 1 _

/-- A packet comes back as it was saved, with nothing read beyond it, if and only if it has
at most one side-data element. -/
theorem reads_packet_iff (packet : Packet) :
    Reads loadPacket (savePacket packet.val) packet.val ↔ packet.val.sideData.length ≤ 1 := by
  constructor
  · exact sideData_of_reads
  · exact reads_packet packet.property

/-- A packet with two side-data elements without contents. -/
def twoSideData : Packet :=
  ⟨{ Packet.create.val with sideDataElems := 2, sideData := [⟨[], 0, 0⟩, ⟨[], 0, 1⟩] }, by decide⟩

/-- The count of two is saved with one element and comes back with one. -/
theorem second_sideData_lost :
    loadPacket.run (savePacket twoSideData.val) =
        .ok ({ twoSideData.val with sideData := [⟨[], 0, 0⟩] }, []) ∧
      ¬ Reads loadPacket (savePacket twoSideData.val) twoSideData.val := by
  constructor
  · have hfirst := reads_packet_first twoSideData.property []
    rw [List.append_nil] at hfirst
    exact hfirst
  · intro h
    exact absurd (sideData_of_reads h) (by decide)

theorem reads_extradata (par : AVCodecParameters) :
    Reads (loadExtradata par.extradataSize) (saveExtradata par)
      ⟨par.extradata, par.extradata_eq⟩ := by
  by_cases hzero : par.extradataSize = 0
  · have hnil : par.extradata = [] := by
      have := par.extradata_eq
      rw [hzero] at this
      exact List.length_eq_zero_iff.mp (by simpa using this.symm)
    simp only [loadExtradata, loadExtradataWith, saveExtradata, hzero]
    intro rest
    simp [hnil]
    rfl
  · simp only [loadExtradata_of_ne hzero, saveExtradata, if_pos hzero, ne_eq]
    exact reads_getBinary par.extradata par.extradata_eq

/-- All codec parameters come back, with extradata of any length. -/
theorem reads_parameters (par : AVCodecParameters) :
    Reads loadParameters (saveParameters par) par := by
  iterate 4 apply reads_word
  apply (reads_extradata par).bind
  iterate 25 apply reads_word
  exact Reads.pure par

/-- From any counter on, the loop appends the saved packets one by one. -/
theorem reads_loadPackets {packets : List Packet} {i : Nat}
    (hone : ∀ p ∈ packets, p.val.sideData.length ≤ 1) (hi : i + packets.length < 2 ^ 31)
    (seg : Segment) :
    Reads (loadPackets packets.length i seg) (packets.flatMap fun p => savePacket p.val)
      (seg.appendAll packets) := by
  induction packets generalizing i seg with
  | nil => exact Reads.pure seg
  | cons p rest ih =>
      rw [List.length_cons] at hi ⊢
      have hp := reads_packet p.property (hone p (by simp))
      have hrest := ih (fun q hq => hone q (by simp [hq])) (i := i + 1) (by omega) (seg.append p)
      rw [List.flatMap_cons]
      apply hp.bind
      intro tail
      have hlt : i + 1 < 2 ^ 31 := by omega
      simp only [Segment.appendRaw_val, if_pos hlt]
      exact hrest tail

/-- A loop that ends has appended as many packets as it was to read, and its
counter has not overflowed. -/
theorem loadPackets_ok {left i : Nat} {seg seg' : Segment} {bytes rest : List UInt8}
    (h : (loadPackets left i seg).run bytes = .ok (seg', rest)) :
    seg'.packets.length = seg.packets.length + left ∧ (left = 0 ∨ i + left < 2 ^ 31) := by
  induction left generalizing i seg bytes with
  | zero =>
      rw [loadPackets_zero, StateT.run_pure] at h
      cases h
      exact ⟨rfl, Or.inl rfl⟩
  | succ left ih =>
      obtain ⟨pkt, mid, -, h⟩ := bind_run_eq_ok.mp h
      obtain ⟨seg₁, mid', happ, h⟩ := bind_run_eq_ok.mp h
      have hlen := Segment.appendRaw_length (liftM_run_eq_ok.mp happ).1
      split at h
      · obtain ⟨hcount, hbound⟩ := ih h
        exact ⟨by omega, Or.inr (by omega)⟩
      · rw [throw_run] at h
        cases h

/-- What `Segment::load` starts its packet loop from. -/
def loadHeader (mem : Segment.Unassigned) (seg : Segment) : Segment :=
  { Segment.default mem with
    jobId := seg.jobId, pts := seg.pts, dts := seg.dts, timeBase := seg.timeBase,
    parameters := seg.parameters }

/-- The header comes back, and the packet loop runs on what follows it. -/
theorem loadSegment_saveSegment (mem : Segment.Unassigned) (seg : Segment)
    (rest : List UInt8) :
    (loadSegment mem).run (saveSegment seg ++ rest) =
      (loadPackets (seg.npackets % 2 ^ 64) 0 (loadHeader mem seg)).run
        ((seg.packets.flatMap fun p => savePacket p.val) ++ rest) := by
  simp only [saveSegment, List.flatten_cons, List.flatten_nil, List.append_assoc,
    List.append_nil]
  rw [loadSegment, loadSegmentWith, (reads_getUuid _).run_bind, (reads_get _).run_bind, (reads_get _).run_bind,
    (reads_get _).run_bind, (reads_get _).run_bind, (reads_parameters _).run_bind,
    (reads_get _).run_bind, UInt64.toNat_ofNat']
  rfl

/-- A segment of the program loads to itself and nothing is left over exactly when
its packets can be counted by an `int`. -/
theorem loadSegment_saveSegment_iff (mem : Segment.Unassigned) {seg : Segment}
    (hvalid : seg.Valid) (hone : ∀ p ∈ seg.packets, p.val.sideData.length ≤ 1) :
    (loadSegment mem).run (saveSegment seg) = .ok (seg, []) ↔ seg.packets.length < 2 ^ 31 := by
  have hload := loadSegment_saveSegment mem seg []
  rw [List.append_nil, List.append_nil, hvalid.npackets_eq] at hload
  rw [hload]
  constructor
  · intro h
    obtain ⟨hcount, hbound⟩ := loadPackets_ok h
    have hstart : (loadHeader mem seg).packets.length = 0 := rfl
    omega
  · intro hlt
    rw [Nat.mod_eq_of_lt (by omega)]
    have hloop := reads_loadPackets hone (i := 0) (by omega) (loadHeader mem seg) []
    rw [List.append_nil] at hloop
    have happ : (loadHeader mem seg).appendAll seg.packets = seg :=
      Segment.appendAll_eq hvalid rfl
    rw [hloop, happ]

end Media2.Serialization
