import Media2.Serialization.Layout

/-!
# What lies whole is read

A packet, or the front of a segment, is read if and only if its bytes are all there. Whether
the packet can then be copied is a matter of its count of side-data elements.
-/

namespace Media2.Serialization

open ByteFormat

/-- The packet in front lies whole in the bytes. A payload of negative size is a short read. -/
def Whole (bytes : List UInt8) : Prop :=
  0 ≤ (wordAt Int32 bytes 16).toInt ∧ packetSpan bytes ≤ bytes.length

instance (bytes : List UInt8) : Decidable (Whole bytes) :=
  inferInstanceAs (Decidable (_ ∧ _))

theorem get_run (α : Type) [MachineWord α] (width : Nat) {bytes : List UInt8} (offset : Nat)
    (hwidth : MachineWord.width α = width) (h : offset + width ≤ bytes.length) :
    (get α).run (bytes.drop offset) =
      .ok (wordAt α bytes offset, bytes.drop (offset + width)) := by
  subst hwidth
  apply getWord_run_eq_ok.mpr
  rw [List.length_drop, wordAt_drop, List.drop_drop]
  exact ⟨by omega, rfl, rfl⟩

theorem getBinary_run {n : Int} {bytes : List UInt8} (offset : Nat) (hn : 0 ≤ n)
    (h : offset + n.toNat ≤ bytes.length) :
    ∃ out, (getBinary n).run (bytes.drop offset) = .ok (out, bytes.drop (offset + n.toNat)) := by
  have hrange : 0 ≤ n ∧ n ≤ (bytes.drop offset).length := by
    rw [List.length_drop]
    omega
  rw [← List.drop_drop]
  exact ⟨_, dif_pos hrange⟩

theorem loadSideData_ok {bytes : List UInt8} {offset : Nat}
    (h : offset + (12 + (wordAt UInt64 bytes offset).toNat) ≤ bytes.length) :
    ∃ d, loadSideData.run (bytes.drop offset) =
      .ok (d, bytes.drop (offset + (12 + (wordAt UInt64 bytes offset).toNat))) := by
  have hsize := get_run UInt64 8 offset rfl (show offset + 8 ≤ bytes.length by omega)
  have htype := get_run Int32 4 (offset + 8) rfl (show offset + 8 + 4 ≤ bytes.length by omega)
  generalize wordAt UInt64 bytes offset = size at h hsize ⊢
  have hcount : (size.toNat : Int).toNat = size.toNat := Int.toNat_natCast _
  obtain ⟨data, hdata⟩ := getBinary_run (offset + 8 + 4) (Int.natCast_nonneg size.toNat)
    (show _ ≤ bytes.length by omega)
  have hend : offset + 8 + 4 + (size.toNat : Int).toNat = offset + (12 + size.toNat) := by omega
  rw [hend] at hdata
  exact ⟨_, bind_run_eq_ok.mpr ⟨_, _, hsize, bind_run_eq_ok.mpr ⟨_, _, htype,
    bind_run_eq_ok.mpr ⟨_, _, hdata, rfl⟩⟩⟩⟩

theorem loadFirstSideData_ok (elems : Int32) {bytes : List UInt8} (offset : Nat) {span : Nat}
    (hspan : span = if elems > 0 then 12 + (wordAt UInt64 bytes offset).toNat else 0)
    (h : offset + span ≤ bytes.length) :
    ∃ sideData, (loadFirstSideData elems).run (bytes.drop offset) =
      .ok (sideData, bytes.drop (offset + span)) := by
  unfold loadFirstSideData loadFirstSideDataWith
  split at hspan
  · rename_i hpos
    subst hspan
    obtain ⟨d, hd⟩ := loadSideData_ok h
    rw [if_pos hpos]
    exact ⟨[d], bind_run_eq_ok.mpr ⟨d, _, hd, rfl⟩⟩
  · rename_i hpos
    subst hspan
    rw [if_neg hpos]
    exact ⟨[], rfl⟩

/-- `load(AVPacket)` up to the count of side-data elements, and what comes then. -/
def readToCount {β : Type} (next : Int64 → Int64 → (size : Int32) →
    { data : List UInt8 // size.toInt = data.length } → Int32 → Int32 → Archive β) :
    Archive β := do
  let pts ← get Int64
  let dts ← get Int64
  let size ← get Int32
  let data ← getBinary size.toInt
  let streamIndex ← get Int32
  let flags ← get Int32
  next pts dts size data streamIndex flags

section ToCount

variable {β : Type} {next : Int64 → Int64 → (size : Int32) →
  { data : List UInt8 // size.toInt = data.length } → Int32 → Int32 → Archive β}
  {bytes : List UInt8}

/-- With the payload and the fields around it there, what comes next is read behind them. -/
theorem readToCount_run (hsize : 0 ≤ (wordAt Int32 bytes 16).toInt)
    (h : 28 + payloadSize bytes ≤ bytes.length) :
    ∃ pts dts size data streamIndex flags, (readToCount next).run bytes =
      (next pts dts size data streamIndex flags).run (bytes.drop (28 + payloadSize bytes)) := by
  have hpayload : (wordAt Int32 bytes 16).toInt.toNat = payloadSize bytes := rfl
  obtain ⟨data, hdata⟩ := getBinary_run (8 + 8 + 4) hsize (show _ ≤ bytes.length by omega)
  rw [hpayload] at hdata
  have hcount : 8 + 8 + 4 + payloadSize bytes + 4 + 4 = 28 + payloadSize bytes := by omega
  have hpts : (get Int64).run bytes = _ :=
    get_run Int64 8 0 rfl (show 0 + 8 ≤ bytes.length by omega)
  have hdts := get_run Int64 8 8 rfl (show 8 + 8 ≤ bytes.length by omega)
  have hwidth : (get Int32).run (bytes.drop (8 + 8)) = .ok (wordAt Int32 bytes 16, _) :=
    get_run Int32 4 (8 + 8) rfl (show 8 + 8 + 4 ≤ bytes.length by omega)
  have hindex := get_run Int32 4 (8 + 8 + 4 + payloadSize bytes) rfl
    (show _ + 4 ≤ bytes.length by omega)
  have hflags := get_run Int32 4 (8 + 8 + 4 + payloadSize bytes + 4) rfl
    (show _ + 4 ≤ bytes.length by omega)
  rw [hcount] at hflags
  rw [readToCount, run_bind_of_ok hpts, run_bind_of_ok hdts, run_bind_of_ok hwidth,
    run_bind_of_ok hdata, run_bind_of_ok hindex, run_bind_of_ok hflags]
  exact ⟨_, _, _, _, _, _, rfl⟩

/-- What comes next is only come to behind a payload that is there. -/
theorem readToCount_reaches {out : β × List UInt8} (h : (readToCount next).run bytes = .ok out) :
    0 ≤ (wordAt Int32 bytes 16).toInt ∧ 28 + payloadSize bytes ≤ bytes.length := by
  obtain ⟨b, rest⟩ := out
  obtain ⟨pts, _, hpts, h⟩ := bind_run_eq_ok.mp h
  obtain ⟨dts, _, hdts, h⟩ := bind_run_eq_ok.mp h
  obtain ⟨size, _, hsize, h⟩ := bind_run_eq_ok.mp h
  obtain ⟨data, _, hdata, h⟩ := bind_run_eq_ok.mp h
  obtain ⟨streamIndex, _, hindex, h⟩ := bind_run_eq_ok.mp h
  obtain ⟨flags, _, hflags, -⟩ := bind_run_eq_ok.mp h
  obtain ⟨-, -, rfl⟩ := getWord_run_eq_ok.mp hpts
  obtain ⟨-, -, rfl⟩ := getWord_run_eq_ok.mp hdts
  obtain ⟨-, rfl, rfl⟩ := getWord_run_eq_ok.mp hsize
  obtain ⟨hle, rfl⟩ := getBinary_run_eq_ok hdata
  obtain ⟨-, -, rfl⟩ := getWord_run_eq_ok.mp hindex
  obtain ⟨hlen, -, -⟩ := getWord_run_eq_ok.mp hflags
  have hsize := data.property
  simp only [wordAt_drop, List.length_drop, MachineWord.width] at hsize hlen hle
  have hpayload : (wordAt Int32 bytes (8 + 8 + 0)).toInt.toNat = payloadSize bytes := rfl
  rw [hpayload] at hlen hle
  exact ⟨hsize ▸ Int.natCast_nonneg _, by omega⟩

end ToCount

/-- A packet that lies whole in the bytes is read. -/
theorem loadPacket_ok {bytes : List UInt8} (h : Whole bytes) :
    ∃ p, loadPacket.run bytes = .ok (p, bytes.drop (packetSpan bytes)) := by
  have hsum : 48 + payloadSize bytes + sideDataSpan bytes ≤ bytes.length := h.2
  obtain ⟨sideData, hsideData⟩ := loadFirstSideData_ok (announcedElems bytes)
    (32 + payloadSize bytes) rfl (show _ + sideDataSpan bytes ≤ bytes.length by omega)
  -- the words behind the payload lie where the offsets of the layout say
  have hcontents : 28 + payloadSize bytes + 4 = 32 + payloadSize bytes := by omega
  have hend : 32 + payloadSize bytes + sideDataSpan bytes + 8 + 8 = packetSpan bytes := by
    rw [packetSpan]
    omega
  have helems := get_run Int32 4 (28 + payloadSize bytes) rfl
    (show _ + 4 ≤ bytes.length by omega)
  have hduration := get_run Int64 8 (32 + payloadSize bytes + sideDataSpan bytes) rfl
    (show _ + 8 ≤ bytes.length by omega)
  have hpos := get_run Int64 8 (32 + payloadSize bytes + sideDataSpan bytes + 8) rfl
    (show _ + 8 ≤ bytes.length by omega)
  rw [hcontents] at helems
  rw [hend] at hpos
  obtain ⟨_, _, _, _, _, _, hfields⟩ := readToCount_run h.1
    (show 28 + payloadSize bytes ≤ bytes.length by omega)
  exact ⟨_, hfields.trans (bind_run_eq_ok.mpr ⟨_, _, helems, bind_run_eq_ok.mpr
    ⟨_, _, hsideData, bind_run_eq_ok.mpr ⟨_, _, hduration, bind_run_eq_ok.mpr
    ⟨_, _, hpos, rfl⟩⟩⟩⟩)⟩

theorem whole_of_ok {bytes : List UInt8} {out : AVPacket × List UInt8}
    (h : loadPacket.run bytes = .ok out) : Whole bytes :=
  ⟨(readToCount_reaches h).1, (loadPacket_loaded h).span_le⟩

theorem not_whole_of_error {bytes : List UInt8} {e : Fault}
    (h : loadPacket.run bytes = .error e) : ¬ Whole bytes := by
  intro hwhole
  obtain ⟨p, hp⟩ := loadPacket_ok hwhole
  rw [hp] at h
  cases h

/-- What is loaded of a packet can be copied if at most one side-data element is announced. -/
theorem Loaded.copy_ok {bytes rest : List UInt8} {p : AVPacket} (h : Loaded bytes p rest)
    (hone : announcedElems bytes ≤ 1) : ∃ copied, Packet.copy p = .ok copied := by
  have hlength := h.sideData_length
  have hcount : p.sideDataElems.toInt ≤ 1 := by
    rw [h.elems_eq]
    exact Int32.le_iff_toInt_le.mp hone
  have hrange : Packet.InRange p := by
    refine ⟨Int.le_of_eq h.size_eq, ?_, ?_⟩
    · rw [hlength]
      split
      · exact hcount
      · rename_i hnone
        exact Int32.le_iff_toInt_le.mp (Int32.not_lt.mp hnone)
    · intro d hd
      exact Nat.le_of_eq (h.sideData_wf d (List.mem_of_mem_take hd))
  have hsize : 0 ≤ p.size.toInt := h.size_eq ▸ Int.natCast_nonneg _
  exact ⟨_, (dif_pos hrange).trans (dif_pos hsize)⟩

/-- Otherwise the copy walks off the one element that is allocated. -/
theorem Loaded.copy_outOfRange {bytes rest : List UInt8} {p : AVPacket} (h : Loaded bytes p rest)
    (hmore : ¬ announcedElems bytes ≤ 1) : Packet.copy p = .error .outOfRange := by
  apply dif_neg
  intro hrange
  have hle := hrange.sideDataElems_le
  have hlength := h.sideData_length
  rw [h.elems_eq, Int32.le_iff_toInt_le] at *
  have hlength : p.sideData.length ≤ 1 := by
    rw [hlength]
    split
    · exact Nat.le_refl 1
    · exact Nat.zero_le 1
  have hone : (1 : Int32).toInt = 1 := rfl
  omega

theorem Loaded.appendRaw_ok {bytes rest : List UInt8} {p : AVPacket} (h : Loaded bytes p rest)
    (hone : announcedElems bytes ≤ 1) (seg : Segment) : ∃ seg', seg.appendRaw p = .ok seg' := by
  obtain ⟨copied, hcopy⟩ := h.copy_ok hone
  exact ⟨_, congrArg (· >>= _) hcopy⟩

theorem Loaded.appendRaw_outOfRange {bytes rest : List UInt8} {p : AVPacket}
    (h : Loaded bytes p rest) (hmore : ¬ announcedElems bytes ≤ 1) (seg : Segment) :
    seg.appendRaw p = .error .outOfRange := by
  have hcopy := h.copy_outOfRange hmore
  exact congrArg (· >>= _) hcopy

theorem loadExtradata_ok {size : Int32} {bytes : List UInt8} (offset : Nat)
    (hsize : 0 ≤ size.toInt) (h : offset + size.toInt.toNat ≤ bytes.length) :
    ∃ out, (loadExtradata size).run (bytes.drop offset) =
      .ok (out, bytes.drop (offset + size.toInt.toNat)) := by
  unfold loadExtradata loadExtradataWith
  split
  · rename_i hzero
    subst hzero
    exact ⟨_, rfl⟩
  · exact getBinary_run offset hsize h

theorem loadParameters_ok {bytes : List UInt8} (offset : Nat)
    (hsize : 0 ≤ (wordAt Int32 bytes (offset + 12)).toInt)
    (h : offset + (124 + (wordAt Int32 bytes (offset + 12)).toInt.toNat) ≤ bytes.length) :
    ∃ par, loadParameters.run (bytes.drop offset) =
      .ok (par, bytes.drop (offset + (124 + (wordAt Int32 bytes (offset + 12)).toInt.toNat))) := by
  have htype := get_run AVMediaType 4 offset rfl (show offset + 4 ≤ bytes.length by omega)
  have hid := get_run UInt32 4 (offset + 4) rfl (show _ + 4 ≤ bytes.length by omega)
  have htag := get_run UInt32 4 (offset + 8) rfl (show _ + 4 ≤ bytes.length by omega)
  have hword := get_run Int32 4 (offset + 12) rfl (show _ + 4 ≤ bytes.length by omega)
  generalize wordAt Int32 bytes (offset + 12) = size at hsize h hword ⊢
  obtain ⟨extradata, hextradata⟩ := loadExtradata_ok (offset + 16) hsize
    (show _ ≤ bytes.length by omega)
  have hend : offset + 16 + size.toInt.toNat + 108 = offset + (124 + size.toInt.toNat) := by omega
  have hlast : 108 ≤ (bytes.drop (offset + 16 + size.toInt.toNat)).length := by
    rw [List.length_drop]
    omega
  rw [← hend, ← List.drop_drop, loadParameters, loadParametersWith, run_bind_of_ok htype, run_bind_of_ok hid,
    run_bind_of_ok htag, run_bind_of_ok hword, run_bind_of_ok hextradata]
  refine (?_ : Takes _ 108) _ hlast
  iterate 25 refine takes_word (by decide) fun _ => ?_
  exact takes_pure _

/-- The front of a segment that lies whole in the bytes is read. -/
theorem loadFront_ok (mem : Segment.Unassigned) {bytes : List UInt8}
    (hsize : 0 ≤ (wordAt Int32 bytes 52).toInt) (hspan : frontSpan bytes ≤ bytes.length) :
    ∃ out, (loadFront mem).run bytes = .ok (out, bytes.drop (frontSpan bytes)) := by
  have hsum : 172 + (wordAt Int32 bytes 52).toInt.toNat ≤ bytes.length := hspan
  have hjob : ∃ id, getUuid.run bytes = .ok (id, bytes.drop 16) := by
    have hlen : 16 ≤ bytes.length := by omega
    exact ⟨_, dif_pos hlen⟩
  obtain ⟨jobId, hjob⟩ := hjob
  have hpts := get_run Int64 8 16 rfl (show 16 + 8 ≤ bytes.length by omega)
  have hdts := get_run Int64 8 24 rfl (show 24 + 8 ≤ bytes.length by omega)
  have hnum := get_run Int32 4 32 rfl (show 32 + 4 ≤ bytes.length by omega)
  have hden := get_run Int32 4 36 rfl (show 36 + 4 ≤ bytes.length by omega)
  have hlies : wordAt Int32 bytes (40 + 12) = wordAt Int32 bytes 52 := rfl
  obtain ⟨par, hpar⟩ := loadParameters_ok 40 hsize (show 40 + (124 +
    (wordAt Int32 bytes 52).toInt.toNat) ≤ bytes.length by omega)
  have hcount := get_run UInt64 8 (40 + (124 + (wordAt Int32 bytes 52).toInt.toNat)) rfl
    (show _ ≤ bytes.length by omega)
  have hend : 40 + (124 + (wordAt Int32 bytes 52).toInt.toNat) + 8 = frontSpan bytes := by
    rw [frontSpan, extradataSpan]
    omega
  rw [hlies] at hpar
  rw [hend] at hcount
  exact ⟨_, bind_run_eq_ok.mpr ⟨_, _, hjob, bind_run_eq_ok.mpr ⟨_, _, hpts,
    bind_run_eq_ok.mpr ⟨_, _, hdts, bind_run_eq_ok.mpr ⟨_, _, hnum,
    bind_run_eq_ok.mpr ⟨_, _, hden, bind_run_eq_ok.mpr ⟨_, _, hpar,
    bind_run_eq_ok.mpr ⟨_, _, hcount, rfl⟩⟩⟩⟩⟩⟩⟩⟩

theorem extradata_nonneg {mem : Segment.Unassigned} {bytes rest : List UInt8}
    {front : Segment × UInt64} (h : (loadFront mem).run bytes = .ok (front, rest)) :
    0 ≤ (wordAt Int32 bytes 52).toInt := by
  obtain ⟨jobId, _, hjob, h⟩ := bind_run_eq_ok.mp h
  obtain ⟨pts, _, hpts, h⟩ := bind_run_eq_ok.mp h
  obtain ⟨dts, _, hdts, h⟩ := bind_run_eq_ok.mp h
  obtain ⟨num, _, hnum, h⟩ := bind_run_eq_ok.mp h
  obtain ⟨den, _, hden, h⟩ := bind_run_eq_ok.mp h
  obtain ⟨parameters, _, hpar, h⟩ := bind_run_eq_ok.mp h
  obtain ⟨codecType, _, htype, hpar⟩ := bind_run_eq_ok.mp hpar
  obtain ⟨codecId, _, hid, hpar⟩ := bind_run_eq_ok.mp hpar
  obtain ⟨codecTag, _, htag, hpar⟩ := bind_run_eq_ok.mp hpar
  obtain ⟨extradataSize, _, hsize, hpar⟩ := bind_run_eq_ok.mp hpar
  obtain ⟨extradata, _, -, -⟩ := bind_run_eq_ok.mp hpar
  obtain rfl := getUuid_run_eq_ok hjob
  obtain ⟨-, -, rfl⟩ := getWord_run_eq_ok.mp hpts
  obtain ⟨-, -, rfl⟩ := getWord_run_eq_ok.mp hdts
  obtain ⟨-, -, rfl⟩ := getWord_run_eq_ok.mp hnum
  obtain ⟨-, -, rfl⟩ := getWord_run_eq_ok.mp hden
  obtain ⟨-, -, rfl⟩ := getWord_run_eq_ok.mp htype
  obtain ⟨-, -, rfl⟩ := getWord_run_eq_ok.mp hid
  obtain ⟨-, -, rfl⟩ := getWord_run_eq_ok.mp htag
  obtain ⟨-, rfl, -⟩ := getWord_run_eq_ok.mp hsize
  have hsize := extradata.property
  simp only [wordAt_drop, MachineWord.width] at hsize
  exact hsize ▸ Int.natCast_nonneg _

end Media2.Serialization
