import Media2.Serialization.Whole

/-!
# Blocks that there is no room for

The load functions ask `malloc` for as many bytes as the message says, and do not look at what
they get. Where there is no room and a byte to be written, it is written to address 0. Apart
from that, decoding is as it is with room for everything.
-/

namespace Media2.Serialization

open ByteFormat

/-- There is room for a block of `size` bytes, or nothing is written into it. -/
def RoomFor (malloc : Malloc) (size : Int) (bytes : List UInt8) : Prop :=
  0 < size → size < 2 ^ 63 → bytes ≠ [] → malloc bytes.length size.toNat = true

instance (malloc : Malloc) (size : Int) (bytes : List UInt8) :
    Decidable (RoomFor malloc size bytes) :=
  inferInstanceAs (Decidable (0 < size → size < 2 ^ 63 → bytes ≠ [] → _))

/-- There is room for what the packet in front allocates: its payload, an element of side data
and the contents of that. -/
structure Given (malloc : Malloc) (bytes : List UInt8) : Prop where
  payload : RoomFor malloc (wordAt Int32 bytes 16).toInt (bytes.drop 20)
  element : 0 ≤ (wordAt Int32 bytes 16).toInt → announcedElems bytes > 0 →
    RoomFor malloc sizeofSideData (bytes.drop (32 + payloadSize bytes))
  contents : 0 ≤ (wordAt Int32 bytes 16).toInt → announcedElems bytes > 0 →
    RoomFor malloc (wordAt UInt64 bytes (32 + payloadSize bytes)).toNat
      (bytes.drop (44 + payloadSize bytes))

/-- There is room for the extradata of a segment. -/
def GivenFront (malloc : Malloc) (bytes : List UInt8) : Prop :=
  RoomFor malloc (wordAt Int32 bytes 52).toInt (bytes.drop 56)

section Room

variable {malloc : Malloc} {bytes : List UInt8}

theorem roomFor_nil (size : Int) : RoomFor malloc size [] := fun _ _ h => absurd rfl h

theorem roomFor_drop_of_le {size : Int} {offset : Nat} (h : bytes.length ≤ offset) :
    RoomFor malloc size (bytes.drop offset) := by
  rw [List.drop_eq_nil_of_le h]
  exact roomFor_nil size

theorem given_nil : Given malloc [] :=
  ⟨roomFor_nil _, fun _ _ => roomFor_nil _, fun _ _ => roomFor_nil _⟩

theorem refuses_into {α : Type} {ok : List UInt8 → Prop} {load load' : Archive α} (size : Int)
    (h : Refuses ok .nullDereference load load') :
    Refuses (fun bytes => RoomFor malloc size bytes ∧ ok bytes) .nullDereference
      (into malloc size load) load' := by
  constructor
  · rintro bytes ⟨hroom, hok⟩
    refine Eq.trans ?_ (h.does bytes hok)
    change into malloc size load bytes = load bytes
    rw [into]
    split
    · rfl
    · rename_i hnone
      apply if_neg
      rintro ⟨hpos, hlt, hne⟩
      rw [hroom hpos hlt hne] at hnone
      cases hnone
  · intro bytes hno
    change into malloc size load bytes = _
    rw [into]
    split
    · rename_i hroom
      exact h.fails bytes fun hok => hno ⟨fun _ _ _ => hroom, hok⟩
    · split
      · rfl
      · rename_i hnothing
        apply h.fails bytes
        intro hok
        exact hno ⟨fun hpos hlt hne => absurd ⟨hpos, hlt, hne⟩ hnothing, hok⟩

/-- A block of bytes, and what comes behind it. -/
theorem refuses_block {β : Type} {n : Int}
    {f f' : { data : List UInt8 // n = data.length } → Archive β} {next : List UInt8 → Prop}
    (hf : ∀ data, Refuses next .nullDereference (f data) (f' data)) :
    Refuses (fun bytes => RoomFor malloc n bytes ∧
        (0 ≤ n → n.toNat ≤ bytes.length → next (bytes.drop n.toNat))) .nullDereference
      (into malloc n (getBinary n) >>= f) (getBinary n >>= f') := by
  refine ((refuses_into n (Refuses.refl _ _)).bind hf).congr fun bytes => ?_
  constructor
  · rintro ⟨⟨hroom, -⟩, hnext⟩
    refine ⟨hroom, fun hn hle => ?_⟩
    have hfit : 0 + n.toNat ≤ bytes.length := by omega
    obtain ⟨out, hout⟩ := getBinary_run 0 hn hfit
    rw [List.drop_zero, Nat.zero_add] at hout
    exact hnext _ _ hout
  · rintro ⟨hroom, hnext⟩
    refine ⟨⟨hroom, trivial⟩, fun data rest hrun => ?_⟩
    obtain ⟨hle, rfl⟩ := getBinary_run_eq_ok hrun
    have hn := data.property
    exact hnext (by omega) hle

/-- The contents of an element of side data. -/
theorem refuses_sideData :
    Refuses (fun bytes => RoomFor malloc (wordAt UInt64 bytes 0).toNat (bytes.drop 12))
      .nullDereference (loadSideDataWith malloc) loadSideData := by
  refine Refuses.congr (Refuses.word fun size => Refuses.word fun type =>
    refuses_block fun data => Refuses.refl _ _) fun bytes => ?_
  simp only [MachineWord.width, List.length_drop, List.drop_drop, implies_true, and_true]
  constructor
  · intro h
    by_cases hlen : 12 ≤ bytes.length
    · exact h (by omega) (by omega)
    · exact roomFor_drop_of_le (by omega)
  · exact fun h _ _ => h

/-- An element of side data, with room for it and for its contents. -/
theorem refuses_firstSideData (elems : Int32) :
    Refuses (fun bytes => elems > 0 → RoomFor malloc sizeofSideData bytes ∧
        RoomFor malloc (wordAt UInt64 bytes 0).toNat (bytes.drop 12)) .nullDereference
      (loadFirstSideDataWith malloc elems) (loadFirstSideData elems) := by
  unfold loadFirstSideData loadFirstSideDataWith
  by_cases hpos : elems > 0
  · rw [if_pos hpos, if_pos hpos]
    refine ((refuses_into sizeofSideData refuses_sideData).bind fun d =>
      Refuses.refl _ (pure [d])).congr fun bytes => ?_
    simp only [implies_true, and_true, forall_const, hpos]
  · rw [if_neg hpos, if_neg hpos]
    exact (Refuses.refl _ _).congr fun bytes => ⟨fun _ h => absurd h hpos, fun _ => trivial⟩

/-- A packet is loaded as it is with room for everything, or something goes to address 0. -/
theorem refuses_packet :
    Refuses (Given malloc) .nullDereference (loadPacketWith malloc) loadPacket := by
  refine Refuses.congr (Refuses.word fun pts => Refuses.word fun dts => Refuses.word fun size =>
    refuses_block fun data => Refuses.word fun streamIndex => Refuses.word fun flags =>
    Refuses.word fun elems => (refuses_firstSideData elems).bind fun sideData =>
    Refuses.refl _ _) fun bytes => ?_
  simp only [MachineWord.width, List.length_drop, List.drop_drop, wordAt_drop, implies_true,
    and_true]
  -- the fields lie where the offsets of the layout say
  have hpayload : (wordAt Int32 bytes (8 + 8 + 0)).toInt.toNat = payloadSize bytes := rfl
  have hsize : wordAt Int32 bytes (8 + 8 + 0) = wordAt Int32 bytes 16 := rfl
  have hcount : 8 + 8 + 4 + payloadSize bytes + 4 + 4 + 0 = 28 + payloadSize bytes := by omega
  have helement : 28 + payloadSize bytes + 4 = 32 + payloadSize bytes := by omega
  have hcontents : 32 + payloadSize bytes + 12 = 44 + payloadSize bytes := by omega
  simp only [hpayload, hsize, hcount, helement, hcontents, Nat.add_zero]
  rw [← announcedElems]
  constructor
  · intro h
    by_cases hreached : 32 + payloadSize bytes ≤ bytes.length
    · obtain ⟨hroom, hbehind⟩ := h (by omega) (by omega) (by omega)
      have hside := fun hpos => hbehind hpos (by omega) (by omega) (by omega) (by omega)
      exact ⟨hroom, fun hpos helems => (hside hpos helems).1, fun hpos helems =>
        (hside hpos helems).2⟩
    · refine ⟨?_, fun _ _ => roomFor_drop_of_le (by omega), fun _ _ =>
        roomFor_drop_of_le (by omega)⟩
      by_cases hlen : 20 ≤ bytes.length
      · exact (h (by omega) (by omega) (by omega)).1
      · exact roomFor_drop_of_le (by omega)
  · intro h _ _ _
    exact ⟨h.payload, fun hpos _ _ _ _ helems => ⟨h.element hpos helems, h.contents hpos helems⟩⟩

theorem refuses_extradata (size : Int32) :
    Refuses (RoomFor malloc size.toInt) .nullDereference (loadExtradataWith malloc size)
      (loadExtradata size) := by
  unfold loadExtradata loadExtradataWith
  by_cases hzero : size = 0
  · rw [dif_pos hzero, dif_pos hzero]
    refine (Refuses.refl _ _).congr fun bytes => ⟨fun _ hpos => ?_, fun _ => trivial⟩
    rw [hzero] at hpos
    cases hpos
  · rw [dif_neg hzero, dif_neg hzero]
    exact (refuses_into _ (Refuses.refl _ _)).congr fun bytes => and_iff_left trivial

/-- The front of a segment needs room for the extradata. -/
theorem refuses_front (mem : Segment.Unassigned) :
    Refuses (GivenFront malloc) .nullDereference (loadFrontWith malloc mem) (loadFront mem) := by
  refine Refuses.congr ((Refuses.refl _ getUuid).bind fun jobId => Refuses.word fun pts =>
    Refuses.word fun dts => Refuses.word fun num => Refuses.word fun den =>
    Refuses.bind (Refuses.word fun codecType => Refuses.word fun codecId =>
    Refuses.word fun codecTag => Refuses.word fun extradataSize =>
    (refuses_extradata extradataSize).bind fun extradata => Refuses.refl _ _) fun parameters =>
    Refuses.refl _ _) fun bytes => ?_
  simp only [MachineWord.width, List.length_drop, List.drop_drop, wordAt_drop, implies_true,
    and_true, true_and]
  have hlies : 16 + (8 + 8 + 4 + 4 + 4 + 4 + 4 + 0) = 52 := rfl
  have hdata : 16 + (8 + 8 + 4 + 4 + 4 + 4 + 4 + 4) = 56 := rfl
  constructor
  · intro h
    by_cases hlen : 56 ≤ bytes.length
    · have hjob : ∃ id, getUuid.run bytes = .ok (id, bytes.drop 16) := by
        have hle : 16 ≤ bytes.length := by omega
        exact ⟨_, dif_pos hle⟩
      obtain ⟨jobId, hjob⟩ := hjob
      have hroom := h jobId _ hjob
      rw [wordAt_drop, List.drop_drop, List.length_drop, hlies, hdata] at hroom
      exact hroom (by omega) (by omega) (by omega) (by omega) (by omega) (by omega) (by omega)
        (by omega)
    · exact roomFor_drop_of_le (by omega)
  · intro h jobId rest hjob _ _ _ _ _ _ _ _
    obtain rfl := getUuid_run_eq_ok hjob
    rw [wordAt_drop, List.drop_drop, hlies, hdata]
    exact h

end Room

end Media2.Serialization
