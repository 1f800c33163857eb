import Media2.Serialization.Layout

/-!
# What every segment keeps

A segment keeps the number of its packets and the stamps of the first one beside the packets.
Copying and loading assign stamps that `append` then overwrites, so that whatever an archive
says, every segment the program can get hold of keeps what belongs to its packets.
-/

namespace Media2.Segment

open ByteFormat Serialization

/-- The segments that the program can get hold of. -/
inductive Made : Segment → Prop
  | create (mem jobId parameters) : Made (create mem jobId parameters)
  | next (mem) {seg} : Made seg → Made (seg.next mem)
  | append {seg} (packet) : Made seg → Made (seg.append packet)
  | copy (mem) {seg ret} : Made seg → copy mem seg = .ok ret → Made ret
  | load (mem) {bytes seg rest} : (loadSegment mem).run bytes = .ok (seg, rest) → Made seg

/-- The segment that `next` returns has the header of this one and no packets. -/
structure Continues (seg next : Segment) : Prop where
  empty : next.empty = true
  npackets : next.npackets = 0
  jobId : next.jobId = seg.jobId
  parameters : next.parameters = seg.parameters
  timeBase : next.timeBase = seg.timeBase

/-- The bytes that are saved announce as many packets as follow, as a `size_t` counts them. -/
structure Announces (seg : Segment) : Prop where
  count : announcedPackets (saveSegment seg) = seg.packets.length % 2 ^ 64
  packets : (saveSegment seg).drop (frontSpan (saveSegment seg)) =
    seg.packets.flatMap fun p => savePacket p.val

/-- The count and the stamps are those of the packets, and the operations rely on it. -/
structure Represented (seg : Segment) : Prop where
  valid : seg.Valid
  copied : ∀ mem, copy mem seg = .ok seg
  continued : ∀ mem, Continues seg (seg.next mem)
  saved : Announces seg

/-- The packet loop keeps the representation, whatever the header said. -/
theorem loadPackets_valid {left i : Nat} {seg seg' : Segment} {bytes rest : List UInt8}
    (hseg : seg.Valid) (h : (loadPackets left i seg).run bytes = .ok (seg', rest)) :
    seg'.Valid := by
  induction left generalizing i seg bytes with
  | zero =>
      rw [loadPackets_zero, StateT.run_pure] at h
      obtain ⟨rfl, -⟩ := Prod.mk.inj (Except.ok.inj h)
      exact hseg
  | succ left ih =>
      obtain ⟨pkt, mid, hpkt, h⟩ := bind_run_eq_ok.mp h
      obtain ⟨seg₁, mid', happ, h⟩ := bind_run_eq_ok.mp h
      have hsize : 0 ≤ pkt.size.toInt := by
        rw [(loadPacket_loaded hpkt).size_eq]
        exact Int.natCast_nonneg _
      obtain ⟨copied, rfl⟩ := appendRaw_append (liftM_run_eq_ok.mp happ).1 hsize
      split at h
      · exact ih (append_valid hseg copied) h
      · rw [throw_run] at h
        cases h

/-- Before its packets a loaded segment has none. -/
theorem loadFront_valid {mem : Unassigned} {seg : Segment} {pkts : UInt64}
    {bytes rest : List UInt8} (h : (loadFront mem).run bytes = .ok ((seg, pkts), rest)) :
    seg.Valid := by
  have hempty : seg.npackets = 0 ∧ seg.packets = [] := by
    obtain ⟨jobId, _, -, h⟩ := bind_run_eq_ok.mp h
    obtain ⟨pts, _, -, h⟩ := bind_run_eq_ok.mp h
    obtain ⟨dts, _, -, h⟩ := bind_run_eq_ok.mp h
    obtain ⟨num, _, -, h⟩ := bind_run_eq_ok.mp h
    obtain ⟨den, _, -, h⟩ := bind_run_eq_ok.mp h
    obtain ⟨parameters, _, -, h⟩ := bind_run_eq_ok.mp h
    obtain ⟨count, _, -, h⟩ := bind_run_eq_ok.mp h
    rw [StateT.run_pure] at h
    obtain ⟨rfl, -⟩ := Prod.mk.inj (Prod.mk.inj (Except.ok.inj h)).1
    exact ⟨rfl, rfl⟩
  obtain ⟨hcount, hpackets⟩ := hempty
  constructor
  · rw [hcount, hpackets]
    rfl
  · simp [hpackets]
  · simp [hpackets]

theorem loadSegment_valid {mem : Unassigned} {seg : Segment} {bytes rest : List UInt8}
    (h : (loadSegment mem).run bytes = .ok (seg, rest)) : seg.Valid := by
  rw [loadSegment_eq] at h
  obtain ⟨⟨front, pkts⟩, mid, hfront, hloop⟩ := bind_run_eq_ok.mp h
  exact loadPackets_valid (loadFront_valid hfront) hloop

theorem Made.valid {seg : Segment} (h : Made seg) : seg.Valid := by
  induction h with
  | create mem jobId parameters => exact create_valid mem jobId parameters
  | next mem _ _ => exact next_valid mem _
  | append packet _ ih => exact append_valid ih packet
  | copy mem _ hcopy ih =>
      rw [copy_valid ih] at hcopy
      exact Except.ok.inj hcopy ▸ ih
  | load mem hload => exact loadSegment_valid hload

/-- What is saved lies as `load` looks for it. -/
theorem saveSegment_announces {seg : Segment} (h : seg.npackets = seg.packets.length) :
    Announces seg := by
  have hfront : (loadFront Unassigned.zero).run (saveSegment seg) =
      .ok ((loadHeader Unassigned.zero seg, UInt64.ofNat seg.npackets),
        seg.packets.flatMap fun p => savePacket p.val) := by
    simp only [saveSegment, List.flatten_cons, List.flatten_nil, List.append_nil]
    rw [loadFront, loadFrontWith, (reads_getUuid _).run_bind, (reads_get _).run_bind, (reads_get _).run_bind,
      (reads_get _).run_bind, (reads_get _).run_bind, (reads_parameters _).run_bind,
      (reads_get _).run_bind]
    rfl
  obtain ⟨hcount, hpackets⟩ := loadFront_run hfront
  constructor
  · rw [← hcount, UInt64.toNat_ofNat', h]
  · exact hpackets.symm

/-- A segment that was made by any sequence of operations keeps the count and the stamps of its
packets; its copies are equal to it, `next` continues it, and it is saved with the count that
it announces. -/
theorem Made.represented {seg : Segment} (h : Made seg) : Represented seg := by
  have hvalid := h.valid
  constructor
  · exact hvalid
  · exact fun mem => copy_valid hvalid mem
  · intro mem
    constructor
    · rfl
    · rfl
    · exact next_jobId mem seg
    · exact next_parameters mem seg
    · exact next_timeBase mem seg
  · exact saveSegment_announces hvalid.npackets_eq

/-- A segment that is saved with stamps which are not those of its packet. -/
def misstamped : Segment := { segmentWith Packet.keyFrame with pts := 5, dts := 7 }

theorem load_misstamped : (loadSegment Unassigned.zero).run (saveSegment misstamped) =
    .ok (segmentWith Packet.keyFrame, []) := by decide +kernel

theorem Made.represented_sample :
    (loadSegment Unassigned.zero).run (saveSegment misstamped) =
        .ok (segmentWith Packet.keyFrame, []) ∧
      Represented (segmentWith Packet.keyFrame) :=
  ⟨load_misstamped, Made.represented (Made.load Unassigned.zero load_misstamped)⟩

end Media2.Segment
