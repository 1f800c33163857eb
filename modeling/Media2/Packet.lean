import Mathlib.Tactic.Common

/-!
# Packets

`AVPacket` is the raw record that libavcodec defines and that deserialisation
fills field by field; nothing ties its counts to its buffers. `Packet` is a
packet whose counts are right. libav only hands out such packets, and copying
is the one place where a raw packet turns into a `Packet`.
-/

namespace Media2

/-- How a call can end other than by returning: the exceptions of the program
and of its libraries, and the undefined behaviours the code can run into. -/
inductive Fault
  | runtimeError (what : String)
  | archiveException
  | nullDereference
  | outOfRange
  | signedOverflow
  deriving DecidableEq, Repr

/-- One side-data element: `data` is the buffer behind the pointer. -/
structure AVPacketSideData where
  data : List UInt8
  size : UInt64
  type : Int32
  deriving DecidableEq

/-- The size field counts the bytes of the buffer. -/
def AVPacketSideData.WellFormed (d : AVPacketSideData) : Prop :=
  d.size.toNat = d.data.length

instance (d : AVPacketSideData) : Decidable d.WellFormed :=
  inferInstanceAs (Decidable (_ = _))

/-- `data` is the buffer behind the pointer; `sideData` holds the elements that
are allocated behind `side_data`, none when that pointer is null. -/
structure AVPacket where
  pts : Int64
  dts : Int64
  size : Int32
  data : List UInt8
  streamIndex : Int32
  flags : Int32
  sideDataElems : Int32
  sideData : List AVPacketSideData
  duration : Int64
  pos : Int64
  deriving DecidableEq

/-- Both counts describe what is allocated. -/
structure AVPacket.WellFormed (p : AVPacket) : Prop where
  size_eq : p.size.toInt = p.data.length
  sideDataElems_eq : p.sideDataElems.toInt = p.sideData.length
  sideData_wf : ∀ d ∈ p.sideData, d.WellFormed

instance (p : AVPacket) : Decidable p.WellFormed :=
  decidable_of_iff (p.size.toInt = p.data.length ∧
      p.sideDataElems.toInt = p.sideData.length ∧ ∀ d ∈ p.sideData, d.WellFormed)
    ⟨fun ⟨h₁, h₂, h₃⟩ => ⟨h₁, h₂, h₃⟩, fun ⟨h₁, h₂, h₃⟩ => ⟨h₁, h₂, h₃⟩⟩

/-- What a `Packet::pointer` points to. -/
abbrev Packet := { p : AVPacket // p.WellFormed }

namespace Packet

/-- `AV_PKT_FLAG_KEY`. -/
def flagKey : Int32 := 1

/-- `Packet::containsIFrame`. -/
def containsIFrame (packet : Packet) : Bool :=
  packet.val.flags &&& flagKey != 0

/-- `AV_NOPTS_VALUE`. -/
def noPts : Int64 := Int64.minValue

/-- `Packet::create`: the defaults `av_packet_alloc` sets. -/
def create : Packet :=
  ⟨{ pts := noPts, dts := noPts, size := 0, data := [], streamIndex := 0, flags := 0,
     sideDataElems := 0, sideData := [], duration := 0, pos := -1 }, by decide⟩

/-- A key packet without payload. -/
def keyFrame : Packet :=
  ⟨{ create.val with flags := flagKey }, by decide⟩

/-- The part of a side-data element that `av_packet_copy_props` copies. -/
def copySideData (d : AVPacketSideData) : AVPacketSideData :=
  { d with data := d.data.take d.size.toNat }

/-- The element is backed by as many bytes as it announces. -/
def Readable (d : AVPacketSideData) : Prop := d.size.toNat ≤ d.data.length

instance (d : AVPacketSideData) : Decidable (Readable d) :=
  inferInstanceAs (Decidable (_ ≤ _))

theorem copySideData_wf {d : AVPacketSideData} (h : Readable d) :
    (copySideData d).WellFormed := by
  simp only [AVPacketSideData.WellFormed, copySideData, List.length_take]
  exact (Nat.min_eq_left h).symm

theorem copySideData_eq {d : AVPacketSideData} (h : d.WellFormed) : copySideData d = d := by
  have hlen : d.size.toNat = d.data.length := h
  simp only [copySideData, hlen, List.take_length]

/-- The side-data elements `av_packet_ref` visits. -/
def visited (p : AVPacket) : List AVPacketSideData :=
  p.sideData.take p.sideDataElems.toInt.toNat

/-- Everything `av_packet_ref` reads is backed by an allocation. -/
structure InRange (p : AVPacket) : Prop where
  size_le : p.size.toInt ≤ p.data.length
  sideDataElems_le : p.sideDataElems.toInt ≤ p.sideData.length
  visited_readable : ∀ d ∈ visited p, Readable d

instance (p : AVPacket) : Decidable (InRange p) :=
  decidable_of_iff (p.size.toInt ≤ p.data.length ∧
      p.sideDataElems.toInt ≤ p.sideData.length ∧ ∀ d ∈ visited p, Readable d)
    ⟨fun ⟨h₁, h₂, h₃⟩ => ⟨h₁, h₂, h₃⟩, fun ⟨h₁, h₂, h₃⟩ => ⟨h₁, h₂, h₃⟩⟩

/-- The reference that `av_packet_ref` makes of a packet it can read. -/
def reference (p : AVPacket) : AVPacket :=
  { p with
    data := p.data.take p.size.toInt.toNat
    sideDataElems := if p.sideDataElems.toInt < 0 then 0 else p.sideDataElems
    sideData := (visited p).map copySideData }

theorem reference_wf {p : AVPacket} (h : InRange p) (hs : 0 ≤ p.size.toInt) :
    (reference p).WellFormed where
  size_eq := by
    have := h.size_le
    simp only [reference, List.length_take]
    omega
  sideDataElems_eq := by
    have := h.sideDataElems_le
    simp only [reference, visited, List.length_map, List.length_take]
    split
    · rw [Int32.toInt_zero]
      omega
    · omega
  sideData_wf := by
    intro d hd
    obtain ⟨d, hmem, rfl⟩ := List.mem_map.mp hd
    exact copySideData_wf (h.visited_readable d hmem)

/-- `Packet::copy`. `av_packet_ref` fails on a negative size and leaves the fresh
packet blank; it walks off the end of a buffer shorter than its count. -/
def copy (toCopy : AVPacket) : Except Fault Packet :=
  if h : InRange toCopy then
    if hs : 0 ≤ toCopy.size.toInt then .ok ⟨reference toCopy, reference_wf h hs⟩
    else .ok create
  else .error .outOfRange

theorem inRange_of_wf {p : AVPacket} (h : p.WellFormed) : InRange p where
  size_le := Int.le_of_eq h.size_eq
  sideDataElems_le := Int.le_of_eq h.sideDataElems_eq
  visited_readable := by
    intro d hd
    exact Nat.le_of_eq (h.sideData_wf d (List.mem_of_mem_take hd))

theorem reference_eq {p : AVPacket} (h : p.WellFormed) : reference p = p := by
  have hsize := h.size_eq
  have helems := h.sideDataElems_eq
  have hdata : p.data.take p.size.toInt.toNat = p.data :=
    List.take_of_length_le (by omega)
  have hneg : ¬ p.sideDataElems.toInt < 0 := by omega
  have hside : visited p = p.sideData := List.take_of_length_le (by omega)
  have hmap : p.sideData.map copySideData = p.sideData :=
    (List.map_congr_left fun d hd => copySideData_eq (h.sideData_wf d hd)).trans (List.map_id _)
  simp only [reference, hdata, if_neg hneg, hside, hmap]

/-- Copying a packet of the program copies all of it. -/
@[simp] theorem copy_val (packet : Packet) : copy packet.val = .ok packet := by
  have hsize := packet.property.size_eq
  have hs : 0 ≤ packet.val.size.toInt := by omega
  rw [copy, dif_pos (inRange_of_wf packet.property), dif_pos hs]
  exact congrArg Except.ok (Subtype.ext (reference_eq packet.property))

/-- A copy that succeeds is the reference, unless the size was negative. -/
theorem copy_eq_reference {toCopy : AVPacket} {copied : Packet} (h : copy toCopy = .ok copied)
    (hs : 0 ≤ toCopy.size.toInt) : copied.val = reference toCopy := by
  by_cases hrange : InRange toCopy
  · rw [copy, dif_pos hrange, dif_pos hs] at h
    rw [← Except.ok.inj h]
  · rw [copy, dif_neg hrange] at h
    cases h

end Packet

end Media2
