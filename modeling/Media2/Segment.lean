import Media2.CodecParameters
import Media2.Packet
import Media2.Uuid

/-!
# Segments

A segment holds the packets of one stretch of a stream together with the codec
parameters and the time base that are needed to decode it elsewhere.

## Implementation notes

The constructors leave `pts`, `dts` and `time_base` unassigned. What a freshly
allocated segment holds there is a parameter, so that every statement is about
any such contents.
-/

namespace Media2

structure Segment where
  jobId : Uuid
  pts : Int64
  dts : Int64
  timeBase : AVRational
  parameters : AVCodecParameters
  npackets : Nat
  packets : List Packet
  deriving DecidableEq

namespace Segment

/-- The members that the constructors do not assign, as the memory happens to be. -/
structure Unassigned where
  pts : Int64
  dts : Int64
  timeBase : AVRational

/-- Memory that happens to be zero. -/
def Unassigned.zero : Unassigned := ⟨0, 0, ⟨0, 0⟩⟩

/-- `Segment::Segment()`. -/
def default (mem : Unassigned) : Segment where
  jobId := Uuid.null
  pts := mem.pts
  dts := mem.dts
  timeBase := mem.timeBase
  parameters := AVCodecParameters.zero
  npackets := 0
  packets := []

/-- `Segment::create`, with the deep copy of the extradata. -/
def create (mem : Unassigned) (jobId : Uuid) (parameters : AVCodecParameters) : Segment where
  jobId := jobId
  pts := mem.pts
  dts := mem.dts
  timeBase := mem.timeBase
  parameters := parameters
  npackets := 0
  packets := []

/-- `Segment::append` on any record behind the pointer, with the copy it makes. -/
def appendRaw (seg : Segment) (packet : AVPacket) : Except Fault Segment := do
  let copied ← Packet.copy packet
  pure { seg with
    pts := if seg.packets.length = 0 then packet.pts else seg.pts
    dts := if seg.packets.length = 0 then packet.dts else seg.dts
    packets := seg.packets ++ [copied]
    npackets := seg.npackets + 1 }

/-- `Segment::append` on a packet of the program, whose copy is the packet. -/
def append (seg : Segment) (packet : Packet) : Segment :=
  { seg with
    pts := if seg.packets.length = 0 then packet.val.pts else seg.pts
    dts := if seg.packets.length = 0 then packet.val.dts else seg.dts
    packets := seg.packets ++ [packet]
    npackets := seg.npackets + 1 }

/-- `Segment::next`. -/
def next (mem : Unassigned) (seg : Segment) : Segment :=
  { create mem seg.jobId seg.parameters with timeBase := seg.timeBase }

/-- `Segment::copy`. The stamps are assigned, and `append` assigns them again with the first
packet. -/
def copy (mem : Unassigned) (toCopy : Segment) : Except Fault Segment :=
  toCopy.packets.foldlM
    (fun ret packet => do
      let copied ← Packet.copy packet.val
      ret.appendRaw copied.val)
    { create mem toCopy.jobId toCopy.parameters with
      pts := toCopy.pts, dts := toCopy.dts, timeBase := toCopy.timeBase }

/-- `Segment::empty`. -/
def empty (seg : Segment) : Bool := seg.packets.isEmpty

@[simp] theorem appendRaw_val (seg : Segment) (packet : Packet) :
    seg.appendRaw packet.val = .ok (seg.append packet) := by
  simp [appendRaw, append, bind, Except.bind, pure, Except.pure]

/-- `append` pushes the copy that it makes. -/
theorem appendRaw_copied {seg seg' : Segment} {packet : AVPacket}
    (h : seg.appendRaw packet = .ok seg') :
    ∃ copied, Packet.copy packet = .ok copied ∧ seg'.packets = seg.packets ++ [copied] := by
  unfold appendRaw at h
  cases hc : Packet.copy packet with
  | error e => simp [hc, bind, Except.bind] at h
  | ok copied =>
      simp only [hc, bind, Except.bind, pure, Except.pure, Except.ok.injEq] at h
      subst h
      exact ⟨copied, rfl, rfl⟩

theorem appendRaw_length {seg seg' : Segment} {packet : AVPacket}
    (h : seg.appendRaw packet = .ok seg') : seg'.packets.length = seg.packets.length + 1 := by
  obtain ⟨copied, -, hpackets⟩ := appendRaw_copied h
  rw [hpackets, List.length_append, List.length_singleton]

/-- What is appended from a record with a payload is a packet of the program with its stamps. -/
theorem appendRaw_append {seg seg' : Segment} {packet : AVPacket}
    (h : seg.appendRaw packet = .ok seg') (hs : 0 ≤ packet.size.toInt) :
    ∃ copied, seg' = seg.append copied := by
  unfold appendRaw at h
  cases hc : Packet.copy packet with
  | error e => simp [hc, bind, Except.bind] at h
  | ok copied =>
      have hcopied := Packet.copy_eq_reference hc hs
      have hpts : copied.val.pts = packet.pts := by rw [hcopied, Packet.reference]
      have hdts : copied.val.dts = packet.dts := by rw [hcopied, Packet.reference]
      simp only [hc, bind, Except.bind, pure, Except.pure, Except.ok.injEq] at h
      refine ⟨copied, ?_⟩
      rw [← h, append, hpts, hdts]

@[simp] theorem append_jobId (seg : Segment) (packet : Packet) :
    (seg.append packet).jobId = seg.jobId := rfl

@[simp] theorem append_timeBase (seg : Segment) (packet : Packet) :
    (seg.append packet).timeBase = seg.timeBase := rfl

@[simp] theorem append_parameters (seg : Segment) (packet : Packet) :
    (seg.append packet).parameters = seg.parameters := rfl

@[simp] theorem append_packets (seg : Segment) (packet : Packet) :
    (seg.append packet).packets = seg.packets ++ [packet] := rfl

@[simp] theorem next_jobId (mem : Unassigned) (seg : Segment) :
    (seg.next mem).jobId = seg.jobId := rfl

@[simp] theorem next_timeBase (mem : Unassigned) (seg : Segment) :
    (seg.next mem).timeBase = seg.timeBase := rfl

@[simp] theorem next_parameters (mem : Unassigned) (seg : Segment) :
    (seg.next mem).parameters = seg.parameters := rfl

@[simp] theorem next_packets (mem : Unassigned) (seg : Segment) :
    (seg.next mem).packets = [] := rfl

/-- The count and the stamps that a segment keeps beside its packets are theirs. -/
structure Valid (seg : Segment) : Prop where
  npackets_eq : seg.npackets = seg.packets.length
  pts_eq : ∀ p ∈ seg.packets.head?, seg.pts = p.val.pts
  dts_eq : ∀ p ∈ seg.packets.head?, seg.dts = p.val.dts

theorem create_valid (mem : Unassigned) (jobId : Uuid) (parameters : AVCodecParameters) :
    (create mem jobId parameters).Valid where
  npackets_eq := rfl
  pts_eq := by simp [create]
  dts_eq := by simp [create]

theorem next_valid (mem : Unassigned) (seg : Segment) : (seg.next mem).Valid where
  npackets_eq := rfl
  pts_eq := by simp
  dts_eq := by simp

theorem append_valid {seg : Segment} (h : seg.Valid) (packet : Packet) :
    (seg.append packet).Valid := by
  cases hp : seg.packets with
  | nil =>
      constructor
      · simp [append, h.npackets_eq]
      · simp [append, hp]
      · simp [append, hp]
  | cons first rest =>
      have hpts := h.pts_eq first (by simp [hp])
      have hdts := h.dts_eq first (by simp [hp])
      constructor
      · simp [append, h.npackets_eq]
      · simpa [append, hp] using hpts
      · simpa [append, hp] using hdts

/-- The segments that `create`, `next` and `append` build. `create` leaves any
time base behind, so assigning one afterwards builds nothing more. -/
inductive Built : Segment → Prop
  | create (mem jobId parameters) : Built (create mem jobId parameters)
  | next (mem) {seg} : Built seg → Built (seg.next mem)
  | append {seg} (packet) : Built seg → Built (seg.append packet)

theorem Built.valid {seg : Segment} (h : Built seg) : seg.Valid := by
  induction h with
  | create mem jobId parameters => exact create_valid mem jobId parameters
  | next mem _ _ => exact next_valid mem _
  | append packet _ ih => exact append_valid ih packet

/-- Appending a whole list, as the loops over packets do. -/
def appendAll (seg : Segment) (packets : List Packet) : Segment :=
  packets.foldl append seg

theorem Built.appendAll {seg : Segment} (h : seg.Built) (packets : List Packet) :
    (seg.appendAll packets).Built := by
  induction packets generalizing seg with
  | nil => exact h
  | cons p rest ih => exact ih (h.append p)

@[simp] theorem appendAll_packets (seg : Segment) (packets : List Packet) :
    (seg.appendAll packets).packets = seg.packets ++ packets := by
  induction packets generalizing seg with
  | nil => simp [appendAll]
  | cons p rest ih =>
      calc ((seg.append p).appendAll rest).packets
          = (seg.append p).packets ++ rest := ih (seg.append p)
        _ = seg.packets ++ p :: rest := by rw [append_packets, List.append_assoc]; rfl

/-- Appending to a segment without packets gives any valid segment with the same
header: the stamps of the first packet replace the ones in the header. -/
theorem appendAll_eq {seg target : Segment} (hvalid : target.Valid)
    (hheader : seg = { target with packets := [], npackets := 0 }) :
    seg.appendAll target.packets = target := by
  have hsnoc : ∀ (rest : List Packet) (acc : Segment), acc.packets ≠ [] →
      acc.appendAll rest = { acc with
        packets := acc.packets ++ rest, npackets := acc.npackets + rest.length } := by
    intro rest
    induction rest with
    | nil => simp [appendAll]
    | cons p rest ih =>
        intro acc hacc
        have hlen : acc.packets.length ≠ 0 := by simpa using hacc
        have hstep := ih (acc.append p) (by simp)
        rw [appendAll, List.foldl_cons, ← appendAll, hstep]
        simp [append, hlen]
        omega
  obtain ⟨jobId, pts, dts, timeBase, parameters, npackets, packets⟩ := target
  subst hheader
  cases packets with
  | nil =>
      have hn : npackets = 0 := hvalid.npackets_eq
      simp [appendAll, hn]
  | cons first rest =>
      have hn : npackets = rest.length + 1 := hvalid.npackets_eq
      have hpts : pts = first.val.pts := hvalid.pts_eq first rfl
      have hdts : dts = first.val.dts := hvalid.dts_eq first rfl
      rw [appendAll, List.foldl_cons, ← appendAll, hsnoc rest _ (by simp)]
      simp [append, hpts, hdts, hn]
      omega

/-- Copies of packets of the program are appended like the packets themselves. -/
theorem copy_eq (mem : Unassigned) (toCopy : Segment) :
    copy mem toCopy = .ok (({ create mem toCopy.jobId toCopy.parameters with
      pts := toCopy.pts, dts := toCopy.dts, timeBase := toCopy.timeBase } : Segment).appendAll
        toCopy.packets) := by
  have hloop : ∀ (packets : List Packet) (ret : Segment),
      packets.foldlM (fun ret packet => do
        let copied ← Packet.copy packet.val
        ret.appendRaw copied.val) ret = (.ok (ret.appendAll packets) : Except Fault Segment) := by
    intro packets
    induction packets with
    | nil => exact fun ret => rfl
    | cons packet packets ih =>
        intro ret
        rw [List.foldlM_cons, Packet.copy_val]
        exact (congrArg (· >>= _) (appendRaw_val ret packet)).trans (ih (ret.append packet))
  exact hloop toCopy.packets _

/-- The copy of a valid segment is the segment. -/
theorem copy_valid {seg : Segment} (h : seg.Valid) (mem : Unassigned) : copy mem seg = .ok seg := by
  rw [copy_eq]
  exact congrArg Except.ok (appendAll_eq h rfl)

end Segment

end Media2
