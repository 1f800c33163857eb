import Mathlib.Algebra.Group.Int.Defs
import Media2.Foundation.ByteFormat
import Media2.Segment

/-!
# The wire format of segments

The save and load functions are written apart from each other, as in the
source, and field by field. A binary archive returns the values in the order
they were written; the framing it adds around them is left out.

## Implementation notes

The load functions allocate with `malloc`, whose answers are a parameter, and do
not look at them. Where a load function has no such parameter there is room for
everything.
-/

namespace Media2.Serialization

open ByteFormat

/-- What is read from a `binary_iarchive`, which throws on a short read. -/
abbrev Archive (α : Type) := Reader Fault α

def get (α : Type) [MachineWord α] : Archive α := getWord .archiveException α

/-- A `binary_object` of `n` bytes. A negative count is a short read too. -/
def getBinary (n : Int) : Archive { data : List UInt8 // n = data.length } := fun bytes =>
  if h : 0 ≤ n ∧ n ≤ bytes.length then
    .ok (⟨bytes.take n.toNat, by rw [List.length_take]; omega⟩, bytes.drop n.toNat)
  else .error .archiveException

/-- What `malloc` answers to a request for `size` bytes when `unread` bytes of the
archive are left: whether there was room. -/
abbrev Malloc := (unread size : Nat) → Bool

/-- There is room for everything. -/
def roomy : Malloc := fun _ _ => true

/-- What is read into a block of `size` bytes. Without the block the bytes that there
are go to address 0. Of a count that is negative, or is so as a `streamsize`, the
stream buffer writes nothing. -/
def into {α : Type} (malloc : Malloc) (size : Int) (load : Archive α) : Archive α := fun bytes =>
  match malloc bytes.length size.toNat with
  | true => load bytes
  | false =>
      if 0 < size ∧ size < 2 ^ 63 ∧ bytes ≠ [] then .error .nullDereference else load bytes

/-- `sizeof(AVPacketSideData)`: a pointer, a size and a type. -/
def sizeofSideData : Int := 24

/-- The `n` bytes from the pointer on. -/
def putBinary (data : List UInt8) (n : Int) : List UInt8 := data.take n.toNat

def getUuid : Archive Uuid := fun bytes =>
  if h : 16 ≤ bytes.length then
    .ok (⟨(bytes.take 16).toArray, by simp [h]⟩, bytes.drop 16)
  else .error .archiveException

instance : MachineWord AVMediaType where
  width := 4
  toNat t := MachineWord.toNat t.code
  ofNat n := ⟨MachineWord.ofNat n⟩
  toNat_lt t := MachineWord.toNat_lt t.code
  ofNat_toNat t := congrArg AVMediaType.mk (MachineWord.ofNat_toNat t.code)

/-- `save(AVPacketSideData)`. -/
def saveSideData (d : AVPacketSideData) : List UInt8 :=
  [put d.size, put d.type, putBinary d.data d.size.toNat].flatten

/-- `load(AVPacketSideData)`. -/
def loadSideDataWith (malloc : Malloc) : Archive AVPacketSideData := do
  let size ← get UInt64
  let type ← get Int32
  let data ← into malloc size.toNat (getBinary size.toNat)
  pure { data := data.val, size := size, type := type }

abbrev loadSideData : Archive AVPacketSideData := loadSideDataWith roomy

/-- The conditional block of `save(AVPacket)`: the first element of the array, if
the count is not zero and the pointer not null. -/
def saveFirstSideData (p : AVPacket) : List UInt8 :=
  match p.sideData with
  | [] => []
  | d :: _ => if p.sideDataElems ≠ 0 then saveSideData d else []

/-- `save(AVPacket)`. -/
def savePacket (p : AVPacket) : List UInt8 :=
  [put p.pts, put p.dts, put p.size, putBinary p.data p.size.toInt, put p.streamIndex,
    put p.flags, put p.sideDataElems, saveFirstSideData p, put p.duration, put p.pos].flatten

/-- The conditional block of `load(AVPacket)`: room for one element, or null. -/
def loadFirstSideDataWith (malloc : Malloc) (sideDataElems : Int32) :
    Archive (List AVPacketSideData) :=
  if sideDataElems > 0 then do
    let d ← into malloc sizeofSideData (loadSideDataWith malloc)
    pure [d]
  else pure []

abbrev loadFirstSideData (sideDataElems : Int32) : Archive (List AVPacketSideData) :=
  loadFirstSideDataWith roomy sideDataElems

/-- `load(AVPacket)`. -/
def loadPacketWith (malloc : Malloc) : Archive AVPacket := do
  let pts ← get Int64
  let dts ← get Int64
  let size ← get Int32
  let data ← into malloc size.toInt (getBinary size.toInt)
  let streamIndex ← get Int32
  let flags ← get Int32
  let sideDataElems ← get Int32
  let sideData ← loadFirstSideDataWith malloc sideDataElems
  let duration ← get Int64
  let pos ← get Int64
  pure { pts, dts, size, data := data.val, streamIndex, flags, sideDataElems, sideData,
         duration, pos }

abbrev loadPacket : Archive AVPacket := loadPacketWith roomy

/-- The conditional block of `save(AVCodecParameters)`. -/
def saveExtradata (par : AVCodecParameters) : List UInt8 :=
  if par.extradataSize ≠ 0 then putBinary par.extradata par.extradataSize.toInt else []

/-- `save(AVCodecParameters)`. -/
def saveParameters (par : AVCodecParameters) : List UInt8 :=
  [put par.codecType, put par.codecId, put par.codecTag, put par.extradataSize, saveExtradata par,
    put par.format, put par.bitRate, put par.bitsPerCodedSample, put par.bitsPerRawSample,
    put par.profile, put par.level, put par.width, put par.height, put par.sampleAspectRatio.num,
    put par.sampleAspectRatio.den, put par.fieldOrder, put par.colorRange, put par.colorPrimaries,
    put par.colorTrc, put par.colorSpace, put par.chromaLocation, put par.videoDelay,
    put par.channelLayout, put par.channels, put par.sampleRate, put par.blockAlign,
    put par.frameSize, put par.initialPadding, put par.trailingPadding,
    put par.seekPreroll].flatten

/-- The conditional block of `load(AVCodecParameters)`. With no extradata the
pointer stays the null that the default constructor put there. -/
def loadExtradataWith (malloc : Malloc) (size : Int32) :
    Archive { data : List UInt8 // size.toInt = data.length } :=
  if h : size = 0 then pure ⟨[], by rw [h]; rfl⟩
  else into malloc size.toInt (getBinary size.toInt)

abbrev loadExtradata (size : Int32) : Archive { data : List UInt8 // size.toInt = data.length } :=
  loadExtradataWith roomy size

/-- `load(AVCodecParameters)` into the parameters of a default-constructed segment. -/
def loadParametersWith (malloc : Malloc) : Archive AVCodecParameters := do
  let codecType ← get AVMediaType
  let codecId ← get UInt32
  let codecTag ← get UInt32
  let extradataSize ← get Int32
  let extradata ← loadExtradataWith malloc extradataSize
  let format ← get Int32
  let bitRate ← get Int64
  let bitsPerCodedSample ← get Int32
  let bitsPerRawSample ← get Int32
  let profile ← get Int32
  let level ← get Int32
  let width ← get Int32
  let height ← get Int32
  let sarNum ← get Int32
  let sarDen ← get Int32
  let fieldOrder ← get UInt32
  let colorRange ← get UInt32
  let colorPrimaries ← get UInt32
  let colorTrc ← get UInt32
  let colorSpace ← get UInt32
  let chromaLocation ← get UInt32
  let videoDelay ← get Int32
  let channelLayout ← get UInt64
  let channels ← get Int32
  let sampleRate ← get Int32
  let blockAlign ← get Int32
  let frameSize ← get Int32
  let initialPadding ← get Int32
  let trailingPadding ← get Int32
  let seekPreroll ← get Int32
  pure { codecType, codecId, codecTag, extradata := extradata.val, extradataSize, format,
         bitRate, bitsPerCodedSample, bitsPerRawSample, profile, level, width, height,
         sampleAspectRatio := ⟨sarNum, sarDen⟩, fieldOrder, colorRange, colorPrimaries,
         colorTrc, colorSpace, chromaLocation, videoDelay, channelLayout, channels,
         sampleRate, blockAlign, frameSize, initialPadding, trailingPadding, seekPreroll,
         extradata_eq := extradata.property }

abbrev loadParameters : Archive AVCodecParameters := loadParametersWith roomy

/-- `Segment::save`. -/
def saveSegment (seg : Segment) : List UInt8 :=
  [seg.jobId.toList, put seg.pts, put seg.dts, put seg.timeBase.num, put seg.timeBase.den,
    saveParameters seg.parameters, put (UInt64.ofNat seg.npackets),
    seg.packets.flatMap fun p => savePacket p.val].flatten

/-- The loop `for (int i = 0; i < pkts; ++i)` of `Segment::load`, with `left` the
iterations still to come. The counter is an `int`: the increment past
`2 ^ 31 - 1` overflows. -/
def loadPacketsWith (malloc : Malloc) : (left : Nat) → (i : Nat) → Segment → Archive Segment
  | 0, _, seg => pure seg
  | left + 1, i, seg => do
      let pkt ← loadPacketWith malloc
      let seg ← liftM (seg.appendRaw pkt)
      if i + 1 < 2 ^ 31 then loadPacketsWith malloc left (i + 1) seg else throw .signedOverflow

abbrev loadPackets (left i : Nat) (seg : Segment) : Archive Segment :=
  loadPacketsWith roomy left i seg

/-- `Segment::load` into a default-constructed segment. -/
def loadSegmentWith (malloc : Malloc) (mem : Segment.Unassigned) : Archive Segment := do
  let jobId ← getUuid
  let pts ← get Int64
  let dts ← get Int64
  let num ← get Int32
  let den ← get Int32
  let parameters ← loadParametersWith malloc
  let pkts ← get UInt64
  loadPacketsWith malloc pkts.toNat 0
    { Segment.default mem with jobId, pts, dts, timeBase := ⟨num, den⟩, parameters }

abbrev loadSegment (mem : Segment.Unassigned) : Archive Segment := loadSegmentWith roomy mem

theorem loadFirstSideData_of_pos {elems : Int32} (h : elems > 0) :
    loadFirstSideData elems = loadSideData >>= fun d => pure [d] := if_pos h

theorem loadFirstSideData_of_not_pos {elems : Int32} (h : ¬ elems > 0) :
    loadFirstSideData elems = pure [] := if_neg h

theorem loadExtradata_of_ne {size : Int32} (h : size ≠ 0) :
    loadExtradata size = getBinary size.toInt := dif_neg h

theorem loadPackets_zero (i : Nat) (seg : Segment) : loadPackets 0 i seg = pure seg := rfl

theorem loadPackets_succ (left i : Nat) (seg : Segment) :
    loadPackets (left + 1) i seg = (do
      let pkt ← loadPacket
      let seg ← liftM (seg.appendRaw pkt)
      if i + 1 < 2 ^ 31 then loadPackets left (i + 1) seg else throw .signedOverflow) := rfl

end Media2.Serialization
