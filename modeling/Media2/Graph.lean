import Media2.Foundation.Blocks
import Media2.Foundation.Execution
import Media2.Muxer
import Media2.PacketReader

/-!
# The graph of readers, decoders, encoders and muxers

Before anything runs, decoders are subscribed to the streams of a reader, encoders to decoders
and a muxer to the streams of the encoders. With each subscription codec parameters and contexts
are allocated, copied and freed.

## Implementation notes

The other models take a stream for a value. Here its data have pointers, to blocks of three
kinds: codec parameters, codec contexts, and the streams that a container owns. A stream object
lives as long as its keeper, which is the reader or the encoder that made it, or somebody else
has a pointer to it. Connecting is left out; it is in `Subscriptions`.
-/

namespace Media2

/-- `avcodec_parameters_alloc`. -/
def AVCodecParameters.blank : AVCodecParameters where
  codecType := AVMediaType.unknown
  codecId := 0
  codecTag := 0
  extradata := []
  extradataSize := 0
  format := -1
  bitRate := 0
  bitsPerCodedSample := 0
  bitsPerRawSample := 0
  profile := -99
  level := -99
  width := 0
  height := 0
  sampleAspectRatio := ⟨0, 1⟩
  fieldOrder := 0
  colorRange := 0
  colorPrimaries := 2
  colorTrc := 2
  colorSpace := 2
  chromaLocation := 0
  videoDelay := 0
  channelLayout := 0
  channels := 0
  sampleRate := 0
  blockAlign := 0
  frameSize := 0
  initialPadding := 0
  trailingPadding := 0
  seekPreroll := 0
  extradata_eq := rfl

/-- A codec context as an encoder sets it up. -/
structure EncodingContext where
  codec : Option AVCodec
  sampleFmt : Int32
  sampleRate : Int32
  channels : Int32
  channelLayout : UInt64
  frameSize : Int32
  pixFmt : Int32
  width : Int32
  height : Int32
  timeBase : AVRational
  opened : Bool
  deriving DecidableEq

/-- `avcodec_alloc_context3`. -/
def EncodingContext.alloc (codec : Option AVCodec) : EncodingContext where
  codec := codec
  sampleFmt := -1
  sampleRate := 0
  channels := 0
  channelLayout := 0
  frameSize := 0
  pixFmt := -1
  width := 0
  height := 0
  timeBase := ⟨0, 1⟩
  opened := false

inductive Context
  | decoding (ctx : AVCodecContext)
  | encoding (ctx : EncodingContext)
  deriving DecidableEq

/-- The context as the other models know it. -/
def Context.decoder : Context → Option AVCodecContext
  | .decoding ctx => some ctx
  | .encoding _ => none

/-- What libavcodec answers an encoder. There is no encoder for `AV_CODEC_ID_NONE`, and a
context without codec is not opened. -/
structure EncoderLibav where
  findEncoder : UInt32 → Option AVCodec
  findEncoderByName : String → Option AVCodec
  allocContext : Option AVCodec → Bool
  openContext : EncodingContext → Int
  find_none : findEncoder 0 = none
  open_none : ∀ ctx, ctx.codec = none → openContext ctx < 0

/-- Encoders for all codecs, which have no names. -/
def EncoderLibav.sample : EncoderLibav where
  findEncoder id := if id = 0 then none else some ⟨id, AVMediaType.video⟩
  findEncoderByName _ := none
  allocContext _ := true
  openContext ctx := if ctx.codec = none then -1 else 0
  find_none := rfl
  open_none ctx hnone := by simp [hnone]

namespace Graph

/-- `StreamData` with its pointers. -/
structure Data where
  filename : String
  stream : Option Nat
  timeBase : AVRational
  avgFrameRate : AVRational
  rFrameRate : AVRational
  parameters : Option Nat
  mediaType : AVMediaType
  codec : Option AVCodec
  context : Option Nat
  deriving DecidableEq

/-- `held` tells whether others than the keeper have a pointer to the stream. -/
structure StreamObject where
  data : Option Data
  keeper : Option Nat
  held : Bool
  deriving DecidableEq

/-- `FrameSource`, of which a decoder is one. -/
structure FrameSource where
  parameters : Nat
  timeBase : AVRational
  avgFrameRate : AVRational
  rFrameRate : AVRational
  deriving DecidableEq

structure Encoder where
  stream : Nat
  src : Option Nat
  deriving DecidableEq

/-- The objects that the user and the library make. A reader has the addresses of the streams
of its open container. -/
inductive Object
  | gone
  | reader (addresses : List Nat)
  | stream (s : StreamObject)
  | decoder (source : FrameSource)
  | encoder (encoder : Encoder)
  | muxer (muxer : Muxer)

end Graph

structure Graph where
  parameters : Blocks AVCodecParameters
  contexts : Blocks Context
  avStreams : Blocks AVStream
  objects : List Graph.Object

namespace Graph

def empty : Graph := ⟨.empty, .empty, .empty, []⟩

def put (g : Graph) (i : Nat) (object : Object) : Graph :=
  { g with objects := g.objects.set i object }

def add (g : Graph) (object : Object) : Graph :=
  { g with objects := g.objects ++ [object] }

section Streams

variable (g : Graph)

/-- `*pointer`, of a shared pointer to a stream. -/
def streamAt (i : Nat) : Except Crash StreamObject :=
  match g.objects[i]? with
  | some (.stream s) => .ok s
  | _ => .error .useAfterFree

/-- What stands behind a pointer that is dereferenced. -/
def deref {α : Type} : Option α → Except Crash α
  | some a => .ok a
  | none => .error .nullDereference

/-- `StreamData::~StreamData`, which frees the context too. -/
def destroyData (data : Data) : Except Crash Graph := do
  let parameters ← g.parameters.freeIfSet data.parameters
  let contexts ← g.contexts.freeIfSet data.context
  pure { g with parameters := parameters, contexts := contexts }

/-- A stream after its keeper or its last other holder has let it go, if there is another. -/
def settle (i : Nat) (s : StreamObject) : Except Crash Graph :=
  if s.keeper = none ∧ s.held = false then
    match s.data with
    | none => .ok (g.put i .gone)
    | some data => (g.put i .gone).destroyData data
  else .ok (g.put i (.stream s))

/-- The keeper lets the stream go. -/
def unkeep (i : Nat) : Except Crash Graph := do
  let s ← g.streamAt i
  g.settle i { s with keeper := none }

/-- The streams that an object keeps. -/
def kept (keeper : Nat) : List Nat :=
  (List.range g.objects.length).filter fun i =>
    match g.objects[i]? with
    | some (.stream s) => s.keeper = some keeper
    | _ => false

/-- The data as the other models know them. A pointer to a block that was freed is shown as
null. -/
def viewData (data : Data) : StreamData where
  filename := data.filename
  stream := data.stream.bind g.avStreams.get
  timeBase := data.timeBase
  avgFrameRate := data.avgFrameRate
  rFrameRate := data.rFrameRate
  parameters := data.parameters.bind g.parameters.get
  mediaType := data.mediaType
  codec := data.codec
  context := (data.context.bind g.contexts.get).bind Context.decoder

def view (i : Nat) (s : StreamObject) : Stream := ⟨i, s.data.map g.viewData⟩

end Streams

section Sources

/-- The data of a stream of a container before there is a context. -/
def newData (filename : String) (address : Nat) (av : AVStream) (p : Nat)
    (codec : Option AVCodec) : Data where
  filename := filename
  stream := some address
  timeBase := av.timeBase
  avgFrameRate := ⟨0, 0⟩
  rFrameRate := ⟨0, 0⟩
  parameters := some p
  mediaType := AVMediaType.unknown
  codec := codec
  context := none

/-- A turn of the loop in `PacketReader::setupStreams`. -/
def setupStream (libav : Nat → Libav) (filename : String) (reader : Nat) (g : Graph)
    (address : Nat) : Except Crash Graph := do
  let (p, parameters) := g.parameters.alloc AVCodecParameters.blank
  let av ← g.avStreams.read address
  let parameters ← parameters.write p av.codecpar
  let g := { g with parameters := parameters }
  let codec := (libav av.index).findDecoder av.codecpar.codecId
  let data := newData filename address av p codec
  match codec with
  | none => g.destroyData data
  | some codec =>
      let data := { data with mediaType := codec.type }
      if (libav av.index).allocContext codec then
        let (c, contexts) := g.contexts.alloc (.decoding ⟨codec, none, ⟨0, 1⟩, false⟩)
        let data := { data with context := some c }
        let ctx := PacketReader.newContext av codec
        let contexts ← contexts.write c (.decoding ctx)
        if (libav av.index).openContext ctx then
          let contexts ← contexts.write c (.decoding { ctx with opened := true })
          pure ({ g with contexts := contexts }.add (.stream ⟨some data, some reader, false⟩))
        else
          let g ← { g with contexts := contexts }.destroyData data
          pure (g.add (.stream ⟨none, some reader, false⟩))
      else g.destroyData data

/-- A container is opened; libav allocates its streams. -/
def allocStreams : List AVStream → Blocks AVStream → List Nat × Blocks AVStream
  | [], b => ([], b)
  | av :: avs, b =>
      let (address, b) := b.alloc av
      let (addresses, b) := allocStreams avs b
      (address :: addresses, b)

/-- A reader of a container that could be opened. -/
def openReader (g : Graph) (libav : Nat → Libav) (filename : String)
    (formatContext : FormatContext) : Except Crash Graph :=
  let (addresses, avStreams) := allocStreams formatContext.streams g.avStreams
  addresses.foldlM (setupStream libav filename g.objects.length)
    ({ g with avStreams := avStreams }.add (.reader addresses))

/-- `PacketReader::close`: `avformat_close_input`, and the vectors are cleared. -/
def closeReader (g : Graph) (r : Nat) (addresses : List Nat) : Except Crash Graph := do
  let streams := g.kept r
  let avStreams ← addresses.foldlM Blocks.free g.avStreams
  streams.foldlM unkeep ({ g with avStreams := avStreams }.put r (.reader []))

/-- `Stream(Segment*)`. When the constructor of the data throws, its destructor does not run. -/
def rebuild (g : Graph) (libav : Libav) (seg : Segment) :
    Except Crash (Option String × Graph) := do
  let (p, parameters) := g.parameters.alloc AVCodecParameters.blank
  let parameters ← parameters.write p seg.parameters
  let g := { g with parameters := parameters }
  match libav.findDecoder seg.parameters.codecId with
  | none =>
      pure (some ("Unknown codec id: " ++ toString seg.parameters.codecId.toInt32.toInt), g)
  | some codec =>
      if libav.allocContext codec then
        let (c, contexts) := g.contexts.alloc (.decoding ⟨codec, none, ⟨0, 1⟩, false⟩)
        let contexts ← contexts.write c (.decoding (seg.newContext codec))
        let data : Data := ⟨seg.jobId.unparse, none, seg.timeBase, ⟨0, 0⟩, ⟨0, 0⟩, some p,
          AVMediaType.unknown, some codec, some c⟩
        pure (none, { g with contexts := contexts }.add (.stream ⟨some data, none, true⟩))
      else pure (some "Could not create codec context", g)

end Sources

section Decoders

def makeDecoder (g : Graph) : Graph :=
  let (p, parameters) := g.parameters.alloc AVCodecParameters.blank
  { g with parameters := parameters }.add (.decoder ⟨p, ⟨0, 0⟩, ⟨0, 0⟩, ⟨0, 0⟩⟩)

/-- `FrameSource::~FrameSource`. -/
def destroyDecoder (g : Graph) (d : Nat) (source : FrameSource) : Except Crash Graph := do
  let parameters ← g.parameters.free source.parameters
  pure ({ g with parameters := parameters }.put d .gone)

/-- `PacketSubscriber::subscribe` and `Decoder::subscribeCallback`. -/
def subscribeDecoder (g : Graph) (d : Nat) (source : FrameSource) (s : StreamObject) :
    Except Crash Graph := do
  let data ← deref s.data
  match data.stream with
  | none => pure g
  | some address =>
      let p ← deref data.parameters
      let par ← g.parameters.read p
      let parameters ← g.parameters.write source.parameters par
      let av ← g.avStreams.read address
      pure ({ g with parameters := parameters }.put d (.decoder { source with
        timeBase := data.timeBase
        avgFrameRate := av.avgFrameRate
        rFrameRate := av.rFrameRate }))

end Decoders

section Encoders

/-- The part of `Encoder::subscribeCallback` that depends on the type of media. -/
def configure (ctx : EncodingContext) (par : AVCodecParameters) : EncodingContext :=
  if par.codecType = AVMediaType.audio then
    { ctx with
      sampleFmt := par.format
      sampleRate := par.sampleRate
      channels := par.channels
      channelLayout := par.channelLayout
      frameSize := par.frameSize }
  else if par.codecType = AVMediaType.video then
    { ctx with pixFmt := par.format, width := par.width, height := par.height }
  else ctx

/-- The context that `Encoder::subscribeCallback` comes to open. -/
def contextFor (codec : Option AVCodec) (par : AVCodecParameters) (timeBase : AVRational) :
    EncodingContext :=
  let ctx := configure (EncodingContext.alloc codec) par
  if timeBase.den ≠ 0 then { ctx with timeBase := timeBase } else ctx

theorem contextFor_unopened (codec : Option AVCodec) (par : AVCodecParameters)
    (timeBase : AVRational) :
    { contextFor codec par timeBase with opened := false } = contextFor codec par timeBase := by
  have hopened : (contextFor codec par timeBase).opened = false := by
    unfold contextFor configure
    dsimp only
    repeat' split
    all_goals rfl
  rw [← hopened]

/-- The data of an encoder's stream in the constructor. -/
def encoderData (p : Nat) (codec : Option AVCodec) : Data where
  filename := ""
  stream := none
  timeBase := ⟨0, 0⟩
  avgFrameRate := ⟨0, 0⟩
  rFrameRate := ⟨0, 0⟩
  parameters := some p
  mediaType := AVMediaType.unknown
  codec := codec
  context := none

/-- The codec that an encoder is made with. -/
def namedCodec (libav : EncoderLibav) (codecName : String) : Option AVCodec :=
  if codecName = "" then none else libav.findEncoderByName codecName

/-- `Encoder::Encoder`. The pointer to the parameters that the data come with is overwritten. -/
def makeEncoder (g : Graph) (libav : EncoderLibav) (codecName : String) :
    Except Crash (Option String × Graph) := do
  let (_, parameters) := g.parameters.alloc AVCodecParameters.blank
  let (p, parameters) := parameters.alloc AVCodecParameters.blank
  let g := { g with parameters := parameters }
  let codec := namedCodec libav codecName
  if codecName ≠ "" ∧ codec = none then
    let g ← g.destroyData (encoderData p codec)
    pure (some ("Could not find codec " ++ codecName), g)
  else
    let e := g.objects.length + 1
    pure (none, (g.add (.stream ⟨some (encoderData p codec), some e, false⟩)).add
      (.encoder ⟨g.objects.length, none⟩))

/-- `Encoder::~Encoder`. -/
def destroyEncoder (g : Graph) (e : Nat) (encoder : Encoder) : Except Crash Graph := do
  let s ← g.streamAt encoder.stream
  let data ← deref s.data
  let parameters ← g.parameters.freeIfSet data.parameters
  let s := { s with data := some { data with parameters := none } }
  let g := ({ g with parameters := parameters }.put encoder.stream (.stream s)).put e .gone
  g.unkeep encoder.stream

/-- The data of an encoder's stream once it has its context. -/
def encodedData (data : Data) (codec : Option AVCodec) (par : AVCodecParameters) (c : Nat)
    (source : FrameSource) : Data :=
  { data with
    codec := codec
    mediaType := par.codecType
    context := some c
    avgFrameRate := source.avgFrameRate
    rFrameRate := source.rFrameRate }

/-- `Encoder::subscribeCallback`, from the allocation of the context on, which succeeds. -/
def openEncoder (g : Graph) (libav : EncoderLibav) (i : Nat) (s : StreamObject) (data : Data)
    (par : AVCodecParameters) (source : FrameSource) : Except Crash (Option String × Graph) := do
  let codec := libav.findEncoder par.codecId
  let (c, contexts) := g.contexts.alloc (.encoding (EncodingContext.alloc codec))
  let p ← deref data.parameters
  let parameters ← g.parameters.write p par
  let ctx := contextFor codec par source.timeBase
  let contexts ← contexts.write c (.encoding ctx)
  -- `setContext` destroys the context that it replaces
  let contexts ← contexts.freeIfSet data.context
  let stream : Object := .stream { s with data := some (encodedData data codec par c source) }
  if libav.openContext ctx < 0 then
    pure (some ("Could not open context for codec " ++ toString par.codecId.toInt32.toInt),
      { g with parameters := parameters, contexts := contexts }.put i stream)
  else
    let contexts ← contexts.write c (.encoding { ctx with opened := true })
    pure (none, { g with parameters := parameters, contexts := contexts }.put i stream)

/-- `Encoder::subscribeCallback`. -/
def subscribeEncoder (g : Graph) (libav : EncoderLibav) (e : Nat) (encoder : Encoder) (d : Nat)
    (source : FrameSource) : Except Crash (Option String × Graph) := do
  let s ← g.streamAt encoder.stream
  let data ← deref s.data
  let g := g.put e (.encoder { encoder with src := encoder.src.or (some d) })
  let par ← g.parameters.read source.parameters
  let codec := libav.findEncoder par.codecId
  if libav.allocContext codec then
    g.openEncoder libav encoder.stream s data par source
  else
    pure (some "Could not find codec",
      g.put encoder.stream (.stream { s with data := some { data with codec := codec } }))

end Encoders

section Muxers

/-- What an exception says. -/
def text : Muxer.Exception → String
  | .fault (.runtimeError what) => what
  | .fault _ => ""
  | .string text => text

/-- How a call of a muxer ends. -/
def finish (g : Graph) (m : Nat) : Muxer.Outcome × Muxer → Except Crash (Option String × Graph)
  | (.ok _, muxer) => .ok (none, g.put m (.muxer muxer))
  | (.error e, muxer) =>
      if Muxer.fatal (.error e) then .error .nullDereference
      else .ok (some (text e), g.put m (.muxer muxer))

/-- `Muxer::subscribe`, on the stream as it is. -/
def subscribeMuxer (g : Graph) (libav : Muxer.Libavformat) (m : Nat) (muxer : Muxer) (i : Nat)
    (s : StreamObject) : Except Crash (Option String × Graph) :=
  g.finish m (muxer.subscribe libav (g.view i s))

/-- `Muxer::process` of a packet that comes with a stream. `copyTimingData` looks at the stream
of the container after it has seen that there is an output stream. -/
def processMuxer (g : Graph) (libav : Muxer.Libavformat) (m : Nat) (muxer : Muxer) (k : Nat)
    (info : Muxer.StreamInfo) (packet : Packet) (s : StreamObject) :
    Except Crash (Option String × Graph) := do
  let _ ← g.avStreams.readIfSet (info.stream.bind fun _ => s.data.bind Data.stream)
  g.finish m (muxer.process libav k info packet (s.data.map g.viewData))

/-- `Muxer::~Muxer`. -/
def destroyMuxer (g : Graph) (libav : Muxer.Libavformat) (m : Nat) (muxer : Muxer) :
    Except Crash Graph :=
  match (muxer.close libav).1 with
  | .ok _ => .ok (g.put m .gone)
  | .error _ => .error .terminated

end Muxers

/-- What the user does. `hold` and `release` are about the pointers to a stream that are not
its keeper's. -/
inductive Label
  | openReader (libav : Nat → Libav) (filename : String) (formatContext : FormatContext)
  | closeReader (r : Nat)
  | rebuild (libav : Libav) (seg : Segment)
  | hold (i : Nat)
  | release (i : Nat)
  | makeDecoder
  | destroyDecoder (d : Nat)
  | subscribeDecoder (d i : Nat)
  | makeEncoder (libav : EncoderLibav) (codecName : String)
  | destroyEncoder (e : Nat)
  | subscribeEncoder (libav : EncoderLibav) (e d : Nat)
  | makeMuxer (libav : Muxer.Libavformat) (filename format : String) (bufferMax : Int64)
  | subscribeMuxer (libav : Muxer.Libavformat) (m i : Nat)
  | process (libav : Muxer.Libavformat) (m k : Nat) (packet : Packet) (i : Nat)
  | flush (libav : Muxer.Libavformat) (m : Nat)
  | openOutput (libav : Muxer.Libavformat) (m : Nat)
  | closeOutput (libav : Muxer.Libavformat) (m : Nat)
  | destroyMuxer (libav : Muxer.Libavformat) (m : Nat)

/-- A call of a muxer, if it is there. -/
def onMuxer {α : Type} (g : Graph) (m : Nat) (call : Muxer → α) : Option α :=
  match g.objects[m]? with
  | some (.muxer muxer) => some (call muxer)
  | _ => none

/-- The call, or `none` where the objects that it is about are not there. -/
def call (g : Graph) : Label → Option (Except Crash (Option String × Graph))
  | .openReader libav filename formatContext =>
      some ((g.openReader libav filename formatContext).map (none, ·))
  | .closeReader r =>
      match g.objects[r]? with
      | some (.reader addresses) => some ((g.closeReader r addresses).map (none, ·))
      | _ => none
  | .rebuild libav seg => some (g.rebuild libav seg)
  | .hold i =>
      match g.objects[i]? with
      | some (.stream s) => some (.ok (none, g.put i (.stream { s with held := true })))
      | _ => none
  | .release i =>
      match g.objects[i]? with
      | some (.stream s) => some ((g.settle i { s with held := false }).map (none, ·))
      | _ => none
  | .makeDecoder => some (.ok (none, g.makeDecoder))
  | .destroyDecoder d =>
      match g.objects[d]? with
      | some (.decoder source) => some ((g.destroyDecoder d source).map (none, ·))
      | _ => none
  | .subscribeDecoder d i =>
      match g.objects[d]?, g.objects[i]? with
      | some (.decoder source), some (.stream s) =>
          some ((g.subscribeDecoder d source s).map (none, ·))
      | _, _ => none
  | .makeEncoder libav codecName => some (g.makeEncoder libav codecName)
  | .destroyEncoder e =>
      match g.objects[e]? with
      | some (.encoder encoder) => some ((g.destroyEncoder e encoder).map (none, ·))
      | _ => none
  | .subscribeEncoder libav e d =>
      match g.objects[e]?, g.objects[d]? with
      | some (.encoder encoder), some (.decoder source) =>
          some (g.subscribeEncoder libav e encoder d source)
      | _, _ => none
  | .makeMuxer libav filename format bufferMax =>
      match Muxer.create libav filename format bufferMax with
      | .ok muxer => some (.ok (none, g.add (.muxer muxer)))
      | .error e => some (.ok (some (text e), g))
  | .subscribeMuxer libav m i =>
      match g.objects[m]?, g.objects[i]? with
      | some (.muxer muxer), some (.stream s) => some (g.subscribeMuxer libav m muxer i s)
      | _, _ => none
  | .process libav m k packet i =>
      match g.objects[m]?, g.objects[i]? with
      | some (.muxer muxer), some (.stream s) =>
          muxer.streaminfo[k]?.map fun info => g.processMuxer libav m muxer k info packet s
      | _, _ => none
  | .flush libav m => g.onMuxer m fun muxer => g.finish m (muxer.flush libav)
  | .openOutput libav m => g.onMuxer m fun muxer => g.finish m (muxer.openOutput libav)
  | .closeOutput libav m => g.onMuxer m fun muxer => g.finish m (muxer.close libav)
  | .destroyMuxer libav m =>
      g.onMuxer m fun muxer => (g.destroyMuxer libav m muxer).map (none, ·)

/-- A graph with the texts of the exceptions that calls ended with, and what has become of the
process. -/
structure Run where
  graph : Graph
  thrown : List String
  crash : Option Crash

namespace Run

def start : Run := ⟨empty, [], none⟩

/-- One call. After a crash there is none. -/
def step (r : Run) (l : Label) : Option Run :=
  if r.crash = none then
    (r.graph.call l).map fun
      | .error crash => { r with crash := some crash }
      | .ok (what, graph) => { r with graph := graph, thrown := r.thrown ++ what.toList }
  else none

end Run

end Graph

end Media2
