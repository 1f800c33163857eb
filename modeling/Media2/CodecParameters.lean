import Mathlib.Tactic.Common

/-!
# Codec parameters and the libav records around them

The fields are those the program reads, writes or serialises. Enumerations are
kept as the integers they are stored as, because they travel over the wire and
a receiver may find any value in them.
-/

namespace Media2

structure AVRational where
  num : Int32
  den : Int32
  deriving DecidableEq

/-- `AVMediaType`, an `int` with named values. -/
structure AVMediaType where
  code : Int32
  deriving DecidableEq

namespace AVMediaType

def unknown : AVMediaType := ⟨-1⟩
def video : AVMediaType := ⟨0⟩
def audio : AVMediaType := ⟨1⟩

end AVMediaType

/-- `AVCodecParameters`. The last field says that `extradata_size` counts the
bytes behind the `extradata` pointer. -/
structure AVCodecParameters where
  codecType : AVMediaType
  codecId : UInt32
  codecTag : UInt32
  extradata : List UInt8
  extradataSize : Int32
  format : Int32
  bitRate : Int64
  bitsPerCodedSample : Int32
  bitsPerRawSample : Int32
  profile : Int32
  level : Int32
  width : Int32
  height : Int32
  sampleAspectRatio : AVRational
  fieldOrder : UInt32
  colorRange : UInt32
  colorPrimaries : UInt32
  colorTrc : UInt32
  colorSpace : UInt32
  chromaLocation : UInt32
  videoDelay : Int32
  channelLayout : UInt64
  channels : Int32
  sampleRate : Int32
  blockAlign : Int32
  frameSize : Int32
  initialPadding : Int32
  trailingPadding : Int32
  seekPreroll : Int32
  extradata_eq : extradataSize.toInt = extradata.length
  deriving DecidableEq

/-- `memset(&parameters, '\0', sizeof(AVCodecParameters))`. -/
def AVCodecParameters.zero : AVCodecParameters where
  codecType := ⟨0⟩
  codecId := 0
  codecTag := 0
  extradata := []
  extradataSize := 0
  format := 0
  bitRate := 0
  bitsPerCodedSample := 0
  bitsPerRawSample := 0
  profile := 0
  level := 0
  width := 0
  height := 0
  sampleAspectRatio := ⟨0, 0⟩
  fieldOrder := 0
  colorRange := 0
  colorPrimaries := 0
  colorTrc := 0
  colorSpace := 0
  chromaLocation := 0
  videoDelay := 0
  channelLayout := 0
  channels := 0
  sampleRate := 0
  blockAlign := 0
  frameSize := 0
  initialPadding := 0
  trailingPadding := 0
  seekPreroll := 0
  extradata_eq := by decide

/-- The part of a codec descriptor the program looks at. -/
structure AVCodec where
  id : UInt32
  type : AVMediaType
  deriving DecidableEq

/-- A codec context as the program sets it up. `opened` records a successful
`avcodec_open2`; `parameters` what `avcodec_parameters_to_context` put in. -/
structure AVCodecContext where
  codec : AVCodec
  parameters : Option AVCodecParameters
  timeBase : AVRational
  opened : Bool
  deriving DecidableEq

/-- A stream of an opened container; the pointer to it is told apart by `index`. -/
structure AVStream where
  index : Nat
  timeBase : AVRational
  avgFrameRate : AVRational
  rFrameRate : AVRational
  codecpar : AVCodecParameters
  deriving DecidableEq

end Media2
