import HyperStream.Controller
import HyperStream.Traced
set_option autoImplicit false

namespace HyperStream

inductive AVHWDeviceType where
  | cuda
  | other (id : Nat)
  deriving DecidableEq, Repr

inductive AVPixelFormat where
  | cuda
  | nv12
  | other (id : Nat)
  deriving DecidableEq, Repr

structure AVHWDeviceContext where
  type : AVHWDeviceType
  deriving DecidableEq, Repr

structure AVHWFramesContext where
  format : AVPixelFormat
  swFormat : AVPixelFormat
  width : Int
  height : Int
  initialPoolSize : Int
  deriving DecidableEq, Repr

/-- The fields of an encoder context that the program sets. -/
structure AVCodecContext where
  width : Int
  height : Int
  timeBase : AVRational
  framerate : AVRational
  pixFmt : AVPixelFormat
  bitRate : Int
  preset : String
  hwDeviceCtx : Option AVHWDeviceContext
  hwFramesCtx : Option AVHWFramesContext
  deriving DecidableEq, Repr

structure MediaSourceParam where
  url : String
  deriving DecidableEq, Repr

structure MediaSinkParam where
  url : String
  encCtx : Option AVCodecContext
  deriving DecidableEq, Repr

structure VideoDecoderParam where
  videoStreams : List AVStream
  hwDeviceCtx : Option AVHWDeviceContext
  hwFramesCtx : Option AVHWFramesContext
  deriving DecidableEq, Repr

structure VideoEncoderParam where
  width : Int
  height : Int
  bitRate : Int
  hwFramesCtx : Option AVHWFramesContext
  framerate : AVRational
  timebase : AVRational
  preset : String
  hwDeviceCtx : Option AVHWDeviceContext
  deriving DecidableEq, Repr

structure VideoProcessorParam extends MultiviewCompositor.Param where
  hwFramesCtx : Option AVHWFramesContext
  deriving DecidableEq, Repr

structure ControllerParam where
  sourceParam : MediaSourceParam
  sinkParam : MediaSinkParam
  decoderParam : VideoDecoderParam
  encoderParam : VideoEncoderParam
  processorParam : VideoProcessorParam
  deriving DecidableEq, Repr

namespace MediaSource

/-- The library calls of initialize, and the streams of the input that they open. -/
structure Calls where
  openInput : String → Bool
  findStreamInfo : Bool
  streams : List AVStream

/-- `input_ctx`, of which get_video_streams and run() read the streams. -/
structure Object where
  param : MediaSourceParam
  inputCtx : Option (List AVStream)

def initializeSource (calls : Calls) (param : MediaSourceParam) : Bool × Object :=
  if !calls.openInput param.url then (false,⟨param,none⟩)
  else (calls.findStreamInfo,⟨param,some calls.streams⟩)

def Object.ready (this : Object) : Bool := this.inputCtx.isSome

theorem initializeSource_inputCtx {calls : Calls} {param : MediaSourceParam} {ok : Bool}
    {this : Object} {streams : List AVStream} (h : initializeSource calls param = (ok,this))
    (hinput : this.inputCtx = some streams) : streams = calls.streams := by
  unfold initializeSource at h
  split at h
  · cases h; cases hinput
  · cases h; cases hinput; rfl

end MediaSource

namespace MediaSink

structure Calls where
  allocOutputContext2 : String → String → Bool
  newStream : Bool
  avioOpen2 : String → Bool
  writeHeader : Bool

/-- What the output stream is declared with. -/
structure OutputStream where
  timeBase : AVRational
  avgFrameRate : AVRational
  deriving DecidableEq, Repr

structure Object where
  param : MediaSinkParam
  outputCtx : Bool
  stream : Option OutputStream

def initializeSink (calls : Calls) (param : MediaSinkParam) : Option (Bool × Object) :=
  if !calls.allocOutputContext2 "mpegts" param.url then some (false,⟨param,false,none⟩)
  else if !calls.newStream then some (false,⟨param,true,none⟩)
  else match param.encCtx with
    -- avcodec_parameters_from_context and the two lines after it read through the pointer
    | none => none
    | some encCtx =>
      some (calls.avioOpen2 param.url && calls.writeHeader,
        ⟨param,true,some ⟨encCtx.timeBase,encCtx.framerate⟩⟩)

def Object.ready (this : Object) : Bool :=
  this.outputCtx && this.stream.isSome && this.param.encCtx.isSome

end MediaSink

namespace VideoEncoder

/-- `allocContext3` gives a context with the values that the library puts in it. -/
structure Calls where
  findEncoderByName : String → Bool
  allocContext3 : Option AVCodecContext
  refDeviceCtx : Bool
  refFramesCtx : Bool
  setPreset : String → Bool
  open2 : AVCodecContext → Bool

structure Object where
  codecCtx : Option AVCodecContext

def initializeEncoder (calls : Calls) (param : VideoEncoderParam) : Bool × Object :=
  if !calls.findEncoderByName "hevc_nvenc" then (false,⟨none⟩)
  else match calls.allocContext3 with
    | none => (false,⟨none⟩)
    | some ctx =>
      let ctx := { ctx with
        width := param.width
        height := param.height
        timeBase := param.timebase
        framerate := param.framerate
        pixFmt := .cuda }
      let ctx := if param.bitRate > 0 then { ctx with bitRate := param.bitRate } else ctx
      let ctx := if param.hwDeviceCtx.isSome then
        { ctx with hwDeviceCtx := if calls.refDeviceCtx then param.hwDeviceCtx else none } else ctx
      let ctx := if param.hwFramesCtx.isSome then
        { ctx with hwFramesCtx := if calls.refFramesCtx then param.hwFramesCtx else none } else ctx
      let ctx := if !param.preset.isEmpty && calls.setPreset param.preset then
        { ctx with preset := param.preset } else ctx
      (calls.open2 ctx,⟨some ctx⟩)

def Object.ready (this : Object) : Bool := this.codecCtx.isSome

end VideoEncoder

namespace MultiviewCompositor

/-- `allocOutput` answers for the inouts of the four inputs, `allocInput` for that of the
buffer sink. -/
structure Calls where
  graphAlloc : Bool
  createBuffer : Nat → Bool
  allocOutput : Nat → Bool
  createBuffersink : Bool
  allocInput : Bool
  graphParsePtr : Bool
  graphConfig : Bool

structure Object where
  param : VideoProcessorParam
  bufferCtxs : BufferCtxs
  buffersinkCtx : Bool

def initializeProcessor (calls : Calls) (param : VideoProcessorParam) :
    Option (Bool × Object) :=
  -- a graph or a buffer source that was not made is given to the library as null
  if !calls.graphAlloc || !(List.range 4).all calls.createBuffer then none
  -- and an inout that was not made is written through
  else if !(List.range 4).all calls.allocOutput || !calls.allocInput then none
  else some (calls.graphParsePtr && calls.graphConfig,
    ⟨param,initializeBufferCtxs param.toParam calls.createBuffer,calls.createBuffersink⟩)

def Object.ready (this : Object) : Bool :=
  (List.range 4).all (fun idx => (bufferCtx this.bufferCtxs idx).1.isSome) && this.buffersinkCtx

end MultiviewCompositor

namespace VideoDecoder

structure Object (σ : Type) where
  codecContexts : Contexts σ

def initializeDecoder {σ : Type} (calls : Calls σ) (param : VideoDecoderParam) :
    Bool × Object σ :=
  let (ok,codecContexts) := initializeContexts calls param.videoStreams
  (ok,⟨codecContexts⟩)

def Object.ready {σ : Type} (this : Object σ) : Bool := !this.codecContexts.entries.isEmpty

end VideoDecoder

/-- The library calls that are made while the Controller is constructed. -/
structure Library (σ : Type) where
  hwdeviceCtxCreate : AVHWDeviceType → Bool
  hwframeCtxAlloc : Bool
  hwframeCtxInit : AVHWFramesContext → Bool
  processor : MultiviewCompositor.Calls
  encoder : VideoEncoder.Calls
  sink : MediaSink.Calls
  source : MediaSource.Calls
  decoder : VideoDecoder.Calls σ

namespace Controller

/-- A call of the initialize of a stage, with the parameters that it got. -/
inductive InitCall where
  | processor (param : VideoProcessorParam)
  | encoder (param : VideoEncoderParam)
  | sink (param : MediaSinkParam)
  | source (param : MediaSourceParam)
  | decoder (param : VideoDecoderParam)
  deriving DecidableEq, Repr

/-- A stage was initialized and answered; the streams of an input were asked for, be it open
or not; a thread was started on a stage whose contexts are set or not, or on no stage. -/
inductive Event where
  | initialized (call : InitCall) (ok : Bool)
  | getVideoStreams (isOpen : Bool)
  | started (thread : ThreadId) (ready : Option Bool)
  deriving DecidableEq, Repr

/-- The one Controller that get_instance makes. -/
structure Instance (σ : Type) where
  param : ControllerParam
  hwDeviceCtx : Option AVHWDeviceContext
  hwFramesCtx : Option AVHWFramesContext
  source : Option MediaSource.Object
  sink : Option MediaSink.Object
  decoder : Option (VideoDecoder.Object σ)
  encoder : Option VideoEncoder.Object
  processor : Option MultiviewCompositor.Object

/-- A static object: what no constructor sets is zero. -/
def Instance.zero {σ : Type} : Instance σ :=
  let param : ControllerParam :=
    ⟨⟨""⟩,⟨"",none⟩,⟨[],none,none⟩,⟨0,0,0,none,⟨0,0⟩,⟨0,0⟩,"",none⟩,⟨⟨⟨0,0⟩,⟨0,0⟩,0,0⟩,none⟩⟩
  ⟨param,none,none,none,none,none,none,none⟩

variable {σ : Type}

def Instance.initHwDevice (lib : Library σ) (c : Instance σ) : Bool × Instance σ :=
  if !lib.hwdeviceCtxCreate .cuda then (false,c)
  else
    let c := { c with hwDeviceCtx := some ⟨.cuda⟩ }
    if !lib.hwframeCtxAlloc then (false,c)
    else
      let frames : AVHWFramesContext := ⟨.cuda,.nv12,3840,2160,50⟩
      (lib.hwframeCtxInit frames,{ c with hwFramesCtx := some frames })

/-- The answer of an initialize is dropped. -/
def callInit {τ : Type} (call : InitCall) (answer : Option (Bool × τ)) : Traced Event τ := do
  let (ok,stage) ← Traced.ofOption answer
  Traced.emit (.initialized call ok)
  return stage

def getVideoStreams (source : MediaSource.Object) : Traced Event (List AVStream) := do
  Traced.emit (.getVideoStreams source.inputCtx.isSome)
  let streams ← Traced.ofOption source.inputCtx
  return MediaSource.getVideoStreams streams

def Instance.initializeStages (lib : Library σ) (c : Instance σ) : Traced Event (Instance σ) := do
  let param := c.param
  let processor ← callInit (.processor param.processorParam)
    (MultiviewCompositor.initializeProcessor lib.processor param.processorParam)
  let encoder ← callInit (.encoder param.encoderParam)
    (some (VideoEncoder.initializeEncoder lib.encoder param.encoderParam))
  let sink ← callInit (.sink param.sinkParam)
    (MediaSink.initializeSink lib.sink param.sinkParam)
  let source ← callInit (.source param.sourceParam)
    (some (MediaSource.initializeSource lib.source param.sourceParam))
  let videoStreams ← getVideoStreams source
  let decoderParam := { param.decoderParam with videoStreams := videoStreams }
  let decoder ← callInit (.decoder decoderParam)
    (some (VideoDecoder.initializeDecoder lib.decoder decoderParam))
  return ⟨{ param with decoderParam := decoderParam },c.hwDeviceCtx,c.hwFramesCtx,some source,
    some sink,some decoder,some encoder,some processor⟩

def Instance.initializeController (lib : Library σ) (c : Instance σ) :
    Traced Event (Instance σ) :=
  let (ok,c) := c.initHwDevice lib
  if !ok then pure c else c.initializeStages lib

def getInstance (lib : Library σ) : Traced Event (Instance σ) :=
  Instance.zero.initializeController lib

/-- A thread that is started on no stage calls run() through a null pointer. -/
def startThread (thread : ThreadId) (ready : Option Bool) : Traced Event Unit := do
  Traced.emit (.started thread ready)
  if ready.isNone then Traced.undefined

def Instance.run (c : Instance σ) : Traced Event Unit := do
  startThread .source (c.source.map (·.ready))
  startThread .decoder (c.decoder.map (·.ready))
  startThread .processor (c.processor.map (·.ready))
  startThread .encoder (c.encoder.map (·.ready))
  startThread .sink (c.sink.map (·.ready))

/-- The parameters that main builds; it leaves the encoder context of the sink as it is. -/
def mainParam (c : Instance σ) (encCtx : Option AVCodecContext) : ControllerParam where
  sourceParam :=
    ⟨"srt://0.0.0.0:5000?mode=listener&latency=2000&pkt_size=1316&rcvbuf=1073741824"⟩
  sinkParam := ⟨"./output.mp4",encCtx⟩
  decoderParam := ⟨[],c.hwDeviceCtx,c.hwFramesCtx⟩
  encoderParam :=
    ⟨3840,2160,10000000,c.hwFramesCtx,⟨60,1⟩,⟨1,60⟩,"p4",c.hwDeviceCtx⟩
  processorParam := ⟨⟨⟨60,1⟩,⟨1,60⟩,3840,2160⟩,c.hwFramesCtx⟩

/-- main, with the parameters it has built: nobody gets them. -/
def main (lib : Library σ) (encCtx : Option AVCodecContext) : Traced Event ControllerParam := do
  let c ← getInstance lib
  let param := mainParam c encCtx
  c.run
  return param

end Controller
end HyperStream
