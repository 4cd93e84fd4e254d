import HyperStream.Codec
import HyperStream.Process
import HyperStream.Transport
set_option autoImplicit false

open Transition

namespace HyperStream

/-- What Controller::run starts from: the answers of the demuxer, and the library components
in the states that the initialize methods left. -/
structure Setup where
  streams : List AVStream
  read : Nat → Option AVPacket
  decoder : Component AVPacket AVFrame
  graph : Component (Nat × AVFrame) AVFrame
  encoder : Component AVFrame AVPacket
  contexts : VideoDecoder.Contexts decoder.State
  bufferCtxs : MultiviewCompositor.BufferCtxs
  graphState : graph.State
  encoderState : VideoEncoder.State encoder
  timeBases : MediaSink.TimeBases

/-- The next store of Controller::stop: an is_stop flag, or a channel's. -/
inductive StopPC where
  | source
  | decoder
  | ingest
  | processor
  | encoder
  | filter
  | sink
  | returned
  deriving DecidableEq, Repr

inductive ThreadId where
  | source
  | decoder
  | processor
  | encoder
  | sink
  | stopper
  deriving DecidableEq, Repr

inductive ChannelId where
  | ingest
  | decode
  | filter
  | encode
  deriving DecidableEq, Repr

/-- Which thread moves, whom its notify_one picks and whether its allocation succeeds; or
which side of a channel wakes without a notification. -/
inductive Label where
  | run (thread : ThreadId) (target : Option Side) (alloc : Bool)
  | wake (channel : ChannelId) (side : Side)
  deriving DecidableEq, Repr

abbrev Setup.decoderStage (su : Setup) : Stage AVPacket AVFrame := VideoDecoder.stage su.decoder

abbrev Setup.processorStage (su : Setup) : Stage AVFrame AVFrame :=
  MultiviewCompositor.stage su.graph

abbrev Setup.encoderStage (su : Setup) : Stage AVFrame AVPacket := VideoEncoder.stage su.encoder

/-- The controller while its threads run, with a sixth thread that calls stop. -/
structure Controller (su : Setup) where
  source : MediaSource.Thread
  decoder : Worker su.decoderStage.State AVPacket AVFrame
  processor : Worker su.processorStage.State AVFrame AVFrame
  encoder : Worker su.encoderStage.State AVFrame AVPacket
  sink : MediaSink.Thread
  stopper : StopPC
  ingest : Channel Side AVPacket
  decode : Channel Side AVFrame
  filter : Channel Side AVFrame
  encode : Channel Side AVPacket

namespace Controller
variable {su : Setup}

def start (su : Setup) : Controller su where
  source := MediaSource.start
  decoder := .start ⟨su.contexts,0⟩
  processor := .start ⟨su.bufferCtxs,su.graphState⟩
  encoder := .start su.encoderState
  sink := MediaSink.start
  stopper := .source
  ingest := .new Channel.packetCapacity
  decode := .new Channel.frameCapacity
  filter := .new Channel.frameCapacity
  encode := .new Channel.packetCapacity

def stop (s : Controller su) : Outcome (Controller su) :=
  match s.stopper with
  | .source => .next { s with source := { s.source with isStop := true }, stopper := .decoder }
  | .decoder => .next { s with decoder := { s.decoder with isStop := true }, stopper := .ingest }
  | .ingest => .next { s with ingest := s.ingest.stop, stopper := .processor }
  | .processor =>
    .next { s with processor := { s.processor with isStop := true }, stopper := .encoder }
  | .encoder => .next { s with encoder := { s.encoder with isStop := true }, stopper := .filter }
  | .filter => .next { s with filter := s.filter.stop, stopper := .sink }
  | .sink => .next { s with sink := { s.sink with isStop := true }, stopper := .returned }
  | .returned => .disabled

def step (e : EmptyPop) (s : Controller su) : Label → Outcome (Controller su)
  | .run .source target alloc =>
    (MediaSource.step su.streams su.read target alloc s.source s.ingest).bind fun p =>
      .next { s with source := p.1, ingest := p.2 }
  | .run .decoder target alloc =>
    (Worker.step su.decoderStage e target alloc s.decoder s.ingest s.decode).bind fun p =>
      .next { s with decoder := p.1, ingest := p.2.1, decode := p.2.2 }
  | .run .processor target alloc =>
    (Worker.step su.processorStage e target alloc s.processor s.decode s.filter).bind fun p =>
      .next { s with processor := p.1, decode := p.2.1, filter := p.2.2 }
  | .run .encoder target alloc =>
    (Worker.step su.encoderStage e target alloc s.encoder s.filter s.encode).bind fun p =>
      .next { s with encoder := p.1, filter := p.2.1, encode := p.2.2 }
  | .run .sink target _ =>
    (MediaSink.step su.timeBases e target s.sink s.encode).bind fun p =>
      .next { s with sink := p.1, encode := p.2 }
  | .run .stopper _ _ => s.stop
  | .wake .ingest side => (s.ingest.wakeSpuriously side).bind fun c => .next { s with ingest := c }
  | .wake .decode side => (s.decode.wakeSpuriously side).bind fun c => .next { s with decode := c }
  | .wake .filter side => (s.filter.wakeSpuriously side).bind fun c => .next { s with filter := c }
  | .wake .encode side => (s.encode.wakeSpuriously side).bind fun c => .next { s with encode := c }

def program (su : Setup) (e : EmptyPop) : Program (Controller su) Label := ⟨start su,step e⟩

def AllocsSucceed (_ : Controller su) : Label → Prop
  | .run _ _ alloc => alloc = true
  | .wake _ _ => True

/-- All allocations succeed, and stop is not called. -/
def Undisturbed (_ : Controller su) : Label → Prop
  | .run thread _ alloc => thread ≠ .stopper ∧ alloc = true
  | .wake _ _ => True

theorem Undisturbed.allocs {s : Controller su} {a : Label} (h : Undisturbed s a) :
    AllocsSucceed s a := by
  cases a with
  | run => exact h.2
  | wake => trivial

/-- Each thread in turn takes the given number of steps; none of them has a sleeper to wake. -/
def turns (schedule : List (ThreadId × Nat)) : List Label :=
  schedule.flatMap fun p => List.replicate p.2 (.run p.1 none true)

theorem mem_turns {schedule : List (ThreadId × Nat)} {a : Label} (h : a ∈ turns schedule) :
    ∃ p ∈ schedule, a = .run p.1 none true := by
  obtain ⟨p,hp,ha⟩ := List.mem_flatMap.mp h
  exact ⟨p,hp,(List.mem_replicate.mp ha).2⟩

theorem allocsSucceed_of_mem_turns {schedule : List (ThreadId × Nat)} {a : Label}
    {s : Controller su} (h : a ∈ turns schedule) : AllocsSucceed s a := by
  obtain ⟨p,-,rfl⟩ := mem_turns h
  rfl

theorem undisturbed_of_mem_turns {schedule : List (ThreadId × Nat)} {a : Label}
    {s : Controller su} (hno : ∀ p ∈ schedule, p.1 ≠ .stopper) (h : a ∈ turns schedule) :
    Undisturbed s a := by
  obtain ⟨p,hp,rfl⟩ := mem_turns h
  exact ⟨hno p hp,rfl⟩

/-- All that a step can do. -/
inductive Stepped (e : EmptyPop) (s : Controller su) : Label → Controller su → Prop where
  | source {target : Option Side} {alloc : Bool} {th : MediaSource.Thread}
      {dst : Channel Side AVPacket} :
      MediaSource.Stepped su.streams su.read alloc s.source s.ingest th dst →
      Stepped e s (.run .source target alloc) { s with source := th, ingest := dst }
  | decoder {target : Option Side} {alloc : Bool}
      {w : Worker su.decoderStage.State AVPacket AVFrame} {src : Channel Side AVPacket}
      {dst : Channel Side AVFrame} :
      Worker.Stepped su.decoderStage e alloc s.decoder s.ingest s.decode w src dst →
      Stepped e s (.run .decoder target alloc) { s with decoder := w, ingest := src, decode := dst }
  | processor {target : Option Side} {alloc : Bool}
      {w : Worker su.processorStage.State AVFrame AVFrame} {src dst : Channel Side AVFrame} :
      Worker.Stepped su.processorStage e alloc s.processor s.decode s.filter w src dst →
      Stepped e s (.run .processor target alloc)
        { s with processor := w, decode := src, filter := dst }
  | encoder {target : Option Side} {alloc : Bool}
      {w : Worker su.encoderStage.State AVFrame AVPacket} {src : Channel Side AVFrame}
      {dst : Channel Side AVPacket} :
      Worker.Stepped su.encoderStage e alloc s.encoder s.filter s.encode w src dst →
      Stepped e s (.run .encoder target alloc) { s with encoder := w, filter := src, encode := dst }
  | sink {target : Option Side} {alloc : Bool} {th : MediaSink.Thread}
      {src : Channel Side AVPacket} :
      MediaSink.Stepped su.timeBases e s.sink s.encode th src →
      Stepped e s (.run .sink target alloc) { s with sink := th, encode := src }
  | stopper {target : Option Side} {alloc : Bool} {s' : Controller su} :
      s.stop = .next s' → Stepped e s (.run .stopper target alloc) s'
  | wakeIngest {side : Side} {c : Channel Side AVPacket} :
      s.ingest.wakeSpuriously side = .next c →
      Stepped e s (.wake .ingest side) { s with ingest := c }
  | wakeDecode {side : Side} {c : Channel Side AVFrame} :
      s.decode.wakeSpuriously side = .next c →
      Stepped e s (.wake .decode side) { s with decode := c }
  | wakeFilter {side : Side} {c : Channel Side AVFrame} :
      s.filter.wakeSpuriously side = .next c →
      Stepped e s (.wake .filter side) { s with filter := c }
  | wakeEncode {side : Side} {c : Channel Side AVPacket} :
      s.encode.wakeSpuriously side = .next c →
      Stepped e s (.wake .encode side) { s with encode := c }

variable {e : EmptyPop} {s s' : Controller su} {a : Label}

/-- All that a step of stop can do. -/
inductive StopStep (s : Controller su) : Controller su → Prop where
  | source : s.stopper = .source →
      StopStep s { s with source := { s.source with isStop := true }, stopper := .decoder }
  | decoder : s.stopper = .decoder →
      StopStep s { s with decoder := { s.decoder with isStop := true }, stopper := .ingest }
  | ingest : s.stopper = .ingest →
      StopStep s { s with ingest := s.ingest.stop, stopper := .processor }
  | processor : s.stopper = .processor →
      StopStep s { s with processor := { s.processor with isStop := true }, stopper := .encoder }
  | encoder : s.stopper = .encoder →
      StopStep s { s with encoder := { s.encoder with isStop := true }, stopper := .filter }
  | filter : s.stopper = .filter → StopStep s { s with filter := s.filter.stop, stopper := .sink }
  | sink : s.stopper = .sink →
      StopStep s { s with sink := { s.sink with isStop := true }, stopper := .returned }

theorem stop_cases (h : s.stop = .next s') : StopStep s s' := by
  unfold Controller.stop at h
  cases hpc : s.stopper <;> rw [hpc] at h <;> cases h
  case source => exact .source hpc
  case decoder => exact .decoder hpc
  case ingest => exact .ingest hpc
  case processor => exact .processor hpc
  case encoder => exact .encoder hpc
  case filter => exact .filter hpc
  case sink => exact .sink hpc

theorem step_cases (h : step e s a = .next s') : Stepped e s a s' := by
  cases a with
  | run thread target alloc =>
    cases thread with
    | stopper => exact .stopper h
    | source =>
      obtain ⟨p,hp,h⟩ := Outcome.bind_eq_next.mp h
      cases h; exact .source (MediaSource.step_cases hp)
    | decoder =>
      obtain ⟨p,hp,h⟩ := Outcome.bind_eq_next.mp h
      cases h; exact .decoder (Worker.step_cases hp)
    | processor =>
      obtain ⟨p,hp,h⟩ := Outcome.bind_eq_next.mp h
      cases h; exact .processor (Worker.step_cases hp)
    | encoder =>
      obtain ⟨p,hp,h⟩ := Outcome.bind_eq_next.mp h
      cases h; exact .encoder (Worker.step_cases hp)
    | sink =>
      obtain ⟨p,hp,h⟩ := Outcome.bind_eq_next.mp h
      cases h; exact .sink (MediaSink.step_cases hp)
  | wake channel side =>
    cases channel with
    | ingest =>
      obtain ⟨c,hc,h⟩ := Outcome.bind_eq_next.mp h
      cases h; exact .wakeIngest hc
    | decode =>
      obtain ⟨c,hc,h⟩ := Outcome.bind_eq_next.mp h
      cases h; exact .wakeDecode hc
    | filter =>
      obtain ⟨c,hc,h⟩ := Outcome.bind_eq_next.mp h
      cases h; exact .wakeFilter hc
    | encode =>
      obtain ⟨c,hc,h⟩ := Outcome.bind_eq_next.mp h
      cases h; exact .wakeEncode hc

/-- Each channel links the thread that sends on it to the thread that receives from it. -/
structure Linked (s : Controller su) : Prop where
  ingest : Link Channel.packetCapacity s.source.sent s.ingest s.decoder.received
  decode : Link Channel.frameCapacity s.decoder.sent s.decode s.processor.received
  filter : Link Channel.frameCapacity s.processor.sent s.filter s.encoder.received
  encode : Link Channel.packetCapacity s.encoder.sent s.encode s.sink.received

theorem Linked.start (su : Setup) : Linked (start su) :=
  ⟨.new _,.new _,.new _,.new _⟩

theorem Linked.stop (h : Linked s) (hs : s.stop = .next s') : Linked s' := by
  cases stop_cases hs with
  | ingest => exact ⟨h.ingest.stop,h.decode,h.filter,h.encode⟩
  | filter => exact ⟨h.ingest,h.decode,h.filter.stop,h.encode⟩
  | _ => exact ⟨h.ingest,h.decode,h.filter,h.encode⟩

theorem Linked.step (h : Linked s) (hs : Stepped e s a s') : Linked s' := by
  cases hs with
  | source hw => exact ⟨hw.dst_link h.ingest,h.decode,h.filter,h.encode⟩
  | decoder hw => exact ⟨hw.src_link h.ingest,hw.dst_link h.decode,h.filter,h.encode⟩
  | processor hw => exact ⟨h.ingest,hw.src_link h.decode,hw.dst_link h.filter,h.encode⟩
  | encoder hw => exact ⟨h.ingest,h.decode,hw.src_link h.filter,hw.dst_link h.encode⟩
  | sink hw => exact ⟨h.ingest,h.decode,h.filter,hw.src_link h.encode⟩
  | stopper hstop => exact h.stop hstop
  | wakeIngest hw => exact ⟨h.ingest.wakeSpuriously hw,h.decode,h.filter,h.encode⟩
  | wakeDecode hw => exact ⟨h.ingest,h.decode.wakeSpuriously hw,h.filter,h.encode⟩
  | wakeFilter hw => exact ⟨h.ingest,h.decode,h.filter.wakeSpuriously hw,h.encode⟩
  | wakeEncode hw => exact ⟨h.ingest,h.decode,h.filter,h.encode.wakeSpuriously hw⟩

theorem reachable_linked {ok : Controller su → Label → Prop}
    (h : Reachable (program su e) ok s) : Linked s :=
  h.invariant (.start su) fun hl _ hs => hl.step (step_cases hs)

end Controller

/-- One HEVC stream, and components that give one output for each input. -/
def sampleSetup (input : List AVPacket) : Setup where
  streams := [⟨0,.video,.hevc,⟨1,60⟩⟩]
  read k := input[k]?
  decoder := .relay fun pkt => ⟨pkt.pts,pkt.data,none⟩
  graph := .relay Prod.snd
  encoder := .relay fun frame => ⟨0,frame.pts,frame.pts,1,frame.data⟩
  contexts := AList.insert 0 [] ∅
  bufferCtxs := MultiviewCompositor.initializeBufferCtxs ⟨⟨60,1⟩,⟨1,60⟩,3840,2160⟩ fun _ => true
  graphState := []
  encoderState := some []
  timeBases := ⟨⟨1,60⟩,⟨1,90000⟩⟩

end HyperStream
