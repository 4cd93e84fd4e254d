import Mathlib.Algebra.Order.Archimedean.Basic
import HyperStream.Routing
set_option autoImplicit false

open Transition

namespace HyperStream

theorem avRescaleQ_error (p : Int) (e : AVRational) {s : AVRational} (hs : 0 < s.toRat) :
    |(avRescaleQ p e s : ℚ)*s.toRat - p*e.toRat| ≤ s.toRat/2 :=
  Rounding.nearAway_scaled_error _ hs

example : avRescaleQ 1 ⟨1,60⟩ ⟨1,90000⟩ = 1500 := by decide +kernel

namespace Controller

/-- The decoder gives a frame that has the timestamp of `pkt`, which run pushes as `frame`. -/
inductive Decoded (su : Setup) (pkt : AVPacket) : AVFrame → Prop where
  | mk {s s' : VideoDecoder.State su.decoder} {ctx ctx' : su.decoder.State} {raw frame : AVFrame} :
      s.idx = pkt.streamIndex → s.contexts.lookup s.idx = some ctx →
      su.decoder.receive ctx = (.output raw,ctx') → raw.pts = pkt.pts →
      su.decoderStage.drain s true = .push frame s' → Decoded su pkt frame

/-- A packet of a stream with time base `b` comes to the buffer source `src` as `frame`. -/
structure Arrives (su : Setup) (b : AVRational) (pkt : AVPacket)
    (src : MultiviewCompositor.BufferSrc) (frame : AVFrame) : Prop where
  stream : ∃ stream, MediaSource.streamAt su.streams pkt.streamIndex = some stream ∧
    stream.codecType = .video ∧ stream.timeBase = b
  decoded : Decoded su pkt frame
  added : ∀ i, frame.metadata = some ⟨i⟩ →
    (MultiviewCompositor.bufferCtx su.bufferCtxs i).1 = some src

/-- The graph emits a frame that has the timestamp of `frame`, which run pushes as `out`. -/
inductive Composed (su : Setup) (frame : AVFrame) : AVFrame → Prop where
  | mk {s s' : MultiviewCompositor.State su.graph} {graph' : su.graph.State} {raw out : AVFrame} :
      su.graph.receive s.graph = (.output raw,graph') → raw.pts = frame.pts →
      su.processorStage.drain s true = .push out s' → Composed su frame out

/-- The encoder gives a packet that has the timestamp of `frame`, which run pushes as `pkt`. -/
inductive Encoded (su : Setup) (frame : AVFrame) : AVPacket → Prop where
  | mk {ctx ctx' : su.encoder.State} {raw pkt : AVPacket} {s' : VideoEncoder.State su.encoder} :
      su.encoder.receive ctx = (.output raw,ctx') → raw.pts = frame.pts →
      su.encoderStage.drain (some ctx) true = .push pkt s' → Encoded su frame pkt

/-- A packet of the main view, whose stream has time base `b`, on its way to the sink's
written packet. -/
inductive Journey (su : Setup) (b : AVRational) (pkt : AVPacket) : AVPacket → Prop where
  | mk {src : MultiviewCompositor.BufferSrc} {frame out : AVFrame} {enc : AVPacket} :
      Arrives su b pkt src frame → src.input = 0 → Composed su frame out → Encoded su out enc →
      Journey su b pkt (MediaSink.rewrite su.timeBases enc)

variable {su : Setup} {b : AVRational} {pkt : AVPacket}

theorem Decoded.stamped {frame : AVFrame} (h : Decoded su pkt frame) :
    frame.pts = pkt.pts ∧ frame.metadata = some ⟨pkt.streamIndex⟩ := by
  obtain ⟨hidx,hctx,hr,hpts,hd⟩ := h
  rw [VideoDecoder.drain_output hctx hr] at hd
  cases hd
  exact ⟨hpts,by rw [hidx]⟩

theorem Composed.pts {frame out : AVFrame} (h : Composed su frame out) : out.pts = frame.pts := by
  obtain ⟨hr,hpts,hd⟩ := h
  rw [MultiviewCompositor.drain_output hr] at hd
  cases hd
  exact hpts

theorem Encoded.pts {frame : AVFrame} {enc : AVPacket} (h : Encoded su frame enc) :
    enc.pts = frame.pts := by
  obtain ⟨hr,hpts,hd⟩ := h
  rw [VideoEncoder.drain_output hr] at hd
  cases hd
  exact hpts

/-- The only place that changes a timestamp is the sink. -/
theorem Journey.pts {written : AVPacket} (h : Journey su b pkt written) :
    written.pts = avRescaleQ pkt.pts su.timeBases.enc su.timeBases.stream := by
  obtain ⟨harrives,-,hcomposed,hencoded⟩ := h
  rw [MediaSink.rewrite,hencoded.pts,hcomposed.pts,harrives.decoded.stamped.1]

theorem Arrives.timeBase {param : MultiviewCompositor.Param} {created : Nat → Bool}
    {src : MultiviewCompositor.BufferSrc} {frame : AVFrame}
    (hinit : su.bufferCtxs = MultiviewCompositor.initializeBufferCtxs param created)
    (h : Arrives su b pkt src frame) : src.timeBase = param.timebase := by
  have hadded := h.added _ h.decoded.stamped.2
  rw [hinit] at hadded
  by_cases hkey : pkt.streamIndex ∈ MultiviewCompositor.initializeBufferCtxs param created
  · obtain ⟨h₀,h₄⟩ := (MultiviewCompositor.mem_initializeBufferCtxs _ _ _).mp hkey
    obtain ⟨k,hk⟩ := Int.eq_ofNat_of_zero_le h₀
    rw [hk,MultiviewCompositor.bufferCtx_initializeBufferCtxs param created (by omega),
      MultiviewCompositor.bufferSrc] at hadded
    split at hadded
    · cases hadded; rfl
    · cases hadded
  · rw [← AList.lookup_isSome,Option.not_isSome_iff_eq_none] at hkey
    rw [MultiviewCompositor.bufferCtx,hkey] at hadded
    cases hadded

/-- With processor and encoder in time base `e` and the muxer in `s`: the instants of a main
view in time base `b` reach the output within one unit of `s`, and its frames and those of a
view in time base `b'` compare at the inputs of the graph as their instants do. -/
def KeepsTime (e s b b' : AVRational) : Prop :=
  ∀ (su : Setup) (param : MultiviewCompositor.Param) (created : Nat → Bool),
    su.timeBases = ⟨e,s⟩ → param.timebase = e →
    su.bufferCtxs = MultiviewCompositor.initializeBufferCtxs param created →
    (∀ pkt written, Journey su b pkt written →
      |(written.pts : ℚ) * s.toRat - pkt.pts * b.toRat| ≤ s.toRat) ∧
    ∀ pkt pkt' src src' frame frame', Arrives su b pkt src frame → Arrives su b' pkt' src' frame' →
      ((frame.pts : ℚ) * src.timeBase.toRat < frame'.pts * src'.timeBase.toRat ↔
        (pkt.pts : ℚ) * b.toRat < pkt'.pts * b'.toRat)

theorem keepsTime_of_eq {e s b b' : AVRational} (hs : 0 < s.toRat) (hb : b.toRat = e.toRat)
    (hb' : b'.toRat = e.toRat) : KeepsTime e s b b' := by
  intro su param created htb hparam hinit
  refine ⟨fun pkt written hj => ?_,fun pkt pkt' src src' frame frame' h h' => ?_⟩
  · rw [hj.pts,htb,hb]
    have herr := avRescaleQ_error pkt.pts e hs
    dsimp only
    linarith
  · rw [h.timeBase hinit,h'.timeBase hinit,hparam,hb,hb',h.decoded.stamped.1,h'.decoded.stamped.1]

/-! How these relations speak of a run: what the stages push in it is related to exactly the
inputs that have its timestamp, and its stream. -/

structure Relayed (s : Controller su) : Prop where
  decoder : s.decoder.Holds (fun _ => True) fun frame => ∀ pkt, frame.pts = pkt.pts →
    frame.metadata = some ⟨pkt.streamIndex⟩ → Decoded su pkt frame
  processor : s.processor.Holds (fun _ => True) fun out => ∀ frame, out.pts = frame.pts →
    Composed su frame out
  encoder : s.encoder.Holds (fun _ => True) fun pkt => ∀ frame, pkt.pts = frame.pts →
    Encoded su frame pkt

theorem decoder_relays (su : Setup) : Worker.Ensures su.decoderStage (fun _ => True)
    fun frame => ∀ pkt, frame.pts = pkt.pts → frame.metadata = some ⟨pkt.streamIndex⟩ →
      Decoded su pkt frame where
  feed s pkt _ := by cases su.decoderStage.feed s pkt <;> trivial
  drain s alloc _ := by
    obtain heq | ⟨ctx,r,ctx',hl,hr,⟨raw,rfl,heq⟩ | ⟨-,heq⟩⟩ :=
      VideoDecoder.drain_cases (rfl : su.decoderStage.drain s alloc = _)
    all_goals rw [heq]
    · trivial
    · refine ⟨fun pkt hpts hmeta => ?_,trivial⟩
      have hidx : s.idx = pkt.streamIndex := by simpa using hmeta
      exact .mk hidx hl hr hpts (VideoDecoder.drain_output hl hr)
    · trivial
  cleanup := fun _ _ _ _ => trivial

theorem processor_relays (su : Setup) : Worker.Ensures su.processorStage (fun _ => True)
    fun out => ∀ frame, out.pts = frame.pts → Composed su frame out where
  feed s frame _ := by cases su.processorStage.feed s frame <;> trivial
  drain s alloc _ := by
    obtain heq | ⟨r,graph,hr,⟨raw,rfl,heq⟩ | ⟨-,heq⟩⟩ :=
      MultiviewCompositor.drain_cases (rfl : su.processorStage.drain s alloc = _)
    all_goals rw [heq]
    · trivial
    · exact ⟨fun frame hpts => .mk hr hpts (MultiviewCompositor.drain_output hr),trivial⟩
    · trivial
  cleanup := fun _ _ _ _ => trivial

theorem encoder_relays (su : Setup) : Worker.Ensures su.encoderStage (fun _ => True)
    fun pkt => ∀ frame, pkt.pts = frame.pts → Encoded su frame pkt where
  feed s frame _ := by cases su.encoderStage.feed s frame <;> trivial
  drain s alloc _ := by
    obtain heq | ⟨ctx,r,ctx',-,hr,⟨raw,rfl,-,heq⟩ | ⟨-,heq⟩ | ⟨-,heq⟩⟩ :=
      VideoEncoder.drain_cases (rfl : su.encoderStage.drain s alloc = _)
    all_goals rw [heq]
    · trivial
    · exact ⟨fun frame hpts => .mk hr hpts (VideoEncoder.drain_output hr),trivial⟩
    · trivial
    · trivial
  cleanup := fun _ _ _ _ => trivial

theorem Relayed.step {e : EmptyPop} {s s' : Controller su} {a : Label} (h : Relayed s)
    (hs : Stepped e s a s') : Relayed s' := by
  obtain ⟨hdecoder,hprocessor,hencoder⟩ := h
  cases hs with
  | decoder hw => exact ⟨hw.holds (decoder_relays su) hdecoder,hprocessor,hencoder⟩
  | processor hw => exact ⟨hdecoder,hw.holds (processor_relays su) hprocessor,hencoder⟩
  | encoder hw => exact ⟨hdecoder,hprocessor,hw.holds (encoder_relays su) hencoder⟩
  | stopper hstop =>
    cases stop_cases hstop
    all_goals
      exact ⟨⟨trivial,hdecoder.sent,hdecoder.inHand⟩,
        ⟨trivial,hprocessor.sent,hprocessor.inHand⟩,⟨trivial,hencoder.sent,hencoder.inHand⟩⟩
  | _ => exact ⟨hdecoder,hprocessor,hencoder⟩

/-- In a run the relations hold between what a stage has pushed and what has its timestamp. -/
theorem relations_of_run {e : EmptyPop} {ok : Controller su → Label → Prop} {s : Controller su}
    (h : Reachable (program su e) ok s) :
    (∀ frame ∈ s.decoder.sent, ∀ pkt, Decoded su pkt frame ↔
      frame.pts = pkt.pts ∧ frame.metadata = some ⟨pkt.streamIndex⟩) ∧
    (∀ out ∈ s.processor.sent, ∀ frame, Composed su frame out ↔ out.pts = frame.pts) ∧
    ∀ pkt ∈ s.encoder.sent, ∀ frame, Encoded su frame pkt ↔ pkt.pts = frame.pts := by
  have hr : Relayed s := by
    refine h.invariant (P := Relayed) ⟨⟨trivial,?_,?_⟩,⟨trivial,?_,?_⟩,⟨trivial,?_,?_⟩⟩
      fun hi _ hs => hi.step (step_cases hs)
    all_goals simp [program,start,Worker.start]
  exact ⟨fun frame hf pkt => ⟨Decoded.stamped,fun hp => hr.decoder.sent frame hf pkt hp.1 hp.2⟩,
    fun out ho frame => ⟨Composed.pts,hr.processor.sent out ho frame⟩,
    fun pkt hp frame => ⟨Encoded.pts,hr.encoder.sent pkt hp frame⟩⟩

/-- The same for what takes place in a run without stop and failures: packets that the source
has pushed, frames that the compositor has popped, packets that the sink has written. -/
def RunsKeepTime (e s b b' : AVRational) : Prop :=
  ∀ (su : Setup) (param : MultiviewCompositor.Param) (created : Nat → Bool),
    su.timeBases = ⟨e,s⟩ → param.timebase = e →
    su.bufferCtxs = MultiviewCompositor.initializeBufferCtxs param created →
    ∀ t : Controller su, Reachable (program su .undefined) Undisturbed t →
    (∀ pkt ∈ t.source.sent, ∀ written ∈ t.sink.written, Journey su b pkt written →
      |(written.pts : ℚ) * s.toRat - pkt.pts * b.toRat| ≤ s.toRat) ∧
    ∀ pkt ∈ t.source.sent, ∀ pkt' ∈ t.source.sent, ∀ frame ∈ t.processor.received,
      ∀ frame' ∈ t.processor.received, ∀ src src', Arrives su b pkt src frame →
      Arrives su b' pkt' src' frame' →
      ((frame.pts : ℚ) * src.timeBase.toRat < frame'.pts * src'.timeBase.toRat ↔
        (pkt.pts : ℚ) * b.toRat < pkt'.pts * b'.toRat)

theorem KeepsTime.runs {e s b b' : AVRational} (h : KeepsTime e s b b') :
    RunsKeepTime e s b b' := by
  intro su param created htb hparam hinit t _
  obtain ⟨hinstant,hcompare⟩ := h su param created htb hparam hinit
  exact ⟨fun pkt _ written _ hj => hinstant pkt written hj,
    fun pkt _ pkt' _ frame _ frame' _ src src' ha ha' =>
      hcompare pkt pkt' src src' frame frame' ha ha'⟩

/-- One packet of each of two views in the time bases `b` and `b'`, and components that give
one output for each input. -/
def timingSetup (e s b b' : AVRational) (p : Int) : Setup :=
  { sampleSetup [⟨0,p,p,1,[]⟩,⟨1,p,p,1,[]⟩] with
    streams := [⟨0,.video,.hevc,b⟩,⟨1,.video,.hevc,b'⟩]
    contexts := AList.insert 0 [] (AList.insert 1 [] ∅)
    bufferCtxs := MultiviewCompositor.initializeBufferCtxs ⟨⟨60,1⟩,e,3840,2160⟩ fun _ => true
    timeBases := ⟨e,s⟩ }

/-- Both packets come to the compositor, and the first one to the file. -/
def timingRun : List Label :=
  turns [(.source,6),(.decoder,12),(.processor,9),(.encoder,6),(.sink,3)]

theorem timingSetup_run (e s b b' : AVRational) (p : Int) :
    ∃ t : Controller (timingSetup e s b b' p),
      Reachable (program (timingSetup e s b b' p) .undefined) Undisturbed t ∧
      t.source.sent = [⟨0,p,p,1,[]⟩,⟨1,p,p,1,[]⟩] ∧
      t.decoder.sent = [⟨p,[],some ⟨0⟩⟩,⟨p,[],some ⟨1⟩⟩] ∧
      t.processor.received = [⟨p,[],some ⟨0⟩⟩,⟨p,[],some ⟨1⟩⟩] ∧
      t.processor.sent = [⟨p,[],some ⟨0⟩⟩] ∧ t.encoder.sent = [⟨0,p,p,1,[]⟩] ∧
      t.sink.written = [MediaSink.rewrite ⟨e,s⟩ ⟨0,p,p,1,[]⟩] := by
  obtain ⟨t,ht,hfacts⟩ : ∃ t, replay (program (timingSetup e s b b' p) .undefined)
      (program (timingSetup e s b b' p) .undefined).start timingRun = .next t ∧
      t.source.sent = [⟨0,p,p,1,[]⟩,⟨1,p,p,1,[]⟩] ∧
      t.decoder.sent = [⟨p,[],some ⟨0⟩⟩,⟨p,[],some ⟨1⟩⟩] ∧
      t.processor.received = [⟨p,[],some ⟨0⟩⟩,⟨p,[],some ⟨1⟩⟩] ∧
      t.processor.sent = [⟨p,[],some ⟨0⟩⟩] ∧ t.encoder.sent = [⟨0,p,p,1,[]⟩] ∧
      t.sink.written = [MediaSink.rewrite ⟨e,s⟩ ⟨0,p,p,1,[]⟩] :=
    ⟨_,rfl,rfl,rfl,rfl,rfl,rfl,rfl⟩
  exact ⟨t,.of_replay (fun a ha _ => undisturbed_of_mem_turns (by decide) ha) ht,hfacts⟩

theorem timingSetup_arrives (e s b b' : AVRational) (p : Int) {frame : AVFrame}
    (hd : Decoded (timingSetup e s b b' p) ⟨0,p,p,1,[]⟩ frame) :
    Arrives (timingSetup e s b b' p) b ⟨0,p,p,1,[]⟩ ⟨0,3840,2160,e,⟨60,1⟩⟩ frame where
  stream := ⟨_,rfl,rfl,rfl⟩
  decoded := hd
  added i hi := by rw [hd.stamped.2] at hi; cases hi; rfl

theorem timingSetup_arrives_other (e s b b' : AVRational) (p : Int) {frame : AVFrame}
    (hd : Decoded (timingSetup e s b b' p) ⟨1,p,p,1,[]⟩ frame) :
    Arrives (timingSetup e s b b' p) b' ⟨1,p,p,1,[]⟩ ⟨1,3840,2160,e,⟨60,1⟩⟩ frame where
  stream := ⟨_,rfl,rfl,rfl⟩
  decoded := hd
  added i hi := by rw [hd.stamped.2] at hi; cases hi; rfl

theorem eq_zero_of_multiples_le {x c : ℚ} (h : ∀ p : Int, |(p : ℚ) * x| ≤ c) : x = 0 := by
  by_contra hx
  obtain ⟨n,hn⟩ := Archimedean.arch c (abs_pos.mpr hx)
  have hle := h (n+1)
  have hpos := abs_pos.mpr hx
  rw [abs_mul,abs_of_nonneg (by positivity)] at hle
  rw [nsmul_eq_mul] at hn
  push_cast at hle
  linarith

/-- What the run of `timingSetup` shows of the law: the instant of its first packet and the
order of its two. -/
theorem RunsKeepTime.of_packet {e s b b' : AVRational} (h : RunsKeepTime e s b b') (p : Int) :
    |(avRescaleQ p e s : ℚ) * s.toRat - p * b.toRat| ≤ s.toRat ∧
      ((p : ℚ) * e.toRat < p * e.toRat ↔ (p : ℚ) * b.toRat < p * b'.toRat) := by
  obtain ⟨t,ht,hsource,hdecoder,hreceived,hprocessor,hencoder,hsink⟩ := timingSetup_run e s b b' p
  obtain ⟨hinstant,hcompare⟩ := h _ ⟨⟨60,1⟩,e,3840,2160⟩ (fun _ => true) rfl rfl rfl t ht
  obtain ⟨hdec,hcomp,henc⟩ := relations_of_run ht
  have hmain := timingSetup_arrives e s b b' p ((hdec ⟨p,[],some ⟨0⟩⟩ (by simp [hdecoder]) _).mpr
    ⟨rfl,rfl⟩)
  have hother := timingSetup_arrives_other e s b b' p
    ((hdec ⟨p,[],some ⟨1⟩⟩ (by simp [hdecoder]) _).mpr ⟨rfl,rfl⟩)
  have hcomposed := (hcomp ⟨p,[],some ⟨0⟩⟩ (by simp [hprocessor]) ⟨p,[],some ⟨0⟩⟩).mpr rfl
  have hencoded := (henc ⟨0,p,p,1,[]⟩ (by simp [hencoder]) ⟨p,[],some ⟨0⟩⟩).mpr rfl
  have hjourney : Journey (timingSetup e s b b' p) b ⟨0,p,p,1,[]⟩
      (MediaSink.rewrite ⟨e,s⟩ ⟨0,p,p,1,[]⟩) := .mk hmain rfl hcomposed hencoded
  constructor
  · have hle := hinstant _ (by simp [hsource]) _ (by simp [hsink]) hjourney
    rw [hjourney.pts] at hle
    exact hle
  · exact hcompare _ (by simp [hsource]) _ (by simp [hsource]) _ (by simp [hreceived]) _
      (by simp [hreceived]) _ _ hmain hother

theorem eq_of_runsKeepTime {e s b b' : AVRational} (hs : 0 < s.toRat)
    (h : RunsKeepTime e s b b') : b.toRat = e.toRat ∧ b'.toRat = e.toRat := by
  have hmain : b.toRat = e.toRat := by
    have hzero : e.toRat - b.toRat = 0 := by
      apply eq_zero_of_multiples_le (c := s.toRat + s.toRat/2)
      intro p
      have hle := (h.of_packet p).1
      have herr := avRescaleQ_error p e hs
      rw [abs_le] at hle herr ⊢
      constructor <;> linarith
    linarith
  have hup := (not_congr (h.of_packet 1).2).mp (lt_irrefl _)
  have hdown := (not_congr (h.of_packet (-1)).2).mp (lt_irrefl _)
  push_cast at hup hdown
  exact ⟨hmain,by linarith⟩

/-- The journeys of runs decide: a time base that keeps the time in all runs keeps it wherever
the components' states could come from. -/
theorem keepsTime_iff_runs (e s b b' : AVRational) (hs : 0 < s.toRat) :
    KeepsTime e s b b' ↔ RunsKeepTime e s b b' := by
  refine ⟨KeepsTime.runs,fun h => ?_⟩
  obtain ⟨hb,hb'⟩ := eq_of_runsKeepTime hs h
  exact keepsTime_of_eq hs hb hb'

/-- Presentation times are kept exactly when every view is in the time base of the processor
and the encoder: nothing before the sink converts a timestamp. -/
theorem keepsTime_iff_same_base (e s b b' : AVRational) (hs : 0 < s.toRat) :
    KeepsTime e s b b' ↔ b.toRat = e.toRat ∧ b'.toRat = e.toRat :=
  ⟨fun h => eq_of_runsKeepTime hs h.runs,fun h => keepsTime_of_eq hs h.1 h.2⟩

theorem keepsTime_iff_same_base_sample : KeepsTime ⟨1,60⟩ ⟨1,90000⟩ ⟨1,60⟩ ⟨1,60⟩ :=
  (keepsTime_iff_same_base _ _ _ _ (by norm_num [AVRational.toRat])).mpr ⟨rfl,rfl⟩

/-- MPEG-TS stamps in units of 1/90000 s; main declares units of 1/60 s. -/
theorem transport_stream_loses_time : ¬ KeepsTime ⟨1,60⟩ ⟨1,90000⟩ ⟨1,90000⟩ ⟨1,90000⟩ := by
  intro h
  have heq := (eq_of_runsKeepTime (by norm_num [AVRational.toRat]) h.runs).1
  norm_num [AVRational.toRat] at heq

end Controller
end HyperStream
