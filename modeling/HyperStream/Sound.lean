import HyperStream.Enabled
import HyperStream.EndMark
import HyperStream.Lifetime
import HyperStream.Driven
import HyperStream.Routing
set_option autoImplicit false

open Transition

namespace HyperStream

namespace Worker
variable {α β : Type} {S : Stage α β} {e : EmptyPop} {target : Option Side} {alloc : Bool}
  {w : Worker S.State α β} {src : Channel Side α} {dst : Channel Side β}

/-- What a run() body may do that is undefined. -/
def Fault (S : Stage α β) (e : EmptyPop) (alloc : Bool) (w : Worker S.State α β)
    (src : Channel Side α) : Prop :=
  match w.pc with
  | .pop => src.PopsEmpty e .consumer
  | .feed a => S.feed w.state a = .undefined
  | .drain => S.drain w.state alloc = .undefined
  | .cleanup => S.cleanup w.state = .undefined
  | _ => False

theorem step_undefined_iff :
    step S e target alloc w src dst = .undefined ↔ Fault S e alloc w src := by
  unfold step Fault
  cases hpc : w.pc with
  | start => dsimp only; split <;> simp
  | pop =>
    simp only [Outcome.bind_eq_undefined,Channel.pop_undefined_iff]
    refine ⟨fun h => h.resolve_right ?_,.inl⟩
    intro hnext
    obtain ⟨⟨r,c⟩,-,hr⟩ := hnext
    match r with
    | .blocked => cases hr
    | .returned none => cases hr
    | .returned (some a) => cases hr
  | feed a => dsimp only; cases S.feed w.state a <;> simp
  | drain => dsimp only; cases S.drain w.state alloc <;> simp
  | push b =>
    simp only [Outcome.bind_eq_undefined,iff_false,not_or,not_exists]
    refine ⟨Channel.push_ne_undefined _ _ _ _,?_⟩
    intro p hp
    obtain ⟨r,c⟩ := p
    cases r <;> simp at hp
  | cleanup => dsimp only; cases S.cleanup w.state <;> simp
  | _ => simp

end Worker

namespace MediaSource
variable {streams : List AVStream} {read : Nat → Option AVPacket} {target : Option Side}
  {alloc : Bool} {th : Thread} {dst : Channel Side AVPacket}

theorem step_undefined_iff : step streams read target alloc th dst = .undefined ↔
    th.pc = .read ∧ (alloc = false ∨
      ∃ pkt, read th.reads = some pkt ∧ streamAt streams pkt.streamIndex = none) := by
  unfold step
  cases hpc : th.pc with
  | read =>
    cases alloc with
    | false => simp
    | true =>
      cases hr : read th.reads with
      | none => simp
      | some pkt => cases hs : streamAt streams pkt.streamIndex <;> simp [hs]
  | push pkt =>
    simp only [Outcome.bind_eq_undefined,reduceCtorEq,false_and,iff_false,not_or,not_exists]
    refine ⟨Channel.push_ne_undefined _ _ _ _,?_⟩
    intro p hp
    obtain ⟨r,c⟩ := p
    cases r <;> simp at hp
  | _ => simp

end MediaSource

namespace MediaSink
variable {tb : TimeBases} {e : EmptyPop} {target : Option Side} {th : Thread}
  {src : Channel Side AVPacket}

theorem step_undefined_iff :
    step tb e target th src = .undefined ↔ th.pc = .pop ∧ src.PopsEmpty e .consumer := by
  unfold step
  cases hpc : th.pc with
  | pop =>
    simp only [Outcome.bind_eq_undefined,Channel.pop_undefined_iff,true_and]
    refine ⟨fun h => h.resolve_right ?_,.inl⟩
    intro hnext
    obtain ⟨⟨r,c⟩,-,hr⟩ := hnext
    match r with
    | .blocked => cases hr
    | .returned none => cases hr
    | .returned (some pkt) => cases hr
  | _ => simp

end MediaSink

theorem VideoDecoder.feed_ne_undefined {C : Component AVPacket AVFrame} (s : State C)
    (pkt : AVPacket) : (stage C).feed s pkt ≠ .undefined := by
  intro h
  obtain ⟨-,h⟩ | ⟨ctx,r,ctx',-,-,⟨-,h⟩ | ⟨-,h⟩⟩ := feed_cases h <;> cases h

theorem VideoDecoder.drain_undefined_iff {C : Component AVPacket AVFrame} {s : State C}
    {alloc : Bool} (h : (s.contexts.lookup s.idx).isSome) :
    (stage C).drain s alloc = .undefined ↔ alloc = false := by
  obtain ⟨ctx,hctx⟩ := Option.isSome_iff_exists.mp h
  cases alloc with
  | false => simp [stage,drain]
  | true =>
    rcases hr : C.receive ctx with ⟨r,ctx'⟩
    cases r <;> simp [stage,drain,hctx,hr]

/-- In its loop of outputs the decoder has the context that it reads. -/
theorem VideoDecoder.draining {C : Component AVPacket AVFrame} {e : EmptyPop} {s₀ : State C}
    {w : Worker (stage C).State AVPacket AVFrame}
    (h : Worker.IsDriven (stage C) e s₀ Worker.anyTurn w) (hpc : w.pc = .drain) :
    (w.state.contexts.lookup w.state.idx).isSome := by
  have hinsert (contexts : Contexts C.State) (i : Int) (ctx : C.State) :
      ((contexts.insert i ctx).lookup i).isSome := by simp
  have hrule : Worker.LoopRule (stage C) s₀ Worker.anyTurn (fun _ => True)
      (fun s : State C => (s.contexts.lookup s.idx).isSome) := by
    refine ⟨trivial,fun _ _ _ _ _ _ _ _ => trivial,?_,fun _ _ _ _ _ _ _ _ => trivial,?_,?_⟩
    · intro s pkt s' _ hf
      obtain ⟨-,hf⟩ | ⟨ctx,r,ctx',-,-,⟨-,hf⟩ | ⟨-,hf⟩⟩ := feed_cases hf <;> cases hf
      exact hinsert _ _ _
    · intro s alloc s' _ hd
      obtain hd | ⟨ctx,r,ctx',-,-,⟨frame,-,hd⟩ | ⟨-,hd⟩⟩ := drain_cases hd <;> cases hd
    · intro s alloc b s' _ hd
      obtain hd | ⟨ctx,r,ctx',-,-,⟨frame,-,hd⟩ | ⟨-,hd⟩⟩ := drain_cases hd <;> cases hd
      exact hinsert _ _ _
  have hloop := hrule.inLoop h
  unfold Worker.InLoop at hloop
  rw [hpc] at hloop
  exact hloop

theorem MultiviewCompositor.feed_ne_undefined {C : Component (Nat × AVFrame) AVFrame}
    {s : State C} {frame : AVFrame} {i : Int} (hmeta : frame.metadata = some ⟨i⟩)
    (h : (bufferCtx s.bufferCtxs i).1.isSome) : (stage C).feed s frame ≠ .undefined := by
  rcases hb : bufferCtx s.bufferCtxs i with ⟨src,ctxs⟩
  rw [hb] at h
  obtain ⟨src,rfl⟩ := Option.isSome_iff_exists.mp h
  simp [stage,feed,hmeta,hb]

theorem MultiviewCompositor.drain_undefined_iff {C : Component (Nat × AVFrame) AVFrame}
    {s : State C} {alloc : Bool} : (stage C).drain s alloc = .undefined ↔ alloc = false := by
  cases alloc with
  | false => simp [stage,drain]
  | true =>
    rcases hr : C.receive s.graph with ⟨r,graph⟩
    cases r <;> simp [stage,drain,hr]

theorem VideoEncoder.defined {C : Component AVFrame AVPacket} {s : State C} (h : s.isSome) :
    (∀ frame, (stage C).feed s frame ≠ .undefined) ∧
    (∀ alloc, (stage C).drain s alloc ≠ .undefined) ∧ (stage C).cleanup s ≠ .undefined := by
  obtain ⟨ctx,rfl⟩ := Option.isSome_iff_exists.mp h
  refine ⟨fun frame => ?_,fun alloc => ?_,by simp [stage,cleanup]⟩
  · rcases hs : C.send ctx (some frame) with ⟨r,ctx'⟩
    cases r <;> simp [stage,feed,hs]
  · rcases hr : C.receive ctx with ⟨r,ctx'⟩
    cases r <;> cases alloc <;> simp [stage,drain,hr]

/-- The context is there until run() frees it, after which it is not used. -/
theorem VideoEncoder.context_live {C : Component AVFrame AVPacket} {e : EmptyPop} {s₀ : State C}
    {w : Worker (stage C).State AVFrame AVPacket} (hs₀ : s₀.isSome)
    (h : Worker.IsDriven (stage C) e s₀ Worker.anyTurn w) :
    w.pc = .stopDst ∨ w.pc = .returned ∨ (w.state : State C).isSome := by
  obtain ⟨released,dropped,h⟩ := h
  induction h with
  | start => exact .inr (.inr hs₀)
  | told _ ih => exact ih
  | @step w w' src src' dst dst' alloc released dropped _ _ hs ih =>
    cases hw' : (w'.state : State C) with
    | some ctx => exact .inr (.inr rfl)
    | none =>
      rcases freed_of_stepped hs hw' with hnone | ⟨-,hpc⟩
      · rcases ih with hpc | hpc | hsome
        · cases hs <;> simp_all
        · exact absurd hpc hs.not_returned
        · rw [hnone] at hsome; cases hsome
      · exact .inl hpc

theorem Worker.IsDriven.feed_mem {α β : Type} {S : Stage α β} {e : EmptyPop} {s₀ : S.State}
    {ok : Worker S.State α β → Prop} {w : Worker S.State α β} (h : IsDriven S e s₀ ok w) {a : α}
    (hpc : w.pc = .feed a) : a ∈ w.received := by
  obtain ⟨released,dropped,h⟩ := h
  induction h with
  | start => cases hpc
  | told _ ih => exact ih hpc
  | step _ _ hs ih =>
    cases hs with
    | receive => cases hpc; exact List.mem_append_right _ (List.mem_singleton_self _)
    | await hpop => rw [hpop] at hpc; cases hpc
    | hold hpush => rw [hpush] at hpc; cases hpc
    | _ => cases hpc

/-- What the initialize methods have to leave: packets name streams of the container, opened
streams have a buffer source, and there is an encoder. -/
structure Setup.Sound (su : Setup) : Prop where
  packets : ∀ k pkt, su.read k = some pkt →
    (MediaSource.streamAt su.streams pkt.streamIndex).isSome
  inputs : ∀ i, i ∈ su.contexts → (MultiviewCompositor.bufferCtx su.bufferCtxs i).1.isSome
  encoder : su.encoderState.isSome

namespace Controller
variable {su : Setup} {e : EmptyPop} {s : Controller su}

/-- An allocation whose failure is not tested for, or a pop of an empty queue. -/
def Fault (e : EmptyPop) (s : Controller su) : Label → Prop
  | .run .source _ alloc => s.source.pc = .read ∧ alloc = false
  | .run .decoder _ alloc =>
    (s.decoder.pc = .pop ∧ s.ingest.PopsEmpty e .consumer) ∨
      (s.decoder.pc = .drain ∧ alloc = false)
  | .run .processor _ alloc =>
    (s.processor.pc = .pop ∧ s.decode.PopsEmpty e .consumer) ∨
      (s.processor.pc = .drain ∧ alloc = false)
  | .run .encoder _ _ => s.encoder.pc = .pop ∧ s.filter.PopsEmpty e .consumer
  | .run .sink _ _ => s.sink.pc = .pop ∧ s.encode.PopsEmpty e .consumer
  | .run .stopper _ _ => False
  | .wake _ _ => False

theorem source_fault_iff (hsound : su.Sound) {target : Option Side} {alloc : Bool} :
    MediaSource.step su.streams su.read target alloc s.source s.ingest = .undefined ↔
      s.source.pc = .read ∧ alloc = false := by
  rw [MediaSource.step_undefined_iff]
  refine and_congr_right fun _ => ⟨fun h => h.resolve_right ?_,.inl⟩
  intro hstray
  obtain ⟨pkt,hr,hs⟩ := hstray
  simpa [hs] using hsound.packets _ _ hr

theorem decoder_fault_iff (h : StagesDriven (StageTurns.any su) e s) {alloc : Bool} :
    Worker.Fault su.decoderStage e alloc s.decoder s.ingest ↔
      (s.decoder.pc = .pop ∧ s.ingest.PopsEmpty e .consumer) ∨
        (s.decoder.pc = .drain ∧ alloc = false) := by
  unfold Worker.Fault
  cases hpc : s.decoder.pc with
  | feed pkt => simpa using VideoDecoder.feed_ne_undefined _ pkt
  | drain => simpa using VideoDecoder.drain_undefined_iff (VideoDecoder.draining h.decoder hpc)
  | cleanup =>
    have hclean : su.decoderStage.cleanup s.decoder.state ≠ .undefined := by intro hc; cases hc
    simpa using hclean
  | _ => simp

theorem processor_fault_iff (hsound : su.Sound) (h : StagesDriven (StageTurns.any su) e s)
    (hst : Stamped s) {alloc : Bool} :
    Worker.Fault su.processorStage e alloc s.processor s.decode ↔
      (s.processor.pc = .pop ∧ s.decode.PopsEmpty e .consumer) ∨
        (s.processor.pc = .drain ∧ alloc = false) := by
  unfold Worker.Fault
  cases hpc : s.processor.pc with
  | feed frame =>
    obtain ⟨i,hmeta,hi⟩ := hst.received (h.processor.feed_mem hpc)
    have hsrc := hsound.inputs i hi
    rw [← hst.processor.state] at hsrc
    simpa using MultiviewCompositor.feed_ne_undefined hmeta hsrc
  | drain => simpa using MultiviewCompositor.drain_undefined_iff
  | cleanup =>
    have hclean : su.processorStage.cleanup s.processor.state ≠ .undefined := by intro hc; cases hc
    simpa using hclean
  | _ => simp

theorem encoder_fault_iff (hsound : su.Sound) (h : StagesDriven (StageTurns.any su) e s)
    {alloc : Bool} : Worker.Fault su.encoderStage e alloc s.encoder s.filter ↔
      s.encoder.pc = .pop ∧ s.filter.PopsEmpty e .consumer := by
  have hlive := VideoEncoder.context_live hsound.encoder h.encoder
  unfold Worker.Fault
  cases hpc : s.encoder.pc with
  | feed frame =>
    simp only [hpc,reduceCtorEq,false_or] at hlive
    simpa using (VideoEncoder.defined hlive).1 frame
  | drain =>
    simp only [hpc,reduceCtorEq,false_or] at hlive
    simpa using (VideoEncoder.defined hlive).2.1 alloc
  | cleanup =>
    simp only [hpc,reduceCtorEq,false_or] at hlive
    simpa using (VideoEncoder.defined hlive).2.2
  | _ => simp

/-- On a sound setup nothing else is undefined, in no interleaving: no stage uses a null
context, or its own after it has freed it, and no stamp is missing. The time bases of the sink
are values here; for how long they can be read see Lifetime. -/
theorem undefined_iff_fault (su : Setup) (hsound : su.Sound) (e : EmptyPop) (s : Controller su)
    (h : Reachable (program su e) anyStep s) (a : Label) :
    step e s a = .undefined ↔ Fault e s a := by
  have hdriven := reachable_driven (StageTurns.any su) (fun s a _ => StageTurns.any_met s a) h
  cases a with
  | run thread target alloc =>
    cases thread with
    | source =>
      simp only [step,Outcome.bind_eq_undefined,reduceCtorEq,and_false,exists_false,or_false]
      exact source_fault_iff hsound
    | decoder =>
      simp only [step,Outcome.bind_eq_undefined,reduceCtorEq,and_false,exists_false,or_false]
      exact Worker.step_undefined_iff.trans (decoder_fault_iff hdriven)
    | processor =>
      simp only [step,Outcome.bind_eq_undefined,reduceCtorEq,and_false,exists_false,or_false]
      exact Worker.step_undefined_iff.trans
        (processor_fault_iff hsound hdriven (reachable_stamped h))
    | encoder =>
      simp only [step,Outcome.bind_eq_undefined,reduceCtorEq,and_false,exists_false,or_false]
      exact Worker.step_undefined_iff.trans (encoder_fault_iff hsound hdriven)
    | sink =>
      simp only [step,Outcome.bind_eq_undefined,reduceCtorEq,and_false,exists_false,or_false]
      exact MediaSink.step_undefined_iff
    | stopper =>
      simp only [step,Fault,iff_false]
      unfold Controller.stop
      split <;> simp
  | wake channel side =>
    simp only [Fault,iff_false]
    cases channel <;>
      · simp only [step,Channel.wakeSpuriously,Monitor.wakeSpuriously,Outcome.bind_eq_undefined]
        split <;> simp

theorem sampleSetup_sound {input : List AVPacket} (h : ∀ pkt ∈ input, pkt.streamIndex = 0) :
    (sampleSetup input).Sound := by
  refine ⟨fun k pkt hr => ?_,fun i hi => ?_,rfl⟩
  · rw [h pkt (List.mem_of_getElem? hr)]
    rfl
  · rcases (AList.mem_insert _).mp hi with rfl | hnone
    · exact rfl
    · exact absurd hnone (AList.notMem_empty i)

/-- After the only packet the source has ended, and the decoder, which has pushed the frame,
pops from the stopped channel; the compositor has the frame still before it. -/
theorem undefined_iff_fault_sample :
    ∃ s : Controller (sampleSetup [⟨0,900,900,1,[]⟩]), s.decoder.sent.length = 1 ∧
      step .undefined s (.run .decoder none true) = .undefined ∧
      step .undefined s (.run .processor none false) ≠ .undefined := by
  obtain ⟨s,hs,hp⟩ := Reachable.exists_of_replay
    (program (sampleSetup [⟨0,900,900,1,[]⟩]) .undefined) anyStep
    (turns [(.source,6),(.decoder,8),(.processor,2)])
    (fun s => s.decoder.sent.length = 1 ∧ s.decoder.pc = .pop ∧ s.processor.pc = .pop ∧
      s.decode.isStop = false ∧ s.ingest.isStop = true ∧ s.ingest.queue = [] ∧
      s.ingest.monitor.owner = none ∧ s.ingest.monitor.status .consumer = .running)
    (fun _ _ _ => trivial) (by decide)
  simp only [decide_eq_true_eq] at hp
  obtain ⟨hsent,hpc,hprocessor,hopen,hstop,hq,ho,hrun⟩ := hp
  have hiff := undefined_iff_fault _ (sampleSetup_sound (by simp)) .undefined s hs
  refine ⟨s,hsent,(hiff _).mpr (.inl ⟨hpc,rfl,ho,by simp [hrun],hstop,hq⟩),fun hno => ?_⟩
  rcases (hiff _).mp hno with ⟨-,hpops⟩ | ⟨hdrain,-⟩
  · rw [hpops.stopped] at hopen
    cases hopen
  · rw [hprocessor] at hdrain
    cases hdrain

end Controller
end HyperStream
