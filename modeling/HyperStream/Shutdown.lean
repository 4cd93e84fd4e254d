import HyperStream.Controller
set_option autoImplicit false

open Transition

namespace HyperStream

/-- The thread has left its loop, whether it has returned yet or not. -/
def PC.Left {α β : Type} : PC α β → Prop
  | .cleanup | .stopDst | .returned => True
  | _ => False

instance {α β : Type} (pc : PC α β) : Decidable pc.Left :=
  match pc with
  | .cleanup | .stopDst | .returned => .isTrue trivial
  | .start | .test | .pop | .feed _ | .drain | .push _ => .isFalse id

instance {α β : Type} (pc : PC α β) : Decidable (∃ b, pc = .push b) :=
  match pc with
  | .push b => .isTrue ⟨b,rfl⟩
  | .start | .test | .pop | .feed _ | .drain | .cleanup | .stopDst | .returned =>
    .isFalse (by simp)

namespace Controller
variable {su : Setup}

/-- A thread that waits in the channel has a peer that has not returned, or the channel is
stopped. -/
def Attended {α : Type} (c : Channel Side α) (producerReturned consumerReturned : Prop) : Prop :=
  (c.monitor.Waiting .producer → ¬ consumerReturned ∨ c.isStop = true) ∧
    (c.monitor.Waiting .consumer → ¬ producerReturned ∨ c.isStop = true)

structure NoOrphan (s : Controller su) : Prop where
  ingest : Attended s.ingest (s.source.pc = .returned) (s.decoder.pc = .returned)
  decode : Attended s.decode (s.decoder.pc = .returned) (s.processor.pc = .returned)
  filter : Attended s.filter (s.processor.pc = .returned) (s.encoder.pc = .returned)
  encode : Attended s.encode (s.encoder.pc = .returned) (s.sink.pc = .returned)

def StopOrphansNoOne (su : Setup) : Prop :=
  ∀ s : Controller su, Reachable (program su .undefined) anyStep s → s.stopper = .returned →
    NoOrphan s

/-- The decoder cannot allocate its frame and returns; the processor sleeps in its pop. -/
theorem failed_start_orphans : ¬ StopOrphansNoOne (sampleSetup []) := by
  intro h
  obtain ⟨s,hs,hp⟩ := Reachable.exists_of_replay (program (sampleSetup []) .undefined) anyStep
    (turns [(.processor,4)] ++ .run .decoder none false :: turns [(.stopper,7)])
    (fun s => s.stopper = .returned ∧ s.decoder.pc = .returned ∧ s.decode.isStop = false ∧
      s.decode.monitor.status .consumer = .asleep .notEmpty)
    (fun _ _ _ => trivial) (by decide)
  simp only [decide_eq_true_eq] at hp
  obtain ⟨hstop,hdecoder,hflag,hasleep⟩ := hp
  have hw : s.decode.monitor.Waiting .consumer := .inr (by simp [hasleep])
  rcases (h s hs hstop).decode.2 hw with hno | hset
  · exact hno hdecoder
  · rw [hflag] at hset; cases hset

/-- The allocations before the loops succeed, and the processor does not leave the decoder
behind: it leaves its loop when no push of the decoder is suspended, and from then on, before
and after it returns, the decoder's pushes find room. -/
def Orderly (s : Controller su) : Label → Prop
  | .run .decoder _ alloc => (s.decoder.pc = .start → alloc = true) ∧
      ((∃ frame, s.decoder.pc = .push frame) → s.processor.pc.Left →
        s.decode.queue.length < s.decode.capacity)
  | .run .processor _ _ => s.processor.pc = .test → s.processor.isStop = true →
      ¬ s.decode.monitor.Waiting .producer
  | .run .encoder _ alloc => s.encoder.pc = .start → alloc = true
  | _ => True

instance (s : Controller su) (a : Label) : Decidable (Orderly s a) :=
  match a with
  | .run .decoder _ alloc =>
    inferInstanceAs (Decidable ((s.decoder.pc = .start → alloc = true) ∧
      ((∃ frame, s.decoder.pc = .push frame) → s.processor.pc.Left →
        s.decode.queue.length < s.decode.capacity)))
  | .run .processor _ _ =>
    inferInstanceAs (Decidable (s.processor.pc = .test → s.processor.isStop = true →
      ¬ s.decode.monitor.Waiting .producer))
  | .run .encoder _ alloc =>
    inferInstanceAs (Decidable (s.encoder.pc = .start → alloc = true))
  | .run .source _ _ | .run .sink _ _ | .run .stopper _ _ | .wake _ _ => .isTrue trivial

/-- The stores of a stop are done up to its place, returned stages have stopped their
destinations, and behind a processor that left its loop no push is suspended. -/
structure Shutdown (s : Controller su) : Prop where
  linked : Linked s
  ingest : s.stopper ∈ [StopPC.processor,.encoder,.filter,.sink,.returned] → s.ingest.isStop = true
  filter : s.stopper ∈ [StopPC.sink,.returned] → s.filter.isStop = true
  decoder : s.decoder.pc = .returned → s.decode.isStop = true
  encoder : s.encoder.pc = .returned → s.encode.isStop = true
  processor : s.processor.pc.Left → ¬ s.decode.monitor.Waiting .producer

theorem Shutdown.start (su : Setup) : Shutdown (start su) := by
  refine ⟨.start su,?_,?_,?_,?_,?_⟩ <;> simp [Controller.start,Worker.start,PC.Left]

theorem Shutdown.decoderStep {s : Controller su} {alloc : Bool}
    {w : Worker su.decoderStage.State AVPacket AVFrame} {src : Channel Side AVPacket}
    {dst : Channel Side AVFrame} (h : Shutdown s) {target : Option Side}
    (ha : Orderly s (.run .decoder target alloc))
    (hw : Worker.Stepped su.decoderStage .undefined alloc s.decoder s.ingest s.decode w src dst) :
    s.processor.pc.Left → ¬ dst.monitor.Waiting .producer := by
  intro hleft hwait
  have hno := h.processor hleft
  cases hw with
  | hold hpc hp =>
    rcases hp.waiting hwait with hold | ⟨-,hfull⟩
    · exact hno hold
    · have hroom := ha.2 ⟨_,hpc⟩ hleft
      omega
  | send _ hp => exact hp.critical.not_waiting hwait
  | stop => exact hno hwait
  | _ => exact hno hwait

theorem Shutdown.processorStep {s : Controller su} {alloc : Bool}
    {w : Worker su.processorStage.State AVFrame AVFrame} {src dst : Channel Side AVFrame}
    (h : Shutdown s) {target : Option Side} (ha : Orderly s (.run .processor target alloc))
    (hw : Worker.Stepped su.processorStage .undefined alloc s.processor s.decode s.filter
      w src dst) :
    w.pc.Left → ¬ src.monitor.Waiting .producer := by
  intro hleft
  cases hw with
  | fail _ hallocates => cases hallocates
  | quit hpc hq => exact ha hpc hq
  | ended _ hp => nomatch hp
  | clean hpc => exact h.processor (by simp [hpc,PC.Left])
  | stop hpc => exact h.processor (by simp [hpc,PC.Left])
  | await hpc => simp [hpc,PC.Left] at hleft
  | hold hpc => simp [hpc,PC.Left] at hleft
  | _ => exact absurd hleft (by simp [PC.Left])

theorem Shutdown.stop {s s' : Controller su} (h : Shutdown s) (hs : s.stop = .next s') :
    Shutdown s' := by
  have hl := h.linked.stop hs
  obtain ⟨-,hingest,hfilter,hdecoder,hencoder,hprocessor⟩ := h
  cases stop_cases hs
  all_goals
    refine ⟨hl,?_,?_,hdecoder,hencoder,hprocessor⟩
    all_goals simp_all [Channel.stop]

theorem Shutdown.step {s s' : Controller su} {a : Label} (h : Shutdown s) (ha : Orderly s a)
    (hs : Stepped .undefined s a s') : Shutdown s' := by
  have hl := h.linked.step hs
  cases hs with
  | source hw =>
    exact ⟨hl,fun hp => hw.dst_isStop (h.ingest hp),h.filter,h.decoder,h.encoder,h.processor⟩
  | decoder hw =>
    exact ⟨hl,fun hp => hw.src_isStop.trans (h.ingest hp),h.filter,
      hw.returned_stops ha.1 h.decoder,h.encoder,h.decoderStep ha hw⟩
  | processor hw =>
    exact ⟨hl,h.ingest,fun hp => hw.dst_isStop (h.filter hp),
      fun hp => hw.src_isStop.trans (h.decoder hp),h.encoder,h.processorStep ha hw⟩
  | encoder hw =>
    exact ⟨hl,h.ingest,fun hp => hw.src_isStop.trans (h.filter hp),h.decoder,
      hw.returned_stops ha h.encoder,h.processor⟩
  | sink hw =>
    exact ⟨hl,h.ingest,h.filter,h.decoder,fun hp => hw.src_isStop.trans (h.encoder hp),
      h.processor⟩
  | stopper hstop => exact h.stop hstop
  | wakeIngest hw =>
    exact ⟨hl,fun hp => (Channel.wakeSpuriously_isStop hw).trans (h.ingest hp),h.filter,h.decoder,
      h.encoder,h.processor⟩
  | wakeDecode hw =>
    exact ⟨hl,h.ingest,h.filter,fun hp => (Channel.wakeSpuriously_isStop hw).trans (h.decoder hp),
      h.encoder,fun hp hwait => h.processor hp ((Channel.wakeSpuriously_waiting hw).mp hwait)⟩
  | wakeFilter hw =>
    exact ⟨hl,h.ingest,fun hp => (Channel.wakeSpuriously_isStop hw).trans (h.filter hp),h.decoder,
      h.encoder,h.processor⟩
  | wakeEncode hw =>
    exact ⟨hl,h.ingest,h.filter,h.decoder,
      fun hp => (Channel.wakeSpuriously_isStop hw).trans (h.encoder hp),h.processor⟩

/-- After a stop that came in an orderly run no thread is left waiting for a peer that is
gone. -/
theorem orderly_stop_orphans_no_one (su : Setup) (s : Controller su)
    (h : Reachable (program su .undefined) Orderly s) (hstop : s.stopper = .returned) :
    NoOrphan s := by
  have hs : Shutdown s :=
    h.invariant (.start su) fun hi ha hstep => hi.step ha (step_cases hstep)
  have hingest := hs.ingest (by simp [hstop])
  have hfilter := hs.filter (by simp [hstop])
  refine ⟨⟨fun _ => .inr hingest,fun _ => .inr hingest⟩,⟨fun hw => .inl fun hpc => ?_,fun _ => ?_⟩,
    ⟨fun _ => .inr hfilter,fun _ => .inr hfilter⟩,⟨fun hw => ?_,fun _ => ?_⟩⟩
  · exact hs.processor (by simp [hpc,PC.Left]) hw
  · by_cases hpc : s.decoder.pc = .returned
    · exact .inr (hs.decoder hpc)
    · exact .inl hpc
  · exact absurd hw (hs.linked.encode.unbounded rfl)
  · by_cases hpc : s.encoder.pc = .returned
    · exact .inr (hs.encoder hpc)
    · exact .inl hpc

/-- The decoder has its second frame in hand when stop comes; the processor leaves and
returns, then the decoder pushes the frame, leaves and returns; the sink still waits. -/
def orderlyRun : List Label :=
  turns [(.source,6),(.decoder,11),(.processor,7),(.encoder,5),(.sink,3),(.stopper,7),
    (.processor,3),(.decoder,5)]

theorem orderly_stop_orphans_no_one_sample :
    ∃ s : Controller (sampleSetup [⟨0,900,900,1,[]⟩,⟨0,1800,1800,1,[]⟩]),
      s.decoder.pc = .returned ∧ s.processor.pc = .returned ∧ s.decode.queue.length = 1 ∧
      s.encode.monitor.Waiting .consumer ∧ NoOrphan s := by
  obtain ⟨s,hs,hp⟩ := Reachable.exists_of_replay
    ((program (sampleSetup [⟨0,900,900,1,[]⟩,⟨0,1800,1800,1,[]⟩]) .undefined).guarded Orderly)
    anyStep orderlyRun
    (fun s => s.stopper = .returned ∧ s.decoder.pc = .returned ∧ s.processor.pc = .returned ∧
      s.decode.queue.length = 1 ∧ s.encode.monitor.Waiting .consumer)
    (fun _ _ _ => trivial) (by decide)
  simp only [decide_eq_true_eq] at hp
  obtain ⟨hstop,hdecoder,hprocessor,hqueue,hsink⟩ := hp
  exact ⟨s,hdecoder,hprocessor,hqueue,hsink,
    orderly_stop_orphans_no_one _ s (Run.of_guarded hs) hstop⟩

end Controller
end HyperStream
