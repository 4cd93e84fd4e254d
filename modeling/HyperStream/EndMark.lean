import HyperStream.Shutdown
set_option autoImplicit false

open Transition

namespace HyperStream

/-- What a false pop reports: the channel is stopped and holds nothing. -/
def Channel.Ended {α : Type} (c : Channel Side α) : Prop := c.isStop = true ∧ c.queue = []

/-- A channel is stopped by its returned producer only, and its consumer leaves it only at
the end. -/
structure Marked {α : Type} (c : Channel Side α) (producerReturned consumerLeft : Prop) :
    Prop where
  stopped : c.isStop = true → producerReturned
  left : consumerLeft → c.Ended

theorem Marked.wakeSpuriously {α : Type} {c c' : Channel Side α} {side : Side} {p q : Prop}
    (h : Marked c p q) (hw : c.wakeSpuriously side = .next c') : Marked c' p q := by
  obtain ⟨cv,-,rfl⟩ := Channel.wakeSpuriously_cases hw
  exact ⟨h.stopped,h.left⟩

namespace Worker
variable {α β : Type} {S : Stage α β} {e : EmptyPop} {alloc : Bool}
  {w w' : Worker S.State α β} {src src' : Channel Side α} {dst dst' : Channel Side β}

theorem Stepped.not_returned (h : Stepped S e alloc w src dst w' src' dst') :
    w.pc ≠ .returned := by
  intro hpc
  cases h <;> simp_all

theorem Stepped.dst_marked {q : Prop} (h : Stepped S e alloc w src dst w' src' dst')
    (hm : Marked dst (w.pc = .returned) q) : Marked dst' (w'.pc = .returned) q := by
  have hopen : dst.isStop ≠ true := fun hs => h.not_returned (hm.stopped hs)
  refine ⟨fun hs => ?_,fun hq => absurd (hm.left hq).1 hopen⟩
  cases h with
  | hold _ hp => exact absurd (hp.frame.1.symm.trans hs) hopen
  | send _ hp => exact absurd (hp.frame.1.symm.trans hs) hopen
  | stop => rfl
  | _ => exact absurd hs hopen

/-- A stage that nobody told to stop leaves its loop at the end of its input. -/
theorem Stepped.src_marked {p : Prop} (h : Stepped S e alloc w src dst w' src' dst')
    (hflag : w.isStop = false) (halloc : alloc = true) (hm : Marked src p w.pc.Left) :
    Marked src' p w'.pc.Left := by
  refine ⟨fun hs => hm.stopped (h.src_isStop.symm.trans hs),fun hleft => ?_⟩
  cases h with
  | fail _ _ hno => rw [halloc] at hno; cases hno
  | quit _ hq => rw [hflag] at hq; cases hq
  | ended _ hp => cases hp with | ended _ _ _ hs hq => exact ⟨hs,hq⟩
  | clean hpc => exact hm.left (by simp [hpc,PC.Left])
  | stop hpc => exact hm.left (by simp [hpc,PC.Left])
  | await hpc => simp [hpc,PC.Left] at hleft
  | hold hpc => simp [hpc,PC.Left] at hleft
  | _ => exact absurd hleft (by simp [PC.Left])

end Worker

namespace MediaSource
variable {streams : List AVStream} {read : Nat → Option AVPacket} {alloc : Bool}
  {th th' : Thread} {dst dst' : Channel Side AVPacket}

def PC.Left : PC → Prop
  | .stopDst | .returned => True
  | _ => False

/-- The last av_read_frame failed. -/
def SawReadError (read : Nat → Option AVPacket) (th : Thread) : Prop :=
  ∃ k, th.reads = k+1 ∧ read k = none

theorem Stepped.not_returned (h : Stepped streams read alloc th dst th' dst') :
    th.pc ≠ .returned := by
  intro hpc
  cases h <;> simp_all

theorem Stepped.dst_marked {q : Prop} (h : Stepped streams read alloc th dst th' dst')
    (hm : Marked dst (th.pc = .returned) q) : Marked dst' (th'.pc = .returned) q := by
  have hopen : dst.isStop ≠ true := fun hs => h.not_returned (hm.stopped hs)
  refine ⟨fun hs => ?_,fun hq => absurd (hm.left hq).1 hopen⟩
  cases h with
  | hold _ hp => exact absurd (hp.frame.1.symm.trans hs) hopen
  | send _ hp => exact absurd (hp.frame.1.symm.trans hs) hopen
  | stop => rfl
  | _ => exact absurd hs hopen

theorem Stepped.sawReadError (h : Stepped streams read alloc th dst th' dst')
    (hflag : th.isStop = false) (hs : th.pc.Left → SawReadError read th) :
    th'.pc.Left → SawReadError read th' := by
  intro hleft
  cases h with
  | quit _ hq => rw [hflag] at hq; cases hq
  | finish _ _ hr => exact ⟨_,rfl,hr⟩
  | hold hpc => simp [hpc,PC.Left] at hleft
  | stop hpc => exact hs (by simp [hpc,PC.Left])
  | _ => exact absurd hleft (by simp [PC.Left])

theorem Stepped.isStop_eq (h : Stepped streams read alloc th dst th' dst') :
    th'.isStop = th.isStop := by
  cases h <;> rfl

end MediaSource

namespace MediaSink
variable {tb : TimeBases} {e : EmptyPop} {th th' : Thread} {src src' : Channel Side AVPacket}

def PC.Left : PC → Prop
  | .trailer | .returned => True
  | _ => False

theorem Stepped.src_marked {p : Prop} (h : Stepped tb e th src th' src')
    (hflag : th.isStop = false) (hm : Marked src p th.pc.Left) : Marked src' p th'.pc.Left := by
  refine ⟨fun hs => hm.stopped (h.src_isStop.symm.trans hs),fun hleft => ?_⟩
  cases h with
  | quit _ hq => rw [hflag] at hq; cases hq
  | ended _ hp => cases hp with | ended _ _ _ hs hq => exact ⟨hs,hq⟩
  | trailer hpc => exact hm.left (by simp [hpc,PC.Left])
  | await hpc => simp [hpc,PC.Left] at hleft
  | _ => exact absurd hleft (by simp [PC.Left])

theorem Stepped.isStop_eq (h : Stepped tb e th src th' src') : th'.isStop = th.isStop := by
  cases h <;> rfl

end MediaSink
namespace Controller
variable {su : Setup} {e : EmptyPop} {s s' t : Controller su} {a : Label}

structure Unstopped (s : Controller su) : Prop where
  source : s.source.isStop = false
  decoder : s.decoder.isStop = false
  processor : s.processor.isStop = false
  encoder : s.encoder.isStop = false
  sink : s.sink.isStop = false

structure Ends (s : Controller su) : Prop where
  unstopped : Unstopped s
  source : s.source.pc.Left → MediaSource.SawReadError su.read s.source
  ingest : Marked s.ingest (s.source.pc = .returned) s.decoder.pc.Left
  decode : Marked s.decode (s.decoder.pc = .returned) s.processor.pc.Left
  filter : Marked s.filter (s.processor.pc = .returned) s.encoder.pc.Left
  encode : Marked s.encode (s.encoder.pc = .returned) s.sink.pc.Left

theorem Unstopped.step (h : Unstopped s) (ha : Undisturbed s a) (hs : Stepped e s a s') :
    Unstopped s' := by
  obtain ⟨hsource,hdecoder,hprocessor,hencoder,hsink⟩ := h
  cases hs with
  | source hw => exact ⟨hw.isStop_eq.trans hsource,hdecoder,hprocessor,hencoder,hsink⟩
  | decoder hw => exact ⟨hsource,hw.isStop_eq.trans hdecoder,hprocessor,hencoder,hsink⟩
  | processor hw => exact ⟨hsource,hdecoder,hw.isStop_eq.trans hprocessor,hencoder,hsink⟩
  | encoder hw => exact ⟨hsource,hdecoder,hprocessor,hw.isStop_eq.trans hencoder,hsink⟩
  | sink hw => exact ⟨hsource,hdecoder,hprocessor,hencoder,hw.isStop_eq.trans hsink⟩
  | stopper => exact absurd rfl ha.1
  | _ => exact ⟨hsource,hdecoder,hprocessor,hencoder,hsink⟩

theorem Ends.start (su : Setup) : Ends (start su) := by
  refine ⟨⟨rfl,rfl,rfl,rfl,rfl⟩,?_,⟨?_,?_⟩,⟨?_,?_⟩,⟨?_,?_⟩,⟨?_,?_⟩⟩ <;>
    simp [Controller.start,Channel.new,Worker.start,MediaSource.start,MediaSink.start,PC.Left,
      MediaSource.PC.Left,MediaSink.PC.Left]

/-- A thread ends on what its input shows, and marks its output only when it returns. -/
theorem Ends.step (h : Ends s) (ha : Undisturbed s a) (hs : Stepped e s a s') : Ends s' := by
  have hflags := h.unstopped
  have hu := hflags.step ha hs
  obtain ⟨-,hread,hingest,hdecode,hfilter,hencode⟩ := h
  cases hs with
  | source hw =>
    exact ⟨hu,hw.sawReadError hflags.source hread,hw.dst_marked hingest,hdecode,hfilter,hencode⟩
  | decoder hw =>
    exact ⟨hu,hread,hw.src_marked hflags.decoder ha.2 hingest,hw.dst_marked hdecode,hfilter,
      hencode⟩
  | processor hw =>
    exact ⟨hu,hread,hingest,hw.src_marked hflags.processor ha.2 hdecode,hw.dst_marked hfilter,
      hencode⟩
  | encoder hw =>
    exact ⟨hu,hread,hingest,hdecode,hw.src_marked hflags.encoder ha.2 hfilter,
      hw.dst_marked hencode⟩
  | sink hw => exact ⟨hu,hread,hingest,hdecode,hfilter,hw.src_marked hflags.sink hencode⟩
  | stopper => exact absurd rfl ha.1
  | wakeIngest hw => exact ⟨hu,hread,hingest.wakeSpuriously hw,hdecode,hfilter,hencode⟩
  | wakeDecode hw => exact ⟨hu,hread,hingest,hdecode.wakeSpuriously hw,hfilter,hencode⟩
  | wakeFilter hw => exact ⟨hu,hread,hingest,hdecode,hfilter.wakeSpuriously hw,hencode⟩
  | wakeEncode hw => exact ⟨hu,hread,hingest,hdecode,hfilter,hencode.wakeSpuriously hw⟩

theorem reachable_ends (h : Reachable (program su e) Undisturbed s) : Ends s :=
  h.invariant (.start su) fun he ha hs => he.step ha (step_cases hs)

/-- A thread that has returned sends nothing more. -/
structure Frozen (s t : Controller su) : Prop where
  source : s.source.pc = .returned → t.source = s.source
  decoder : s.decoder.pc = .returned → t.decoder = s.decoder
  processor : s.processor.pc = .returned → t.processor = s.processor
  encoder : s.encoder.pc = .returned → t.encoder = s.encoder

theorem Frozen.step (h : Frozen s t) (ha : Undisturbed t a) (hs : Stepped e t a s') :
    Frozen s s' := by
  obtain ⟨hsource,hdecoder,hprocessor,hencoder⟩ := h
  cases hs with
  | source hw =>
    refine ⟨fun hpc => ?_,hdecoder,hprocessor,hencoder⟩
    exact absurd (by rw [hsource hpc,hpc]) hw.not_returned
  | decoder hw =>
    refine ⟨hsource,fun hpc => ?_,hprocessor,hencoder⟩
    exact absurd (by rw [hdecoder hpc,hpc]) hw.not_returned
  | processor hw =>
    refine ⟨hsource,hdecoder,fun hpc => ?_,hencoder⟩
    exact absurd (by rw [hprocessor hpc,hpc]) hw.not_returned
  | encoder hw =>
    refine ⟨hsource,hdecoder,hprocessor,fun hpc => ?_⟩
    exact absurd (by rw [hencoder hpc,hpc]) hw.not_returned
  | stopper => exact absurd rfl ha.1
  | _ => exact ⟨hsource,hdecoder,hprocessor,hencoder⟩

theorem run_frozen (h : Run (program su e) Undisturbed s t) : Frozen s t :=
  h.invariant (fun hf ha hs => hf.step ha (step_cases hs))
    ⟨fun _ => rfl,fun _ => rfl,fun _ => rfl,fun _ => rfl⟩

/-- What the end mark of a channel says of the thread that sends on it, and of what the
other end has received: `received` is all that is sent, now and later. -/
structure EndMark {α : Type} (s : Controller su) (c : Channel Side α)
    (sent : Controller su → List α) (received : List α) (producerReturned : Prop) : Prop where
  final : c.isStop = true → producerReturned ∧
    ∀ t, Run (program su .returnsFalse) Undisturbed s t → sent t = sent s
  complete : c.Ended →
    ∀ t, Run (program su .returnsFalse) Undisturbed s t → received = sent t

theorem EndMark.of_marked {α : Type} {c : Channel Side α} {sent : Controller su → List α}
    {received : List α} {p q : Prop} {capacity : Nat} (hm : Marked c p q)
    (hl : Link capacity (sent s) c received)
    (hfrozen : p → ∀ t, Run (program su .returnsFalse) Undisturbed s t → sent t = sent s) :
    EndMark s c sent received p := by
  refine ⟨fun hs => ⟨hm.stopped hs,hfrozen (hm.stopped hs)⟩,fun hended t ht => ?_⟩
  have hall := hl.fifo
  rw [hended.2,List.append_nil] at hall
  rw [hfrozen (hm.stopped hended.1) t ht,hall]

/-- The mark is exact on each channel, and each stage that leaves its loop has seen the end
of its input. -/
theorem end_mark_exact (su : Setup) (s : Controller su)
    (h : Reachable (program su .returnsFalse) Undisturbed s) :
    EndMark s s.ingest (fun t => t.source.sent) s.decoder.received (s.source.pc = .returned) ∧
    EndMark s s.decode (fun t => t.decoder.sent) s.processor.received
      (s.decoder.pc = .returned) ∧
    EndMark s s.filter (fun t => t.processor.sent) s.encoder.received
      (s.processor.pc = .returned) ∧
    EndMark s s.encode (fun t => t.encoder.sent) s.sink.received (s.encoder.pc = .returned) ∧
    (s.source.pc.Left → MediaSource.SawReadError su.read s.source) ∧
    (s.decoder.pc.Left → s.ingest.Ended) ∧ (s.processor.pc.Left → s.decode.Ended) ∧
    (s.encoder.pc.Left → s.filter.Ended) ∧ (s.sink.pc.Left → s.encode.Ended) := by
  have hl := reachable_linked h
  have hends := reachable_ends h
  refine ⟨.of_marked hends.ingest hl.ingest fun hpc t ht => ?_,
    .of_marked hends.decode hl.decode fun hpc t ht => ?_,
    .of_marked hends.filter hl.filter fun hpc t ht => ?_,
    .of_marked hends.encode hl.encode fun hpc t ht => ?_,
    hends.source,hends.ingest.left,hends.decode.left,hends.filter.left,hends.encode.left⟩
  · rw [(run_frozen ht).source hpc]
  · rw [(run_frozen ht).decoder hpc]
  · rw [(run_frozen ht).processor hpc]
  · rw [(run_frozen ht).encoder hpc]

/-- One packet goes through the pipeline, which then ends stage by stage. -/
theorem end_mark_exact_sample :
    ∃ s : Controller (sampleSetup [⟨0,900,900,1,[]⟩]), s.encode.Ended ∧
      s.sink.received = s.encoder.sent ∧ s.filter.Ended ∧ s.sink.received.length = 1 := by
  obtain ⟨s,hs,hp⟩ := Reachable.exists_of_replay
    (program (sampleSetup [⟨0,900,900,1,[]⟩]) .returnsFalse) Undisturbed
    (turns [(.source,6),(.decoder,11),(.processor,11),(.encoder,11),(.sink,6)])
    (fun s => s.encode.isStop = true ∧ s.encode.queue = [] ∧ s.encoder.pc = .returned ∧
      s.sink.received.length = 1)
    (fun a ha _ => undisturbed_of_mem_turns (by decide) ha) (by decide)
  simp only [decide_eq_true_eq] at hp
  obtain ⟨hstop,hq,hpc,hlen⟩ := hp
  obtain ⟨-,-,-,hencode,-,-,-,hleft,-⟩ := end_mark_exact _ s hs
  exact ⟨s,⟨hstop,hq⟩,hencode.complete ⟨hstop,hq⟩ s (.refl _),hleft (by simp [hpc,PC.Left]),hlen⟩

end Controller
end HyperStream
