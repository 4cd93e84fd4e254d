import HyperStream.Sound
import HyperStream.Manned
set_option autoImplicit false

open Transition

namespace HyperStream

theorem VideoEncoder.cleanup_ne_disabled {C : Component AVFrame AVPacket} (s : State C) :
    (stage C).cleanup s ≠ .disabled := by
  cases s <;> simp [stage,cleanup]

/-- No step takes the thread on. -/
def Worker.Halts {α β : Type} (S : Stage α β) (e : EmptyPop) (w : Worker S.State α β)
    (src : Channel Side α) (dst : Channel Side β) : Prop :=
  ∀ target t, step S e target true w src dst ≠ .next t

namespace Worker
variable {α β : Type} {S : Stage α β} {e : EmptyPop} {w : Worker S.State α β}
  {src : Channel Side α} {dst : Channel Side β} {p : Prop}

theorem Halts.not_pop (h : Halts S e w src dst) (hpc : w.pc = .pop) (target : Option Side)
    (r : Reply (Option α) × Channel Side α) : src.pop e .consumer target ≠ .next r := by
  intro hr
  have hstep := h target
  simp only [step,hpc,hr,Outcome.bind_next] at hstep
  obtain ⟨r,src'⟩ := r
  cases r with
  | blocked => exact hstep _ rfl
  | returned x => cases x <;> exact hstep _ rfl

theorem Halts.not_push (h : Halts S e w src dst) {b : β} (hpc : w.pc = .push b)
    (target : Option Side) (r : Reply Unit × Channel Side β) :
    dst.push .producer b target ≠ .next r := by
  intro hr
  have hstep := h target
  simp only [step,hpc,hr,Outcome.bind_next] at hstep
  obtain ⟨r,dst'⟩ := r
  cases r <;> exact hstep _ rfl

/-- It does not hold a mutex. -/
theorem Halts.consumer_free (h : Halts S e w src dst) (hm : Manned src p (w.pc = .pop))
    (cv : CondVar) : src.monitor.owner ≠ some (.consumer,cv) := fun ho =>
  h.not_pop (hm.consumer (.inl ⟨cv,ho⟩)) none _ (Channel.pop_parked ho none)

theorem Halts.producer_free (h : Halts S e w src dst)
    (hm : Manned dst (∃ b, w.pc = .push b) p) (cv : CondVar) :
    dst.monitor.owner ≠ some (.producer,cv) := by
  intro ho
  obtain ⟨b,hpc⟩ := hm.producer (.inl ⟨cv,ho⟩)
  exact h.not_push hpc none _ (Channel.push_parked ho b none)

/-- Where a thread halts that nothing but a pop leads out of the defined behaviours. -/
inductive Halted (e : EmptyPop) (w : Worker S.State α β) (src : Channel Side α)
    (dst : Channel Side β) : Prop where
  | returned : w.pc = .returned → Halted e w src dst
  | popping : w.pc = .pop →
      (∃ cv, src.monitor.status .consumer = .asleep cv) ∨ src.PopsEmpty e .consumer →
    Halted e w src dst
  | pushing {b : β} {cv : CondVar} : w.pc = .push b →
      dst.monitor.status .producer = .asleep cv → Halted e w src dst

theorem Halts.halted (h : Halts S e w src dst) (hsrc : src.monitor.owner = none)
    (hdst : dst.monitor.owner = none) (hclean : S.cleanup w.state ≠ .disabled)
    (hdef : Fault S e true w src → w.pc = .pop) : Halted e w src dst := by
  have hstep := h none
  cases hpc : w.pc with
  | returned => exact .returned hpc
  | pop =>
    refine .popping hpc ?_
    by_contra hno
    rw [not_or,not_exists] at hno
    obtain ⟨target,r,hr⟩ := Channel.pop_enabled hsrc hno.1 hno.2
    exact h.not_pop hpc target r hr
  | push b =>
    by_cases hs : ∃ cv, dst.monitor.status .producer = .asleep cv
    · obtain ⟨cv,hcv⟩ := hs
      exact .pushing hpc hcv
    · obtain ⟨target,r,hr⟩ := Channel.push_enabled hdst (not_exists.mp hs) b
      exact absurd hr (h.not_push hpc target r)
  | start =>
    simp only [step,hpc,Bool.not_true,Bool.and_false,Bool.false_eq_true,if_false] at hstep
    exact absurd rfl (hstep _)
  | test => simp only [step,hpc] at hstep; exact absurd rfl (hstep _)
  | feed a =>
    simp only [Fault,hpc,reduceCtorEq,imp_false] at hdef
    simp only [step,hpc] at hstep
    cases hf : S.feed w.state a with
    | undefined => exact absurd hf hdef
    | _ => rw [hf] at hstep; exact absurd rfl (hstep _)
  | drain =>
    simp only [Fault,hpc,reduceCtorEq,imp_false] at hdef
    simp only [step,hpc] at hstep
    cases hd : S.drain w.state true with
    | undefined => exact absurd hd hdef
    | _ => rw [hd] at hstep; exact absurd rfl (hstep _)
  | cleanup =>
    simp only [Fault,hpc,reduceCtorEq,imp_false] at hdef
    simp only [step,hpc] at hstep
    cases hc : S.cleanup w.state with
    | undefined => exact absurd hc hdef
    | disabled => exact absurd hc hclean
    | next s => rw [hc] at hstep; exact absurd rfl (hstep _)
  | stopDst => simp only [step,hpc] at hstep; exact absurd rfl (hstep _)

end Worker

namespace MediaSource
variable {streams : List AVStream} {read : Nat → Option AVPacket} {th : Thread}
  {dst : Channel Side AVPacket} {p : Prop}

def Halts (streams : List AVStream) (read : Nat → Option AVPacket) (th : Thread)
    (dst : Channel Side AVPacket) : Prop :=
  ∀ target t, step streams read target true th dst ≠ .next t

theorem Halts.not_push (h : Halts streams read th dst) {pkt : AVPacket}
    (hpc : th.pc = .push pkt) (target : Option Side) (r : Reply Unit × Channel Side AVPacket) :
    dst.push .producer pkt target ≠ .next r := by
  intro hr
  have hstep := h target
  simp only [step,hpc,hr,Outcome.bind_next] at hstep
  obtain ⟨r,dst'⟩ := r
  cases r <;> exact hstep _ rfl

/-- Nothing but a push that sleeps holds it up before it returns. -/
theorem Halts.halted (h : Halts streams read th dst) (hdst : dst.monitor.owner = none)
    (hdef : step streams read none true th dst ≠ .undefined) : th.pc = .returned ∨
      ∃ pkt cv, th.pc = .push pkt ∧ dst.monitor.status .producer = .asleep cv := by
  have hstep := h none
  cases hpc : th.pc with
  | returned => exact .inl rfl
  | push pkt =>
    by_cases hs : ∃ cv, dst.monitor.status .producer = .asleep cv
    · obtain ⟨cv,hcv⟩ := hs
      exact .inr ⟨pkt,cv,rfl,hcv⟩
    · obtain ⟨target,r,hr⟩ := Channel.push_enabled hdst (not_exists.mp hs) pkt
      exact absurd hr (h.not_push hpc target r)
  | test => simp only [step,hpc] at hstep; exact absurd rfl (hstep _)
  | stopDst => simp only [step,hpc] at hstep; exact absurd rfl (hstep _)
  | read =>
    cases hs : step streams read none true th dst with
    | undefined => exact absurd hs hdef
    | next t => exact absurd hs (hstep t)
    | disabled =>
      simp only [step,hpc,Bool.not_true,Bool.false_eq_true,if_false] at hs
      split at hs
      · cases hs
      · split at hs <;> cases hs

end MediaSource

namespace MediaSink
variable {tb : TimeBases} {e : EmptyPop} {th : Thread} {src : Channel Side AVPacket} {p : Prop}

def Halts (tb : TimeBases) (e : EmptyPop) (th : Thread) (src : Channel Side AVPacket) : Prop :=
  ∀ target t, step tb e target th src ≠ .next t

theorem Halts.not_pop (h : Halts tb e th src) (hpc : th.pc = .pop) (target : Option Side)
    (r : Reply (Option AVPacket) × Channel Side AVPacket) :
    src.pop e .consumer target ≠ .next r := by
  intro hr
  have hstep := h target
  simp only [step,hpc,hr,Outcome.bind_next] at hstep
  obtain ⟨r,src'⟩ := r
  cases r with
  | blocked => exact hstep _ rfl
  | returned x => cases x <;> exact hstep _ rfl

theorem Halts.consumer_free (h : Halts tb e th src) (hm : Manned src p (th.pc = .pop))
    (cv : CondVar) : src.monitor.owner ≠ some (.consumer,cv) := fun ho =>
  h.not_pop (hm.consumer (.inl ⟨cv,ho⟩)) none _ (Channel.pop_parked ho none)

theorem Halts.halted (h : Halts tb e th src) (hsrc : src.monitor.owner = none) :
    th.pc = .returned ∨ (th.pc = .pop ∧
      ((∃ cv, src.monitor.status .consumer = .asleep cv) ∨ src.PopsEmpty e .consumer)) := by
  have hstep := h none
  cases hpc : th.pc with
  | returned => exact .inl rfl
  | pop =>
    refine .inr ⟨rfl,?_⟩
    by_contra hno
    rw [not_or,not_exists] at hno
    obtain ⟨target,r,hr⟩ := Channel.pop_enabled hsrc hno.1 hno.2
    exact h.not_pop hpc target r hr
  | test => simp only [step,hpc] at hstep; exact absurd rfl (hstep _)
  | write pkt => simp only [step,hpc] at hstep; exact absurd rfl (hstep _)
  | trailer => simp only [step,hpc] at hstep; exact absurd rfl (hstep _)

end MediaSink

namespace Controller
variable {su : Setup} {e : EmptyPop} {s : Controller su}

/-- No step of the five threads goes on; nobody calls stop, and no thread wakes by accident. -/
def AtRest (e : EmptyPop) (s : Controller su) : Prop :=
  ∀ thread target, thread ≠ .stopper → ∀ t, step e s (.run thread target true) ≠ .next t

/-- No step of the four threads behind the source goes on. -/
def StagesRest (e : EmptyPop) (s : Controller su) : Prop :=
  ∀ thread target, thread ≠ .source → thread ≠ .stopper →
    ∀ t, step e s (.run thread target true) ≠ .next t

theorem AtRest.source (h : AtRest e s) :
    MediaSource.Halts su.streams su.read s.source s.ingest := by
  intro target p hp
  exact h .source target (by simp) _ (Outcome.bind_eq_next.mpr ⟨p,hp,rfl⟩)

theorem AtRest.stages (h : AtRest e s) : StagesRest e s :=
  fun thread target _ hno => h thread target hno

theorem StagesRest.decoder (h : StagesRest e s) :
    Worker.Halts su.decoderStage e s.decoder s.ingest s.decode := by
  intro target p hp
  exact h .decoder target (by simp) (by simp) _ (Outcome.bind_eq_next.mpr ⟨p,hp,rfl⟩)

theorem StagesRest.processor (h : StagesRest e s) :
    Worker.Halts su.processorStage e s.processor s.decode s.filter := by
  intro target p hp
  exact h .processor target (by simp) (by simp) _ (Outcome.bind_eq_next.mpr ⟨p,hp,rfl⟩)

theorem StagesRest.encoder (h : StagesRest e s) :
    Worker.Halts su.encoderStage e s.encoder s.filter s.encode := by
  intro target p hp
  exact h .encoder target (by simp) (by simp) _ (Outcome.bind_eq_next.mpr ⟨p,hp,rfl⟩)

theorem StagesRest.sink (h : StagesRest e s) :
    MediaSink.Halts su.timeBases e s.sink s.encode := by
  intro target p hp
  exact h .sink target (by simp) (by simp) _ (Outcome.bind_eq_next.mpr ⟨p,hp,rfl⟩)

/-- No thread holds a mutex; the source never does, for its pushes do not wait. -/
theorem StagesRest.free (h : StagesRest e s) (hm : Staffed s) (hl : Linked s) :
    s.ingest.monitor.owner = none ∧ s.decode.monitor.owner = none ∧
      s.filter.monitor.owner = none ∧ s.encode.monitor.owner = none := by
  have hfree {α : Type} {c : Channel Side α}
      (hp : ∀ cv, c.monitor.owner ≠ some (.producer,cv))
      (hc : ∀ cv, c.monitor.owner ≠ some (.consumer,cv)) : c.monitor.owner = none := by
    rw [Option.eq_none_iff_forall_ne_some]
    intro o ho
    obtain ⟨side,cv⟩ := o
    cases side with
    | producer => exact hp cv ho
    | consumer => exact hc cv ho
  exact ⟨hfree (fun cv ho => hl.ingest.unbounded rfl (.inl ⟨cv,ho⟩))
      (h.decoder.consumer_free hm.ingest),
    hfree (h.decoder.producer_free hm.decode) (h.processor.consumer_free hm.decode),
    hfree (h.processor.producer_free hm.filter) (h.encoder.consumer_free hm.filter),
    hfree (h.encoder.producer_free hm.encode) (h.sink.consumer_free hm.encode)⟩

/-- The four stages sleep in their pops. -/
theorem StagesRest.of_asleep
    (hdecoder : s.decoder.pc = .pop ∧ s.ingest.monitor.owner = none ∧
      s.ingest.monitor.status .consumer = .asleep .notEmpty)
    (hprocessor : s.processor.pc = .pop ∧ s.decode.monitor.owner = none ∧
      s.decode.monitor.status .consumer = .asleep .notEmpty)
    (hencoder : s.encoder.pc = .pop ∧ s.filter.monitor.owner = none ∧
      s.filter.monitor.status .consumer = .asleep .notEmpty)
    (hsink : s.sink.pc = .pop ∧ s.encode.monitor.owner = none ∧
      s.encode.monitor.status .consumer = .asleep .notEmpty) : StagesRest e s := by
  intro thread target hsource hstopper t
  cases thread with
  | source => exact absurd rfl hsource
  | decoder =>
    simp [step,Worker.step,hdecoder.1,Channel.pop,Channel.lock_asleep hdecoder.2.1 hdecoder.2.2]
  | processor =>
    simp [step,Worker.step,hprocessor.1,Channel.pop,
      Channel.lock_asleep hprocessor.2.1 hprocessor.2.2]
  | encoder =>
    simp [step,Worker.step,hencoder.1,Channel.pop,Channel.lock_asleep hencoder.2.1 hencoder.2.2]
  | sink =>
    simp [step,MediaSink.step,hsink.1,Channel.pop,Channel.lock_asleep hsink.2.1 hsink.2.2]
  | stopper => exact absurd rfl hstopper

/-- Where the threads can be when none of them goes on: returned, asleep in a channel, or
about to pop from an empty stopped one. -/
structure StagesHalted (e : EmptyPop) (s : Controller su) : Prop where
  decoder : Worker.Halted e s.decoder s.ingest s.decode
  processor : Worker.Halted e s.processor s.decode s.filter
  encoder : Worker.Halted e s.encoder s.filter s.encode
  sink : s.sink.pc = .returned ∨ (s.sink.pc = .pop ∧
    ((∃ cv, s.encode.monitor.status .consumer = .asleep cv) ∨ s.encode.PopsEmpty e .consumer))

structure Halted (e : EmptyPop) (s : Controller su) : Prop extends StagesHalted e s where
  source : s.source.pc = .returned

theorem StagesRest.halted (h : StagesRest e s) (hsound : su.Sound)
    (hs : Reachable (program su e) anyStep s) : StagesHalted e s := by
  obtain ⟨hingest,hdecode,hfilter,hencode⟩ := h.free (reachable_staffed hs) (reachable_linked hs)
  have hdriven := reachable_driven (StageTurns.any su) (fun s a _ => StageTurns.any_met s a) hs
  have hpop {q : Prop} {r : Prop} (hf : q ∨ r ∧ true = false) : q :=
    hf.resolve_right (by simp)
  constructor
  · exact h.decoder.halted hingest hdecode (by intro hc; cases hc)
      fun hf => (hpop ((decoder_fault_iff hdriven).mp hf)).1
  · exact h.processor.halted hdecode hfilter (by intro hc; cases hc)
      fun hf => (hpop ((processor_fault_iff hsound hdriven (reachable_stamped hs)).mp hf)).1
  · exact h.encoder.halted hfilter hencode (VideoEncoder.cleanup_ne_disabled _)
      fun hf => ((encoder_fault_iff hsound hdriven).mp hf).1
  · exact h.sink.halted hencode

theorem AtRest.halted (h : AtRest e s) (hsound : su.Sound)
    (hs : Reachable (program su e) anyStep s) : Halted e s := by
  have hl := reachable_linked hs
  have hsource := h.source.halted (h.stages.free (reachable_staffed hs) hl).1 fun hu => by
    simpa using (source_fault_iff hsound).mp hu
  refine ⟨h.stages.halted hsound hs,?_⟩
  rcases hsource with hpc | ⟨pkt,cv,-,hcv⟩
  · exact hpc
  · exact absurd (.inr (by simp [hcv])) (hl.ingest.unbounded rfl)

/-- The channels are empty, and no stage has anything in hand. -/
structure Drained (s : Controller su) : Prop where
  decoder : s.decoder.pc = .pop ∨ s.decoder.pc = .returned
  processor : s.processor.pc = .pop ∨ s.processor.pc = .returned
  encoder : s.encoder.pc = .pop ∨ s.encoder.pc = .returned
  sink : s.sink.pc = .pop ∨ s.sink.pc = .returned
  ingest_empty : s.ingest.queue = []
  decode_empty : s.decode.queue = []
  filter_empty : s.filter.queue = []
  encode_empty : s.encode.queue = []

structure Exhausted (s : Controller su) : Prop extends Drained s where
  source : s.source.pc = .returned

end Controller

/-- A halted thread in front of an empty channel has nothing behind it. -/
theorem Worker.Halted.drained {α β : Type} {S : Stage α β} {e : EmptyPop}
    {w : Worker S.State α β} {src : Channel Side α} {dst : Channel Side β} {capacity : Nat}
    {n : Nat} {sent : List α} {received : List β} (h : Halted e w src dst)
    (hsrc : Link capacity sent src w.received) (hdst : Link n w.sent dst received)
    (hpos : 0 < n) (hempty : dst.queue = []) (hleft : w.pc.Left → src.Ended) :
    (w.pc = .pop ∨ w.pc = .returned) ∧ src.queue = [] := by
  cases h with
  | returned hpc => exact ⟨.inr hpc,(hleft (by simp [hpc,PC.Left])).2⟩
  | popping hpc hwhy =>
    refine ⟨.inl hpc,?_⟩
    rcases hwhy with ⟨cv,hcv⟩ | hpops
    · exact hsrc.consumer_asleep hcv
    · exact hpops.empty
  | pushing hpc hcv => exact absurd ⟨_,hcv⟩ (hdst.producer_not_asleep hpos hempty)

namespace Controller
variable {su : Setup} {e : EmptyPop} {s : Controller su}

/-- From the sink backwards: an empty channel holds up no push. -/
theorem StagesRest.drained (h : StagesRest e s) (hsound : su.Sound)
    (hs : Reachable (program su e) Undisturbed s) : Drained s := by
  have hl := reachable_linked hs
  have hends := reachable_ends hs
  obtain ⟨hdecoder,hprocessor,hencoder,hsink⟩ := h.halted hsound (hs.mono fun _ _ _ => trivial)
  have hencode_empty : (s.sink.pc = .pop ∨ s.sink.pc = .returned) ∧ s.encode.queue = [] := by
    rcases hsink with hpc | ⟨hpc,⟨cv,hcv⟩ | hpops⟩
    · exact ⟨.inr hpc,(hends.encode.left (by simp [hpc,MediaSink.PC.Left])).2⟩
    · exact ⟨.inl hpc,hl.encode.consumer_asleep hcv⟩
    · exact ⟨.inl hpc,hpops.empty⟩
  have hfilter_empty := hencoder.drained hl.filter hl.encode (by decide) hencode_empty.2
    hends.filter.left
  have hdecode_empty := hprocessor.drained hl.decode hl.filter (by decide) hfilter_empty.2
    hends.decode.left
  have hingest_empty := hdecoder.drained hl.ingest hl.decode (by decide) hdecode_empty.2
    hends.ingest.left
  exact ⟨hingest_empty.1,hdecode_empty.1,hfilter_empty.1,hencode_empty.1,
    hingest_empty.2,hdecode_empty.2,hfilter_empty.2,hencode_empty.2⟩

theorem AtRest.exhausted (h : AtRest e s) (hsound : su.Sound)
    (hs : Reachable (program su e) Undisturbed s) : Exhausted s :=
  ⟨h.stages.drained hsound hs,(h.halted hsound (hs.mono fun _ _ _ => trivial)).source⟩

end Controller
end HyperStream
