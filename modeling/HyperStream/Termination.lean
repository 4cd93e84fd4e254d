import HyperStream.Sequential
set_option autoImplicit false

open Transition

namespace HyperStream

namespace Channel
variable {α : Type} {c c' : Channel Side α}

/-- The steps that the two sides may still take before both sleep. -/
def unrest (c : Channel Side α) : Nat :=
  c.monitor.unrest .producer + c.monitor.unrest .consumer

theorem unrest_le (c : Channel Side α) : c.unrest ≤ 4 := by
  have hp := c.monitor.unrest_le .producer
  have hc := c.monitor.unrest_le .consumer
  unfold unrest
  omega

theorem PushStep.unrest_lt {x : α} (h : c.PushStep .producer x .blocked c') :
    c'.unrest < c.unrest := by
  obtain ⟨hlt,hother⟩ := h.critical.unrest
  have hc := hother .consumer (by simp)
  unfold unrest
  omega

theorem PopStep.unrest_lt {e : EmptyPop} (h : c.PopStep e .consumer .blocked c') :
    c'.unrest < c.unrest := by
  obtain ⟨hlt,hother⟩ := h.critical.unrest
  have hp := hother .producer (by simp)
  unfold unrest
  omega

end Channel

/-! The work that is left for a thread: twenty for each item that it may still receive or
send, and what its place in the loop allows it to do before the next one. -/

namespace Worker
variable {α β : Type}

def position : PC α β → Nat
  | .start => 30
  | .feed _ => 20
  | .drain => 19
  | .test => 18
  | .pop | .push _ => 10
  | .cleanup => 3
  | .stopDst => 2
  | .returned => 0

def work {σ : Type} (inputs outputs : Nat) (w : Worker σ α β) : Nat :=
  20*((inputs - w.received.length) + (outputs - w.sent.length)) + position w.pc

theorem Stepped.work_lt {S : Stage α β} (hS : S.Bounded) {w w' : Worker S.State α β}
    {src src' : Channel Side α} {dst dst' : Channel Side β}
    (h : Stepped S .undefined true w src dst w' src' dst') {inputs outputs : Nat}
    (hin : w'.received.length ≤ inputs) (hout : w'.sent.length ≤ outputs) :
    w'.work inputs outputs + src'.unrest + dst'.unrest <
      w.work inputs outputs + src.unrest + dst.unrest := by
  unfold work
  cases h with
  | fail _ _ halloc => cases halloc
  | await _ hp => have hlt := hp.unrest_lt; omega
  | hold _ hp => have hlt := hp.unrest_lt; omega
  | receive hpc =>
    have hsrc := src'.unrest_le
    simp only [List.length_append,List.length_singleton] at hin
    simp only [hpc,position,List.length_append,List.length_singleton]
    omega
  | send hpc =>
    have hdst := dst'.unrest_le
    simp only [List.length_append,List.length_singleton] at hout
    simp only [hpc,position,List.length_append,List.length_singleton]
    omega
  | ended _ hp => nomatch hp
  | again _ hd => exact absurd hd (hS.again_ne _ _)
  | stop hpc => simp only [hpc,position,show dst.stop.unrest = dst.unrest from rfl]; omega
  | enter hpc => simp only [hpc,position]; omega
  | go hpc => simp only [hpc,position]; omega
  | quit hpc => simp only [hpc,position]; omega
  | skip hpc => simp only [hpc,position]; omega
  | accept hpc => simp only [hpc,position]; omega
  | leave hpc => simp only [hpc,position]; omega
  | output hpc => simp only [hpc,position]; omega
  | clean hpc => simp only [hpc,position]; omega

end Worker

namespace MediaSource

def position : PC → Nat
  | .test => 18
  | .read | .push _ => 10
  | .stopDst => 2
  | .returned => 0

def Thread.work (last outputs : Nat) (th : Thread) : Nat :=
  20*((last + 1 - th.reads) + (outputs - th.sent.length)) + position th.pc

theorem Stepped.work_lt {streams : List AVStream} {read : Nat → Option AVPacket}
    {th th' : Thread} {dst dst' : Channel Side AVPacket} {last outputs : Nat}
    (h : Stepped streams read true th dst th' dst') (hp : Produced streams read th)
    (hlast : read last = none) (hout : th'.sent.length ≤ outputs) :
    th'.work last outputs + dst'.unrest < th.work last outputs + dst.unrest := by
  have hreads : th.pc = .read → th.reads ≤ last := by
    intro hpc
    by_contra hgt
    have hall := hp.reading
    simp only [hpc,reduceCtorEq,false_or] at hall
    simpa [hlast] using hall last (by omega)
  unfold Thread.work
  cases h with
  | go hpc => simp only [hpc,position]; omega
  | quit hpc => simp only [hpc,position]; omega
  | finish hpc => have hle := hreads hpc; simp only [hpc,position]; omega
  | video hpc => have hle := hreads hpc; simp only [hpc,position]; omega
  | other hpc => have hle := hreads hpc; simp only [hpc,position]; omega
  | hold _ hw => have hlt := hw.unrest_lt; omega
  | send hpc =>
    have hdst := dst'.unrest_le
    simp only [List.length_append,List.length_singleton] at hout
    simp only [hpc,position,List.length_append,List.length_singleton]
    omega
  | stop hpc => simp only [hpc,position,show dst.stop.unrest = dst.unrest from rfl]; omega

end MediaSource

namespace MediaSink

def position : PC → Nat
  | .write _ => 20
  | .test => 18
  | .pop => 10
  | .trailer => 2
  | .returned => 0

def Thread.work (inputs : Nat) (th : Thread) : Nat :=
  20*(inputs - th.received.length) + position th.pc

theorem Stepped.work_lt {tb : TimeBases} {th th' : Thread} {src src' : Channel Side AVPacket}
    {inputs : Nat} (h : Stepped tb .undefined th src th' src')
    (hin : th'.received.length ≤ inputs) :
    th'.work inputs + src'.unrest < th.work inputs + src.unrest := by
  unfold Thread.work
  cases h with
  | go hpc => simp only [hpc,position]; omega
  | quit hpc => simp only [hpc,position]; omega
  | await _ hp => have hlt := hp.unrest_lt; omega
  | receive hpc =>
    have hsrc := src'.unrest_le
    simp only [List.length_append,List.length_singleton] at hin
    simp only [hpc,position,List.length_append,List.length_singleton]
    omega
  | ended _ hp => nomatch hp
  | write hpc => simp only [hpc,position]; omega
  | trailer hpc => simp only [hpc,position]; omega

end MediaSink

namespace Controller
variable {su : Setup}

/-- With bounded components the sequential lists do not change any more once the turns
suffice. -/
theorem sequential_stable (hd : su.decoder.Bounded) (hg : su.graph.Bounded)
    (he : su.encoder.Bounded) (reads : Nat) :
    ∃ K D P E, ∀ turns, K ≤ turns →
      decoded su turns reads = D ∧ composed su turns reads = P ∧ encoded su turns reads = E := by
  obtain ⟨k₁,h₁⟩ := (VideoDecoder.stageBounded hd).outputs_eq ⟨su.contexts,0⟩ (forwarded su reads)
  obtain ⟨k₂,h₂⟩ := (MultiviewCompositor.stageBounded hg).outputs_eq
    ⟨su.bufferCtxs,su.graphState⟩ (decoded su k₁ reads)
  obtain ⟨k₃,h₃⟩ := (VideoEncoder.stageBounded he).outputs_eq su.encoderState
    (composed su (max k₁ k₂) reads)
  have hdec : ∀ n, k₁ ≤ n → decoded su n reads = decoded su k₁ reads := fun n hn =>
    (h₁ n hn).trans (h₁ k₁ le_rfl).symm
  have hcomp : ∀ n, max k₁ k₂ ≤ n → composed su n reads = composed su (max k₁ k₂) reads := by
    intro n hn
    have hl := h₂ n (by omega)
    have hr := h₂ (max k₁ k₂) (by omega)
    rw [composed,composed,hdec n (by omega),hdec (max k₁ k₂) (by omega)]
    exact hl.trans hr.symm
  refine ⟨max (max k₁ k₂) k₃,_,_,su.encoderStage.outputs (VideoEncoder.stageBounded he).fuel
    su.encoderState (composed su (max k₁ k₂) reads),fun n hn =>
    ⟨hdec n (by omega),hcomp n (by omega),?_⟩⟩
  rw [encoded,hcomp n (by omega)]
  exact h₃ n (by omega)

def Stuck (s : Controller su) : Prop :=
  ∀ thread target, thread ≠ .stopper → step .undefined s (.run thread target true) = .disabled

/-- Every run() body returned, every channel is empty, and the trailer was written last. -/
structure Completed (s : Controller su) : Prop where
  source : s.source.pc = .returned
  decoder : s.decoder.pc = .returned
  processor : s.processor.pc = .returned
  encoder : s.encoder.pc = .returned
  sink : s.sink.pc = .returned
  ingest_empty : s.ingest.queue = []
  decode_empty : s.decode.queue = []
  filter_empty : s.filter.queue = []
  encode_empty : s.encode.queue = []
  trailer : s.sink.trailer = some s.sink.written.length

def TerminatesAtEnd (su : Setup) : Prop :=
  ∀ s : Controller su, Reachable (program su .undefined) Undisturbed s →
    (Stuck s → Completed s) ∧ ∀ a, Undisturbed s a → step .undefined s a ≠ .undefined

/-- Every stage sleeps in its pop before the source finds the input empty and stops the
ingest channel, which wakes no one. -/
theorem empty_input_gets_stuck : ¬ TerminatesAtEnd (sampleSetup []) := by
  intro h
  obtain ⟨s,hs,hp⟩ := Reachable.exists_of_replay (program (sampleSetup []) .undefined) Undisturbed
    (turns [(.decoder,4),(.processor,4),(.encoder,4),(.sink,3),(.source,3)])
    (fun s => s.source.pc = .returned ∧
      (s.decoder.pc = .pop ∧ s.ingest.monitor.owner = none ∧
        s.ingest.monitor.status .consumer = .asleep .notEmpty) ∧
      (s.processor.pc = .pop ∧ s.decode.monitor.owner = none ∧
        s.decode.monitor.status .consumer = .asleep .notEmpty) ∧
      (s.encoder.pc = .pop ∧ s.filter.monitor.owner = none ∧
        s.filter.monitor.status .consumer = .asleep .notEmpty) ∧
      s.sink.pc = .pop ∧ s.encode.monitor.owner = none ∧
        s.encode.monitor.status .consumer = .asleep .notEmpty)
    (fun a ha _ => undisturbed_of_mem_turns (by decide) ha) (by decide)
  simp only [decide_eq_true_eq] at hp
  obtain ⟨hsource,⟨hdecoder,ho₁,hs₁⟩,⟨hprocessor,ho₂,hs₂⟩,⟨hencoder,ho₃,hs₃⟩,hsink,ho₄,hs₄⟩ := hp
  have hstuck : Stuck s := by
    intro thread target hno
    cases thread with
    | source => simp [step,MediaSource.step,hsource]
    | decoder => simp [step,Worker.step,hdecoder,Channel.pop,Channel.lock_asleep ho₁ hs₁]
    | processor => simp [step,Worker.step,hprocessor,Channel.pop,Channel.lock_asleep ho₂ hs₂]
    | encoder => simp [step,Worker.step,hencoder,Channel.pop,Channel.lock_asleep ho₃ hs₃]
    | sink => simp [step,MediaSink.step,hsink,Channel.pop,Channel.lock_asleep ho₄ hs₄]
    | stopper => exact absurd rfl hno
  rw [((h s hs).1 hstuck).decoder] at hdecoder
  cases hdecoder

/-- The decoder is in its loop and has not been told to leave it. -/
structure Looping (s : Controller su) : Prop where
  flag : s.decoder.isStop = false
  inside : s.decoder.pc ≠ .cleanup ∧ s.decoder.pc ≠ .stopDst ∧ s.decoder.pc ≠ .returned

theorem Looping.step {s s' : Controller su} {a : Label} (h : Looping s) (ha : Undisturbed s a)
    (hs : Stepped .undefined s a s') : Looping s' := by
  obtain ⟨hflag,hinside⟩ := h
  cases hs with
  | decoder hw =>
    refine ⟨hw.isStop_eq.trans hflag,?_⟩
    cases hw with
    | fail _ _ halloc => rw [ha.2] at halloc; cases halloc
    | quit _ hq => rw [hflag] at hq; cases hq
    | ended _ hp => nomatch hp
    | clean hpc => exact absurd hpc hinside.1
    | stop hpc => exact absurd hpc hinside.2.1
    | await => exact hinside
    | hold => exact hinside
    | _ => simp
  | stopper => exact absurd rfl ha.1
  | _ => exact ⟨hflag,hinside⟩

theorem reachable_looping {s : Controller su}
    (h : Reachable (program su .undefined) Undisturbed s) : Looping s :=
  h.invariant ⟨rfl,by simp [program,start,Worker.start]⟩
    fun hl ha hs => hl.step ha (step_cases hs)

def rank (last ingest decode filter encode : Nat) (s : Controller su) : Nat :=
  s.source.work last ingest + s.decoder.work ingest decode + s.processor.work decode filter +
    s.encoder.work filter encode + s.sink.work encode +
    (s.ingest.unrest + s.decode.unrest + s.filter.unrest + s.encode.unrest)

theorem rank_lt (hd : su.decoder.Bounded) (hg : su.graph.Bounded) (he : su.encoder.Bounded)
    {last turns : Nat} (hlast : su.read last = none) {s s' : Controller su} {a : Label}
    (hi : InStep s) (hl : Linked s') (hb : Behind s' turns last) (ha : Undisturbed s a)
    (hrun : ∀ channel side, a ≠ .wake channel side) (hs : Stepped .undefined s a s') :
    rank last (forwarded su last).length (decoded su turns last).length
      (composed su turns last).length (encoded su turns last).length s' <
    rank last (forwarded su last).length (decoded su turns last).length
      (composed su turns last).length (encoded su turns last).length s := by
  have h₀ := hb.source.length_le
  have h₁ := hb.decoder.length_le
  have h₂ := hb.processor.length_le
  have h₃ := hb.encoder.length_le
  have r₀ := hl.ingest.received_prefix.length_le
  have r₁ := hl.decode.received_prefix.length_le
  have r₂ := hl.filter.received_prefix.length_le
  have r₃ := hl.encode.received_prefix.length_le
  unfold rank
  cases hs with
  | source hw =>
    cases ha.2
    have hlt := hw.work_lt hi.source hlast h₀
    dsimp only
    omega
  | decoder hw =>
    cases ha.2
    have hlt := hw.work_lt (VideoDecoder.stageBounded hd) (r₀.trans h₀) h₁
    dsimp only
    omega
  | processor hw =>
    cases ha.2
    have hlt := hw.work_lt (MultiviewCompositor.stageBounded hg) (r₁.trans h₁) h₂
    dsimp only
    omega
  | encoder hw =>
    cases ha.2
    have hlt := hw.work_lt (VideoEncoder.stageBounded he) (r₂.trans h₂) h₃
    dsimp only
    omega
  | sink hw =>
    have hlt := hw.work_lt (r₃.trans h₃)
    dsimp only
    omega
  | stopper => exact absurd rfl ha.1
  | wakeIngest => exact absurd rfl (hrun _ _)
  | wakeDecode => exact absurd rfl (hrun _ _)
  | wakeFilter => exact absurd rfl (hrun _ _)
  | wakeEncode => exact absurd rfl (hrun _ _)

/-- One number of turns serves for all that the threads ever send, as long as the source has
read no more than a part of these packets. -/
theorem exists_behind_of_prefix (hd : su.decoder.Bounded) (hg : su.graph.Bounded)
    (he : su.encoder.Bounded) (reads : Nat) :
    ∃ K, ∀ s : Controller su, InStep s →
      MediaSource.packets su.read s.source.reads <+: MediaSource.packets su.read reads →
      Behind s K reads := by
  obtain ⟨K,D,P,E,hstable⟩ := sequential_stable hd hg he reads
  refine ⟨K,fun s hs hreads => ?_⟩
  obtain ⟨k,hk⟩ := hs.behind
  obtain ⟨h₁,h₂,h₃⟩ := hstable (max k K) (by omega)
  obtain ⟨g₁,g₂,g₃⟩ := hstable K le_rfl
  obtain ⟨b₀,b₁,b₂,b₃⟩ := hk (max k K) (by omega) reads hreads
  exact ⟨b₀,by rw [g₁,← h₁]; exact b₁,by rw [g₂,← h₂]; exact b₂,by rw [g₃,← h₃]; exact b₃⟩

/-- On an ended input it serves whatever has been read. -/
theorem exists_behind (hd : su.decoder.Bounded) (hg : su.graph.Bounded) (he : su.encoder.Bounded)
    {last : Nat} (hlast : su.read last = none) :
    ∃ K, ∀ s : Controller su, InStep s → Behind s K last := by
  obtain ⟨K,hK⟩ := exists_behind_of_prefix hd hg he last
  exact ⟨K,fun s hs => hK s hs (MediaSource.packets_prefix_of_none hlast s.source.reads)⟩

/-- If nobody calls stop and no thread wakes by accident, the threads come to rest. -/
theorem comes_to_rest (hd : su.decoder.Bounded) (hg : su.graph.Bounded)
    (he : su.encoder.Bounded) {last : Nat} (hlast : su.read last = none) :
    ∃ s : Controller su, Reachable (program su .undefined) Undisturbed s ∧
      ∀ thread target, thread ≠ .stopper →
        ∀ t, step .undefined s (.run thread target true) ≠ .next t := by
  obtain ⟨K,hbehind⟩ := exists_behind hd hg he hlast
  have hin : ∀ {s : Controller su}, Reachable (program su .undefined) Undisturbed s → InStep s :=
    fun h => reachable_inStep (fun _ _ ha => ha.allocs) h
  obtain ⟨s,hs,hhalt⟩ := exists_halt (program su .undefined) Undisturbed
    (fun a => ∃ thread target, thread ≠ .stopper ∧ a = .run thread target true)
    (by intro s a ha; obtain ⟨thread,target,hno,rfl⟩ := ha; exact ⟨hno,rfl⟩)
    (rank last (forwarded su last).length (decoded su K last).length
      (composed su K last).length (encoded su K last).length)
    (by
      intro s t a hs hlive hstep
      obtain ⟨thread,target,hno,rfl⟩ := hlive
      have ha : Undisturbed s (.run thread target true) := ⟨hno,rfl⟩
      have ht := hin (hs.next ha hstep)
      exact rank_lt hd hg he hlast (hin hs) ht.linked (hbehind t ht) ha (by simp)
        (step_cases hstep))
  exact ⟨s,hs,fun thread target hno t => hhalt _ ⟨thread,target,hno,rfl⟩ t⟩

/-- On no input do the threads end by themselves: they come to rest with the decoder in its
loop, unless a step on the way is undefined. -/
theorem never_terminates_at_end (su : Setup) (hd : su.decoder.Bounded) (hg : su.graph.Bounded)
    (he : su.encoder.Bounded) (hend : ∃ last, su.read last = none) : ¬ TerminatesAtEnd su := by
  intro h
  obtain ⟨last,hlast⟩ := hend
  obtain ⟨s,hs,hrest⟩ := comes_to_rest hd hg he hlast
  have hstuck : Stuck s := by
    intro thread target hno
    cases hstep : step .undefined s (.run thread target true) with
    | disabled => rfl
    | undefined => exact absurd hstep ((h s hs).2 _ ⟨hno,rfl⟩)
    | next t => exact absurd hstep (hrest thread target hno t)
  exact (reachable_looping hs).inside.2.2 ((h s hs).1 hstuck).decoder

theorem never_terminates_at_end_sample : ¬ TerminatesAtEnd (sampleSetup [⟨0,900,900,1,[]⟩]) :=
  never_terminates_at_end _ (Component.relayBounded _) (Component.relayBounded _)
    (Component.relayBounded _) ⟨1,rfl⟩

end Controller
end HyperStream
