import HyperStream.Controller
import HyperStream.Enabled
set_option autoImplicit false

open Transition

namespace HyperStream

/-- An item in the queue is there to be popped, unless the producer is inside a wait. -/
theorem Link.pop_enabled {α : Type} {capacity : Nat} {sent received : List α}
    {c : Channel Side α} (h : Link capacity sent c received) (e : EmptyPop)
    (hno : ¬ c.monitor.Waiting .producer) (hq : c.queue ≠ []) :
    ∃ target x c', c.pop e .consumer target = .next (.returned (some x),c') := by
  obtain ⟨x,rest,hq'⟩ := List.exists_cons_of_ne_nil hq
  have ho : c.monitor.owner = none := by
    cases ho : c.monitor.owner with
    | none => rfl
    | some o =>
      obtain ⟨side,cv⟩ := o
      cases side with
      | producer => exact absurd (.inl ⟨cv,ho⟩) hno
      | consumer =>
        obtain rfl := h.parked _ _ ho
        exact absurd (h.awake.parked_items _ ho) hq
  have hs : ∀ cv, c.monitor.status .consumer ≠ .asleep cv :=
    fun cv hcv => hq (h.consumer_asleep hcv)
  obtain ⟨target,m,hm⟩ := (c.monitor.leave .consumer).exists_notifyOne .notFull
  have hwait : c.wait .notEmpty .consumer (Channel.remove e .consumer target) =
      .next (.returned (some x),{ c with queue := rest, monitor := m }) := by
    have hp : c.predicate .notEmpty = true := by simp [Channel.predicate,hq']
    unfold Channel.wait Channel.remove
    rw [if_pos hp,hq']
    simp [hm]
  refine ⟨target,x,{ c with queue := rest, monitor := m },?_⟩
  cases hst : c.monitor.status .consumer with
  | asleep cv => exact absurd hst (hs cv)
  | _ => simp [Channel.pop,Channel.lock,ho,hst,hwait]

namespace VideoEncoder
variable {C : Component AVFrame AVPacket}

/-- Only the end of run() frees the context. -/
theorem freed_of_stepped {e : EmptyPop} {alloc : Bool}
    {w w' : Worker (stage C).State AVFrame AVPacket} {src src' : Channel Side AVFrame}
    {dst dst' : Channel Side AVPacket}
    (h : Worker.Stepped (stage C) e alloc w src dst w' src' dst')
    (hw' : (w'.state : State C) = none) :
    (w.state : State C) = none ∨ (w.pc = .cleanup ∧ w'.pc = .stopDst) := by
  by_cases hw : (w.state : State C) = none
  · exact .inl hw
  · cases h with
    | skip _ hf | accept _ hf =>
      obtain h | ⟨ctx,r,ctx',-,-,⟨-,h⟩ | ⟨-,h⟩⟩ := feed_cases hf <;> cases h
      cases hw'
    | leave _ hd | again _ hd | output _ hd =>
      obtain h | ⟨ctx,r,ctx',-,-,⟨pkt,-,-,h⟩ | ⟨-,h⟩ | ⟨-,h⟩⟩ := drain_cases hd <;> cases h
      cases hw'
    | clean hpc => exact .inr ⟨hpc,rfl⟩
    | _ => exact absurd hw' hw

end VideoEncoder

namespace MediaSink
variable {tb : TimeBases} {e : EmptyPop} {th th' : Thread} {src src' : Channel Side AVPacket}

/-- The thread is in an iteration body, or its pop may bring it to one. -/
def Thread.MayRead (th : Thread) : Prop :=
  match th.pc with
  | .write _ | .pop => True
  | .test => th.isStop = false
  | .trailer | .returned => False

theorem Stepped.mayRead (h : Stepped tb e th src th' src') (hr : th'.MayRead) : th.MayRead := by
  unfold Thread.MayRead at hr ⊢
  cases h with
  | go hpc hflag => rw [hpc]; exact hflag
  | quit => cases hr
  | await hpc => rw [hpc]; trivial
  | receive hpc => rw [hpc]; trivial
  | ended => cases hr
  | write hpc => rw [hpc]; trivial
  | trailer => cases hr

end MediaSink

namespace Controller
variable {su : Setup} {e : EmptyPop} {s s' : Controller su} {a : Label}

/-- run() of the encoder has freed codec_ctx. -/
def Freed (s : Controller su) : Prop :=
  su.encoderState ≠ none ∧ (s.encoder.state : VideoEncoder.State su.encoder) = none

/-- The sink is about to run an iteration body, which reads the time base of enc_ctx: it has
popped a packet, or its next step is the pop of an empty stopped channel, which is undefined but
has no other end than `return true`. -/
def ReadsContext (s : Controller su) : Prop :=
  (∃ pkt, s.sink.pc = .write pkt) ∨
    s.sink.pc = .pop ∧ s.encode.PopsEmpty .undefined .consumer

def SinkReadsOnlyLive (su : Setup) : Prop :=
  ∀ s : Controller su, Reachable (program su .undefined) anyStep s → Freed s → ¬ ReadsContext s

/-- The encoder frees its context when the sink has left its loop or will leave it at its next
step. -/
def FreesBehindSink (s : Controller su) (a : Label) : Prop :=
  ∀ target alloc, a = .run .encoder target alloc → s.encoder.pc = .cleanup → ¬ s.sink.MayRead

/-- Once the sink cannot read the context any more, it never does. -/
theorem mayRead_step (hs : Stepped e s a s') (hr : s'.sink.MayRead) : s.sink.MayRead := by
  cases hs with
  | sink hw => exact hw.mayRead hr
  | stopper hstop =>
    cases stop_cases hstop with
    | sink =>
      unfold MediaSink.Thread.MayRead at hr ⊢
      dsimp only at hr
      split at hr <;> simp_all
    | _ => exact hr
  | _ => exact hr

theorem not_reads_of_not_mayRead (h : ¬ s.sink.MayRead) : ¬ ReadsContext s := by
  intro hr
  apply h
  unfold MediaSink.Thread.MayRead
  rcases hr with ⟨pkt,hpc⟩ | ⟨hpc,-⟩
  · rw [hpc]; trivial
  · rw [hpc]; trivial

/-- The step that frees the context is the cleanup of the encoder. -/
theorem freed_step (hs : Stepped e s a s') (hf : Freed s') : Freed s ∨
    (∃ target alloc, a = .run .encoder target alloc) ∧ s.encoder.pc = .cleanup ∧
      s'.sink = s.sink := by
  obtain ⟨hsome,hnone⟩ := hf
  cases hs with
  | @encoder target alloc w src dst hw =>
    rcases VideoEncoder.freed_of_stepped hw hnone with hold | ⟨hpc,-⟩
    · exact .inl ⟨hsome,hold⟩
    · exact .inr ⟨⟨target,alloc,rfl⟩,hpc,rfl⟩
  | stopper hstop => cases stop_cases hstop <;> exact .inl ⟨hsome,hnone⟩
  | _ => exact .inl ⟨hsome,hnone⟩

theorem reachable_freed_behind (h : Reachable (program su e) FreesBehindSink s) (hf : Freed s) :
    ¬ s.sink.MayRead := by
  refine h.invariant (P := fun t => Freed t → ¬ t.sink.MayRead) (fun hf => absurd hf.2 hf.1) ?_ hf
  intro u v a hu ha hstep hfree hr
  have hs := step_cases hstep
  rcases freed_step hs hfree with hold | ⟨⟨target,alloc,hrun⟩,hpc,hsink⟩
  · exact hu hold (mayRead_step hs hr)
  · exact ha target alloc hrun hpc (hsink ▸ hr)

/-- With the mutex free, a sink in its pop of an empty stopped channel comes to the body, if
need be after it woke without a notification. -/
theorem reads_of_free (hpc : s.sink.pc = .pop) (hstop : s.encode.isStop = true)
    (hq : s.encode.queue = []) (ho : s.encode.monitor.owner = none) :
    ∃ t, Run (program su .undefined) anyStep s t ∧ ReadsContext t := by
  by_cases hawake : ∀ cv, s.encode.monitor.status .consumer ≠ .asleep cv
  · exact ⟨s,.refl s,.inr ⟨hpc,rfl,ho,hawake,hstop,hq⟩⟩
  · obtain ⟨cv,hcv⟩ := not_forall_not.mp hawake
    let woken := { s.encode with
      monitor := s.encode.monitor.setStatus .consumer (.woken cv) }
    have hstep : (program su .undefined).step s (.wake .encode .consumer) =
        .next { s with encode := woken } := by
      simp [program,Controller.step,Channel.wakeSpuriously,Monitor.wakeSpuriously,hcv,woken]
    exact ⟨_,.step (.refl s) trivial hstep,.inr ⟨hpc,rfl,ho,by simp [woken],hstop,hq⟩⟩

/-- A sink in its pop of a stopped channel comes to an iteration body. -/
theorem reads_of_pop (hl : Linked s) (hpc : s.sink.pc = .pop) (hstop : s.encode.isStop = true) :
    ∃ t, Run (program su .undefined) anyStep s t ∧ ReadsContext t := by
  by_cases hq : s.encode.queue = []
  · cases ho : s.encode.monitor.owner with
    | none => exact reads_of_free hpc hstop hq ho
    | some o =>
      obtain ⟨side,cv⟩ := o
      cases side with
      | producer => exact absurd (.inl ⟨cv,ho⟩) (hl.encode.unbounded rfl)
      | consumer =>
        -- the sink falls asleep first
        have hstep : (program su .undefined).step s (.run .sink none true) =
            .next { s with encode :=
              { s.encode with monitor := s.encode.monitor.sleep .consumer cv } } := by
          simp [program,Controller.step,MediaSink.step,hpc,Channel.pop_parked ho]
        obtain ⟨t,ht,hread⟩ := reads_of_free
          (s := { s with encode :=
            { s.encode with monitor := s.encode.monitor.sleep .consumer cv } }) hpc hstop hq rfl
        exact ⟨t,(Run.step (.refl s) trivial hstep).trans ht,hread⟩
  · obtain ⟨target,pkt,c',hc⟩ := hl.encode.pop_enabled .undefined (hl.encode.unbounded rfl) hq
    let sink := { s.sink with pc := .write pkt, received := s.sink.received ++ [pkt] }
    have hstep : (program su .undefined).step s (.run .sink target true) =
        .next { s with sink := sink, encode := c' } := by
      simp [program,Controller.step,MediaSink.step,hpc,hc,sink]
    exact ⟨_,.step (.refl s) trivial hstep,.inl ⟨pkt,rfl⟩⟩

theorem reads_of_stopped (hl : Linked s) (hstop : s.encode.isStop = true) (hr : s.sink.MayRead) :
    ∃ t, Run (program su .undefined) anyStep s t ∧ ReadsContext t := by
  unfold MediaSink.Thread.MayRead at hr
  cases hpc : s.sink.pc with
  | write pkt => exact ⟨s,.refl s,.inl ⟨pkt,hpc⟩⟩
  | pop => exact reads_of_pop hl hpc hstop
  | test =>
    rw [hpc] at hr
    have hflag : s.sink.isStop = false := hr
    have hgo : Controller.step .undefined s (.run .sink none true) =
        .next { s with sink := { s.sink with pc := .pop } } := by
      simp [Controller.step,MediaSink.step,hpc,hflag]
    obtain ⟨t,ht,hread⟩ := reads_of_pop (hl.step (step_cases hgo)) rfl hstop
    exact ⟨t,(Run.step (a := .run .sink none true) (.refl s) trivial hgo).trans ht,hread⟩
  | trailer => rw [hpc] at hr; cases hr
  | returned => rw [hpc] at hr; cases hr

/-- After it has freed its context the encoder stops the channel, and a sink that may come to
an iteration body can then come to it. -/
theorem reads_of_mayRead (hl : Linked s) (hpc : s.encoder.pc = .stopDst) (hr : s.sink.MayRead) :
    ∃ t, Run (program su .undefined) anyStep s t ∧ ReadsContext t := by
  have hreturn : Controller.step .undefined s (.run .encoder none true) = .next { s with
      encoder := { s.encoder with pc := .returned }, encode := s.encode.stop } := by
    simp [Controller.step,Worker.step,hpc]
  obtain ⟨t,ht,hread⟩ := reads_of_stopped (hl.step (step_cases hreturn)) rfl hr
  exact ⟨t,(Run.step (a := .run .encoder none true) (.refl s) trivial hreturn).trans ht,hread⟩

/-- A packet is queued when stop lets the encoder leave its loop. -/
def freeEarlyRun : List Label :=
  turns [(.source,3),(.decoder,6),(.processor,6),(.encoder,6),(.sink,1),(.stopper,5),
    (.encoder,3),(.sink,1)]

theorem freed_context_read : ¬ SinkReadsOnlyLive (sampleSetup [⟨0,900,900,1,[]⟩]) := by
  intro h
  obtain ⟨s,hs,hp⟩ := Reachable.exists_of_replay
    (program (sampleSetup [⟨0,900,900,1,[]⟩]) .undefined) anyStep freeEarlyRun
    (fun s => s.sink.pc = .write ⟨0,900,900,1,[]⟩ ∧
      Option.isNone (α := List AVPacket) s.encoder.state)
    (fun _ _ _ => trivial) (by decide)
  simp only [decide_eq_true_eq] at hp
  exact h s hs ⟨by simp [sampleSetup],Option.isNone_iff_eq_none.mp hp.2⟩ (.inl ⟨_,hp.1⟩)

theorem cleanup_step {target : Option Side} {alloc : Bool} (hpc : s.encoder.pc = .cleanup)
    (hs : step e s (.run .encoder target alloc) = .next s') :
    s'.encoder.pc = .stopDst ∧ s'.sink = s.sink := by
  obtain ⟨p,hp,hs⟩ := Outcome.bind_eq_next.mp hs
  simp only [Worker.step,hpc] at hp
  obtain ⟨st,-,hp⟩ := Outcome.bind_eq_next.mp hp
  cases hp
  cases hs
  exact ⟨rfl,rfl⟩

/-- Runs that free the context only behind the sink never read it freed; and once a step has
freed it, it is not read in whatever way the run goes on exactly if the sink had left its loop
or was about to leave it. -/
theorem sink_reads_live_iff (su : Setup) :
    (∀ s : Controller su, Reachable (program su .undefined) FreesBehindSink s → Freed s →
      ¬ ReadsContext s) ∧
    ∀ (s s' : Controller su) (target : Option Side) (alloc : Bool),
      Reachable (program su .undefined) anyStep s → s.encoder.pc = .cleanup →
      step .undefined s (.run .encoder target alloc) = .next s' →
      ((∀ t, Run (program su .undefined) anyStep s' t → ¬ ReadsContext t) ↔
        ¬ s.sink.MayRead) := by
  refine ⟨fun s h hf => not_reads_of_not_mayRead (reachable_freed_behind h hf),?_⟩
  intro s s' target alloc h hpc hstep
  obtain ⟨hpc',hsink⟩ := cleanup_step hpc hstep
  constructor
  · intro hall hr
    rw [← hsink] at hr
    have hnext : Reachable (program su .undefined) anyStep s' :=
      h.next (a := .run .encoder target alloc) trivial hstep
    obtain ⟨t,ht,hread⟩ := reads_of_mayRead (reachable_linked hnext) hpc' hr
    exact hall t ht hread
  · intro hno t ht
    rw [← hsink] at hno
    exact not_reads_of_not_mayRead
      (ht.invariant (P := fun t => ¬ t.sink.MayRead)
        (fun hu _ hs hr => hu (mayRead_step (step_cases hs) hr)) hno)

end Controller
end HyperStream
