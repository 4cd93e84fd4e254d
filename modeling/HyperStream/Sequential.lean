import HyperStream.Controller
set_option autoImplicit false

open Transition

namespace HyperStream

/-- The thread has received and sent what the transducer gives for its input, up to the work
in progress; once it left the loop nothing is in progress. -/
def Worker.Follows {α β : Type} (S : Stage α β) (s₀ : S.State) (w : Worker S.State α β) : Prop :=
  match w.pc with
  | .start | .test | .pop => Transducer.Follows S.toTransducer s₀ w.received w.sent .idle w.state
  | .feed a => Transducer.Follows S.toTransducer s₀ w.received w.sent (.feed a) w.state
  | .drain => Transducer.Follows S.toTransducer s₀ w.received w.sent .drain w.state
  | .push b => Transducer.Follows S.toTransducer s₀ w.received w.sent (.push b) w.state
  | .cleanup | .stopDst | .returned =>
    ∃ s, Transducer.Follows S.toTransducer s₀ w.received w.sent .idle s

theorem Worker.Follows.start {α β : Type} (S : Stage α β) (s₀ : S.State) :
    Follows S s₀ (.start s₀) := Transducer.Follows.start s₀

theorem Worker.Follows.step {α β : Type} {S : Stage α β} {e : EmptyPop} {s₀ : S.State}
    {w w' : Worker S.State α β} {src src' : Channel Side α} {dst dst' : Channel Side β}
    (h : w.Follows S s₀) (hs : Stepped S e true w src dst w' src' dst') : w'.Follows S s₀ := by
  unfold Follows at h ⊢
  cases hs with
  | fail _ _ halloc => cases halloc
  | enter hpc => rw [hpc] at h; exact h
  | go hpc => rw [hpc] at h; exact h
  | quit hpc => rw [hpc] at h; exact ⟨_,h⟩
  | await hpc => rw [hpc] at h ⊢; exact h
  | receive hpc => rw [hpc] at h; exact h.receive _
  | ended hpc => rw [hpc] at h; exact ⟨_,h⟩
  | skip hpc hf => rw [hpc] at h; exact h.skip hf
  | accept hpc hf => rw [hpc] at h; exact h.drain hf
  | leave hpc hd => rw [hpc] at h; exact h.leave hd
  | again hpc hd => rw [hpc] at h; exact h.again hd
  | output hpc hd => rw [hpc] at h; exact h.output hd
  | hold hpc => rw [hpc] at h ⊢; exact h
  | send hpc => rw [hpc] at h; exact h.pushed
  | clean hpc => rw [hpc] at h; exact h
  | stop hpc => rw [hpc] at h; exact h

theorem Worker.Follows.prefix_outputs {α β : Type} {S : Stage α β} {s₀ : S.State}
    {w : Worker S.State α β} (h : w.Follows S s₀) :
    ∃ k, ∀ n, k ≤ n → w.sent <+: S.outputs (fun _ => n) s₀ w.received := by
  unfold Follows at h
  cases hpc : w.pc <;> rw [hpc] at h
  case cleanup | stopDst | returned =>
    obtain ⟨s,h⟩ := h
    exact h.prefix_outputs
  all_goals exact Transducer.Follows.prefix_outputs h

namespace MediaSource

/-- The thread has pushed the video packets that it has read, but for the one in hand. -/
structure Produced (streams : List AVStream) (read : Nat → Option AVPacket) (th : Thread) :
    Prop where
  sent : th.sent ++ (match th.pc with | .push pkt => [pkt] | _ => []) =
    forward streams (packets read th.reads)
  reading : th.pc = .stopDst ∨ th.pc = .returned ∨ ∀ j, j < th.reads → (read j).isSome

theorem Produced.start (streams : List AVStream) (read : Nat → Option AVPacket) :
    Produced streams read start := ⟨rfl,.inr (.inr fun j hj => absurd hj (Nat.not_lt_zero j))⟩

theorem packets_succ {read : Nat → Option AVPacket} {n : Nat} {pkt : AVPacket}
    (hall : ∀ j, j < n → (read j).isSome) (h : read n = some pkt) :
    packets read (n+1) = packets read n ++ [pkt] ∧ ∀ j, j < n+1 → (read j).isSome := by
  constructor
  · exact packetsFrom_succ_some (fun j hj => by rw [Nat.zero_add]; exact hall j hj)
      (by rw [Nat.zero_add]; exact h)
  · intro j hj
    rcases Nat.lt_succ_iff_lt_or_eq.mp hj with hlt | rfl
    · exact hall j hlt
    · rw [h]; rfl

theorem Produced.step {streams : List AVStream} {read : Nat → Option AVPacket} {alloc : Bool}
    {th th' : Thread} {dst dst' : Channel Side AVPacket} (h : Produced streams read th)
    (hs : Stepped streams read alloc th dst th' dst') : Produced streams read th' := by
  have hsent := h.sent
  have hread := h.reading
  cases hs with
  | go hpc => rw [hpc] at hsent hread; exact ⟨hsent,by simpa using hread⟩
  | quit hpc => rw [hpc] at hsent; exact ⟨hsent,.inl rfl⟩
  | finish hpc _ hr =>
    rw [hpc] at hsent
    refine ⟨?_,.inl rfl⟩
    rw [packets,packetsFrom_succ_none (by rw [Nat.zero_add]; exact hr)]
    exact hsent
  | video hpc _ hr hv | other hpc _ hr hv =>
    rw [hpc] at hsent hread
    obtain ⟨hp,hall⟩ := packets_succ (by simpa using hread) hr
    refine ⟨?_,.inr (.inr hall)⟩
    rw [hp,forward,List.filter_append,← forward,← hsent]
    simp [hv]
  | hold => exact h
  | send hpc => rw [hpc] at hsent hread; exact ⟨by simpa using hsent,by simpa using hread⟩
  | stop hpc => rw [hpc] at hsent; exact ⟨hsent,.inr (.inl rfl)⟩

theorem Produced.sent_prefix {streams : List AVStream} {read : Nat → Option AVPacket}
    {th : Thread} (h : Produced streams read th) {n : Nat}
    (hn : packets read th.reads <+: packets read n) :
    th.sent <+: forward streams (packets read n) :=
  (List.prefix_append _ _).trans (h.sent ▸ forward_prefix streams hn)

end MediaSource

namespace MediaSink

/-- The thread has written what it received, rewritten, but for the packet in hand. -/
def Written (tb : TimeBases) (th : Thread) : Prop :=
  match th.pc with
  | .write pkt => ∃ before, th.received = before ++ [pkt] ∧ th.written = before.map (rewrite tb)
  | _ => th.written = th.received.map (rewrite tb)

theorem Written.step {tb : TimeBases} {e : EmptyPop} {th th' : Thread}
    {src src' : Channel Side AVPacket} (h : Written tb th)
    (hs : Stepped tb e th src th' src') : Written tb th' := by
  unfold Written at h ⊢
  cases hs with
  | go hpc => rw [hpc] at h; exact h
  | quit hpc => rw [hpc] at h; exact h
  | await hpc => rw [hpc] at h ⊢; exact h
  | receive hpc => rw [hpc] at h; exact ⟨_,rfl,h⟩
  | ended hpc => rw [hpc] at h; exact h
  | write hpc =>
    rw [hpc] at h
    obtain ⟨before,hr,hw⟩ := h
    simp [hr,hw]
  | trailer hpc => rw [hpc] at h; exact h

theorem Written.prefix_map {tb : TimeBases} {th : Thread} (h : Written tb th) :
    th.written <+: th.received.map (rewrite tb) := by
  unfold Written at h
  cases hpc : th.pc <;> rw [hpc] at h
  case write pkt =>
    obtain ⟨before,hr,hw⟩ := h
    rw [hr,hw,List.map_append]
    exact List.prefix_append _ _
  all_goals exact h ▸ List.prefix_refl _

end MediaSink

namespace Controller
variable {su : Setup}

/-! The program with lists in place of the channels: the stages run one after the other on
the packets of `reads` calls of av_read_frame, each with `turns` turns for a loop of outputs. -/

def forwarded (su : Setup) (reads : Nat) : List AVPacket :=
  MediaSource.forward su.streams (MediaSource.packets su.read reads)

def decoded (su : Setup) (turns reads : Nat) : List AVFrame :=
  su.decoderStage.outputs (fun _ => turns) ⟨su.contexts,0⟩ (forwarded su reads)

def composed (su : Setup) (turns reads : Nat) : List AVFrame :=
  su.processorStage.outputs (fun _ => turns) ⟨su.bufferCtxs,su.graphState⟩
    (decoded su turns reads)

def encoded (su : Setup) (turns reads : Nat) : List AVPacket :=
  su.encoderStage.outputs (fun _ => turns) su.encoderState (composed su turns reads)

def sequential (su : Setup) (turns reads : Nat) : List AVPacket :=
  (encoded su turns reads).map (MediaSink.rewrite su.timeBases)

/-- Every thread has done a part of its sequential work. -/
structure InStep (s : Controller su) : Prop where
  linked : Linked s
  source : MediaSource.Produced su.streams su.read s.source
  decoder : s.decoder.Follows su.decoderStage ⟨su.contexts,0⟩
  processor : s.processor.Follows su.processorStage ⟨su.bufferCtxs,su.graphState⟩
  encoder : s.encoder.Follows su.encoderStage su.encoderState
  sink : MediaSink.Written su.timeBases s.sink

theorem InStep.start (su : Setup) : InStep (start su) :=
  ⟨.start su,.start _ _,.start _ _,.start _ _,.start _ _,rfl⟩

theorem InStep.step {e : EmptyPop} {s s' : Controller su} {a : Label} (h : InStep s)
    (ha : AllocsSucceed s a) (hs : Stepped e s a s') : InStep s' := by
  have hl := h.linked.step hs
  obtain ⟨-,hsource,hdecoder,hprocessor,hencoder,hsink⟩ := h
  cases hs with
  | source hw => exact ⟨hl,hsource.step hw,hdecoder,hprocessor,hencoder,hsink⟩
  | decoder hw => cases ha; exact ⟨hl,hsource,hdecoder.step hw,hprocessor,hencoder,hsink⟩
  | processor hw => cases ha; exact ⟨hl,hsource,hdecoder,hprocessor.step hw,hencoder,hsink⟩
  | encoder hw => cases ha; exact ⟨hl,hsource,hdecoder,hprocessor,hencoder.step hw,hsink⟩
  | sink hw => exact ⟨hl,hsource,hdecoder,hprocessor,hencoder,hsink.step hw⟩
  | stopper hstop =>
    cases stop_cases hstop
    all_goals exact ⟨hl,⟨hsource.sent,hsource.reading⟩,hdecoder,hprocessor,hencoder,hsink⟩
  | wakeIngest | wakeDecode | wakeFilter | wakeEncode =>
    exact ⟨hl,hsource,hdecoder,hprocessor,hencoder,hsink⟩

theorem reachable_inStep {e : EmptyPop} {ok : Controller su → Label → Prop}
    (hok : ∀ s a, ok s a → AllocsSucceed s a) {s : Controller su}
    (h : Reachable (program su e) ok s) : InStep s :=
  h.invariant (.start su) fun hi ha hs => hi.step (hok _ _ ha) (step_cases hs)

structure Behind (s : Controller su) (turns reads : Nat) : Prop where
  source : s.source.sent <+: forwarded su reads
  decoder : s.decoder.sent <+: decoded su turns reads
  processor : s.processor.sent <+: composed su turns reads
  encoder : s.encoder.sent <+: encoded su turns reads

theorem InStep.behind {s : Controller su} (h : InStep s) :
    ∃ k, ∀ turns, k ≤ turns → ∀ reads,
      MediaSource.packets su.read s.source.reads <+: MediaSource.packets su.read reads →
      Behind s turns reads := by
  obtain ⟨k₁,h₁⟩ := h.decoder.prefix_outputs
  obtain ⟨k₂,h₂⟩ := h.processor.prefix_outputs
  obtain ⟨k₃,h₃⟩ := h.encoder.prefix_outputs
  refine ⟨max k₁ (max k₂ k₃),fun turns hturns reads hreads => ?_⟩
  have hsource := h.source.sent_prefix hreads
  have hdecoder := (h₁ turns (by omega)).trans
    (Transducer.outputs_prefix _ _ (h.linked.ingest.received_prefix.trans hsource))
  have hprocessor := (h₂ turns (by omega)).trans
    (Transducer.outputs_prefix _ _ (h.linked.decode.received_prefix.trans hdecoder))
  have hencoder := (h₃ turns (by omega)).trans
    (Transducer.outputs_prefix _ _ (h.linked.filter.received_prefix.trans hprocessor))
  exact ⟨hsource,hdecoder,hprocessor,hencoder⟩

theorem InStep.written_prefix {s : Controller su} (h : InStep s) {turns reads : Nat}
    (hb : Behind s turns reads) : s.sink.written <+: sequential su turns reads :=
  h.sink.prefix_map.trans ((h.linked.encode.received_prefix.trans hb.encoder).map _)

/-- In every interleaving, with or without a stop, the sink has written a prefix of what the
sequential program gives for the packets read so far and, once the input is known to end,
for the whole input. -/
theorem written_prefix_sequential (su : Setup) (s : Controller su)
    (h : Reachable (program su .undefined) AllocsSucceed s) :
    ∃ k, ∀ turns, k ≤ turns →
      (∀ reads, s.source.reads ≤ reads → s.sink.written <+: sequential su turns reads) ∧
      ∀ reads, su.read reads = none → s.sink.written <+: sequential su turns reads := by
  have hs := reachable_inStep (fun _ _ ha => ha) h
  obtain ⟨k,hk⟩ := hs.behind
  refine ⟨k,fun turns hturns => ⟨fun reads hle => ?_,fun reads hend => ?_⟩⟩
  · exact hs.written_prefix (hk turns hturns reads (MediaSource.packetsFrom_prefix su.read 0 hle))
  · exact hs.written_prefix
      (hk turns hturns reads (MediaSource.packets_prefix_of_none hend s.source.reads))

def sampleRun : List Label :=
  turns [(.source,3),(.decoder,6),(.processor,6),(.encoder,6),(.sink,3)]

theorem written_prefix_sequential_sample :
    ∃ s : Controller (sampleSetup [⟨0,900,900,1,[]⟩]), s.sink.written.length = 1 ∧
      ∃ k, ∀ turns, k ≤ turns →
        s.sink.written <+: sequential (sampleSetup [⟨0,900,900,1,[]⟩]) turns 1 := by
  obtain ⟨s,hs,hp⟩ := Reachable.exists_of_replay
    (program (sampleSetup [⟨0,900,900,1,[]⟩]) .undefined) AllocsSucceed sampleRun
    (fun s => s.sink.written.length = 1) (fun a ha _ => allocsSucceed_of_mem_turns ha) (by decide)
  obtain ⟨k,hk⟩ := written_prefix_sequential _ s hs
  exact ⟨s,by simpa using hp,k,fun turns hturns => (hk turns hturns).2 1 rfl⟩

end Controller
end HyperStream
