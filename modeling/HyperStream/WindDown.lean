import HyperStream.Completion
set_option autoImplicit false

open Transition

namespace HyperStream

/-- What a thread in this place takes in before it tests its flag again. -/
def PC.popping {α β : Type} : PC α β → Nat
  | .pop => 1
  | _ => 0

theorem Worker.Stepped.intake_le {α β : Type} {S : Stage α β} {e : EmptyPop} {alloc : Bool}
    {w w' : Worker S.State α β} {src src' : Channel Side α} {dst dst' : Channel Side β}
    (h : Stepped S e alloc w src dst w' src' dst') (hflag : w.isStop = true) :
    w'.received.length + w'.pc.popping ≤ w.received.length + w.pc.popping := by
  cases h with
  | go _ hopen => rw [hflag] at hopen; cases hopen
  | receive hpc => simp [hpc,PC.popping]
  | await => exact le_rfl
  | hold => exact le_rfl
  | _ => simp [PC.popping]

namespace MediaSource
variable {streams : List AVStream} {read : Nat → Option AVPacket} {alloc : Bool}
  {th th' : Thread} {dst dst' : Channel Side AVPacket}

def PC.reading : PC → Nat
  | .read => 1
  | _ => 0

theorem Stepped.intake_le (h : Stepped streams read alloc th dst th' dst')
    (hflag : th.isStop = true) :
    th'.reads + th'.pc.reading ≤ th.reads + th.pc.reading := by
  cases h with
  | go _ hopen => rw [hflag] at hopen; cases hopen
  | finish hpc => simp [hpc,PC.reading]
  | video hpc => simp [hpc,PC.reading]
  | other hpc => simp [hpc,PC.reading]
  | hold => exact le_rfl
  | _ => simp [PC.reading]

/-- The rank of a source whose flag is set. -/
def PC.closing : PC → Nat
  | .read => 20
  | .push _ => 10
  | .test => 3
  | .stopDst => 2
  | .returned => 0

theorem Stepped.closing_lt (h : Stepped streams read alloc th dst th' dst')
    (hflag : th.isStop = true) :
    th'.pc.closing + dst'.unrest < th.pc.closing + dst.unrest := by
  cases h with
  | go _ hopen => rw [hflag] at hopen; cases hopen
  | hold _ hp => have hlt := hp.unrest_lt; omega
  | send hpc =>
    have hdst := dst'.unrest_le
    simp only [hpc,PC.closing]
    omega
  | stop hpc => simp only [hpc,PC.closing,show dst.stop.unrest = dst.unrest from rfl]; omega
  | quit hpc => simp only [hpc,PC.closing]; omega
  | finish hpc => simp only [hpc,PC.closing]; omega
  | video hpc => simp only [hpc,PC.closing]; omega
  | other hpc => simp only [hpc,PC.closing]; omega

end MediaSource

namespace MediaSink
variable {tb : TimeBases} {e : EmptyPop} {th th' : Thread} {src src' : Channel Side AVPacket}

def PC.popping : PC → Nat
  | .pop => 1
  | _ => 0

theorem Stepped.intake_le (h : Stepped tb e th src th' src') (hflag : th.isStop = true) :
    th'.received.length + th'.pc.popping ≤ th.received.length + th.pc.popping := by
  cases h with
  | go _ hopen => rw [hflag] at hopen; cases hopen
  | receive hpc => simp [hpc,PC.popping]
  | await => exact le_rfl
  | _ => simp [PC.popping]

end MediaSink

namespace Controller
variable {su : Setup} {e : EmptyPop} {s s' t : Controller su} {a : Label}

/-- The flags that stop has set before it comes to its present place. -/
structure Flagged (s : Controller su) : Prop where
  source : s.stopper ≠ .source → s.source.isStop = true
  decoder : s.stopper ∉ [StopPC.source,.decoder] → s.decoder.isStop = true
  processor : s.stopper ∉ [StopPC.source,.decoder,.ingest,.processor] → s.processor.isStop = true
  encoder : s.stopper ∈ [StopPC.filter,.sink,.returned] → s.encoder.isStop = true
  sink : s.stopper = .returned → s.sink.isStop = true

theorem Flagged.step (h : Flagged s) (hs : Stepped e s a s') : Flagged s' := by
  obtain ⟨hsource,hdecoder,hprocessor,hencoder,hsink⟩ := h
  cases hs with
  | source hw =>
    exact ⟨fun hp => hw.isStop_eq.trans (hsource hp),hdecoder,hprocessor,hencoder,hsink⟩
  | decoder hw =>
    exact ⟨hsource,fun hp => hw.isStop_eq.trans (hdecoder hp),hprocessor,hencoder,hsink⟩
  | processor hw =>
    exact ⟨hsource,hdecoder,fun hp => hw.isStop_eq.trans (hprocessor hp),hencoder,hsink⟩
  | encoder hw =>
    exact ⟨hsource,hdecoder,hprocessor,fun hp => hw.isStop_eq.trans (hencoder hp),hsink⟩
  | sink hw =>
    exact ⟨hsource,hdecoder,hprocessor,hencoder,fun hp => hw.isStop_eq.trans (hsink hp)⟩
  | stopper hstop =>
    cases stop_cases hstop <;> rename_i hpc <;> constructor <;> simp_all
  | wakeIngest | wakeDecode | wakeFilter | wakeEncode =>
    exact ⟨hsource,hdecoder,hprocessor,hencoder,hsink⟩

theorem reachable_flagged {ok : Controller su → Label → Prop}
    (h : Reachable (program su e) ok s) : Flagged s :=
  h.invariant (P := Flagged) (by constructor <;> simp [program,start]) fun hf _ hs =>
    hf.step (step_cases hs)

/-- What `t` has taken in since stop returned in `s`: a thread that was in its pop or its read
at most one more item, the others none. -/
structure After (s t : Controller su) : Prop where
  stopped : t.stopper = .returned
  source : t.source.reads + t.source.pc.reading ≤ s.source.reads + s.source.pc.reading
  decoder : t.decoder.received.length + t.decoder.pc.popping ≤
    s.decoder.received.length + s.decoder.pc.popping
  processor : t.processor.received.length + t.processor.pc.popping ≤
    s.processor.received.length + s.processor.pc.popping
  encoder : t.encoder.received.length + t.encoder.pc.popping ≤
    s.encoder.received.length + s.encoder.pc.popping
  sink : t.sink.received.length + t.sink.pc.popping ≤
    s.sink.received.length + s.sink.pc.popping

theorem After.step {t' : Controller su} (h : After s t) (hf : Flagged t)
    (hs : Stepped e t a t') : After s t' := by
  obtain ⟨hstopped,hsource,hdecoder,hprocessor,hencoder,hsink⟩ := h
  cases hs with
  | source hw =>
    exact ⟨hstopped,(hw.intake_le (hf.source (by simp [hstopped]))).trans hsource,hdecoder,
      hprocessor,hencoder,hsink⟩
  | decoder hw =>
    exact ⟨hstopped,hsource,(hw.intake_le (hf.decoder (by simp [hstopped]))).trans hdecoder,
      hprocessor,hencoder,hsink⟩
  | processor hw =>
    exact ⟨hstopped,hsource,hdecoder,
      (hw.intake_le (hf.processor (by simp [hstopped]))).trans hprocessor,hencoder,hsink⟩
  | encoder hw =>
    exact ⟨hstopped,hsource,hdecoder,hprocessor,
      (hw.intake_le (hf.encoder (by simp [hstopped]))).trans hencoder,hsink⟩
  | sink hw =>
    exact ⟨hstopped,hsource,hdecoder,hprocessor,hencoder,
      (hw.intake_le (hf.sink hstopped)).trans hsink⟩
  | stopper hstop =>
    cases stop_cases hstop <;> rename_i hpc <;> rw [hstopped] at hpc <;> cases hpc
  | wakeIngest | wakeDecode | wakeFilter | wakeEncode =>
    exact ⟨hstopped,hsource,hdecoder,hprocessor,hencoder,hsink⟩

theorem After.reads_le (h : After s t) : t.source.reads ≤ s.source.reads + 1 := by
  have hle := h.source
  have hone : s.source.pc.reading ≤ 1 := by
    unfold MediaSource.PC.reading
    split <;> omega
  omega

def windDownRank (ingest decode filter encode : Nat) (s : Controller su) : Nat :=
  s.source.pc.closing + stagesRank ingest decode filter encode s

theorem windDownRank_lt (hd : su.decoder.Bounded) (hg : su.graph.Bounded)
    (he : su.encoder.Bounded) {reads turns : Nat} (hstopped : s.stopper = .returned)
    (hf : Flagged s) (hl : Linked s') (hb : Behind s' turns reads) {thread : ThreadId}
    {target : Option Side} (hs : Stepped e s (.run thread target true) s') :
    windDownRank (forwarded su reads).length (decoded su turns reads).length
      (composed su turns reads).length (encoded su turns reads).length s' <
    windDownRank (forwarded su reads).length (decoded su turns reads).length
      (composed su turns reads).length (encoded su turns reads).length s := by
  have hstages (hstage : IsStage (.run thread target true)) :=
    stagesRank_lt hd hg he hl hb hstage hs
  unfold windDownRank
  cases hs with
  | source hw =>
    have hlt := hw.closing_lt (hf.source (by simp [hstopped]))
    unfold stagesRank
    dsimp only
    omega
  | decoder | processor | encoder | sink =>
    have hlt := hstages rfl
    dsimp only at hlt ⊢
    omega
  | stopper hstop =>
    cases stop_cases hstop <;> rename_i hpc <;> rw [hstopped] at hpc <;> cases hpc

/-- Once stop has returned the threads take boundedly many steps, also on an input without
end, and each takes in at most the one item that it was about to take. When none of them can
go on, it has returned, or it sleeps in a channel whose stop wakes no one, or it is about to
pop from an empty queue. -/
theorem winds_down_after_stop (su : Setup) (hsound : su.Sound) (hd : su.decoder.Bounded)
    (hg : su.graph.Bounded) (he : su.encoder.Bounded) (e : EmptyPop) (s : Controller su)
    (hs : Reachable (program su e) AllocsSucceed s) (hstop : s.stopper = .returned) :
    (∃ N, ∀ (as : List Label) (t : Controller su),
      (∀ a ∈ as, ∃ thread target, a = .run thread target true) →
      replay (program su e) s as = .next t → as.length ≤ N) ∧
    ∀ t : Controller su, Run (program su e) anyStep s t →
      After s t ∧ (AtRest e t → Halted e t) := by
  have hself : After s s := ⟨hstop,le_rfl,le_rfl,le_rfl,le_rfl,le_rfl⟩
  constructor
  · obtain ⟨K,hbehind⟩ := exists_behind_of_prefix hd hg he (s.source.reads + 1)
    refine ⟨windDownRank (forwarded su (s.source.reads + 1)).length
      (decoded su K (s.source.reads + 1)).length (composed su K (s.source.reads + 1)).length
      (encoded su K (s.source.reads + 1)).length s,fun as t has hr => ?_⟩
    refine replay_length (P := fun t => Reachable (program su e) AllocsSucceed t ∧ After s t)
      _ ?_ has ⟨hs,hself⟩ hr
    intro u v a hu ha hstep
    obtain ⟨thread,target,rfl⟩ := ha
    have hcases := step_cases hstep
    have hflagged := reachable_flagged hu.1
    have hv : Reachable (program su e) AllocsSucceed v :=
      hu.1.next (a := .run thread target true) rfl hstep
    have hafter := hu.2.step hflagged hcases
    have hin := reachable_inStep (fun _ _ ha => ha) hv
    have hb := hbehind v hin (MediaSource.packetsFrom_prefix su.read 0 hafter.reads_le)
    exact ⟨⟨hv,hafter⟩,windDownRank_lt hd hg he hu.2.stopped hflagged hin.linked hb hcases⟩
  · intro t ht
    have hany : Reachable (program su e) anyStep s := hs.mono fun _ _ _ => trivial
    refine ⟨?_,fun hrest => hrest.halted hsound (hany.trans ht)⟩
    exact ht.induction (P := After s) hany hself fun hu hafter _ hstep =>
      hafter.step (reachable_flagged hu) (step_cases hstep)

/-- The source is about to read when stop returns: it reads this packet and no other. -/
theorem winds_down_after_stop_sample :
    ∃ s : Controller (sampleSetup [⟨0,900,900,1,[]⟩,⟨0,915,915,1,[]⟩]),
      s.source.pc = .read ∧ s.source.reads = 0 ∧
      ∀ t, Run (program _ .undefined) anyStep s t → t.source.reads ≤ 1 := by
  obtain ⟨s,hs,hp⟩ := Reachable.exists_of_replay
    (program (sampleSetup [⟨0,900,900,1,[]⟩,⟨0,915,915,1,[]⟩]) .undefined) AllocsSucceed
    (turns [(.source,1),(.stopper,7)])
    (fun s => s.stopper = .returned ∧ s.source.pc = .read ∧ s.source.reads = 0)
    (fun a ha _ => allocsSucceed_of_mem_turns ha) (by decide)
  simp only [decide_eq_true_eq] at hp
  obtain ⟨hstop,hpc,hreads⟩ := hp
  have hall := winds_down_after_stop _ (sampleSetup_sound (by simp))
    (Component.relayBounded _) (Component.relayBounded _) (Component.relayBounded _)
    .undefined s hs hstop
  refine ⟨s,hpc,hreads,fun t ht => ?_⟩
  have hsource := (hall.2 t ht).1.source
  rw [hpc,hreads] at hsource
  exact (Nat.le_add_right _ _).trans hsource

end Controller
end HyperStream
