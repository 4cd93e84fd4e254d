import HyperStream.Rest
import HyperStream.Termination
set_option autoImplicit false

open Transition

namespace HyperStream

/-- Between two inputs a stage has sent all that its transducer gives for what it received. -/
theorem Worker.Follows.outputs_eq {α β : Type} {S : Stage α β} {s₀ : S.State}
    {w : Worker S.State α β} (h : w.Follows S s₀) (hpc : w.pc = .pop ∨ w.pc = .returned) :
    ∃ k, ∀ n, k ≤ n → S.outputs (fun _ => n) s₀ w.received = w.sent := by
  have hidle : ∃ s, Transducer.Follows S.toTransducer s₀ w.received w.sent .idle s := by
    unfold Follows at h
    rcases hpc with hpc | hpc
    · rw [hpc] at h; exact ⟨_,h⟩
    · rw [hpc] at h; exact h
  obtain ⟨s,k,hk⟩ := hidle
  exact ⟨k,fun n hn => by rw [Transducer.outputs,hk n hn]⟩

theorem MediaSource.packets_eq_of_none {read : Nat → Option AVPacket} {n m : Nat}
    (hn : read n = none) (hm : read m = none) : packets read n = packets read m :=
  (packets_prefix_of_none hm n).eq_of_length_le (packets_prefix_of_none hn m).length_le

theorem MediaSource.Produced.all_sent {streams : List AVStream}
    {read : Nat → Option AVPacket} {th : Thread} (h : Produced streams read th)
    (hpc : th.pc = .returned) (hend : SawReadError read th) {last : Nat}
    (hlast : read last = none) : th.sent = forward streams (packets read last) := by
  obtain ⟨k,hreads,hk⟩ := hend
  have hsent := h.sent
  rw [hpc,hreads,packets,packetsFrom_succ_none (by rw [Nat.zero_add]; exact hk),← packets,
    packets_eq_of_none hk hlast] at hsent
  simpa using hsent

namespace Controller
variable {su : Setup} {e : EmptyPop} {s : Controller su}

/-- What the stages make of these packets, one after the other. -/
def processed (su : Setup) (turns : Nat) (pkts : List AVPacket) : List AVPacket :=
  (su.encoderStage.outputs (fun _ => turns) su.encoderState
    (su.processorStage.outputs (fun _ => turns) ⟨su.bufferCtxs,su.graphState⟩
      (su.decoderStage.outputs (fun _ => turns) ⟨su.contexts,0⟩ pkts))).map
    (MediaSink.rewrite su.timeBases)

/-- Of a drained pipeline all is written that the source has sent. -/
theorem Drained.written_eq (h : Drained s) (hi : InStep s) :
    ∃ k, ∀ turns, k ≤ turns → s.sink.written = processed su turns s.source.sent := by
  have hwritten : s.sink.written = s.sink.received.map (MediaSink.rewrite su.timeBases) := by
    have hw := hi.sink
    unfold MediaSink.Written at hw
    rcases h.sink with hpc | hpc <;> rwa [hpc] at hw
  obtain ⟨k₁,h₁⟩ := hi.decoder.outputs_eq h.decoder
  obtain ⟨k₂,h₂⟩ := hi.processor.outputs_eq h.processor
  obtain ⟨k₃,h₃⟩ := hi.encoder.outputs_eq h.encoder
  refine ⟨max k₁ (max k₂ k₃),fun turns hturns => ?_⟩
  unfold processed
  rw [hi.linked.ingest.received_eq h.ingest_empty,h₁ turns (by omega),
    hi.linked.decode.received_eq h.decode_empty,h₂ turns (by omega),
    hi.linked.filter.received_eq h.filter_empty,h₃ turns (by omega),
    hi.linked.encode.received_eq h.encode_empty,hwritten]

theorem Exhausted.written_eq (h : Exhausted s) (hi : InStep s) (hends : Ends s) {last : Nat}
    (hlast : su.read last = none) :
    ∃ k, ∀ turns, k ≤ turns → s.sink.written = sequential su turns last := by
  have hleft : s.source.pc.Left := by simp [h.source,MediaSource.PC.Left]
  have hsource := hi.source.all_sent h.source (hends.source hleft) hlast
  obtain ⟨k,hk⟩ := h.toDrained.written_eq hi
  exact ⟨k,fun turns hturns => by rw [hk turns hturns,hsource]; rfl⟩

end Controller

/-- The answer of a pop on an empty queue is all that the two readings of it differ in. -/
theorem Channel.PopStep.reread {α : Type} {e : EmptyPop} {c c' : Channel Side α}
    {r : Reply (Option α)} (h : c.PopStep e .consumer r c') :
    c.PopStep .undefined .consumer r c' ∨ r = .returned none := by
  cases h with
  | sleep ho => exact .inl (.sleep ho)
  | park ho hs hstop hq => exact .inl (.park ho hs hstop hq)
  | remove ho hs hq hm => exact .inl (.remove ho hs hq hm)
  | ended => exact .inr rfl

namespace Worker
variable {α β : Type} {S : Stage α β} {e : EmptyPop} {w w' : Worker S.State α β}
  {src src' : Channel Side α} {dst dst' : Channel Side β}

theorem Stepped.reread (h : Stepped S e true w src dst w' src' dst') :
    Stepped S .undefined true w src dst w' src' dst' ∨
      (w.pc = .pop ∧ w' = { w with pc := .cleanup } ∧ dst' = dst) := by
  cases h with
  | fail _ _ halloc => cases halloc
  | enter hpc => exact .inl (.enter hpc)
  | go hpc hflag => exact .inl (.go hpc hflag)
  | quit hpc hflag => exact .inl (.quit hpc hflag)
  | await hpc hp => exact .inl (.await hpc (hp.reread.resolve_right (by simp)))
  | receive hpc hp => exact .inl (.receive hpc (hp.reread.resolve_right (by simp)))
  | ended hpc => exact .inr ⟨hpc,rfl,rfl⟩
  | skip hpc hf => exact .inl (.skip hpc hf)
  | accept hpc hf => exact .inl (.accept hpc hf)
  | leave hpc hd => exact .inl (.leave hpc hd)
  | again hpc hd => exact .inl (.again hpc hd)
  | output hpc hd => exact .inl (.output hpc hd)
  | hold hpc hp => exact .inl (.hold hpc hp)
  | send hpc hp => exact .inl (.send hpc hp)
  | clean hpc hc => exact .inl (.clean hpc hc)
  | stop hpc => exact .inl (.stop hpc)

/-- A pop that finds the end of its input, read either way, costs no more than another. -/
theorem Stepped.drops (hS : S.Bounded) (h : Stepped S e true w src dst w' src' dst')
    {inputs outputs : Nat} (hin : w'.received.length ≤ inputs)
    (hout : w'.sent.length ≤ outputs) :
    w'.work inputs outputs + src'.unrest + dst'.unrest <
      w.work inputs outputs + src.unrest + dst.unrest := by
  rcases h.reread with h | ⟨hpc,rfl,rfl⟩
  · exact h.work_lt hS hin hout
  · have hsrc := src'.unrest_le
    unfold work
    simp only [hpc,position]
    omega

end Worker

namespace MediaSink
variable {tb : TimeBases} {e : EmptyPop} {th th' : Thread} {src src' : Channel Side AVPacket}

theorem Stepped.reread (h : Stepped tb e th src th' src') :
    Stepped tb .undefined th src th' src' ∨ (th.pc = .pop ∧ th' = { th with pc := .trailer }) := by
  cases h with
  | go hpc hflag => exact .inl (.go hpc hflag)
  | quit hpc hflag => exact .inl (.quit hpc hflag)
  | await hpc hp => exact .inl (.await hpc (hp.reread.resolve_right (by simp)))
  | receive hpc hp => exact .inl (.receive hpc (hp.reread.resolve_right (by simp)))
  | ended hpc => exact .inr ⟨hpc,rfl⟩
  | write hpc => exact .inl (.write hpc)
  | trailer hpc => exact .inl (.trailer hpc)

theorem Stepped.drops (h : Stepped tb e th src th' src') {inputs : Nat}
    (hin : th'.received.length ≤ inputs) :
    th'.work inputs + src'.unrest < th.work inputs + src.unrest := by
  rcases h.reread with h | ⟨hpc,rfl⟩
  · exact h.work_lt hin
  · have hsrc := src'.unrest_le
    unfold Thread.work
    simp only [hpc,position]
    omega

end MediaSink

namespace Controller
variable {su : Setup} {e : EmptyPop} {s s' : Controller su} {a : Label}

/-- The rank without the source's part. -/
def stagesRank (ingest decode filter encode : Nat) (s : Controller su) : Nat :=
  s.decoder.work ingest decode + s.processor.work decode filter + s.encoder.work filter encode +
    s.sink.work encode +
    (s.ingest.unrest + s.decode.unrest + s.filter.unrest + s.encode.unrest)

/-- A step of a thread behind the source. -/
def IsStage : Label → Prop
  | .run .decoder _ alloc | .run .processor _ alloc | .run .encoder _ alloc
  | .run .sink _ alloc => alloc = true
  | _ => False

theorem IsStage.source_eq (ha : IsStage a) (hs : Stepped e s a s') : s'.source = s.source := by
  cases hs with
  | source => cases ha
  | stopper hstop => cases ha
  | _ => rfl

theorem stagesRank_lt (hd : su.decoder.Bounded) (hg : su.graph.Bounded)
    (he : su.encoder.Bounded) {reads turns : Nat} (hl : Linked s') (hb : Behind s' turns reads)
    (ha : IsStage a) (hs : Stepped e s a s') :
    stagesRank (forwarded su reads).length (decoded su turns reads).length
      (composed su turns reads).length (encoded su turns reads).length s' <
    stagesRank (forwarded su reads).length (decoded su turns reads).length
      (composed su turns reads).length (encoded su turns reads).length s := by
  have h₀ := hb.source.length_le
  have h₁ := hb.decoder.length_le
  have h₂ := hb.processor.length_le
  have h₃ := hb.encoder.length_le
  have r₀ := hl.ingest.received_prefix.length_le
  have r₁ := hl.decode.received_prefix.length_le
  have r₂ := hl.filter.received_prefix.length_le
  have r₃ := hl.encode.received_prefix.length_le
  unfold stagesRank
  cases hs with
  | decoder hw =>
    cases ha
    have hlt := hw.drops (VideoDecoder.stageBounded hd) (r₀.trans h₀) h₁
    dsimp only
    omega
  | processor hw =>
    cases ha
    have hlt := hw.drops (MultiviewCompositor.stageBounded hg) (r₁.trans h₁) h₂
    dsimp only
    omega
  | encoder hw =>
    cases ha
    have hlt := hw.drops (VideoEncoder.stageBounded he) (r₂.trans h₂) h₃
    dsimp only
    omega
  | sink hw =>
    have hlt := hw.drops (r₃.trans h₃)
    dsimp only
    omega
  | source => cases ha
  | stopper => cases ha
  | wakeIngest => cases ha
  | wakeDecode => cases ha
  | wakeFilter => cases ha
  | wakeEncode => cases ha

theorem rank_drops (hd : su.decoder.Bounded) (hg : su.graph.Bounded) (he : su.encoder.Bounded)
    {last turns : Nat} (hlast : su.read last = none) (hi : InStep s) (hl : Linked s')
    (hb : Behind s' turns last) (ha : Undisturbed s a)
    (hrun : ∀ channel side, a ≠ .wake channel side) (hs : Stepped e s a s') :
    rank last (forwarded su last).length (decoded su turns last).length
      (composed su turns last).length (encoded su turns last).length s' <
    rank last (forwarded su last).length (decoded su turns last).length
      (composed su turns last).length (encoded su turns last).length s := by
  have hstages (hstage : IsStage a) := stagesRank_lt hd hg he hl hb hstage hs
  unfold stagesRank at hstages
  cases hs with
  | source hw => exact rank_lt hd hg he hlast hi hl hb ha hrun (.source (e := .undefined) hw)
  | decoder | processor | encoder | sink =>
    have hlt := hstages ha.2
    unfold rank
    dsimp only at hlt ⊢
    omega
  | stopper => exact absurd rfl ha.1
  | wakeIngest => exact absurd rfl (hrun _ _)
  | wakeDecode => exact absurd rfl (hrun _ _)
  | wakeFilter => exact absurd rfl (hrun _ _)
  | wakeEncode => exact absurd rfl (hrun _ _)

/-- On an input that ends the threads take boundedly many steps in whatever order, and when
none of them can go on, all that the sequential program gives is written: a stage that sleeps
in its pop, or would pop from an empty queue, has nothing in hand and nothing before it. -/
theorem rests_with_all_written (su : Setup) (hsound : su.Sound) (hd : su.decoder.Bounded)
    (hg : su.graph.Bounded) (he : su.encoder.Bounded) (e : EmptyPop) (last : Nat)
    (hlast : su.read last = none) :
    (∃ N, ∀ (as : List Label) (s : Controller su),
      (∀ a ∈ as, ∃ thread target, thread ≠ .stopper ∧ a = .run thread target true) →
      replay (program su e) (start su) as = .next s → as.length ≤ N) ∧
    ∀ s : Controller su, Reachable (program su e) Undisturbed s → AtRest e s → Exhausted s ∧
      ∃ k, ∀ turns, k ≤ turns → s.sink.written = sequential su turns last := by
  have hin : ∀ {s : Controller su}, Reachable (program su e) Undisturbed s → InStep s :=
    fun h => reachable_inStep (fun _ _ ha => ha.allocs) h
  constructor
  · obtain ⟨K,hbehind⟩ := exists_behind hd hg he hlast
    refine ⟨rank last (forwarded su last).length (decoded su K last).length
      (composed su K last).length (encoded su K last).length (start su),fun as s has hr => ?_⟩
    have hstart : Reachable (program su e) Undisturbed (start su) := .start
    refine replay_length (P := Reachable (program su e) Undisturbed) _ ?_ has hstart hr
    intro s t a hs ha hstep
    obtain ⟨thread,target,hno,rfl⟩ := ha
    have hok : Undisturbed s (.run thread target true) := ⟨hno,rfl⟩
    have ht := hs.next hok hstep
    exact ⟨ht,rank_drops hd hg he hlast (hin hs) (hin ht).linked (hbehind t (hin ht)) hok
      (by simp) (step_cases hstep)⟩
  · intro s hs hrest
    have hex := hrest.exhausted hsound hs
    exact ⟨hex,hex.written_eq (hin hs) (reachable_ends hs) hlast⟩

theorem rests_with_all_written_sample :
    ∃ s : Controller (sampleSetup [⟨0,900,900,1,[]⟩]), AtRest .undefined s ∧ Exhausted s ∧
      s.sink.written.length = 1 := by
  have hend : (sampleSetup [⟨0,900,900,1,[]⟩]).read 1 = none := rfl
  obtain ⟨s,hs,hrest⟩ := comes_to_rest (Component.relayBounded _) (Component.relayBounded _)
    (Component.relayBounded _) hend
  have hall := rests_with_all_written (sampleSetup [⟨0,900,900,1,[]⟩])
    (sampleSetup_sound (by simp)) (Component.relayBounded _) (Component.relayBounded _)
    (Component.relayBounded _) .undefined 1 hend
  obtain ⟨hex,k,hk⟩ := hall.2 s hs hrest
  refine ⟨s,hrest,hex,?_⟩
  rw [hk (k+2) (by omega)]
  rfl

theorem IsStage.undisturbed (h : IsStage a) : Undisturbed s a := by
  cases a with
  | run thread target alloc => cases thread <;> first | exact ⟨by simp,h⟩ | cases h
  | wake => cases h

/-- The pipeline catches up with its input, also with one that does not end: the threads
behind the source take boundedly many steps on their own, and when none of them can go on,
nothing is held back of what the source has sent. -/
theorem catches_up (su : Setup) (hsound : su.Sound) (hd : su.decoder.Bounded)
    (hg : su.graph.Bounded) (he : su.encoder.Bounded) (e : EmptyPop) (s : Controller su)
    (hs : Reachable (program su e) Undisturbed s) :
    (∃ N, ∀ (as : List Label) (t : Controller su), (∀ a ∈ as, IsStage a) →
      replay (program su e) s as = .next t → as.length ≤ N) ∧
    ∀ t : Controller su, Run (program su e) (fun _ a => IsStage a) s t → StagesRest e t →
      Drained t ∧ ∃ k, ∀ turns, k ≤ turns → t.sink.written = processed su turns s.source.sent := by
  have hin : ∀ {t : Controller su}, Reachable (program su e) Undisturbed t → InStep t :=
    fun h => reachable_inStep (fun _ _ ha => ha.allocs) h
  constructor
  · obtain ⟨K,hbehind⟩ := exists_behind_of_prefix hd hg he s.source.reads
    refine ⟨stagesRank (forwarded su s.source.reads).length
      (decoded su K s.source.reads).length (composed su K s.source.reads).length
      (encoded su K s.source.reads).length s,fun as t has hr => ?_⟩
    refine replay_length (P := fun t => Reachable (program su e) Undisturbed t ∧
      t.source = s.source) _ ?_ has ⟨hs,rfl⟩ hr
    intro u v a hu ha hstep
    have hv := hu.1.next ha.undisturbed hstep
    have hsource := (ha.source_eq (step_cases hstep)).trans hu.2
    have hb := hbehind v (hin hv) (by rw [hsource])
    exact ⟨⟨hv,hsource⟩,stagesRank_lt hd hg he (hin hv).linked hb ha (step_cases hstep)⟩
  · intro t ht hrest
    have hreach : Reachable (program su e) Undisturbed t :=
      hs.trans (ht.mono fun _ _ ha => ha.undisturbed)
    have hdrained := hrest.drained hsound hreach
    have hsource : t.source = s.source :=
      ht.invariant (P := fun t => t.source = s.source)
        (fun hu ha hstep => (ha.source_eq (step_cases hstep)).trans hu) rfl
    refine ⟨hdrained,?_⟩
    rw [← hsource]
    exact hdrained.written_eq (hin hreach)

/-- The source has sent one of two packets, and the others sleep. -/
theorem catches_up_sample :
    ∃ s : Controller (sampleSetup [⟨0,900,900,1,[]⟩,⟨0,915,915,1,[]⟩]),
      s.source.sent = [⟨0,900,900,1,[]⟩] ∧ Drained s ∧ ∃ k, ∀ turns, k ≤ turns →
        s.sink.written = processed (sampleSetup [⟨0,900,900,1,[]⟩,⟨0,915,915,1,[]⟩]) turns
          [⟨0,900,900,1,[]⟩] := by
  obtain ⟨s,hs,hp⟩ := Reachable.exists_of_replay
    (program (sampleSetup [⟨0,900,900,1,[]⟩,⟨0,915,915,1,[]⟩]) .undefined) Undisturbed
    (turns [(.source,3),(.decoder,10),(.processor,10),(.encoder,10),(.sink,6)])
    (fun s => s.source.sent = [⟨0,900,900,1,[]⟩] ∧
      (s.decoder.pc = .pop ∧ s.ingest.monitor.owner = none ∧
        s.ingest.monitor.status .consumer = .asleep .notEmpty) ∧
      (s.processor.pc = .pop ∧ s.decode.monitor.owner = none ∧
        s.decode.monitor.status .consumer = .asleep .notEmpty) ∧
      (s.encoder.pc = .pop ∧ s.filter.monitor.owner = none ∧
        s.filter.monitor.status .consumer = .asleep .notEmpty) ∧
      s.sink.pc = .pop ∧ s.encode.monitor.owner = none ∧
        s.encode.monitor.status .consumer = .asleep .notEmpty)
    (fun a ha _ => undisturbed_of_mem_turns (by decide) ha) (by decide)
  simp only [decide_eq_true_eq] at hp
  obtain ⟨hsent,hdecoder,hprocessor,hencoder,hsink⟩ := hp
  have hrest : StagesRest .undefined s := .of_asleep hdecoder hprocessor hencoder hsink
  have hall := catches_up _ (sampleSetup_sound (by simp)) (Component.relayBounded _)
    (Component.relayBounded _) (Component.relayBounded _) .undefined s hs
  obtain ⟨hdrained,hwritten⟩ := hall.2 s (.refl s) hrest
  rw [hsent] at hwritten
  exact ⟨s,hsent,hdrained,hwritten⟩

end Controller

namespace MediaSink
variable {tb : TimeBases} {e : EmptyPop} {th th' : Thread} {src src' : Channel Side AVPacket}

/-- The trailer is the last thing that run() writes. -/
def Closed (th : Thread) : Prop :=
  ∀ n, th.trailer = some n → th.pc = .returned ∧ n = th.written.length

theorem Closed.step (h : Closed th) (hs : Stepped tb e th src th' src') : Closed th' := by
  intro n hn
  cases hs with
  | trailer => cases hn; exact ⟨rfl,rfl⟩
  | await => exact h n hn
  | go hpc | quit hpc | receive hpc | ended hpc | write hpc =>
    have hret := (h n hn).1
    rw [hpc] at hret
    cases hret

theorem Stepped.not_returned (hs : Stepped tb e th src th' src') : th.pc ≠ .returned := by
  intro hpc
  cases hs <;> simp_all

end MediaSink

namespace Controller
variable {su : Setup} {e : EmptyPop} {s s' : Controller su} {a : Label}

theorem closed_step (h : MediaSink.Closed s.sink) (hs : Stepped e s a s') :
    MediaSink.Closed s'.sink := by
  cases hs with
  | sink hw => exact h.step hw
  | stopper hstop => cases stop_cases hstop <;> exact h
  | _ => exact h

/-- The file of a returned sink does not change any more. -/
theorem written_fixed {t : Controller su} (hpc : s.sink.pc = .returned)
    (h : Run (program su e) anyStep s t) : t.sink.pc = .returned ∧
      t.sink.written = s.sink.written ∧ t.sink.trailer = s.sink.trailer := by
  refine h.invariant (P := fun t => t.sink.pc = .returned ∧ t.sink.written = s.sink.written ∧
    t.sink.trailer = s.sink.trailer) ?_ ⟨hpc,rfl,rfl⟩
  intro u v a hu _ hstep
  cases step_cases hstep with
  | sink hw => exact absurd hu.1 hw.not_returned
  | stopper hstop => cases stop_cases hstop <;> exact hu
  | _ => exact hu

/-- What the end marks say, from the sink backwards: a sink that ended by itself is the last
of the five threads. -/
theorem Ends.exhausted (h : Ends s) (hpc : s.sink.pc = .returned) : Exhausted s := by
  have hencode := h.encode.left (by simp [hpc,MediaSink.PC.Left])
  have hencoder := h.encode.stopped hencode.1
  have hfilter := h.filter.left (by simp [hencoder,PC.Left])
  have hprocessor := h.filter.stopped hfilter.1
  have hdecode := h.decode.left (by simp [hprocessor,PC.Left])
  have hdecoder := h.decode.stopped hdecode.1
  have hingest := h.ingest.left (by simp [hdecoder,PC.Left])
  have hsource := h.ingest.stopped hingest.1
  exact ⟨⟨.inr hdecoder,.inr hprocessor,.inr hencoder,.inr hpc,hingest.2,hdecode.2,hfilter.2,
    hencode.2⟩,hsource⟩

/-- In every run the trailer comes after all that is ever written; and where nobody calls
stop (a pop of an empty stopped channel being false) the file that it closes is whole. -/
theorem trailer_closes_whole_file (su : Setup) (e : EmptyPop) (s : Controller su)
    (h : Reachable (program su e) anyStep s) (n : Nat) (hn : s.sink.trailer = some n) :
    n = s.sink.written.length ∧
    (∀ t : Controller su, Run (program su e) anyStep s t →
      t.sink.written = s.sink.written ∧ t.sink.trailer = some n) ∧
    (Reachable (program su e) Undisturbed s → ∀ last, su.read last = none →
      ∃ k, ∀ turns, k ≤ turns → s.sink.written = sequential su turns last) := by
  have hclosed : MediaSink.Closed s.sink :=
    h.invariant (P := fun s => MediaSink.Closed s.sink) (fun n hn => by cases hn)
      fun hc _ hs => closed_step hc (step_cases hs)
  obtain ⟨hpc,hlen⟩ := hclosed n hn
  refine ⟨hlen,fun t ht => ?_,fun hquiet last hlast => ?_⟩
  · obtain ⟨-,hw,htr⟩ := written_fixed hpc ht
    exact ⟨hw,htr.trans hn⟩
  · have hends := reachable_ends hquiet
    exact (hends.exhausted hpc).written_eq (reachable_inStep (fun _ _ ha => ha.allocs) hquiet)
      hends hlast

/-- The file with one packet, closed at the end of the input. -/
theorem trailer_closes_whole_file_sample :
    ∃ s : Controller (sampleSetup [⟨0,900,900,1,[]⟩]), s.sink.trailer = some 1 ∧
      ∃ k, ∀ turns, k ≤ turns →
        s.sink.written = sequential (sampleSetup [⟨0,900,900,1,[]⟩]) turns 1 := by
  obtain ⟨s,hs,hp⟩ := Reachable.exists_of_replay
    (program (sampleSetup [⟨0,900,900,1,[]⟩]) .returnsFalse) Undisturbed
    (turns [(.source,6),(.decoder,11),(.processor,11),(.encoder,11),(.sink,6)])
    (fun s => s.sink.trailer = some 1)
    (fun a ha _ => undisturbed_of_mem_turns (by decide) ha) (by decide)
  simp only [decide_eq_true_eq] at hp
  have hclosed := trailer_closes_whole_file _ .returnsFalse s
    (hs.mono fun _ _ _ => trivial) 1 hp
  exact ⟨s,hp,hclosed.2.2 hs 1 rfl⟩

end Controller
end HyperStream
