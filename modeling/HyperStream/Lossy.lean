import HyperStream.Sequential
set_option autoImplicit false

open Transition

namespace HyperStream

namespace Worker
variable {α β : Type} {S : Stage α β} {e : EmptyPop} {alloc : Bool} {s₀ : S.State}
  {w w' : Worker S.State α β} {src src' : Channel Side α} {dst dst' : Channel Side β}

/-- The thread does its sequential work, but not all that it made is sent. -/
def Sheds (S : Stage α β) (s₀ : S.State) (w : Worker S.State α β) : Prop :=
  ∃ made, w.sent.Sublist made ∧ Follows S s₀ { w with sent := made }

theorem Sheds.start (S : Stage α β) (s₀ : S.State) : Sheds S s₀ (.start s₀) :=
  ⟨[],.refl _,.start S s₀⟩

theorem Sheds.step (hS : S.Lossy) (h : w.Sheds S s₀)
    (hs : Stepped S e alloc w src dst w' src' dst') : w'.Sheds S s₀ := by
  obtain ⟨made,hsub,h⟩ := h
  unfold Follows at h
  unfold Sheds Follows
  dsimp only at h
  cases hs with
  | fail hpc => rw [hpc] at h; exact ⟨made,hsub,_,h⟩
  | enter hpc => rw [hpc] at h; exact ⟨made,hsub,h⟩
  | go hpc => rw [hpc] at h; exact ⟨made,hsub,h⟩
  | quit hpc => rw [hpc] at h; exact ⟨made,hsub,_,h⟩
  | await hpc => rw [hpc] at h ⊢; exact ⟨made,hsub,h⟩
  | receive hpc => rw [hpc] at h; exact ⟨made,hsub,h.receive _⟩
  | ended hpc => rw [hpc] at h; exact ⟨made,hsub,_,h⟩
  | skip hpc hf => rw [hpc] at h; exact ⟨made,hsub,h.skip hf⟩
  | accept hpc hf => rw [hpc] at h; exact ⟨made,hsub,h.drain hf⟩
  | leave hpc hd =>
    rw [hpc] at h
    obtain hd | ⟨b,s',-,hno⟩ := hS.turn hd (by simp)
    · exact ⟨made,hsub,h.leave hd⟩
    · cases hno
  | again hpc hd =>
    rw [hpc] at h
    obtain hd | ⟨b,s',hd,heq⟩ := hS.turn hd (by simp)
    · exact ⟨made,hsub,h.again hd⟩
    · -- the output that is lost counts as made
      cases heq
      exact ⟨made ++ [b],hsub.trans (List.sublist_append_left _ _),(h.output hd).pushed⟩
  | output hpc hd =>
    rw [hpc] at h
    obtain hd | ⟨b,s',-,hno⟩ := hS.turn hd (by simp)
    · exact ⟨made,hsub,h.output hd⟩
    · cases hno
  | hold hpc => rw [hpc] at h ⊢; exact ⟨made,hsub,h⟩
  | @send b _ hpc => rw [hpc] at h; exact ⟨made ++ [b],hsub.append_right [b],h.pushed⟩
  | clean hpc => rw [hpc] at h; exact ⟨made,hsub,h⟩
  | stop hpc => rw [hpc] at h; exact ⟨made,hsub,h⟩

theorem Sheds.sublist_outputs (h : w.Sheds S s₀) :
    ∃ k, ∀ n, k ≤ n → w.sent.Sublist (S.outputs (fun _ => n) s₀ w.received) := by
  obtain ⟨made,hsub,h⟩ := h
  obtain ⟨k,hk⟩ := h.prefix_outputs
  exact ⟨k,fun n hn => hsub.trans (hk n hn).sublist⟩

/-- Without memory a stage whose turns need it returns before its loop, or takes a step that
needs none. -/
theorem Stepped.with_memory (hS : ∀ s, S.drain s false = .undefined)
    (h : Stepped S e alloc w src dst w' src' dst') : Stepped S e true w src dst w' src' dst' ∨
      (w.pc = .start ∧ w' = { w with pc := .returned }) := by
  have hdrain {s : S.State} {d : Drain S.State β} (hd : S.drain s alloc = d)
      (hne : d ≠ .undefined) : S.drain s true = d := by
    cases alloc with
    | true => exact hd
    | false => exact absurd (hd.symm.trans (hS s)) hne
  cases h with
  | fail hpc => exact .inr ⟨hpc,rfl⟩
  | enter hpc => exact .inl (.enter hpc)
  | go hpc hflag => exact .inl (.go hpc hflag)
  | quit hpc hflag => exact .inl (.quit hpc hflag)
  | await hpc hp => exact .inl (.await hpc hp)
  | receive hpc hp => exact .inl (.receive hpc hp)
  | ended hpc hp => exact .inl (.ended hpc hp)
  | skip hpc hf => exact .inl (.skip hpc hf)
  | accept hpc hf => exact .inl (.accept hpc hf)
  | leave hpc hd => exact .inl (.leave hpc (hdrain hd (by simp)))
  | again hpc hd => exact .inl (.again hpc (hdrain hd (by simp)))
  | output hpc hd => exact .inl (.output hpc (hdrain hd (by simp)))
  | hold hpc hp => exact .inl (.hold hpc hp)
  | send hpc hp => exact .inl (.send hpc hp)
  | clean hpc hc => exact .inl (.clean hpc hc)
  | stop hpc => exact .inl (.stop hpc)

theorem Follows.step_any (hS : ∀ s, S.drain s false = .undefined) (h : w.Follows S s₀)
    (hs : Stepped S e alloc w src dst w' src' dst') : w'.Follows S s₀ := by
  rcases hs.with_memory hS with hs | ⟨hpc,rfl⟩
  · exact h.step hs
  · unfold Follows at h ⊢
    rw [hpc] at h
    exact ⟨_,h⟩

end Worker

theorem VideoEncoder.lossy (C : Component AVFrame AVPacket) : (stage C).Lossy := by
  intro s
  cases s with
  | none => exact .inl rfl
  | some ctx =>
    refine .inr ?_
    rcases hr : C.receive ctx with ⟨r,ctx'⟩
    cases r with
    | output pkt => exact .inr ⟨_,_,drain_output hr,drain_dropped hr⟩
    | _ => exact .inl ((drain_leave hr (by simp)).trans (drain_leave hr (by simp)).symm)

namespace Controller
variable {su : Setup} {e : EmptyPop} {s s' : Controller su} {a : Label}

/-- Whatever allocations fail, every thread but the encoder's does a part of its sequential
work, and the encoder loses some of what it makes. -/
structure Shedding (s : Controller su) : Prop where
  linked : Linked s
  source : MediaSource.Produced su.streams su.read s.source
  decoder : s.decoder.Follows su.decoderStage ⟨su.contexts,0⟩
  processor : s.processor.Follows su.processorStage ⟨su.bufferCtxs,su.graphState⟩
  encoder : s.encoder.Sheds su.encoderStage su.encoderState
  sink : MediaSink.Written su.timeBases s.sink

theorem Shedding.step (h : Shedding s) (hs : Stepped e s a s') : Shedding s' := by
  have hl := h.linked.step hs
  obtain ⟨-,hsource,hdecoder,hprocessor,hencoder,hsink⟩ := h
  cases hs with
  | source hw => exact ⟨hl,hsource.step hw,hdecoder,hprocessor,hencoder,hsink⟩
  | decoder hw =>
    exact ⟨hl,hsource,hdecoder.step_any (fun _ => rfl) hw,hprocessor,hencoder,hsink⟩
  | processor hw =>
    exact ⟨hl,hsource,hdecoder,hprocessor.step_any (fun _ => rfl) hw,hencoder,hsink⟩
  | encoder hw =>
    exact ⟨hl,hsource,hdecoder,hprocessor,hencoder.step (VideoEncoder.lossy su.encoder) hw,hsink⟩
  | sink hw => exact ⟨hl,hsource,hdecoder,hprocessor,hencoder,hsink.step hw⟩
  | stopper hstop =>
    cases stop_cases hstop
    all_goals exact ⟨hl,⟨hsource.sent,hsource.reading⟩,hdecoder,hprocessor,hencoder,hsink⟩
  | wakeIngest | wakeDecode | wakeFilter | wakeEncode =>
    exact ⟨hl,hsource,hdecoder,hprocessor,hencoder,hsink⟩

theorem Shedding.start (su : Setup) : Shedding (start su) :=
  ⟨.start su,.start _ _,.start _ _,.start _ _,.start _ _,rfl⟩

theorem reachable_shedding {ok : Controller su → Label → Prop}
    (h : Reachable (program su e) ok s) : Shedding s :=
  h.invariant (.start su) fun hi _ hs => hi.step (step_cases hs)

theorem Shedding.written_sublist (h : Shedding s) : ∃ k, ∀ turns, k ≤ turns → ∀ reads,
    MediaSource.packets su.read s.source.reads <+: MediaSource.packets su.read reads →
    s.sink.written.Sublist (sequential su turns reads) := by
  obtain ⟨k₁,h₁⟩ := h.decoder.prefix_outputs
  obtain ⟨k₂,h₂⟩ := h.processor.prefix_outputs
  obtain ⟨k₃,h₃⟩ := h.encoder.sublist_outputs
  refine ⟨max k₁ (max k₂ k₃),fun turns hturns reads hreads => ?_⟩
  have hsource : s.source.sent <+: forwarded su reads := h.source.sent_prefix hreads
  have hdecoder : s.decoder.sent <+: decoded su turns reads := (h₁ turns (by omega)).trans
    (Transducer.outputs_prefix _ _ (h.linked.ingest.received_prefix.trans hsource))
  have hprocessor : s.processor.sent <+: composed su turns reads := (h₂ turns (by omega)).trans
    (Transducer.outputs_prefix _ _ (h.linked.decode.received_prefix.trans hdecoder))
  have hencoder : s.encoder.sent.Sublist (encoded su turns reads) := (h₃ turns (by omega)).trans
    (Transducer.outputs_prefix _ _ (h.linked.filter.received_prefix.trans hprocessor)).sublist
  have hreceived := h.linked.encode.received_prefix.sublist.trans hencoder
  exact h.sink.prefix_map.sublist.trans (hreceived.map _)

/-- In every run, whichever allocations fail and whether or not stop is called, the file holds
packets of the sequential program for the input read, each at most once and in order. -/
theorem written_sublist_sequential (su : Setup) (e : EmptyPop) (s : Controller su)
    (h : Reachable (program su e) anyStep s) :
    ∃ k, ∀ turns, k ≤ turns →
      (∀ reads, s.source.reads ≤ reads → s.sink.written.Sublist (sequential su turns reads)) ∧
      ∀ reads, su.read reads = none → s.sink.written.Sublist (sequential su turns reads) := by
  obtain ⟨k,hk⟩ := (reachable_shedding h).written_sublist
  refine ⟨k,fun turns hturns => ⟨fun reads hle => ?_,fun reads hend => ?_⟩⟩
  · exact hk turns hturns reads (MediaSource.packetsFrom_prefix su.read 0 hle)
  · exact hk turns hturns reads (MediaSource.packets_prefix_of_none hend s.source.reads)

/-- The encoder has no memory for the first of two packets, and the second is written. -/
theorem written_sublist_sequential_sample :
    ∃ s : Controller (sampleSetup [⟨0,900,900,1,[]⟩,⟨0,915,915,1,[]⟩]),
      s.sink.written.length = 1 ∧ ∃ k, ∀ turns, k ≤ turns → s.sink.written.Sublist
        (sequential (sampleSetup [⟨0,900,900,1,[]⟩,⟨0,915,915,1,[]⟩]) turns 2) := by
  obtain ⟨s,hs,hp⟩ := Reachable.exists_of_replay
    (program (sampleSetup [⟨0,900,900,1,[]⟩,⟨0,915,915,1,[]⟩]) .undefined) anyStep
    (turns [(.source,6),(.decoder,12),(.processor,12),(.encoder,4)] ++
      .run .encoder none false :: turns [(.encoder,6),(.sink,3)])
    (fun s => s.sink.written.length = 1) (fun _ _ _ => trivial) (by decide)
  obtain ⟨k,hk⟩ := written_sublist_sequential _ .undefined s hs
  exact ⟨s,by simpa using hp,k,fun turns hturns => (hk turns hturns).2 2 rfl⟩

end Controller
end HyperStream
