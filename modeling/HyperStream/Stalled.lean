import HyperStream.Controller
set_option autoImplicit false

open Transition

namespace HyperStream.Controller
variable {su : Setup}

/-- A thread between its source and its destination sleeps in one of the two, and no
notification for it is on the way. -/
def Asleep {α β : Type} (src : Channel Side α) (dst : Channel Side β) : Prop :=
  (∃ cv, src.monitor.status .consumer = .asleep cv) ∨
    ∃ cv, dst.monitor.status .producer = .asleep cv

structure Stalled (s : Controller su) : Prop where
  decoder : Asleep s.ingest s.decode
  processor : Asleep s.decode s.filter
  encoder : Asleep s.filter s.encode
  sink : ∃ cv, s.encode.monitor.status .consumer = .asleep cv

theorem stalled_means_drained (s : Controller su)
    (h : Reachable (program su .undefined) Undisturbed s) :
    (Stalled s → s.ingest.queue = [] ∧ s.decode.queue = [] ∧ s.filter.queue = [] ∧
      s.encode.queue = []) ∧
    ¬ ((∃ cv, s.decode.monitor.status .producer = .asleep cv) ∧
      ∃ cv, s.decode.monitor.status .consumer = .asleep cv) ∧
    ¬ ((∃ cv, s.filter.monitor.status .producer = .asleep cv) ∧
      ∃ cv, s.filter.monitor.status .consumer = .asleep cv) := by
  have hl := reachable_linked h
  refine ⟨fun hs => ?_,?_,?_⟩
  · -- from the sink backwards: an empty channel leaves its producer no push to sleep in
    obtain ⟨cv,hsink⟩ := hs.sink
    have hencode := hl.encode.consumer_asleep hsink
    obtain ⟨cv,hencoder⟩ :=
      hs.encoder.resolve_right (hl.encode.producer_not_asleep (by decide) hencode)
    have hfilter := hl.filter.consumer_asleep hencoder
    obtain ⟨cv,hprocessor⟩ :=
      hs.processor.resolve_right (hl.filter.producer_not_asleep (by decide) hfilter)
    have hdecode := hl.decode.consumer_asleep hprocessor
    obtain ⟨cv,hdecoder⟩ :=
      hs.decoder.resolve_right (hl.decode.producer_not_asleep (by decide) hdecode)
    exact ⟨hl.ingest.consumer_asleep hdecoder,hdecode,hfilter,hencode⟩
  · intro hboth
    obtain ⟨hp,cv,hc⟩ := hboth
    exact hl.decode.producer_not_asleep (by decide) (hl.decode.consumer_asleep hc) hp
  · intro hboth
    obtain ⟨hp,cv,hc⟩ := hboth
    exact hl.filter.producer_not_asleep (by decide) (hl.filter.consumer_asleep hc) hp

/-- A packet has passed all stages, and the source has not asked for the next one yet. -/
theorem stalled_means_drained_sample :
    ∃ s : Controller (sampleSetup [⟨0,900,900,1,[]⟩]), s.sink.written.length = 1 ∧ Stalled s ∧
      s.ingest.queue = [] ∧ s.decode.queue = [] ∧ s.filter.queue = [] ∧ s.encode.queue = [] := by
  obtain ⟨s,hs,hp⟩ := Reachable.exists_of_replay
    (program (sampleSetup [⟨0,900,900,1,[]⟩]) .undefined) Undisturbed
    (turns [(.source,3),(.decoder,10),(.processor,10),(.encoder,10),(.sink,6)])
    (fun s => s.sink.written.length = 1 ∧
      s.ingest.monitor.status .consumer = .asleep .notEmpty ∧
      s.decode.monitor.status .consumer = .asleep .notEmpty ∧
      s.filter.monitor.status .consumer = .asleep .notEmpty ∧
      s.encode.monitor.status .consumer = .asleep .notEmpty)
    (fun a ha _ => undisturbed_of_mem_turns (by decide) ha) (by decide)
  simp only [decide_eq_true_eq] at hp
  obtain ⟨hwritten,hdecoder,hprocessor,hencoder,hsink⟩ := hp
  have hst : Stalled s := ⟨.inl ⟨_,hdecoder⟩,.inl ⟨_,hprocessor⟩,.inl ⟨_,hencoder⟩,⟨_,hsink⟩⟩
  exact ⟨s,hwritten,hst,(stalled_means_drained s hs).1 hst⟩

end HyperStream.Controller
