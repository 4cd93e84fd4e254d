import HyperStream.Completion
import HyperStream.Isolation
import HyperStream.Lossy
set_option autoImplicit false

open Transition

namespace HyperStream

namespace VideoDecoder
variable {C : Component AVPacket AVFrame}

/-- The frames of a decoder that gets nothing but the packets of stream `i`. -/
def alone (hC : C.Bounded) (contexts : Contexts C.State) (i : Int) (pkts : List AVPacket) :
    List AVFrame :=
  (stage C).outputs (stageBounded hC).fuel ⟨contexts,0⟩ (pkts.filter fun pkt => pkt.streamIndex = i)

theorem alone_prefix (hC : C.Bounded) (contexts : Contexts C.State) (i : Int)
    {ps qs : List AVPacket} (h : ps <+: qs) : alone hC contexts i ps <+: alone hC contexts i qs :=
  Transducer.outputs_prefix _ _ (h.filter _)

theorem framesOf_prefix (i : Int) {as bs : List AVFrame} (h : as <+: bs) :
    framesOf i as <+: framesOf i bs := h.filter _

variable {contexts : Contexts C.State} {w : Worker (stage C).State AVPacket AVFrame}

/-- The decoder has sent of stream `i` a part of what its packets alone give. -/
theorem framesOf_sent (hC : C.Bounded) (h : w.Follows (stage C) ⟨contexts,0⟩) (i : Int) :
    framesOf i w.sent <+: alone hC contexts i w.received := by
  obtain ⟨k,hk⟩ := h.prefix_outputs
  obtain ⟨N,hN⟩ := (stageBounded hC).outputs_eq ⟨contexts,0⟩ w.received
  have hsent := hk (max k N) (by omega)
  rw [hN (max k N) (by omega)] at hsent
  rw [alone,← framesOf_outputs hC i w.received rfl]
  exact framesOf_prefix i hsent

/-- And all of it, once nothing is in hand. -/
theorem framesOf_sent_eq (hC : C.Bounded) (h : w.Follows (stage C) ⟨contexts,0⟩)
    (hpc : w.pc = .pop ∨ w.pc = .returned) (i : Int) :
    framesOf i w.sent = alone hC contexts i w.received := by
  obtain ⟨k,hk⟩ := h.outputs_eq hpc
  obtain ⟨N,hN⟩ := (stageBounded hC).outputs_eq ⟨contexts,0⟩ w.received
  rw [alone,← framesOf_outputs hC i w.received rfl,← hN (max k N) (by omega),
    hk (max k N) (by omega)]

end VideoDecoder

namespace Controller
variable {su : Setup}

/-- The views do not disturb each other. In every run, whatever allocations fail and whether
or not stop is called, the compositor gets of view `i` a part of the frames that the packets
of this view alone decode to, in their order; and all of them on a sound setup, when nobody
calls stop and the threads behind the source have come to rest. -/
theorem views_isolated (su : Setup) (hd : su.decoder.Bounded) (e : EmptyPop)
    (s : Controller su) (h : Reachable (program su e) anyStep s) (i : Int) :
    (∀ reads, s.source.reads ≤ reads →
      VideoDecoder.framesOf i s.processor.received <+:
        VideoDecoder.alone hd su.contexts i (forwarded su reads)) ∧
    (su.Sound → Reachable (program su e) Undisturbed s → StagesRest e s →
      VideoDecoder.framesOf i s.processor.received =
        VideoDecoder.alone hd su.contexts i s.source.sent) := by
  have hshed := reachable_shedding h
  obtain ⟨hl,hsource,hdecoder,-,-,-⟩ := hshed
  constructor
  · intro reads hreads
    have hpackets := MediaSource.packetsFrom_prefix su.read 0 hreads
    have hreceived : s.decoder.received <+: forwarded su reads :=
      hl.ingest.received_prefix.trans (hsource.sent_prefix hpackets)
    have hframes := VideoDecoder.framesOf_prefix i hl.decode.received_prefix
    exact (hframes.trans (VideoDecoder.framesOf_sent hd hdecoder i)).trans
      (VideoDecoder.alone_prefix hd su.contexts i hreceived)
  · intro hsound hquiet hrest
    have hdrained := hrest.drained hsound hquiet
    rw [hl.ingest.received_eq hdrained.ingest_empty,
      ← hl.decode.received_eq hdrained.decode_empty]
    exact VideoDecoder.framesOf_sent_eq hd hdecoder hdrained.decoder i

/-- One packet of each of two views, that of the second first. -/
def twoViewSetup : Setup :=
  { sampleSetup [⟨1,10,10,1,[]⟩,⟨0,20,20,1,[]⟩] with
    streams := VideoDecoder.twoStreams
    contexts := AList.insert 0 [] (AList.insert 1 [] ∅) }

theorem twoViewSetup_sound : twoViewSetup.Sound := by
  refine ⟨fun k pkt hr => ?_,fun i hi => ?_,rfl⟩
  · have hmem : pkt ∈ [(⟨1,10,10,1,[]⟩ : AVPacket),⟨0,20,20,1,[]⟩] := List.mem_of_getElem? hr
    simp only [List.mem_cons,List.not_mem_nil,or_false] at hmem
    rcases hmem with rfl | rfl <;> rfl
  · rcases (AList.mem_insert _).mp hi with rfl | hi
    · exact rfl
    · rcases (AList.mem_insert _).mp hi with rfl | hnone
      · exact rfl
      · exact absurd hnone (AList.notMem_empty i)

/-- Both packets have gone through, and each view has its own frame. -/
theorem views_isolated_sample :
    ∃ s : Controller twoViewSetup, s.source.sent.length = 2 ∧
      VideoDecoder.framesOf 0 s.processor.received = [⟨20,[],some ⟨0⟩⟩] ∧
      VideoDecoder.framesOf 1 s.processor.received = [⟨10,[],some ⟨1⟩⟩] := by
  obtain ⟨s,hs,hp⟩ := Reachable.exists_of_replay (program twoViewSetup .undefined) Undisturbed
    (turns [(.source,6),(.decoder,16),(.processor,16),(.encoder,16),(.sink,9)])
    (fun s => s.source.sent = [⟨1,10,10,1,[]⟩,⟨0,20,20,1,[]⟩] ∧
      (s.decoder.pc = .pop ∧ s.ingest.monitor.owner = none ∧
        s.ingest.monitor.status .consumer = .asleep .notEmpty) ∧
      (s.processor.pc = .pop ∧ s.decode.monitor.owner = none ∧
        s.decode.monitor.status .consumer = .asleep .notEmpty) ∧
      (s.encoder.pc = .pop ∧ s.filter.monitor.owner = none ∧
        s.filter.monitor.status .consumer = .asleep .notEmpty) ∧
      s.sink.pc = .pop ∧ s.encode.monitor.owner = none ∧
        s.encode.monitor.status .consumer = .asleep .notEmpty)
    (fun a ha _ => undisturbed_of_mem_turns (by decide) ha) (by decide)
  simp only [decide_eq_true_eq] at hp
  obtain ⟨hsent,hdecoder,hprocessor,hencoder,hsink⟩ := hp
  have hrest : StagesRest .undefined s := .of_asleep hdecoder hprocessor hencoder hsink
  have hviews (i : Int) := (views_isolated twoViewSetup (Component.relayBounded _) .undefined s
    (hs.mono fun _ _ _ => trivial) i).2 twoViewSetup_sound hs hrest
  rw [hsent] at hviews
  exact ⟨s,by rw [hsent]; rfl,(hviews 0).trans rfl,(hviews 1).trans rfl⟩

end Controller
end HyperStream
