import HyperStream.Controller
set_option autoImplicit false

open Transition

namespace HyperStream

/-- A side is inside a wait of the channel only while its thread is at a call that waits. -/
structure Manned {α : Type} (c : Channel Side α) (pushing popping : Prop) : Prop where
  producer : c.monitor.Waiting .producer → pushing
  consumer : c.monitor.Waiting .consumer → popping

namespace Manned
variable {α : Type} {c c' : Channel Side α} {p q : Prop}

theorem new (capacity : Nat) : Manned (Channel.new capacity : Channel Side α) p q := by
  constructor <;>
    · intro hw
      rcases hw with ⟨cv,h⟩ | h
      · cases h
      · exact absurd rfl h

theorem push {x : α} {r : Reply Unit} {p' : Prop} (h : Manned c p q)
    (hp : c.PushStep .producer x r c') (hp' : r.isBlocked = true → p') : Manned c' p' q := by
  refine ⟨fun hw => hp' ?_,fun hw => h.consumer (hp.critical.waiting_other (by simp) hw)⟩
  by_contra hno
  have hcritical := hp.critical
  rw [Bool.not_eq_true] at hno
  rw [hno] at hcritical
  exact hcritical.not_waiting hw

theorem pop {e : EmptyPop} {r : Reply (Option α)} {q' : Prop} (h : Manned c p q)
    (hp : c.PopStep e .consumer r c') (hq' : r.isBlocked = true → q') : Manned c' p q' := by
  refine ⟨fun hw => h.producer (hp.critical.waiting_other (by simp) hw),fun hw => hq' ?_⟩
  by_contra hno
  have hcritical := hp.critical
  rw [Bool.not_eq_true] at hno
  rw [hno] at hcritical
  exact hcritical.not_waiting hw

theorem wakeSpuriously {side : Side} (h : Manned c p q) (hw : c.wakeSpuriously side = .next c') :
    Manned c' p q :=
  ⟨fun hp => h.producer ((Channel.wakeSpuriously_waiting hw).mp hp),
    fun hq => h.consumer ((Channel.wakeSpuriously_waiting hw).mp hq)⟩

theorem consumer_moves {q' : Prop} (h : Manned c p q) (hq : ¬ q) : Manned c p q' :=
  ⟨h.producer,fun hw => absurd (h.consumer hw) hq⟩

theorem producer_moves {p' : Prop} (h : Manned c p q) (hp : ¬ p) : Manned c p' q :=
  ⟨fun hw => absurd (h.producer hw) hp,h.consumer⟩

end Manned

namespace Worker
variable {α β : Type} {S : Stage α β} {e : EmptyPop} {alloc : Bool}
  {w w' : Worker S.State α β} {src src' : Channel Side α} {dst dst' : Channel Side β} {p : Prop}

theorem Stepped.src_manned (h : Stepped S e alloc w src dst w' src' dst')
    (hm : Manned src p (w.pc = .pop)) : Manned src' p (w'.pc = .pop) := by
  cases h with
  | await hpc hp => exact hm.pop hp fun _ => hpc
  | receive _ hp => exact hm.pop hp nofun
  | ended _ hp => exact hm.pop hp nofun
  | hold hpc => exact hm
  | fail hpc | enter hpc | go hpc | quit hpc | skip hpc | accept hpc | leave hpc | again hpc
  | output hpc | send hpc | clean hpc | stop hpc => exact hm.consumer_moves (by simp [hpc])

theorem Stepped.dst_manned (h : Stepped S e alloc w src dst w' src' dst')
    (hm : Manned dst (∃ b, w.pc = .push b) p) : Manned dst' (∃ b, w'.pc = .push b) p := by
  cases h with
  | hold hpc hp => exact hm.push hp fun _ => ⟨_,hpc⟩
  | send _ hp => exact hm.push hp nofun
  | await => exact hm
  | stop hpc =>
    have hstop : Manned dst.stop (∃ b, w.pc = .push b) p := ⟨hm.producer,hm.consumer⟩
    exact hstop.producer_moves (by simp [hpc])
  | fail hpc | enter hpc | go hpc | quit hpc | receive hpc | ended hpc | skip hpc | accept hpc
  | leave hpc | again hpc | output hpc | clean hpc => exact hm.producer_moves (by simp [hpc])

end Worker

theorem MediaSource.Stepped.dst_manned {streams : List AVStream} {read : Nat → Option AVPacket}
    {alloc : Bool} {th th' : Thread} {dst dst' : Channel Side AVPacket} {p : Prop}
    (h : Stepped streams read alloc th dst th' dst')
    (hm : Manned dst (∃ pkt, th.pc = .push pkt) p) :
    Manned dst' (∃ pkt, th'.pc = .push pkt) p := by
  cases h with
  | hold hpc hp => exact hm.push hp fun _ => ⟨_,hpc⟩
  | send _ hp => exact hm.push hp nofun
  | stop hpc =>
    have hstop : Manned dst.stop (∃ pkt, th.pc = .push pkt) p := ⟨hm.producer,hm.consumer⟩
    exact hstop.producer_moves (by simp [hpc])
  | go hpc | quit hpc | finish hpc | video hpc | other hpc =>
    exact hm.producer_moves (by simp [hpc])

theorem MediaSink.Stepped.src_manned {tb : TimeBases} {e : EmptyPop} {th th' : Thread}
    {src src' : Channel Side AVPacket} {p : Prop} (h : Stepped tb e th src th' src')
    (hm : Manned src p (th.pc = .pop)) : Manned src' p (th'.pc = .pop) := by
  cases h with
  | await hpc hp => exact hm.pop hp fun _ => hpc
  | receive _ hp => exact hm.pop hp nofun
  | ended _ hp => exact hm.pop hp nofun
  | go hpc | quit hpc | write hpc | trailer hpc => exact hm.consumer_moves (by simp [hpc])

namespace Controller
variable {su : Setup} {e : EmptyPop} {s s' : Controller su} {a : Label}

structure Staffed (s : Controller su) : Prop where
  ingest : Manned s.ingest (∃ pkt, s.source.pc = .push pkt) (s.decoder.pc = .pop)
  decode : Manned s.decode (∃ frame, s.decoder.pc = .push frame) (s.processor.pc = .pop)
  filter : Manned s.filter (∃ frame, s.processor.pc = .push frame) (s.encoder.pc = .pop)
  encode : Manned s.encode (∃ pkt, s.encoder.pc = .push pkt) (s.sink.pc = .pop)

theorem Staffed.stop (h : Staffed s) (hs : s.stop = .next s') : Staffed s' := by
  obtain ⟨hingest,hdecode,hfilter,hencode⟩ := h
  cases stop_cases hs with
  | ingest => exact ⟨⟨hingest.producer,hingest.consumer⟩,hdecode,hfilter,hencode⟩
  | filter => exact ⟨hingest,hdecode,⟨hfilter.producer,hfilter.consumer⟩,hencode⟩
  | _ => exact ⟨hingest,hdecode,hfilter,hencode⟩

theorem Staffed.step (h : Staffed s) (hs : Stepped e s a s') : Staffed s' := by
  have hstopped (hstop : s.stop = .next s') := h.stop hstop
  obtain ⟨hingest,hdecode,hfilter,hencode⟩ := h
  cases hs with
  | source hw => exact ⟨hw.dst_manned hingest,hdecode,hfilter,hencode⟩
  | decoder hw => exact ⟨hw.src_manned hingest,hw.dst_manned hdecode,hfilter,hencode⟩
  | processor hw => exact ⟨hingest,hw.src_manned hdecode,hw.dst_manned hfilter,hencode⟩
  | encoder hw => exact ⟨hingest,hdecode,hw.src_manned hfilter,hw.dst_manned hencode⟩
  | sink hw => exact ⟨hingest,hdecode,hfilter,hw.src_manned hencode⟩
  | stopper hstop => exact hstopped hstop
  | wakeIngest hw => exact ⟨hingest.wakeSpuriously hw,hdecode,hfilter,hencode⟩
  | wakeDecode hw => exact ⟨hingest,hdecode.wakeSpuriously hw,hfilter,hencode⟩
  | wakeFilter hw => exact ⟨hingest,hdecode,hfilter.wakeSpuriously hw,hencode⟩
  | wakeEncode hw => exact ⟨hingest,hdecode,hfilter,hencode.wakeSpuriously hw⟩

theorem reachable_staffed {ok : Controller su → Label → Prop}
    (h : Reachable (program su e) ok s) : Staffed s :=
  h.invariant ⟨.new _,.new _,.new _,.new _⟩ fun hm _ hs => hm.step (step_cases hs)

end Controller
end HyperStream
