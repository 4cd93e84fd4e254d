import HyperStream.Unwaited
set_option autoImplicit false

open Transition

namespace HyperStream

namespace Channel
variable {α : Type} {c c' : Channel Side α} {sent : List α} {x : α}

/-- The channel, if nothing that was sent had been taken. -/
def untaken (c : Channel Side α) (sent : List α) : Channel Side α :=
  ({ c.atomic with queue := sent } : AtomicQueue α).channel

theorem untaken_congr (hcap : c'.capacity = c.capacity) (hstop : c'.isStop = c.isStop)
    (sent : List α) : c'.untaken sent = c.untaken sent := by
  simp only [untaken,atomic,hcap,hstop]

theorem untaken_stop (c : Channel Side α) (sent : List α) :
    c.stop.untaken sent = (c.untaken sent).stop := rfl

theorem PushStep.untaken {r : Reply Unit} (h : PushStep .producer x c r c') (sent : List α) :
    c'.untaken sent = c.untaken sent := untaken_congr h.frame.2 h.frame.1 sent

/-- Without a capacity all the room that a push needs is there. -/
theorem PushStep.push_untaken {r : Reply Unit} (h : PushStep .producer x c r c')
    (hcap : c.capacity = packetCapacity) (sent : List α) :
    (c.untaken sent).push .producer x none =
      .next (.returned (),c'.untaken (sent ++ [x])) := by
  have htake : ({ c.atomic with queue := sent } : AtomicQueue α).take .undefined (.push x) =
      .next (.push x,{ c.atomic with queue := sent ++ [x] }) := by
    simp only [AtomicQueue.take]
    exact if_pos (.inr (.inr hcap))
  rw [h.untaken]
  exact (AtomicQueue.channel_push htake).1

end Channel

namespace Worker
variable {α β : Type} {S : Stage α β} {e : EmptyPop} {target : Option Side} {alloc : Bool}
  {w w' : Worker S.State α β} {src src' : Channel Side α} {dst dst' : Channel Side β}

/-- A step that is neither a push nor the stop at the end does not depend on `dst`. -/
theorem step_any_dst (hpush : ∀ b, w.pc ≠ .push b) (hstop : w.pc ≠ .stopDst)
    (h : step S e target alloc w src dst = .next (w',src',dst')) (d : Channel Side β) :
    step S e target alloc w src d = .next (w',src',d) ∧ dst' = dst ∧ w'.sent = w.sent := by
  cases hpc : w.pc with
  | start =>
    simp only [step,hpc] at h ⊢
    split at h
    · rename_i hfail
      cases h
      exact ⟨if_pos hfail,rfl,rfl⟩
    · rename_i hgo
      cases h
      exact ⟨if_neg hgo,rfl,rfl⟩
  | test => simp only [step,hpc] at h ⊢; cases h; exact ⟨rfl,rfl,rfl⟩
  | pop =>
    simp only [step,hpc] at h ⊢
    obtain ⟨⟨r,c⟩,hp,h⟩ := Outcome.bind_eq_next.mp h
    cases r with
    | blocked => cases h; simp [hp]
    | returned x => cases x <;> cases h <;> simp [hp]
  | feed a =>
    simp only [step,hpc] at h ⊢
    cases hf : S.feed w.state a <;> rw [hf] at h <;> cases h <;> exact ⟨rfl,rfl,rfl⟩
  | drain =>
    simp only [step,hpc] at h ⊢
    cases hd : S.drain w.state alloc <;> rw [hd] at h <;> cases h <;> exact ⟨rfl,rfl,rfl⟩
  | push b => exact absurd hpc (hpush b)
  | cleanup =>
    simp only [step,hpc] at h ⊢
    cases hc : S.cleanup w.state <;> rw [hc] at h <;> cases h
    exact ⟨rfl,rfl,rfl⟩
  | stopDst => exact absurd hpc hstop
  | returned => simp only [step,hpc] at h; cases h

/-- A thread that sends on a channel without a capacity does not feel its consumer. -/
theorem step_untaken (hcap : dst.capacity = Channel.packetCapacity)
    (h : step S e target alloc w src dst = .next (w',src',dst')) :
    (w' = w ∧ src' = src ∧ dst'.untaken w'.sent = dst.untaken w.sent) ∨
    ∃ target, step S e target alloc w src (dst.untaken w.sent) =
      .next (w',src',dst'.untaken w'.sent) := by
  by_cases hpush : ∃ b, w.pc = .push b
  · obtain ⟨b,hpc⟩ := hpush
    have hcases := step_cases h
    cases hcases with
    | hold _ hp => exact .inl ⟨rfl,rfl,hp.untaken _⟩
    | send hpc hp => exact .inr ⟨none,by simp [step,hpc,hp.push_untaken hcap]⟩
    | _ hno => rw [hpc] at hno; cases hno
  · by_cases hstop : w.pc = .stopDst
    · simp only [step,hstop] at h
      cases h
      exact .inr ⟨none,by simp [step,hstop,Channel.untaken_stop]⟩
    · obtain ⟨hstep,rfl,hsent⟩ := step_any_dst (not_exists.mp hpush) hstop h (dst.untaken w.sent)
      rw [hsent]
      exact .inr ⟨target,hstep⟩

end Worker

namespace MediaSource
variable {streams : List AVStream} {read : Nat → Option AVPacket} {target : Option Side}
  {alloc : Bool} {th th' : Thread} {dst dst' : Channel Side AVPacket}

theorem step_untaken (hcap : dst.capacity = Channel.packetCapacity)
    (h : step streams read target alloc th dst = .next (th',dst')) :
    (th' = th ∧ dst'.untaken th'.sent = dst.untaken th.sent) ∨
    step streams read none alloc th (dst.untaken th.sent) =
      .next (th',dst'.untaken th'.sent) := by
  cases hpc : th.pc with
  | read =>
    obtain ⟨hstep,rfl,hsent⟩ := step_read hpc h none (dst.untaken th.sent)
    rw [hsent]
    exact .inr hstep
  | push pkt =>
    have hcases := step_cases h
    cases hcases with
    | hold _ hp => exact .inl ⟨rfl,hp.untaken _⟩
    | send hpc hp => exact .inr (by simp [step,hpc,hp.push_untaken hcap])
    | _ hno => rw [hpc] at hno; cases hno
  | test =>
    simp only [step,hpc] at h ⊢
    cases h
    exact .inr rfl
  | stopDst =>
    simp only [step,hpc] at h ⊢
    cases h
    exact .inr rfl
  | returned => simp only [step,hpc] at h; cases h

end MediaSource

namespace Controller
variable {su : Setup} {e : EmptyPop} {s s' : Controller su} {a : Label}

/-- The same threads, but the sink has not moved. -/
def untaken (s : Controller su) : Controller su :=
  { s with
    sink := { MediaSink.start with isStop := s.sink.isStop }
    encode := s.encode.untaken s.encoder.sent }

def NotSink (_ : Controller su) : Label → Prop
  | .run thread _ _ => thread ≠ .sink
  | .wake _ _ => True

/-- The threads before the encoder, and the sleepers of their channels. -/
def BeforeEncoder : Label → Prop
  | .run thread _ _ => thread ∈ [ThreadId.source,.decoder,.processor]
  | .wake channel _ => channel ≠ .encode

theorem step_before (ha : BeforeEncoder a) (h : step e s a = .next s') :
    NotSink s.untaken a ∧ step e s.untaken a = .next s'.untaken := by
  cases a with
  | run thread target alloc =>
    cases thread with
    | source | decoder | processor =>
      obtain ⟨p,hp,h⟩ := Outcome.bind_eq_next.mp h
      cases h
      exact ⟨by simp [NotSink],Outcome.bind_eq_next.mpr ⟨p,hp,rfl⟩⟩
    | _ => simp [BeforeEncoder] at ha
  | wake channel side =>
    cases channel with
    | ingest | decode | filter =>
      obtain ⟨c,hc,h⟩ := Outcome.bind_eq_next.mp h
      cases h
      exact ⟨trivial,Outcome.bind_eq_next.mpr ⟨c,hc,rfl⟩⟩
    | encode => exact absurd rfl ha

theorem step_untaken (hl : Linked s) (h : step e s a = .next s') :
    s'.untaken = s.untaken ∨
      ∃ b, NotSink s.untaken b ∧ step e s.untaken b = .next s'.untaken := by
  by_cases ha : BeforeEncoder a
  · exact .inr ⟨a,step_before ha h⟩
  · cases a with
    | run thread target alloc =>
      cases thread with
      | encoder =>
        obtain ⟨p,hp,h⟩ := Outcome.bind_eq_next.mp h
        cases h
        rcases Worker.step_untaken hl.encode.capacity_eq hp with ⟨hw,hsrc,hdst⟩ | ⟨u,hstep⟩
        · exact .inl (by simp only [untaken,hdst]; rw [hw,hsrc])
        · exact .inr ⟨.run .encoder u alloc,by simp [NotSink],
            Outcome.bind_eq_next.mpr ⟨_,hstep,rfl⟩⟩
      | sink =>
        obtain ⟨p,hp,h⟩ := Outcome.bind_eq_next.mp h
        cases h
        have hw := MediaSink.step_cases hp
        have hcap := (hw.src_link hl.encode).capacity_eq.trans hl.encode.capacity_eq.symm
        refine .inl ?_
        simp only [untaken,hw.isStop_eq,Channel.untaken_congr hcap hw.src_isStop]
      | stopper =>
        refine .inr ⟨.run .stopper target alloc,by simp [NotSink],?_⟩
        cases stop_cases h <;> rename_i hpc <;> simp [step,Controller.stop,untaken,hpc]
      | _ => exact absurd (by simp [BeforeEncoder]) ha
    | wake channel side =>
      cases channel with
      | encode =>
        obtain ⟨c,hc,h⟩ := Outcome.bind_eq_next.mp h
        cases h
        obtain ⟨cv,-,rfl⟩ := Channel.wakeSpuriously_cases hc
        exact .inl rfl
      | _ => exact absurd (by simp [BeforeEncoder]) ha

def OfSource (_ : Controller su) : Label → Prop
  | .run thread _ _ => thread = .source ∨ thread = .stopper
  | .wake _ _ => False

/-- The source of `s` is where it is in `r`, where nothing of what it sent has been taken. -/
structure Ahead (s r : Controller su) : Prop where
  source : r.source = s.source
  ingest : r.ingest = s.ingest.untaken s.source.sent
  stopper : r.stopper = s.stopper

theorem Ahead.stop {r : Controller su} (h : Ahead s r) (hs : s.stop = .next s') :
    ∃ r', r.stop = .next r' ∧ Ahead s' r' := by
  obtain ⟨hsource,hingest,hstopper⟩ := h
  cases stop_cases hs <;> rename_i hpc <;> rw [hpc] at hstopper <;>
    refine ⟨_,by simp only [Controller.stop,hstopper]; rfl,?_⟩
  case source => exact ⟨by simp [hsource],hingest,rfl⟩
  case ingest => exact ⟨hsource,by simp [hingest,Channel.untaken_stop],rfl⟩
  all_goals exact ⟨hsource,hingest,rfl⟩

theorem Ahead.step {r : Controller su} (h : Ahead s r) (hl : Linked s)
    (hs : step e s a = .next s') :
    Ahead s' r ∨ ∃ b r', OfSource r b ∧ Controller.step e r b = .next r' ∧ Ahead s' r' := by
  have hstepped := step_cases hs
  have hl' := hl.step hstepped
  have hcap := hl'.ingest.capacity_eq.trans hl.ingest.capacity_eq.symm
  cases hstepped with
  | @source target alloc th dst hw =>
    obtain ⟨p,hp,heq⟩ := Outcome.bind_eq_next.mp hs
    cases heq
    rcases MediaSource.step_untaken hl.ingest.capacity_eq hp with ⟨hth,hdst⟩ | hstep
    · exact .inl ⟨h.source.trans hth.symm,h.ingest.trans hdst.symm,h.stopper⟩
    · refine .inr ⟨.run .source none alloc,
        { r with source := p.1, ingest := p.2.untaken p.1.sent },.inl rfl,
        Outcome.bind_eq_next.mpr ⟨(p.1,p.2.untaken p.1.sent),?_,rfl⟩,⟨rfl,rfl,h.stopper⟩⟩
      rw [h.source,h.ingest]
      exact hstep
  | decoder hw =>
    exact .inl ⟨h.source,h.ingest.trans (Channel.untaken_congr hcap hw.src_isStop _).symm,
      h.stopper⟩
  | stopper hstop =>
    obtain ⟨r',hr',hahead⟩ := h.stop hstop
    exact .inr ⟨.run .stopper none true,r',.inr rfl,hr',hahead⟩
  | wakeIngest hw =>
    have hstop := Channel.wakeSpuriously_isStop hw
    exact .inl ⟨h.source,h.ingest.trans (Channel.untaken_congr hcap hstop _).symm,h.stopper⟩
  | _ => exact .inl ⟨h.source,h.ingest,h.stopper⟩

/-- The packet channels do not push back. Whatever state a run reaches, it can be reached but
for the sink without one step of the sink, all that the encoder has pushed being queued; and
the source reaches the same with no thread behind it, all its packets being queued. -/
theorem packets_pile_up (su : Setup) (e : EmptyPop) (s : Controller su)
    (h : Reachable (program su e) anyStep s) :
    (∃ r, Reachable (program su e) NotSink r ∧
      r = { s with sink := r.sink, encode := r.encode } ∧ r.encode.queue = s.encoder.sent) ∧
    ∃ r, Reachable (program su e) OfSource r ∧ r.source = s.source ∧
      r.ingest.queue = s.source.sent := by
  have hinv : Linked s ∧ Reachable (program su e) NotSink s.untaken ∧
      ∃ r, Reachable (program su e) OfSource r ∧ Ahead s r := by
    refine h.invariant (P := fun s => Linked s ∧ Reachable (program su e) NotSink s.untaken ∧
      ∃ r, Reachable (program su e) OfSource r ∧ Ahead s r)
      ⟨.start su,.start,_,.start,rfl,rfl,rfl⟩ ?_
    intro s s' a hi _ hstep
    obtain ⟨hl,hr,r,hsource,hahead⟩ := hi
    refine ⟨hl.step (step_cases hstep),?_,?_⟩
    · rcases step_untaken hl hstep with heq | ⟨b,hb,hbstep⟩
      · rw [heq]
        exact hr
      · exact hr.next hb hbstep
    · rcases hahead.step hl hstep with hstay | ⟨b,r',hb,hbstep,hmoved⟩
      · exact ⟨r,hsource,hstay⟩
      · exact ⟨r',hsource.next hb hbstep,hmoved⟩
  obtain ⟨-,hr,r,hsource,hahead⟩ := hinv
  exact ⟨⟨s.untaken,hr,rfl,rfl⟩,r,hsource,hahead.source,by rw [hahead.ingest]; rfl⟩

/-- The sink has taken the one packet, and it could as well not have. -/
theorem packets_pile_up_sample :
    ∃ s : Controller (sampleSetup [⟨0,900,900,1,[]⟩]), s.sink.written.length = 1 ∧
      ∃ r, Reachable (program (sampleSetup [⟨0,900,900,1,[]⟩]) .undefined) NotSink r ∧
        r.encoder = s.encoder ∧ r.encode.queue.length = 1 := by
  obtain ⟨s,hs,hp⟩ := Reachable.exists_of_replay
    (program (sampleSetup [⟨0,900,900,1,[]⟩]) .undefined) anyStep
    (turns [(.source,3),(.decoder,6),(.processor,6),(.encoder,6),(.sink,3)])
    (fun s => s.sink.written.length = 1 ∧ s.encoder.sent.length = 1)
    (fun _ _ _ => trivial) (by decide)
  simp only [decide_eq_true_eq] at hp
  obtain ⟨r,hr,heq,hqueue⟩ := (packets_pile_up _ .undefined s hs).1
  exact ⟨s,hp.1,r,hr,by rw [heq],by rw [hqueue]; exact hp.2⟩

end Controller
end HyperStream
