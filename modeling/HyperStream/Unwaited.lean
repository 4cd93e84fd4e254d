import HyperStream.AtomicQueue
import HyperStream.Sound
set_option autoImplicit false

open Transition

namespace HyperStream

namespace Channel
variable {τ α : Type} {e : EmptyPop} {t : τ} {c c' : Channel τ α}

/-- The channel with nobody waiting on it. -/
def unwaited (c : Channel τ α) : Channel τ α := c.atomic.channel

theorem PopsEmpty.unwaited (h : c.PopsEmpty e t) : c.unwaited.PopsEmpty e t := by
  obtain ⟨he,-,-,hstop,hq⟩ := h
  refine ⟨he,rfl,fun cv hcv => ?_,hstop,hq⟩
  cases hcv

theorem stop_unwaited (c : Channel τ α) : c.stop.unwaited = c.unwaited.stop := rfl

variable [DecidableEq τ]

theorem wakeSpuriously_unwaited (h : c.wakeSpuriously t = .next c') :
    c'.unwaited = c.unwaited := by
  obtain ⟨cv,-,rfl⟩ := wakeSpuriously_cases h
  rfl

variable [Fintype τ]

theorem PushStep.blocked_unwaited {x : α} (h : PushStep t x c .blocked c') :
    c'.unwaited = c.unwaited := by
  cases h <;> rfl

theorem PopStep.blocked_unwaited (h : PopStep e t c .blocked c') : c'.unwaited = c.unwaited := by
  cases h <;> rfl

/-- A push that returns, however long it waited, returns at once where nobody waits. -/
theorem PushStep.returned_unwaited {x : α} (h : PushStep t x c (.returned ()) c') :
    c.unwaited.push t x none = .next (.returned (),c'.unwaited) := by
  have hat : Effect.At .undefined c (.push x) c' := by
    cases h with
    | insert _ _ hroom => exact .push x (hroom.imp_right fun h => h.imp_right And.right) rfl rfl
  exact (AtomicQueue.channel_push (take_of_at hat h.frame.2)).1

theorem PopStep.returned_unwaited {x : Option α} (h : PopStep e t c (.returned x) c') :
    c.unwaited.pop e t none = .next (.returned x,c'.unwaited) := by
  have hat : Effect.At e c (.pop x) c' := by
    cases h with
    | remove _ _ hq => exact .pop hq rfl
    | ended _ _ he hstop hq => exact .ended he hstop hq hq rfl
  obtain ⟨y,hp,hy⟩ := AtomicQueue.channel_pop (t := t) (take_of_at hat h.frame.2)
  cases hy
  exact hp

end Channel

namespace Worker
variable {α β : Type} {S : Stage α β} {e : EmptyPop} {target : Option Side} {alloc : Bool}
  {w w' : Worker S.State α β} {src src' : Channel Side α} {dst dst' : Channel Side β}

/-- A blocked step is not seen, and any other does the same where nobody waits. -/
theorem step_unwaited (h : step S e target alloc w src dst = .next (w',src',dst')) :
    (w' = w ∧ src'.unwaited = src.unwaited ∧ dst'.unwaited = dst.unwaited) ∨
    step S e none alloc w src.unwaited dst.unwaited =
      .next (w',src'.unwaited,dst'.unwaited) := by
  have hcases := step_cases h
  cases hcases with
  | enter hpc =>
    simp only [step,hpc] at h ⊢
    split at h
    · cases h
    · rename_i hgo
      exact .inr (if_neg hgo)
  | fail hpc hS halloc => exact .inr (by simp [step,hpc,hS,halloc])
  | go hpc hs => exact .inr (by simp [step,hpc,hs])
  | quit hpc hs => exact .inr (by simp [step,hpc,hs])
  | await _ hp => exact .inl ⟨rfl,hp.blocked_unwaited,rfl⟩
  | receive hpc hp => exact .inr (by simp [step,hpc,hp.returned_unwaited])
  | ended hpc hp => exact .inr (by simp [step,hpc,hp.returned_unwaited])
  | skip hpc hf => exact .inr (by simp [step,hpc,hf])
  | accept hpc hf => exact .inr (by simp [step,hpc,hf])
  | leave hpc hd => exact .inr (by simp [step,hpc,hd])
  | again hpc hd => exact .inr (by simp [step,hpc,hd])
  | output hpc hd => exact .inr (by simp [step,hpc,hd])
  | hold _ hp => exact .inl ⟨rfl,rfl,hp.blocked_unwaited⟩
  | send hpc hp => exact .inr (by simp [step,hpc,hp.returned_unwaited])
  | clean hpc hc => exact .inr (by simp [step,hpc,hc])
  | stop hpc => exact .inr (by simp [step,hpc,Channel.stop_unwaited])

theorem Fault.unwaited (h : Fault S e alloc w src) : Fault S e alloc w src.unwaited := by
  unfold Fault at h ⊢
  cases hpc : w.pc <;> rw [hpc] at h <;> first | exact h.unwaited | exact h

end Worker

namespace MediaSource
variable {streams : List AVStream} {read : Nat → Option AVPacket} {target : Option Side}
  {alloc : Bool} {th th' : Thread} {dst dst' : Channel Side AVPacket}

/-- A read touches no channel. -/
theorem step_read (hpc : th.pc = .read)
    (h : step streams read target alloc th dst = .next (th',dst')) (u : Option Side)
    (c : Channel Side AVPacket) :
    step streams read u alloc th c = .next (th',c) ∧ dst' = dst ∧ th'.sent = th.sent := by
  simp only [step,hpc] at h ⊢
  cases alloc with
  | false => cases h
  | true =>
    cases hr : read th.reads with
    | none => simp only [hr] at h ⊢; cases h; exact ⟨rfl,rfl,rfl⟩
    | some pkt =>
      cases hs : streamAt streams pkt.streamIndex with
      | none => simp [hr,hs] at h
      | some stream => simp only [hr,hs] at h ⊢; cases h; exact ⟨rfl,rfl,rfl⟩

theorem step_unwaited (h : step streams read target alloc th dst = .next (th',dst')) :
    (th' = th ∧ dst'.unwaited = dst.unwaited) ∨
    step streams read none alloc th dst.unwaited = .next (th',dst'.unwaited) := by
  by_cases hpc : th.pc = .read
  · obtain ⟨hstep,rfl,-⟩ := step_read hpc h none dst.unwaited
    exact .inr hstep
  · have hcases := step_cases h
    cases hcases with
    | go hpc hs => exact .inr (by simp [step,hpc,hs])
    | quit hpc hs => exact .inr (by simp [step,hpc,hs])
    | hold _ hp => exact .inl ⟨rfl,hp.blocked_unwaited⟩
    | send hpc hp => exact .inr (by simp [step,hpc,hp.returned_unwaited])
    | stop hpc => exact .inr (by simp [step,hpc,Channel.stop_unwaited])
    | finish hread => exact absurd hread hpc
    | video hread => exact absurd hread hpc
    | other hread => exact absurd hread hpc

end MediaSource

namespace MediaSink
variable {tb : TimeBases} {e : EmptyPop} {target : Option Side} {th th' : Thread}
  {src src' : Channel Side AVPacket}

theorem step_unwaited (h : step tb e target th src = .next (th',src')) :
    (th' = th ∧ src'.unwaited = src.unwaited) ∨
    step tb e none th src.unwaited = .next (th',src'.unwaited) := by
  have hcases := step_cases h
  cases hcases with
  | go hpc hs => exact .inr (by simp [step,hpc,hs])
  | quit hpc hs => exact .inr (by simp [step,hpc,hs])
  | await _ hp => exact .inl ⟨rfl,hp.blocked_unwaited⟩
  | receive hpc hp => exact .inr (by simp [step,hpc,hp.returned_unwaited])
  | ended hpc hp => exact .inr (by simp [step,hpc,hp.returned_unwaited])
  | write hpc => exact .inr (by simp [step,hpc])
  | trailer hpc => exact .inr (by simp [step,hpc])

end MediaSink

namespace Controller
variable {su : Setup} {e : EmptyPop} {s s' : Controller su} {a : Label}

/-- The same threads and queues, and nobody waiting. -/
def unwaited (s : Controller su) : Controller su :=
  { s with
    ingest := s.ingest.unwaited
    decode := s.decode.unwaited
    filter := s.filter.unwaited
    encode := s.encode.unwaited }

/-- A step after which nobody waits. -/
def Prompt (e : EmptyPop) (s : Controller su) (a : Label) : Prop :=
  ∀ t, step e s a = .next t → t.unwaited = t

/-- Only some threads move, and only with some outcomes of their allocations. -/
def Permits (A : ThreadId → Bool → Prop) (_ : Controller su) : Label → Prop
  | .run thread _ alloc => A thread alloc
  | .wake _ _ => True

/-- The step of the thread itself, whoever is notified. -/
def ofThread : Label → Label
  | .run thread _ alloc => .run thread none alloc
  | .wake channel side => .wake channel side

theorem step_unwaited (h : step e s a = .next s') :
    s'.unwaited = s.unwaited ∨ step e s.unwaited (ofThread a) = .next s'.unwaited := by
  cases a with
  | run thread target alloc =>
    cases thread with
    | source =>
      obtain ⟨p,hp,h⟩ := Outcome.bind_eq_next.mp h
      cases h
      rcases MediaSource.step_unwaited hp with ⟨hw,hdst⟩ | hstep
      · exact .inl (by simp [unwaited,hw,hdst])
      · exact .inr (Outcome.bind_eq_next.mpr ⟨_,hstep,rfl⟩)
    | decoder | processor | encoder =>
      obtain ⟨p,hp,h⟩ := Outcome.bind_eq_next.mp h
      cases h
      rcases Worker.step_unwaited hp with ⟨hw,hsrc,hdst⟩ | hstep
      · exact .inl (by simp [unwaited,hw,hsrc,hdst])
      · exact .inr (Outcome.bind_eq_next.mpr ⟨_,hstep,rfl⟩)
    | sink =>
      obtain ⟨p,hp,h⟩ := Outcome.bind_eq_next.mp h
      cases h
      rcases MediaSink.step_unwaited hp with ⟨hw,hsrc⟩ | hstep
      · exact .inl (by simp [unwaited,hw,hsrc])
      · exact .inr (Outcome.bind_eq_next.mpr ⟨_,hstep,rfl⟩)
    | stopper =>
      refine .inr ?_
      cases stop_cases h <;> rename_i hpc <;>
        simp [step,ofThread,Controller.stop,unwaited,hpc,Channel.stop_unwaited]
  | wake channel side =>
    refine .inl ?_
    cases channel with
    | ingest | decode | filter | encode =>
      obtain ⟨c,hc,h⟩ := Outcome.bind_eq_next.mp h
      cases h
      simp [unwaited,Channel.wakeSpuriously_unwaited hc]

theorem undefined_unwaited (h : step e s a = .undefined) :
    step e s.unwaited (ofThread a) = .undefined := by
  cases a with
  | run thread target alloc =>
    cases thread with
    | source =>
      simp only [step,ofThread,Outcome.bind_eq_undefined,reduceCtorEq,and_false,exists_false,
        or_false,MediaSource.step_undefined_iff] at h ⊢
      exact h
    | decoder | processor | encoder =>
      simp only [step,ofThread,Outcome.bind_eq_undefined,reduceCtorEq,and_false,exists_false,
        or_false,Worker.step_undefined_iff] at h ⊢
      exact h.unwaited
    | sink =>
      simp only [step,ofThread,Outcome.bind_eq_undefined,reduceCtorEq,and_false,exists_false,
        or_false,MediaSink.step_undefined_iff] at h ⊢
      exact ⟨h.1,h.2.unwaited⟩
    | stopper =>
      simp only [step,Controller.stop] at h
      split at h <;> cases h
  | wake channel side =>
    cases channel <;>
      · simp only [step,Channel.wakeSpuriously,Monitor.wakeSpuriously] at h
        split at h <;> cases h

theorem refines_prompt (su : Setup) (e : EmptyPop) (A : ThreadId → Bool → Prop) :
    Refines (program su e) (Permits A) (program su e) (fun s a => Permits A s a ∧ Prompt e s a)
      unwaited := by
  have hpermits : ∀ {s : Controller su} {a : Label}, Permits A s a →
      Permits A s.unwaited (ofThread a) := by
    intro s a ha
    cases a with
    | run => exact ha
    | wake => trivial
  refine ⟨rfl,?_,?_⟩
  · intro s s' a _ ha hstep
    refine (step_unwaited hstep).imp_right fun h => ⟨ofThread a,⟨hpermits ha,?_⟩,h⟩
    intro t ht
    have heq : (.next s'.unwaited : Outcome (Controller su)) = .next t := h.symm.trans ht
    cases heq
    rfl
  · intro s a _ ha hstep
    have h := undefined_unwaited hstep
    refine ⟨ofThread a,⟨hpermits ha,?_⟩,h⟩
    intro t ht
    have heq : (.undefined : Outcome (Controller su)) = .next t := h.symm.trans ht
    cases heq

/-- Waiting is not observed. Whatever mutexes, notifications and spurious wakeups do, the
threads and the queues are where a run in which no call ever waits brings them, and such a
run is undefined where the program is. -/
theorem waits_unobserved (su : Setup) (e : EmptyPop) (A : ThreadId → Bool → Prop) :
    (∀ r, Reachable (program su e) (fun s a => Permits A s a ∧ Prompt e s a) r ↔
      ∃ s, Reachable (program su e) (Permits A) s ∧ s.unwaited = r) ∧
    ∀ s a, Reachable (program su e) (Permits A) s → Permits A s a →
      step e s a = .undefined →
      ∃ b, Permits A s.unwaited b ∧ step e s.unwaited b = .undefined := by
  have href := refines_prompt su e A
  refine ⟨fun r => ⟨fun hr => ?_,fun hs => ?_⟩,fun s a hs ha hstep => ?_⟩
  · refine ⟨r,hr.mono fun _ _ ha => ha.1,?_⟩
    exact hr.invariant (P := fun r => r.unwaited = r) rfl fun _ ha hstep => ha.2 _ hstep
  · obtain ⟨s,hs,rfl⟩ := hs
    exact href.reachable hs
  · obtain ⟨b,hb,hbstep⟩ := href.undefined hs ha hstep
    exact ⟨b,hb.1,hbstep⟩

end Controller
end HyperStream
