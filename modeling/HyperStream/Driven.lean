import HyperStream.Controller
set_option autoImplicit false

open Transition

namespace HyperStream
namespace Worker
variable {α β : Type} {S : Stage α β} {e : EmptyPop} {s₀ : S.State} {alloc : Bool}
  {w w' : Worker S.State α β} {src src' : Channel Side α} {dst dst' : Channel Side β}
  {released : List β} {dropped : Nat} {ok : Worker S.State α β → Prop}

/-- What the library gives in this step, whether or not there is memory to take it. -/
def gives (S : Stage α β) (w : Worker S.State α β) : List β :=
  match w.pc with
  | .drain =>
    match S.drain w.state true with
    | .push b _ => [b]
    | _ => []
  | _ => []

/-- A run() body in any environment: between its steps anything may happen to its channels,
and it may be told to stop. Its own steps start where `ok` holds. `released` is what the
library has given so far, and `dropped` of these were lost for lack of memory. -/
inductive Driven (S : Stage α β) (e : EmptyPop) (s₀ : S.State) (ok : Worker S.State α β → Prop) :
    Worker S.State α β → List β → Nat → Prop where
  | start : Driven S e s₀ ok (.start s₀) [] 0
  | told {w : Worker S.State α β} {released : List β} {dropped : Nat} :
      Driven S e s₀ ok w released dropped →
      Driven S e s₀ ok { w with isStop := true } released dropped
  | step {w w' : Worker S.State α β} {src src' : Channel Side α} {dst dst' : Channel Side β}
      {alloc : Bool} {released : List β} {dropped : Nat} :
      Driven S e s₀ ok w released dropped → ok w →
      Stepped S e alloc w src dst w' src' dst' →
      Driven S e s₀ ok w' (released ++ gives S w)
        (dropped + if alloc then 0 else (gives S w).length)

def anyTurn {σ : Type} : Worker σ α β → Prop := fun _ => True

def IsDriven (S : Stage α β) (e : EmptyPop) (s₀ : S.State) (ok : Worker S.State α β → Prop)
    (w : Worker S.State α β) : Prop :=
  ∃ released dropped, Driven S e s₀ ok w released dropped

theorem IsDriven.step (h : IsDriven S e s₀ ok w) (hok : ok w)
    (hs : Stepped S e alloc w src dst w' src' dst') : IsDriven S e s₀ ok w' := by
  obtain ⟨released,dropped,h⟩ := h
  exact ⟨_,_,h.step hok hs⟩

theorem IsDriven.told (h : IsDriven S e s₀ ok w) :
    IsDriven S e s₀ ok { w with isStop := true } := by
  obtain ⟨released,dropped,h⟩ := h
  exact ⟨_,_,h.told⟩

/-- What holds wherever a stage can be need not be asked for at its steps. -/
theorem IsDriven.strengthen (hall : ∀ w, IsDriven S e s₀ anyTurn w → ok w)
    (h : IsDriven S e s₀ anyTurn w) : IsDriven S e s₀ ok w := by
  obtain ⟨released,dropped,h⟩ := h
  induction h with
  | start => exact ⟨_,_,.start⟩
  | told _ ih => exact ih.told
  | step hw _ hs ih => exact ih.step (hall _ ⟨_,_,hw⟩) hs

/-- The loop goes on with whatever item comes next. -/
theorem IsDriven.fed (h : IsDriven S e s₀ anyTurn w) (hpc : w.pc = .test)
    (hflag : w.isStop = false) (a : α) :
    IsDriven S e s₀ anyTurn { w with pc := .feed a, received := w.received ++ [a] } := by
  let src : Channel Side α := ⟨[a],Monitor.new,0,false⟩
  let dst : Channel Side β := Channel.new 0
  have hgo : Stepped S e true w src dst { w with pc := .pop } src dst := .go hpc hflag
  obtain ⟨target,m,hm⟩ := (src.monitor.leave .consumer).exists_notifyOne .notFull
  have hpop : src.PopStep e .consumer (.returned (some a))
      { src with queue := [], monitor := m } := .remove rfl nofun rfl hm
  have hreceive : Stepped S e true { w with pc := .pop } src dst
      { w with pc := .feed a, received := w.received ++ [a] }
      { src with queue := [], monitor := m } dst := .receive rfl hpop
  exact (h.step trivial hgo).step trivial hreceive

theorem IsDriven.skipped (h : IsDriven S e s₀ anyTurn w) {a : α} {s : S.State}
    (hpc : w.pc = .feed a) (hf : S.feed w.state a = .skip s) :
    IsDriven S e s₀ anyTurn { w with pc := .test, state := s } := by
  have hs : Stepped S e true w (.new 0) (.new 0) { w with pc := .test, state := s }
      (.new 0) (.new 0) := .skip hpc hf
  exact h.step trivial hs

theorem IsDriven.drained (h : IsDriven S e s₀ anyTurn w) {s : S.State} (hpc : w.pc = .drain)
    (hd : S.drain w.state true = .leave s) :
    IsDriven S e s₀ anyTurn { w with pc := .test, state := s } := by
  have hs : Stepped S e true w (.new 0) (.new 0) { w with pc := .test, state := s }
      (.new 0) (.new 0) := .leave hpc hd
  exact h.step trivial hs

/-- What holds of a stage before each input, and in its loop of outputs. -/
structure LoopRule (S : Stage α β) (s₀ : S.State) (ok : Worker S.State α β → Prop)
    (atTest inDrain : S.State → Prop) : Prop where
  start : atTest s₀
  skip : ∀ w a s, ok w → w.isStop = false → w.pc = .feed a → atTest w.state →
    S.feed w.state a = .skip s → atTest s
  accept : ∀ s a s', atTest s → S.feed s a = .drain s' → inDrain s'
  leave : ∀ w alloc s, ok w → w.isStop = false → w.pc = .drain → inDrain w.state →
    S.drain w.state alloc = .leave s → atTest s
  again : ∀ s alloc s', inDrain s → S.drain s alloc = .again s' → inDrain s'
  push : ∀ s alloc b s', inDrain s → S.drain s alloc = .push b s' → inDrain s'

/-- A thread that was told to stop starts no further iteration. -/
def InLoop {σ : Type} (atTest inDrain : σ → Prop) (w : Worker σ α β) : Prop :=
  match w.pc with
  | .start | .test => w.isStop = false → atTest w.state
  | .pop | .feed _ => atTest w.state
  | .drain | .push _ => inDrain w.state
  | .cleanup | .stopDst | .returned => True

theorem LoopRule.step {atTest inDrain : S.State → Prop} (hr : LoopRule S s₀ ok atTest inDrain)
    (hok : ok w) (h : w.InLoop atTest inDrain)
    (hs : Stepped S e alloc w src dst w' src' dst') : w'.InLoop atTest inDrain := by
  unfold InLoop at h ⊢
  cases hs with
  | fail => trivial
  | enter hpc => rw [hpc] at h; exact h
  | go hpc hflag => rw [hpc] at h; exact h hflag
  | quit => trivial
  | await => exact h
  | receive hpc => rw [hpc] at h; exact h
  | ended => trivial
  | skip hpc hf => rw [hpc] at h; exact fun hflag => hr.skip _ _ _ hok hflag hpc h hf
  | accept hpc hf => rw [hpc] at h; exact hr.accept _ _ _ h hf
  | leave hpc hd => rw [hpc] at h; exact fun hflag => hr.leave _ _ _ hok hflag hpc h hd
  | again hpc hd => rw [hpc] at h; exact hr.again _ _ _ h hd
  | output hpc hd => rw [hpc] at h; exact hr.push _ _ _ _ h hd
  | hold => exact h
  | send hpc => rw [hpc] at h; exact h
  | clean => trivial
  | stop => trivial

theorem LoopRule.inLoop {atTest inDrain : S.State → Prop} (hr : LoopRule S s₀ ok atTest inDrain)
    (hw : IsDriven S e s₀ ok w) : w.InLoop atTest inDrain := by
  obtain ⟨released,dropped,hw⟩ := hw
  induction hw with
  | start => exact fun _ => hr.start
  | @told w released dropped _ ih =>
    unfold InLoop at ih ⊢
    cases hpc : w.pc <;> simp_all
  | step _ hok hs ih => exact hr.step hok ih hs

theorem gives_of_ne {w : Worker S.State α β} (h : w.pc ≠ .drain) : gives S w = [] := by
  unfold gives
  split
  · exact absurd ‹_› h
  · rfl

theorem gives_of_push {w : Worker S.State α β} {b : β} {s : S.State} (hpc : w.pc = .drain)
    (hd : S.drain w.state true = .push b s) : gives S w = [b] := by simp [gives,hpc,hd]

theorem gives_of_not_push {w : Worker S.State α β}
    (hd : ∀ b s, S.drain w.state true ≠ .push b s) : gives S w = [] := by
  unfold gives
  split
  · split
    · exact absurd ‹_› (hd _ _)
    · rfl
  · rfl

/-- Memory decides at most whether an output is taken or dropped. -/
def MemoryDrops (S : Stage α β) : Prop :=
  ∀ s, S.drain s false = .undefined ∨
    (∃ b s', S.drain s true = .push b s' ∧ S.drain s false = .again s') ∨
    (S.drain s false = S.drain s true ∧ ∀ b s', S.drain s true ≠ .push b s')

def held {σ : Type} (w : Worker σ α β) : List β :=
  match w.pc with
  | .push b => [b]
  | _ => []

/-- What was released is pushed, is in hand or was dropped. -/
structure Balanced {σ : Type} (w : Worker σ α β) (released : List β) (dropped : Nat) : Prop where
  count : released.length = w.sent.length + (held w).length + dropped
  all : dropped = 0 → released = w.sent ++ held w

/-- A turn that gives nothing to push gives the same without memory. -/
theorem MemoryDrops.not_push (hS : MemoryDrops S) {s : S.State} {d : Drain S.State β}
    (hd : S.drain s alloc = d) (hpush : ∀ b s', d ≠ .push b s') (hagain : ∀ s', d ≠ .again s')
    (hdef : d ≠ .undefined) (b : β) (s' : S.State) : S.drain s true ≠ .push b s' := by
  subst hd
  cases alloc with
  | true => exact hpush b s'
  | false =>
    rcases hS s with hu | ⟨c,t,-,ha⟩ | ⟨-,hno⟩
    · exact absurd hu hdef
    · exact absurd ha (hagain t)
    · exact hno b s'

theorem Balanced.quiet (h : Balanced w released dropped) (hgives : gives S w = [])
    (hheld : held w' = held w) (hsent : w'.sent = w.sent) :
    Balanced w' (released ++ gives S w)
      (dropped + if alloc then 0 else (gives S w).length) := by
  obtain ⟨hcount,hall⟩ := h
  rw [hgives]
  constructor <;> simpa [hheld,hsent]

theorem Balanced.step (hS : MemoryDrops S) (h : Balanced w released dropped)
    (hs : Stepped S e alloc w src dst w' src' dst') :
    Balanced w' (released ++ gives S w)
      (dropped + if alloc then 0 else (gives S w).length) := by
  obtain ⟨hcount,hall⟩ := id h
  cases hs with
  | leave hpc hd =>
    exact h.quiet (gives_of_not_push (hS.not_push hd nofun nofun nofun)) (by simp [held,hpc]) rfl
  | @again s hpc hd =>
    cases alloc with
    | true =>
      exact h.quiet (gives_of_not_push (by simp [hd])) (by simp [held,hpc]) rfl
    | false =>
      rcases hS w.state with hu | ⟨b,t,hpush,-⟩ | ⟨-,hno⟩
      · rw [hu] at hd; cases hd
      · rw [gives_of_push hpc hpush]
        constructor
        · simp only [held,hpc,List.length_append,List.length_singleton,List.length_nil,
            Bool.false_eq_true,if_false] at hcount ⊢
          omega
        · intro hzero
          simp at hzero
      · exact h.quiet (gives_of_not_push hno) (by simp [held,hpc]) rfl
  | @output b s hpc hd =>
    have halloc : alloc = true := by
      by_contra hno
      simp only [Bool.not_eq_true] at hno
      subst hno
      rcases hS w.state with hu | ⟨c,t,-,ha⟩ | ⟨heq,hno⟩
      · rw [hu] at hd; cases hd
      · rw [ha] at hd; cases hd
      · exact hno b s (heq ▸ hd)
    subst halloc
    rw [gives_of_push hpc hd]
    constructor
    · simp only [held,hpc,List.length_append,List.length_singleton,List.length_nil,if_true]
        at hcount ⊢
      omega
    · intro hzero
      simpa [held,hpc] using hall hzero
  | @send b dst' hpc =>
    rw [gives_of_ne (by simp [hpc])]
    constructor
    · simp only [held,hpc,List.length_append,List.length_singleton,List.length_nil,ite_self]
        at hcount ⊢
      omega
    · intro hzero
      simp only [ite_self,List.length_nil,Nat.add_zero] at hzero
      simpa [held,hpc] using hall hzero
  | await hpc | hold hpc => exact h.quiet (gives_of_ne (by simp [hpc])) rfl rfl
  | fail hpc | enter hpc | go hpc | quit hpc | receive hpc | ended hpc | skip hpc | accept hpc
  | clean hpc | stop hpc => exact h.quiet (gives_of_ne (by simp [hpc])) (by simp [held,hpc]) rfl

theorem Driven.balanced (hS : MemoryDrops S) (h : Driven S e s₀ ok w released dropped) :
    Balanced w released dropped := by
  induction h with
  | start => exact ⟨rfl,fun _ => rfl⟩
  | told _ ih => exact ⟨ih.count,ih.all⟩
  | step _ _ hs ih => exact ih.step hS hs

/-- A stage that writes through the memory it did not get drops nothing. -/
theorem Driven.none_dropped (hS : ∀ s, S.drain s false = .undefined)
    (h : Driven S e s₀ ok w released dropped) : dropped = 0 := by
  induction h with
  | start => rfl
  | told _ ih => exact ih
  | @step w w' src src' dst dst' alloc released dropped _ _ hs ih =>
    cases alloc with
    | true => simpa using ih
    | false =>
      have hpc : w.pc ≠ .drain := by
        intro hpc
        cases hs with
        | leave _ hd => rw [hS] at hd; cases hd
        | again _ hd => rw [hS] at hd; cases hd
        | output _ hd => rw [hS] at hd; cases hd
        | _ => simp_all
      simp [gives_of_ne hpc,ih]

end Worker

namespace Controller
variable {su : Setup} {e : EmptyPop} {s s' : Controller su} {a : Label}

/-- A condition on the steps of each stage. -/
structure StageTurns (su : Setup) where
  decoder : Worker su.decoderStage.State AVPacket AVFrame → Prop
  processor : Worker su.processorStage.State AVFrame AVFrame → Prop
  encoder : Worker su.encoderStage.State AVFrame AVPacket → Prop

def StageTurns.any (su : Setup) : StageTurns su := ⟨Worker.anyTurn,Worker.anyTurn,Worker.anyTurn⟩

def StageTurns.Met (turns : StageTurns su) (s : Controller su) : Label → Prop
  | .run .decoder _ _ => turns.decoder s.decoder
  | .run .processor _ _ => turns.processor s.processor
  | .run .encoder _ _ => turns.encoder s.encoder
  | _ => True

theorem StageTurns.any_met (s : Controller su) (a : Label) : (StageTurns.any su).Met s a := by
  unfold Met
  split <;> trivial

/-- To each stage the rest of the pipeline is one environment. -/
structure StagesDriven (turns : StageTurns su) (e : EmptyPop) (s : Controller su) : Prop where
  decoder : Worker.IsDriven su.decoderStage e ⟨su.contexts,0⟩ turns.decoder s.decoder
  processor : Worker.IsDriven su.processorStage e ⟨su.bufferCtxs,su.graphState⟩ turns.processor
    s.processor
  encoder : Worker.IsDriven su.encoderStage e su.encoderState turns.encoder s.encoder

variable {turns : StageTurns su}

theorem StagesDriven.stop (h : StagesDriven turns e s) (hs : s.stop = .next s') :
    StagesDriven turns e s' := by
  obtain ⟨hdecoder,hprocessor,hencoder⟩ := h
  cases stop_cases hs with
  | decoder => exact ⟨hdecoder.told,hprocessor,hencoder⟩
  | processor => exact ⟨hdecoder,hprocessor.told,hencoder⟩
  | encoder => exact ⟨hdecoder,hprocessor,hencoder.told⟩
  | _ => exact ⟨hdecoder,hprocessor,hencoder⟩

theorem StagesDriven.step (h : StagesDriven turns e s) (hmet : turns.Met s a)
    (hs : Stepped e s a s') : StagesDriven turns e s' := by
  have hstopped (hstop : s.stop = .next s') := h.stop hstop
  obtain ⟨hdecoder,hprocessor,hencoder⟩ := h
  cases hs with
  | decoder hw => exact ⟨hdecoder.step hmet hw,hprocessor,hencoder⟩
  | processor hw => exact ⟨hdecoder,hprocessor.step hmet hw,hencoder⟩
  | encoder hw => exact ⟨hdecoder,hprocessor,hencoder.step hmet hw⟩
  | stopper hstop => exact hstopped hstop
  | _ => exact ⟨hdecoder,hprocessor,hencoder⟩

theorem reachable_driven (turns : StageTurns su) {ok : Controller su → Label → Prop}
    (hok : ∀ s a, ok s a → turns.Met s a) (h : Reachable (program su e) ok s) :
    StagesDriven turns e s :=
  h.invariant ⟨⟨_,_,.start⟩,⟨_,_,.start⟩,⟨_,_,.start⟩⟩ fun hd ha hs =>
    hd.step (hok _ _ ha) (step_cases hs)

end Controller
end HyperStream
