import HyperStream.Link
import HyperStream.Transducer
set_option autoImplicit false

open Transition

namespace HyperStream

/-- What the run() bodies of decoder, compositor and encoder differ in: how they feed their
library, how they take its outputs, whether they allocate before the loop, and what they
free after it. -/
structure Stage (α β : Type) extends Transducer.{0,0,0} α β where
  allocates : Bool
  cleanup : State → Outcome State

inductive PC (α β : Type) where
  | start
  | test
  | pop
  | feed (a : α)
  | drain
  | push (b : β)
  | cleanup
  | stopDst
  | returned
  deriving DecidableEq, Repr

/-- The thread of a stage. `received` and `sent` record what its pops returned and its
pushes inserted. -/
structure Worker (σ α β : Type) where
  pc : PC α β
  isStop : Bool
  state : σ
  received : List α
  sent : List β

namespace Worker
variable {α β : Type}

def start {σ : Type} (s : σ) : Worker σ α β := ⟨.start,false,s,[],[]⟩

/-- The run() body:
`while (!is_stop && src->pop(item)) { feed; while (true) { drain; dst->push(out); } }`,
then the cleanup and `dst->stop()`. -/
def step (S : Stage α β) (e : EmptyPop) (target : Option Side) (alloc : Bool)
    (w : Worker S.State α β) (src : Channel Side α) (dst : Channel Side β) :
    Outcome (Worker S.State α β × Channel Side α × Channel Side β) :=
  match w.pc with
  | .start =>
    -- a failed allocation returns at once, without stopping dst
    if S.allocates && !alloc then .next ({ w with pc := .returned },src,dst)
    else .next ({ w with pc := .test },src,dst)
  | .test => .next ({ w with pc := if w.isStop then .cleanup else .pop },src,dst)
  | .pop =>
    (src.pop e .consumer target).bind fun
      | (.blocked,src') => .next (w,src',dst)
      | (.returned none,src') => .next ({ w with pc := .cleanup },src',dst)
      | (.returned (some a),src') =>
        .next ({ w with pc := .feed a, received := w.received ++ [a] },src',dst)
  | .feed a =>
    match S.feed w.state a with
    | .undefined => .undefined
    | .skip s => .next ({ w with pc := .test, state := s },src,dst)
    | .drain s => .next ({ w with pc := .drain, state := s },src,dst)
  | .drain =>
    match S.drain w.state alloc with
    | .undefined => .undefined
    | .leave s => .next ({ w with pc := .test, state := s },src,dst)
    | .again s => .next ({ w with pc := .drain, state := s },src,dst)
    | .push b s => .next ({ w with pc := .push b, state := s },src,dst)
  | .push b =>
    (dst.push .producer b target).bind fun
      | (.blocked,dst') => .next (w,src,dst')
      | (.returned _,dst') => .next ({ w with pc := .drain, sent := w.sent ++ [b] },src,dst')
  | .cleanup => (S.cleanup w.state).bind fun s =>
      .next ({ w with pc := .stopDst, state := s },src,dst)
  | .stopDst => .next ({ w with pc := .returned },src,dst.stop)
  | .returned => .disabled

/-- All that a step of a run() body can do. -/
inductive Stepped (S : Stage α β) (e : EmptyPop) (alloc : Bool) (w : Worker S.State α β)
    (src : Channel Side α) (dst : Channel Side β) :
    Worker S.State α β → Channel Side α → Channel Side β → Prop where
  | fail : w.pc = .start → S.allocates = true → alloc = false →
      Stepped S e alloc w src dst { w with pc := .returned } src dst
  | enter : w.pc = .start → Stepped S e alloc w src dst { w with pc := .test } src dst
  | go : w.pc = .test → w.isStop = false →
      Stepped S e alloc w src dst { w with pc := .pop } src dst
  | quit : w.pc = .test → w.isStop = true →
      Stepped S e alloc w src dst { w with pc := .cleanup } src dst
  | await {src' : Channel Side α} : w.pc = .pop → src.PopStep e .consumer .blocked src' →
      Stepped S e alloc w src dst w src' dst
  | receive {src' : Channel Side α} {a : α} : w.pc = .pop →
      src.PopStep e .consumer (.returned (some a)) src' →
      Stepped S e alloc w src dst
        { w with pc := .feed a, received := w.received ++ [a] } src' dst
  | ended {src' : Channel Side α} : w.pc = .pop →
      src.PopStep e .consumer (.returned none) src' →
      Stepped S e alloc w src dst { w with pc := .cleanup } src' dst
  | skip {a : α} {s : S.State} : w.pc = .feed a → S.feed w.state a = .skip s →
      Stepped S e alloc w src dst { w with pc := .test, state := s } src dst
  | accept {a : α} {s : S.State} : w.pc = .feed a → S.feed w.state a = .drain s →
      Stepped S e alloc w src dst { w with pc := .drain, state := s } src dst
  | leave {s : S.State} : w.pc = .drain → S.drain w.state alloc = .leave s →
      Stepped S e alloc w src dst { w with pc := .test, state := s } src dst
  | again {s : S.State} : w.pc = .drain → S.drain w.state alloc = .again s →
      Stepped S e alloc w src dst { w with pc := .drain, state := s } src dst
  | output {b : β} {s : S.State} : w.pc = .drain → S.drain w.state alloc = .push b s →
      Stepped S e alloc w src dst { w with pc := .push b, state := s } src dst
  | hold {b : β} {dst' : Channel Side β} : w.pc = .push b →
      dst.PushStep .producer b .blocked dst' → Stepped S e alloc w src dst w src dst'
  | send {b : β} {dst' : Channel Side β} : w.pc = .push b →
      dst.PushStep .producer b (.returned ()) dst' →
      Stepped S e alloc w src dst { w with pc := .drain, sent := w.sent ++ [b] } src dst'
  | clean {s : S.State} : w.pc = .cleanup → S.cleanup w.state = .next s →
      Stepped S e alloc w src dst { w with pc := .stopDst, state := s } src dst
  | stop : w.pc = .stopDst →
      Stepped S e alloc w src dst { w with pc := .returned } src dst.stop

variable {S : Stage α β} {e : EmptyPop} {target : Option Side} {alloc : Bool}
  {w w' : Worker S.State α β} {src src' : Channel Side α} {dst dst' : Channel Side β}

theorem step_cases (h : step S e target alloc w src dst = .next (w',src',dst')) :
    Stepped S e alloc w src dst w' src' dst' := by
  unfold step at h
  cases hpc : w.pc with
  | start =>
    simp only [hpc] at h
    split at h
    · rename_i hfail
      simp only [Bool.and_eq_true,Bool.not_eq_true'] at hfail
      cases h
      exact .fail hpc hfail.1 hfail.2
    · cases h
      exact .enter hpc
  | test =>
    simp only [hpc] at h
    by_cases hs : w.isStop = true
    · rw [if_pos hs] at h; cases h; exact .quit hpc hs
    · rw [if_neg hs] at h; cases h; exact .go hpc (by simpa using hs)
  | pop =>
    simp only [hpc] at h
    obtain ⟨⟨r,c⟩,hp,h⟩ := Outcome.bind_eq_next.mp h
    have hp := Channel.pop_cases hp
    match r with
    | .blocked => cases h; exact .await hpc hp
    | .returned none => cases h; exact .ended hpc hp
    | .returned (some a) => cases h; exact .receive hpc hp
  | feed a =>
    simp only [hpc] at h
    cases hf : S.feed w.state a with
    | undefined => simp [hf] at h
    | skip s => simp only [hf] at h; cases h; exact .skip hpc hf
    | drain s => simp only [hf] at h; cases h; exact .accept hpc hf
  | drain =>
    simp only [hpc] at h
    cases hd : S.drain w.state alloc with
    | undefined => simp [hd] at h
    | leave s => simp only [hd] at h; cases h; exact .leave hpc hd
    | again s => simp only [hd] at h; cases h; exact .again hpc hd
    | push b s => simp only [hd] at h; cases h; exact .output hpc hd
  | push b =>
    simp only [hpc] at h
    obtain ⟨⟨r,c⟩,hp,h⟩ := Outcome.bind_eq_next.mp h
    have hp := Channel.push_cases hp
    cases r with
    | blocked => cases h; exact .hold hpc hp
    | returned v => cases h; exact .send hpc hp
  | cleanup =>
    simp only [hpc] at h
    obtain ⟨s,hs,h⟩ := Outcome.bind_eq_next.mp h
    cases h
    exact .clean hpc hs
  | stopDst => simp only [hpc] at h; cases h; exact .stop hpc
  | returned => simp [hpc] at h

theorem Stepped.src_link {capacity : Nat} {sent : List α}
    (h : Stepped S e alloc w src dst w' src' dst') (hl : Link capacity sent src w.received) :
    Link capacity sent src' w'.received := by
  cases h with
  | await _ hp => exact hl.pop hp
  | receive _ hp => exact hl.pop hp
  | ended _ hp => exact hl.pop hp
  | _ => exact hl

theorem Stepped.dst_link {capacity : Nat} {received : List β}
    (h : Stepped S e alloc w src dst w' src' dst') (hl : Link capacity w.sent dst received) :
    Link capacity w'.sent dst' received := by
  cases h with
  | hold _ hp => exact hl.push hp
  | send _ hp => exact hl.push hp
  | stop => exact hl.stop
  | _ => exact hl

/-- What a stage preserves in its state and ensures of its outputs. -/
structure Ensures (S : Stage α β) (P : S.State → Prop) (Q : β → Prop) : Prop where
  feed : ∀ s a, P s → (S.feed s a).Holds P
  drain : ∀ s alloc, P s → (S.drain s alloc).Holds P Q
  cleanup : ∀ s s', P s → S.cleanup s = .next s' → P s'

structure Holds {σ : Type} (P : σ → Prop) (Q : β → Prop) (w : Worker σ α β) : Prop where
  state : P w.state
  sent : ∀ b ∈ w.sent, Q b
  inHand : ∀ b, w.pc = .push b → Q b

theorem Stepped.holds {P : S.State → Prop} {Q : β → Prop} (hS : Ensures S P Q)
    (h : Stepped S e alloc w src dst w' src' dst') (hw : w.Holds P Q) : w'.Holds P Q := by
  obtain ⟨hstate,hsent,hhand⟩ := hw
  cases h with
  | @skip a s _ hf =>
    have hs := hS.feed _ a hstate
    rw [hf] at hs
    exact ⟨hs,hsent,by simp⟩
  | @accept a s _ hf =>
    have hs := hS.feed _ a hstate
    rw [hf] at hs
    exact ⟨hs,hsent,by simp⟩
  | leave _ hd =>
    have hs := hS.drain _ alloc hstate
    rw [hd] at hs
    exact ⟨hs,hsent,by simp⟩
  | again _ hd =>
    have hs := hS.drain _ alloc hstate
    rw [hd] at hs
    exact ⟨hs,hsent,by simp⟩
  | output _ hd =>
    have hs := hS.drain _ alloc hstate
    rw [hd] at hs
    exact ⟨hs.2,hsent,fun b hb => by cases hb; exact hs.1⟩
  | send hpc =>
    refine ⟨hstate,fun b hb => ?_,by simp⟩
    rcases List.mem_append.mp hb with hold | hnew
    · exact hsent b hold
    · exact hhand b (by rw [hpc,List.mem_singleton.mp hnew])
  | clean _ hc => exact ⟨hS.cleanup _ _ hstate hc,hsent,by simp⟩
  | await => exact ⟨hstate,hsent,hhand⟩
  | hold => exact ⟨hstate,hsent,hhand⟩
  | _ => exact ⟨hstate,hsent,by simp⟩

theorem Stepped.src_isStop (h : Stepped S e alloc w src dst w' src' dst') :
    src'.isStop = src.isStop := by
  cases h with
  | await _ hp => exact hp.frame.1
  | receive _ hp => exact hp.frame.1
  | ended _ hp => exact hp.frame.1
  | _ => rfl

theorem Stepped.dst_isStop (h : Stepped S e alloc w src dst w' src' dst')
    (hs : dst.isStop = true) : dst'.isStop = true := by
  cases h with
  | hold _ hp => exact hp.frame.1.trans hs
  | send _ hp => exact hp.frame.1.trans hs
  | stop => rfl
  | _ => exact hs

/-- A stage whose first allocation does not fail returns by stopping its destination. -/
theorem Stepped.returned_stops (h : Stepped S e alloc w src dst w' src' dst')
    (halloc : w.pc = .start → alloc = true)
    (hr : w.pc = .returned → dst.isStop = true) : w'.pc = .returned → dst'.isStop = true := by
  cases h with
  | fail hpc _ hfail => rw [halloc hpc] at hfail; cases hfail
  | stop => exact fun _ => rfl
  | hold _ hp => exact fun hpc => hp.frame.1.trans (hr hpc)
  | await => exact hr
  | _ => simp

theorem Stepped.isStop_eq (h : Stepped S e alloc w src dst w' src' dst') :
    w'.isStop = w.isStop := by
  cases h <;> rfl

end Worker
end HyperStream
