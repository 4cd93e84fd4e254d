import HyperStream.Fifo
import HyperStream.Wakeup
set_option autoImplicit false

open Transition

namespace HyperStream
variable {τ α : Type}

inductive Call (α : Type) where
  | push (x : α)
  | pop
  | size
  | empty
  | stop
  deriving DecidableEq, Repr

def Call.waitsOn : Call α → Option CondVar
  | .push _ => some .notFull
  | .pop => some .notEmpty
  | .size | .empty | .stop => none

/-- A call that took effect, with what it returned. -/
inductive Effect (α : Type) where
  | push (x : α)
  | pop (x : Option α)
  | size (n : Nat)
  | empty (b : Bool)
  | stop
  deriving DecidableEq, Repr

def Effect.call : Effect α → Call α
  | .push x => .push x
  | .pop _ => .pop
  | .size _ => .size
  | .empty _ => .empty
  | .stop => .stop

/-- The queue operation of an effect; a stop and a false pop have none. -/
def Effect.op : Effect α → Option (Fifo.Op α)
  | .push x => some (.push x)
  | .pop (some x) => some (.pop x)
  | .size n => some (.size n)
  | .empty b => some (.empty b)
  | .pop none | .stop => none

/-- What an effect is about in the channel: where it may take place, and what it does. -/
inductive Effect.At (e : EmptyPop) (c : Channel τ α) : Effect α → Channel τ α → Prop where
  | push {c' : Channel τ α} (x : α) : (c.isStop = true ∨ c.queue.length < c.capacity ∨
      c.capacity = sizeT (-1)) → c'.queue = c.queue ++ [x] → c'.isStop = c.isStop →
      At e c (.push x) c'
  | pop {c' : Channel τ α} {x : α} : c.queue = x :: c'.queue → c'.isStop = c.isStop →
      At e c (.pop (some x)) c'
  | ended {c' : Channel τ α} : e = .returnsFalse → c.isStop = true → c.queue = [] →
      c'.queue = [] → c'.isStop = c.isStop → At e c (.pop none) c'
  | size {c' : Channel τ α} : c' = c → At e c (.size c.queue.length) c'
  | empty {c' : Channel τ α} : c' = c → At e c (.empty c.queue.isEmpty) c'
  | stop {c' : Channel τ α} : c' = c.stop → At e c .stop c'

/-- A channel with the threads that use it: the call that each is in, the calls that each
has made, and the calls that took effect, in the order of their critical sections. -/
structure Clients (τ α : Type) where
  chan : Channel τ α
  calls : τ → Option (Call α)
  made : τ → List (Call α)
  log : List (τ × Effect α)

/-- A step of the clients: a thread makes a call, takes its next step inside the call
(`target` is whom its notify_one picks), or wakes without a notification. -/
inductive ClientStep (τ α : Type) where
  | call (t : τ) (c : Call α)
  | run (t : τ) (target : Option τ)
  | wake (t : τ)
  deriving DecidableEq

namespace Clients
variable [DecidableEq τ]

def ops (s : Clients τ α) : List (Fifo.Op α) := s.log.filterMap fun p => p.2.op

def returned (s : Clients τ α) (t : τ) : List (Effect α) :=
  (s.log.filter fun p => p.1 = t).map Prod.snd

def setCall (s : Clients τ α) (t : τ) (c : Option (Call α)) : Clients τ α :=
  { s with calls := fun u => if u = t then c else s.calls u }

def makeCall (s : Clients τ α) (t : τ) (c : Call α) : Clients τ α :=
  { s.setCall t (some c) with made := fun u => if u = t then s.made u ++ [c] else s.made u }

def finish (s : Clients τ α) (t : τ) (chan : Channel τ α) (eff : Effect α) : Clients τ α :=
  { s.setCall t none with chan := chan, log := s.log ++ [(t,eff)] }

def start (capacity : Nat) : Clients τ α := ⟨Channel.new capacity,fun _ => none,fun _ => [],[]⟩

def settle {ρ : Type} (s : Clients τ α) (t : τ) (eff : ρ → Effect α) (r : Reply ρ)
    (chan : Channel τ α) : Clients τ α :=
  match r with
  | .blocked => { s with chan := chan }
  | .returned v => s.finish t chan (eff v)

def resume {ρ : Type} (s : Clients τ α) (t : τ) (eff : ρ → Effect α)
    (x : Outcome (Reply ρ × Channel τ α)) : Outcome (Clients τ α) :=
  x.bind fun p => .next (s.settle t eff p.1 p.2)

@[simp] theorem finish_ops (s : Clients τ α) (t : τ) (c : Channel τ α) (eff : Effect α) :
    (s.finish t c eff).ops = s.ops ++ eff.op.toList := by
  cases h : eff.op <;> simp [ops,finish,List.filterMap_append,h]

@[simp] theorem finish_chan (s : Clients τ α) (t : τ) (c : Channel τ α) (eff : Effect α) :
    (s.finish t c eff).chan = c := rfl

@[simp] theorem finish_calls (s : Clients τ α) (t u : τ) (c : Channel τ α) (eff : Effect α) :
    (s.finish t c eff).calls u = if u = t then none else s.calls u := rfl

@[simp] theorem finish_made (s : Clients τ α) (t : τ) (c : Channel τ α) (eff : Effect α) :
    (s.finish t c eff).made = s.made := rfl

@[simp] theorem finish_returned (s : Clients τ α) (t u : τ) (c : Channel τ α)
    (eff : Effect α) : (s.finish t c eff).returned u =
      s.returned u ++ if u = t then [eff] else [] := by
  by_cases hu : u = t
  · subst hu; simp [returned,finish]
  · simp [returned,finish,hu,Ne.symm hu]

variable [Fintype τ]

def step (e : EmptyPop) (s : Clients τ α) : ClientStep τ α → Outcome (Clients τ α)
  | .call t c => if (s.calls t).isNone then .next (s.makeCall t c) else .disabled
  | .wake t => (s.chan.wakeSpuriously t).bind fun c => .next { s with chan := c }
  | .run t target =>
    match s.calls t with
    | none => .disabled
    | some (.push x) => s.resume t (fun _ => .push x) (s.chan.push t x target)
    | some .pop => s.resume t .pop (s.chan.pop e t target)
    | some .size => s.resume t .size (s.chan.size t)
    | some .empty => s.resume t .empty (s.chan.empty t)
    | some .stop => .next (s.finish t s.chan.stop .stop)

def program (τ α : Type) [DecidableEq τ] [Fintype τ] (e : EmptyPop) (capacity : Nat) :
    Program (Clients τ α) (ClientStep τ α) := ⟨start capacity,step e⟩

/-- A thread waits only inside a call, and only on the condition variable of that call. -/
structure Disciplined (s : Clients τ α) : Prop where
  waits : ∀ t cv, (s.chan.monitor.status t).waitsOn = some cv →
    (s.calls t).bind Call.waitsOn = some cv
  parked : ∀ t cv, s.chan.monitor.owner = some (t,cv) →
    (s.calls t).bind Call.waitsOn = some cv

/-- All that a step of the clients can do. -/
inductive Stepped (e : EmptyPop) (s : Clients τ α) : ClientStep τ α → Clients τ α → Prop where
  | call {t : τ} (c : Call α) : s.calls t = none → Stepped e s (.call t c) (s.makeCall t c)
  | wake {t : τ} {c' : Channel τ α} : s.chan.wakeSpuriously t = .next c' →
      Stepped e s (.wake t) { s with chan := c' }
  | push {t : τ} {target : Option τ} {x : α} {r : Reply Unit} {c' : Channel τ α} :
      s.calls t = some (.push x) → s.chan.PushStep t x r c' →
      Stepped e s (.run t target) (s.settle t (fun _ => .push x) r c')
  | pop {t : τ} {target : Option τ} {r : Reply (Option α)} {c' : Channel τ α} :
      s.calls t = some .pop → s.chan.PopStep e t r c' →
      Stepped e s (.run t target) (s.settle t .pop r c')
  | size {t : τ} {target : Option τ} : s.calls t = some .size → s.chan.monitor.owner = none →
      Stepped e s (.run t target) (s.finish t s.chan (.size s.chan.queue.length))
  | empty {t : τ} {target : Option τ} : s.calls t = some .empty → s.chan.monitor.owner = none →
      Stepped e s (.run t target) (s.finish t s.chan (.empty s.chan.queue.isEmpty))
  | stop {t : τ} {target : Option τ} : s.calls t = some .stop →
      Stepped e s (.run t target) (s.finish t s.chan.stop .stop)

omit [Fintype τ] in
theorem look_cases {s s' : Clients τ α} {t : τ} {ρ : Type} {eff : ρ → Effect α} {v : ρ}
    (hs : s.Disciplined) (hc : (s.calls t).bind Call.waitsOn = none)
    (h : s.resume t eff (s.chan.lock t (fun c => .next (.returned v,c)) fun _ => .disabled) =
      .next s') : s.chan.monitor.owner = none ∧ s' = s.finish t s.chan (eff v) := by
  obtain ⟨⟨r,c'⟩,hl,h⟩ := Outcome.bind_eq_next.mp h
  obtain ⟨cv,ho,-,-⟩ | ⟨ho,-,hl⟩ | ⟨-,-,-,hl⟩ := Channel.lock_cases hl
  · rw [hs.parked t cv ho] at hc
    cases hc
  · cases hl
    cases h
    exact ⟨ho,rfl⟩
  · cases hl

theorem step_cases {e : EmptyPop} {s s' : Clients τ α} {a : ClientStep τ α}
    (hs : s.Disciplined) (h : step e s a = .next s') : Stepped e s a s' := by
  cases a with
  | call t c =>
    simp only [step] at h
    split at h
    · rename_i hidle
      cases h
      exact .call c (by simpa using hidle)
    · cases h
  | wake t =>
    obtain ⟨c',hc',h⟩ := Outcome.bind_eq_next.mp h
    cases h
    exact .wake hc'
  | run t target =>
    simp only [step] at h
    split at h
    · cases h
    · rename_i x hc
      obtain ⟨⟨r,c'⟩,hp,h⟩ := Outcome.bind_eq_next.mp h
      cases h
      exact .push hc (Channel.push_cases hp)
    · rename_i hc
      obtain ⟨⟨r,c'⟩,hp,h⟩ := Outcome.bind_eq_next.mp h
      cases h
      exact .pop hc (Channel.pop_cases hp)
    · rename_i hc
      obtain ⟨ho,rfl⟩ := look_cases hs (by rw [hc]; rfl) h
      exact .size hc ho
    · rename_i hc
      obtain ⟨ho,rfl⟩ := look_cases hs (by rw [hc]; rfl) h
      exact .empty hc ho
    · rename_i hc
      cases h
      exact .stop hc

/-- A thread that holds the mutex after a vain test can only fall asleep. -/
theorem step_parked {e : EmptyPop} {s : Clients τ α} {u : τ} {cv : CondVar}
    (target : Option τ) (hs : s.Disciplined) (ho : s.chan.monitor.owner = some (u,cv)) :
    step e s (.run u target) =
      .next { s with chan := { s.chan with monitor := s.chan.monitor.sleep u cv } } := by
  have hw := hs.parked u cv ho
  cases hc : s.calls u with
  | none => rw [hc] at hw; cases hw
  | some c =>
    rw [hc] at hw
    cases c with
    | push x => simp [step,hc,resume,settle,Channel.push,Channel.lock,ho]
    | pop => simp [step,hc,resume,settle,Channel.pop,Channel.lock,ho]
    | size => cases hw
    | empty => cases hw
    | stop => cases hw

theorem Disciplined.finish {s : Clients τ α} {t : τ} {m : Monitor τ CondVar} {cv : CondVar}
    {c' : Channel τ α} {eff : Effect α} (hs : s.Disciplined)
    (h : Monitor.Critical t cv s.chan.monitor false m) (hm : c'.monitor = m) :
    (s.finish t c' eff).Disciplined := by
  subst hm
  constructor
  · intro u d hu
    have hut : u ≠ t := by
      intro heq
      subst heq
      exact Bool.noConfusion (h.waitsOn_self hu).1
    simpa [Clients.finish,setCall,hut] using hs.waits u d ((h.waitsOn_other hut).symm.trans hu)
  · intro u d hu
    exact Bool.noConfusion (h.owner_eq hu).2.2

theorem Disciplined.settle {s : Clients τ α} {t : τ} {cv : CondVar} {ρ : Type}
    {c' : Channel τ α} {eff : ρ → Effect α} {r : Reply ρ} (hs : s.Disciplined)
    (hc : (s.calls t).bind Call.waitsOn = some cv)
    (h : Monitor.Critical t cv s.chan.monitor r.isBlocked c'.monitor) :
    (s.settle t eff r c').Disciplined := by
  cases r with
  | returned v => exact hs.finish h rfl
  | blocked =>
    constructor
    · intro u d hu
      by_cases hut : u = t
      · subst hut
        exact hs.parked u d (h.waitsOn_self hu).2
      · exact hs.waits u d ((h.waitsOn_other hut).symm.trans hu)
    · intro u d hu
      obtain ⟨rfl,rfl,-⟩ := h.owner_eq hu
      exact hc

omit [Fintype τ] [DecidableEq τ] in
/-- Nothing changes for the waits when a thread that does not wait changes its call. -/
theorem Disciplined.of_calls {s s' : Clients τ α} {t : τ} (hs : s.Disciplined)
    (hm : s'.chan.monitor = s.chan.monitor) (hc : ∀ u, u ≠ t → s'.calls u = s.calls u)
    (ht : (s.calls t).bind Call.waitsOn = none) : s'.Disciplined := by
  have hne : ∀ u cv, (s.calls u).bind Call.waitsOn = some cv →
      (s'.calls u).bind Call.waitsOn = some cv := by
    intro u cv hu
    have hut : u ≠ t := by
      intro heq
      subst heq
      rw [ht] at hu
      cases hu
    rw [hc u hut]
    exact hu
  exact ⟨fun u cv hu => hne u cv (hs.waits u cv (hm ▸ hu)),
    fun u cv hu => hne u cv (hs.parked u cv (hm ▸ hu))⟩

omit [Fintype τ] [DecidableEq τ] in
theorem Disciplined.waitsOn_ne {s : Clients τ α} {t : τ} {cv d : CondVar} (hs : s.Disciplined)
    (hc : (s.calls t).bind Call.waitsOn = some cv) (hne : d ≠ cv) :
    (s.chan.monitor.status t).waitsOn ≠ some d := by
  intro hd
  have hsame := (hs.waits t d hd).symm.trans hc
  exact hne (Option.some.inj hsame)

theorem Disciplined.step {e : EmptyPop} {s s' : Clients τ α} {a : ClientStep τ α}
    (hs : s.Disciplined) (h : Stepped e s a s') : s'.Disciplined := by
  cases h with
  | @call t c hidle =>
    exact hs.of_calls (t := t) rfl (fun u hu => by simp [makeCall,setCall,hu]) (by simp [hidle])
  | @wake t c' hw =>
    obtain ⟨cv,hcv,rfl⟩ := Channel.wakeSpuriously_cases hw
    refine ⟨fun u d hu => hs.waits u d ?_,hs.parked⟩
    by_cases hut : u = t
    · subst hut
      simpa [Status.waitsOn,hcv] using hu
    · simpa [hut] using hu
  | push hc hp => exact hs.settle (by rw [hc]; rfl) hp.critical
  | pop hc hp => exact hs.settle (by rw [hc]; rfl) hp.critical
  | @size t target hc ho =>
    exact hs.of_calls (t := t) rfl (fun u hu => by simp [hu]) (by rw [hc]; rfl)
  | @empty t target hc ho =>
    exact hs.of_calls (t := t) rfl (fun u hu => by simp [hu]) (by rw [hc]; rfl)
  | @stop t target hc =>
    exact hs.of_calls (t := t) rfl (fun u hu => by simp [hu]) (by rw [hc]; rfl)

structure Inv (s : Clients τ α) : Prop where
  disciplined : s.Disciplined
  awake : s.chan.Awake
  legal : Fifo.Legal s.ops s.chan.queue
  answered : ∀ t, (s.returned t).map Effect.call ++ (s.calls t).toList = s.made t

theorem Inv.start (capacity : Nat) : (start capacity : Clients τ α).Inv where
  disciplined := by constructor <;> intro t cv h <;> cases h
  awake := .new capacity
  legal := .nil
  answered := by intro t; rfl

omit [Fintype τ] in
theorem answered_makeCall {s : Clients τ α} {t : τ} {c : Call α}
    (h : ∀ u, (s.returned u).map Effect.call ++ (s.calls u).toList = s.made u)
    (ht : s.calls t = none) (u : τ) :
    ((s.makeCall t c).returned u).map Effect.call ++ ((s.makeCall t c).calls u).toList =
      (s.makeCall t c).made u := by
  have hu := h u
  by_cases hut : u = t
  · subst hut
    simpa [makeCall,setCall,returned,ht] using hu
  · simpa [makeCall,setCall,returned,hut] using hu

omit [Fintype τ] in
theorem answered_finish {s : Clients τ α} {t : τ} {c' : Channel τ α} {eff : Effect α}
    (h : ∀ u, (s.returned u).map Effect.call ++ (s.calls u).toList = s.made u)
    (ht : s.calls t = some eff.call) (u : τ) :
    ((s.finish t c' eff).returned u).map Effect.call ++ ((s.finish t c' eff).calls u).toList =
      (s.finish t c' eff).made u := by
  have hu := h u
  by_cases hut : u = t
  · subst hut
    simpa [ht] using hu
  · simpa [hut] using hu

theorem Inv.step {e : EmptyPop} {s s' : Clients τ α} {a : ClientStep τ α} (hs : s.Inv)
    (h : Stepped e s a s') : s'.Inv := by
  refine ⟨hs.disciplined.step h,?_,?_,?_⟩
  · cases h with
    | call => exact hs.awake
    | wake hw => exact hs.awake.wakeSpuriously hw
    | @push t target x r c' hc hp =>
      have hd := hs.disciplined.waitsOn_ne (d := .notEmpty) (by rw [hc]; rfl) (by decide)
      have hc' := hs.awake.push hd hp
      cases r <;> exact hc'
    | @pop t target r c' hc hp =>
      have hd := hs.disciplined.waitsOn_ne (d := .notFull) (by rw [hc]; rfl) (by decide)
      have hc' := hs.awake.pop hd hp
      cases r <;> exact hc'
    | size => exact hs.awake
    | empty => exact hs.awake
    | stop => exact hs.awake.stop
  · have hl := hs.legal
    cases h with
    | call => exact hl
    | wake hw => obtain ⟨cv,-,rfl⟩ := Channel.wakeSpuriously_cases hw; exact hl
    | push hc hp =>
      cases hp with
      | sleep => exact hl
      | park => exact hl
      | insert => simpa [settle,Effect.op] using hl.push _
    | pop hc hp =>
      cases hp with
      | sleep => exact hl
      | park => exact hl
      | remove _ _ hq =>
        rw [hq] at hl
        simpa [settle,Effect.op] using hl.pop
      | ended => simpa [settle,Effect.op] using hl
    | size => simpa [Effect.op] using hl.size
    | empty => simpa [Effect.op] using hl.empty
    | stop => simpa [Effect.op,Channel.stop] using hl
  · have ha := hs.answered
    cases h with
    | call c hidle => exact answered_makeCall ha hidle
    | wake hw => exact ha
    | @push t target x r c' hc hp =>
      cases r with
      | blocked => exact ha
      | returned v => exact answered_finish ha hc
    | @pop t target r c' hc hp =>
      cases r with
      | blocked => exact ha
      | returned v => exact answered_finish ha hc
    | size hc ho => exact answered_finish ha hc
    | empty hc ho => exact answered_finish ha hc
    | stop hc => exact answered_finish ha hc

theorem reachable_inv {e : EmptyPop} {capacity : Nat}
    {ok : Clients τ α → ClientStep τ α → Prop} {s : Clients τ α}
    (h : Reachable (program τ α e capacity) ok s) : s.Inv :=
  h.invariant (.start capacity) fun hs _ hstep =>
    hs.step (step_cases hs.disciplined hstep)

theorem reachable_capacity {e : EmptyPop} {capacity : Nat}
    {ok : Clients τ α → ClientStep τ α → Prop} {s : Clients τ α}
    (h : Reachable (program τ α e capacity) ok s) : s.chan.capacity = capacity := by
  suffices hs : s.Inv ∧ s.chan.capacity = capacity from hs.2
  refine h.invariant (P := fun s => s.Inv ∧ s.chan.capacity = capacity) ⟨.start capacity,rfl⟩ ?_
  intro s t a hs _ hstep
  have hc := step_cases hs.1.disciplined hstep
  refine ⟨hs.1.step hc,?_⟩
  cases hc with
  | call => exact hs.2
  | wake hw => obtain ⟨cv,-,rfl⟩ := Channel.wakeSpuriously_cases hw; exact hs.2
  | @push t target x r c' _ hp => cases r <;> exact hp.frame.2.trans hs.2
  | @pop t target r c' _ hp => cases r <;> exact hp.frame.2.trans hs.2
  | size => exact hs.2
  | empty => exact hs.2
  | stop => exact hs.2

/-- A step is silent, or one call takes effect in it. -/
inductive Took (e : EmptyPop) (s s' : Clients τ α) : Prop where
  | silent : s'.log = s.log → s'.chan.queue = s.chan.queue → s'.chan.isStop = s.chan.isStop →
      Took e s s'
  | effect {t : τ} {eff : Effect α} : s'.log = s.log ++ [(t,eff)] → eff.At e s.chan s'.chan →
      Took e s s'

theorem Stepped.took {e : EmptyPop} {s s' : Clients τ α} {a : ClientStep τ α}
    (h : Stepped e s a s') : Took e s s' := by
  cases h with
  | call => exact .silent rfl rfl rfl
  | wake hw => obtain ⟨cv,-,rfl⟩ := Channel.wakeSpuriously_cases hw; exact .silent rfl rfl rfl
  | push hc hp =>
    cases hp with
    | sleep => exact .silent rfl rfl rfl
    | park => exact .silent rfl rfl rfl
    | insert _ _ hroom =>
      refine .effect rfl (.push _ ?_ rfl rfl)
      exact hroom.imp_right fun h => h.imp_right And.right
  | pop hc hp =>
    cases hp with
    | sleep => exact .silent rfl rfl rfl
    | park => exact .silent rfl rfl rfl
    | remove _ _ hq => exact .effect rfl (.pop hq rfl)
    | ended _ _ he hstop hq => exact .effect rfl (.ended he hstop hq hq rfl)
  | size => exact .effect rfl (.size rfl)
  | empty => exact .effect rfl (.empty rfl)
  | stop => exact .effect rfl (.stop rfl)

theorem reachable_took {e : EmptyPop} {capacity : Nat}
    {ok : Clients τ α → ClientStep τ α → Prop} {s s' : Clients τ α} {a : ClientStep τ α}
    (h : Reachable (program τ α e capacity) ok s) (hs : step e s a = .next s') : Took e s s' :=
  (step_cases (reachable_inv h).disciplined hs).took

end Clients
end HyperStream
