import Mathlib.Algebra.Order.BigOperators.Group.Finset
import Mathlib.Data.Fintype.Option
import HyperStream.Refinement
import HyperStream.Enabled
import HyperStream.Occupancy
set_option autoImplicit false

open Transition

namespace HyperStream

/-- What a channel is for: a bounded queue each of whose calls takes effect at once or has
to wait, with no mutex and no notification in sight. -/
structure AtomicQueue (α : Type) where
  queue : List α
  capacity : Nat
  isStop : Bool

namespace AtomicQueue
variable {α : Type}

def new (capacity : Nat) : AtomicQueue α := ⟨[],capacity,false⟩

def take (e : EmptyPop) (q : AtomicQueue α) : Call α → Outcome (Effect α × AtomicQueue α)
  | .push x =>
    if q.isStop = true ∨ q.queue.length < q.capacity ∨ q.capacity = sizeT (-1) then
      .next (.push x,{ q with queue := q.queue ++ [x] })
    else .disabled
  | .pop =>
    match q.queue with
    | x :: rest => .next (.pop (some x),{ q with queue := rest })
    | [] =>
      if q.isStop then
        match e with
        | .undefined => .undefined
        | .returnsFalse => .next (.pop none,q)
      else .disabled
  | .size => .next (.size q.queue.length,q)
  | .empty => .next (.empty q.queue.isEmpty,q)
  | .stop => .next (.stop,{ q with isStop := true })

end AtomicQueue

structure AtomicClients (τ α : Type) where
  queue : AtomicQueue α
  calls : τ → Option (Call α)
  log : List (τ × Effect α)

inductive AtomicStep (τ α : Type) where
  | call (t : τ) (c : Call α)
  | take (t : τ)

namespace AtomicClients
variable {τ α : Type} [DecidableEq τ]

def start (capacity : Nat) : AtomicClients τ α := ⟨.new capacity,fun _ => none,[]⟩

def setCall (s : AtomicClients τ α) (t : τ) (c : Option (Call α)) : AtomicClients τ α :=
  { s with calls := fun u => if u = t then c else s.calls u }

def step (e : EmptyPop) (s : AtomicClients τ α) : AtomicStep τ α → Outcome (AtomicClients τ α)
  | .call t c => if (s.calls t).isNone then .next (s.setCall t (some c)) else .disabled
  | .take t =>
    match s.calls t with
    | none => .disabled
    | some c => (s.queue.take e c).bind fun p =>
        .next { s.setCall t none with queue := p.2, log := s.log ++ [(t,p.1)] }

def program (τ α : Type) [DecidableEq τ] (e : EmptyPop) (capacity : Nat) :
    Program (AtomicClients τ α) (AtomicStep τ α) := ⟨start capacity,step e⟩

end AtomicClients

namespace Channel
variable {τ α : Type} {e : EmptyPop} {c c' : Channel τ α}

def atomic (c : Channel τ α) : AtomicQueue α := ⟨c.queue,c.capacity,c.isStop⟩

theorem take_of_at {eff : Effect α} (h : eff.At e c c') (hcap : c'.capacity = c.capacity) :
    c.atomic.take e eff.call = .next (eff,c'.atomic) := by
  cases h with
  | push x hroom hq hs =>
    have hgo : c.atomic.isStop = true ∨ c.atomic.queue.length < c.atomic.capacity ∨
      c.atomic.capacity = sizeT (-1) := hroom
    simp only [AtomicQueue.take,Effect.call,if_pos hgo]
    simp [atomic,hq,hs,hcap]
  | pop hq hs => simp [AtomicQueue.take,Effect.call,atomic,hq,hs,hcap]
  | ended he hset hq hq' hs => simp [AtomicQueue.take,Effect.call,atomic,he,hset,hq,hq',hs,hcap]
  | size hc => subst hc; rfl
  | empty hc => subst hc; rfl
  | stop hc => subst hc; rfl

theorem PopsEmpty.take {t : τ} (h : c.PopsEmpty e t) : c.atomic.take e .pop = .undefined := by
  obtain ⟨he,-,-,hstop,hq⟩ := h
  simp [AtomicQueue.take,atomic,he,hstop,hq]

end Channel

namespace Clients
variable {τ α : Type} [DecidableEq τ] {e : EmptyPop} {s s' : Clients τ α}

/-- What the clients see of the channel: not who waits, and not who holds the mutex. -/
def atomic (s : Clients τ α) : AtomicClients τ α := ⟨s.chan.atomic,s.calls,s.log⟩

theorem atomic_finish {t : τ} {c' : Channel τ α} {eff : Effect α}
    (hc : s.calls t = some eff.call) (h : eff.At e s.chan c')
    (hcap : c'.capacity = s.chan.capacity) :
    AtomicClients.step e s.atomic (.take t) = .next (s.finish t c' eff).atomic := by
  have htake : s.atomic.queue.take e eff.call = .next (eff,c'.atomic) :=
    Channel.take_of_at h hcap
  have hcalls : s.atomic.calls t = some eff.call := hc
  simp only [AtomicClients.step,hcalls,htake,Outcome.bind_next]
  rfl

variable [Fintype τ]

theorem Stepped.refines {a : ClientStep τ α} (h : Stepped e s a s') :
    s'.atomic = s.atomic ∨ ∃ b, AtomicClients.step e s.atomic b = .next s'.atomic := by
  cases h with
  | @call t c hidle =>
    have hnone : (s.atomic.calls t).isNone = true := by simp [atomic,hidle]
    exact .inr ⟨.call t c,if_pos hnone⟩
  | wake hw =>
    obtain ⟨cv,-,rfl⟩ := Channel.wakeSpuriously_cases hw
    exact .inl rfl
  | @push t target x r c' hc hp =>
    have hcap := hp.frame.2
    cases hp with
    | sleep => exact .inl rfl
    | park => exact .inl rfl
    | insert _ _ hroom =>
      have hat := hroom.imp_right fun h => h.imp_right And.right
      exact .inr ⟨.take t,atomic_finish hc (.push x hat rfl rfl) hcap⟩
  | @pop t target r c' hc hp =>
    have hcap := hp.frame.2
    cases hp with
    | sleep => exact .inl rfl
    | park => exact .inl rfl
    | remove _ _ hq => exact .inr ⟨.take t,atomic_finish hc (.pop hq rfl) hcap⟩
    | ended _ _ he hstop hq =>
      exact .inr ⟨.take t,atomic_finish hc (.ended he hstop hq hq rfl) hcap⟩
  | @size t target hc => exact .inr ⟨.take t,atomic_finish hc (.size rfl) rfl⟩
  | @empty t target hc => exact .inr ⟨.take t,atomic_finish hc (.empty rfl) rfl⟩
  | @stop t target hc => exact .inr ⟨.take t,atomic_finish hc (.stop rfl) rfl⟩

theorem refines_atomic (τ α : Type) [DecidableEq τ] [Fintype τ] (e : EmptyPop)
    (capacity : Nat) : Refines (program τ α e capacity) anyStep
      (AtomicClients.program τ α e capacity) anyStep atomic where
  start := rfl
  step := by
    intro s t a hs _ hstep
    have h := (step_cases (reachable_inv hs).disciplined hstep).refines
    exact h.imp_right fun ⟨b,hb⟩ => ⟨b,trivial,hb⟩
  undefined := by
    intro s a _ _ hstep
    obtain ⟨t,_,-,hc,hp⟩ := step_undefined_iff.mp hstep
    have hcalls : s.atomic.calls t = some .pop := hc
    have htake : s.atomic.queue.take e .pop = .undefined := hp.take
    exact ⟨.take t,trivial,by
      simp only [AtomicClients.program,AtomicClients.step,hcalls,htake,Outcome.bind_undefined]⟩

end Clients

/-! The other direction: what the atomic queue does, a channel on which nobody waits does in
as many steps. -/

namespace AtomicQueue
variable {τ α : Type}

def channel (q : AtomicQueue α) : Channel τ α := ⟨q.queue,Monitor.new,q.capacity,q.isStop⟩

variable [DecidableEq τ]

theorem new_leave (t : τ) : (Monitor.new : Monitor τ CondVar).leave t = Monitor.new := by
  unfold Monitor.leave Monitor.setStatus Monitor.new
  simp

variable [Fintype τ] {q r : AtomicQueue α} {e : EmptyPop} {eff : Effect α}

theorem leave_notifyOne (t : τ) (cv : CondVar) :
    ((Monitor.new : Monitor τ CondVar).leave t).notifyOne cv none = .next Monitor.new := by
  rw [new_leave]
  simp [Monitor.notifyOne,Monitor.new]

theorem channel_insert (t : τ) (x : α) :
    Channel.insert t x none q.channel =
      .next (.returned (),{ q with queue := q.queue ++ [x] }.channel) := by
  have hm := leave_notifyOne t .notEmpty
  simp only [Channel.insert,channel,hm,Outcome.bind_next]

theorem channel_push {t : τ} {x : α} (h : q.take e (.push x) = .next (eff,r)) :
    q.channel.push t x none = .next (.returned (),r.channel) ∧ eff = .push x := by
  simp only [take] at h
  split at h
  · rename_i hgo
    cases h
    refine ⟨?_,rfl⟩
    have hinsert := channel_insert (q := q) t x
    have hrun : q.channel.push t x none =
        if q.capacity ≠ sizeT (-1) ∧ q.capacity ≤ q.queue.length then
          q.channel.wait .notFull t (Channel.insert t x none)
        else Channel.insert t x none q.channel := rfl
    rw [hrun]
    split
    · rename_i hfull
      have hp : q.channel.predicate (τ := τ) .notFull = true := by
        rcases hgo with hset | hroom | hnone
        · simp [Channel.predicate,channel,hset]
        · exact absurd hroom (by omega)
        · exact absurd hnone hfull.1
      simp only [Channel.wait,hp,if_true]
      exact hinsert
    · exact hinsert
  · cases h

theorem channel_pop {t : τ} (h : q.take e .pop = .next (eff,r)) :
    ∃ x, q.channel.pop e t none = .next (.returned x,r.channel) ∧ eff = .pop x := by
  have hrun : q.channel.pop e t none =
      q.channel.wait .notEmpty t (Channel.remove e t none) := rfl
  rw [hrun]
  cases hq : q.queue with
  | cons x rest =>
    simp only [take,hq] at h
    cases h
    have hm := leave_notifyOne t .notFull
    refine ⟨some x,?_,rfl⟩
    simp [Channel.wait,Channel.predicate,Channel.remove,channel,hq,hm]
  | nil =>
    simp only [take,hq] at h
    split at h
    · rename_i hset
      cases e with
      | undefined => cases h
      | returnsFalse =>
        cases h
        refine ⟨none,?_,rfl⟩
        simp [Channel.wait,Channel.predicate,Channel.remove,channel,hq,hset,new_leave]
    · cases h

end AtomicQueue

namespace AtomicClients
variable {τ α : Type} [DecidableEq τ] {e : EmptyPop} {s s' : AtomicClients τ α}

/-- The clients of a channel on which nobody waits. -/
def clients (s : AtomicClients τ α) : Clients τ α :=
  ⟨s.queue.channel,s.calls,
    fun t => ((s.log.filter fun p => p.1 = t).map fun p => p.2.call) ++ (s.calls t).toList,s.log⟩

@[simp] theorem clients_atomic (s : AtomicClients τ α) : s.clients.atomic = s := rfl

theorem clients_setCall {t : τ} {c : Call α} (h : s.calls t = none) :
    (s.setCall t (some c)).clients = s.clients.makeCall t c := by
  have hmade : (s.setCall t (some c)).clients.made = (s.clients.makeCall t c).made := by
    funext u
    by_cases hu : u = t
    · subst hu
      simp [clients,setCall,Clients.makeCall,Clients.setCall,h]
    · simp [clients,setCall,Clients.makeCall,Clients.setCall,hu]
  simpa [clients,setCall,Clients.makeCall,Clients.setCall] using hmade

theorem clients_finish {t : τ} {eff : Effect α} {q : AtomicQueue α}
    (h : s.calls t = some eff.call) :
    { s.setCall t none with queue := q, log := s.log ++ [(t,eff)] }.clients =
      s.clients.finish t q.channel eff := by
  have hmade : { s.setCall t none with queue := q, log := s.log ++ [(t,eff)] }.clients.made =
      s.clients.made := by
    funext u
    by_cases hu : u = t
    · subst hu
      simp [clients,setCall,h]
    · simp [clients,setCall,hu,Ne.symm hu]
  simpa [clients,setCall,Clients.finish,Clients.setCall] using hmade

variable [Fintype τ]

/-- A call that may take effect does so in one step of its thread. -/
theorem clients_run {t : τ} {c : Call α} {eff : Effect α} {q : AtomicQueue α}
    (hc : s.calls t = some c) (h : s.queue.take e c = .next (eff,q)) :
    Clients.step e s.clients (.run t none) = .next (s.clients.finish t q.channel eff) ∧
      eff.call = c := by
  have hcalls : s.clients.calls t = some c := hc
  have hchan : s.clients.chan = s.queue.channel := rfl
  cases c with
  | push x =>
    obtain ⟨hp,rfl⟩ := AtomicQueue.channel_push (t := t) h
    refine ⟨?_,rfl⟩
    simp only [Clients.step,hcalls,hchan,hp,Clients.resume,Outcome.bind_next,Clients.settle]
  | pop =>
    obtain ⟨x,hp,rfl⟩ := AtomicQueue.channel_pop (t := t) h
    refine ⟨?_,rfl⟩
    simp only [Clients.step,hcalls,hchan,hp,Clients.resume,Outcome.bind_next,Clients.settle]
  | size =>
    cases h
    refine ⟨?_,rfl⟩
    simp only [Clients.step,hcalls]
    rfl
  | empty =>
    cases h
    refine ⟨?_,rfl⟩
    simp only [Clients.step,hcalls]
    rfl
  | stop =>
    cases h
    refine ⟨?_,rfl⟩
    simp only [Clients.step,hcalls]
    rfl

theorem clients_run_undefined {t : τ} {c : Call α} (hc : s.calls t = some c)
    (h : s.queue.take e c = .undefined) :
    Clients.step e s.clients (.run t none) = .undefined := by
  have hcalls : s.clients.calls t = some c := hc
  cases c with
  | push x => simp only [AtomicQueue.take] at h; split at h <;> cases h
  | pop =>
    have hawake : ∀ cv, s.clients.chan.monitor.status t ≠ .asleep cv := by
      intro cv hcv
      cases hcv
    have hp : s.clients.chan.PopsEmpty e t := by
      simp only [AtomicQueue.take] at h
      split at h
      · cases h
      · rename_i hq
        split at h
        · rename_i hset
          cases e with
          | undefined => exact ⟨rfl,rfl,hawake,hset,hq⟩
          | returnsFalse => cases h
        · cases h
    have hundef : s.clients.chan.pop e t none = .undefined := Channel.pop_undefined_iff.mpr hp
    simp only [Clients.step,hcalls,Clients.resume,hundef,Outcome.bind_undefined]
  | size => cases h
  | empty => cases h
  | stop => cases h

theorem refines_clients (τ α : Type) [DecidableEq τ] [Fintype τ] (e : EmptyPop)
    (capacity : Nat) : Refines (program τ α e capacity) anyStep
      (Clients.program τ α e capacity) anyStep clients where
  start := by
    simp [program,start,clients,AtomicQueue.new,AtomicQueue.channel,Clients.program,
      Clients.start,Channel.new]
  step := by
    intro s s' a _ _ hstep
    refine .inr ?_
    cases a with
    | call t c =>
      simp only [program,step] at hstep
      split at hstep
      · rename_i hidle
        cases hstep
        refine ⟨.call t c,trivial,?_⟩
        rw [clients_setCall (by simpa using hidle)]
        exact if_pos hidle
      · cases hstep
    | take t =>
      simp only [program,step] at hstep
      cases hc : s.calls t with
      | none => simp [hc] at hstep
      | some c =>
        simp only [hc] at hstep
        obtain ⟨⟨eff,q⟩,htake,hstep⟩ := Outcome.bind_eq_next.mp hstep
        cases hstep
        obtain ⟨hrun,rfl⟩ := clients_run hc htake
        refine ⟨.run t none,trivial,?_⟩
        rw [clients_finish hc]
        exact hrun
  undefined := by
    intro s a _ _ hstep
    cases a with
    | call t c =>
      simp only [program,step] at hstep
      split at hstep <;> cases hstep
    | take t =>
      simp only [program,step] at hstep
      cases hc : s.calls t with
      | none => simp [hc] at hstep
      | some c =>
        simp only [hc] at hstep
        obtain htake | ⟨p,-,h⟩ := Outcome.bind_eq_undefined.mp hstep
        · exact ⟨.run t none,trivial,clients_run_undefined hc htake⟩
        · cases h

end AtomicClients

/-- A thread takes a step inside its call. -/
def ClientStep.IsRun {τ α : Type} : ClientStep τ α → Prop
  | .run _ _ => True
  | _ => False

namespace Clients
variable {τ α : Type} [DecidableEq τ] [Fintype τ] {e : EmptyPop} {s s' : Clients τ α}

/-- What the threads see of a channel, whatever its mutex and its condition variables do in
between, is what they see of the atomic queue, undefined behaviour included. -/
theorem observed_as_atomic_queue (τ α : Type) [DecidableEq τ] [Fintype τ] (e : EmptyPop)
    (capacity : Nat) :
    Refines (program τ α e capacity) anyStep (AtomicClients.program τ α e capacity) anyStep
      atomic ∧
    Refines (AtomicClients.program τ α e capacity) anyStep (program τ α e capacity) anyStep
      AtomicClients.clients ∧
    ∀ r, Reachable (AtomicClients.program τ α e capacity) anyStep r ↔
      ∃ s, Reachable (program τ α e capacity) anyStep s ∧ s.atomic = r := by
  have habs := refines_atomic τ α e capacity
  have hconc := AtomicClients.refines_clients τ α e capacity
  refine ⟨habs,hconc,fun r => ⟨fun hr => ?_,fun hs => ?_⟩⟩
  · exact ⟨r.clients,hconc.reachable hr,r.clients_atomic⟩
  · obtain ⟨s,hs,rfl⟩ := hs
    exact habs.reachable hs

/-! Waiting. A thread step without effect brings its thread nearer to sleep. -/

def unrest (s : Clients τ α) : Nat := ∑ t, s.chan.monitor.unrest t

theorem unrest_le (s : Clients τ α) : s.unrest ≤ 2 * Fintype.card τ := by
  have hle := Finset.sum_le_card_nsmul Finset.univ s.chan.monitor.unrest 2
    fun t _ => s.chan.monitor.unrest_le t
  rw [Finset.card_univ,Nat.nsmul_eq_mul,Nat.mul_comm] at hle
  exact hle

theorem unrest_lt {t : τ} {cv : CondVar} (h : Monitor.Critical t cv s.chan.monitor true
    s'.chan.monitor) : s'.unrest < s.unrest := by
  obtain ⟨hlt,heq⟩ := h.unrest
  refine Finset.sum_lt_sum (fun u _ => ?_) ⟨t,Finset.mem_univ t,hlt⟩
  by_cases hu : u = t
  · subst hu
    exact hlt.le
  · exact (heq u hu).le

theorem Stepped.settles {a : ClientStep τ α} (h : Stepped e s a s') (ha : a.IsRun) :
    s'.log.length = s.log.length ∧ s'.unrest < s.unrest ∨
      s'.log.length = s.log.length + 1 := by
  have hfinish : ∀ t c eff, (s.finish t c eff).log.length = s.log.length + 1 := by
    intro t c eff
    simp [finish]
  cases h with
  | call => cases ha
  | wake => cases ha
  | @push t target x r c' hc hp =>
    have hcritical := hp.critical
    cases r with
    | blocked => exact .inl ⟨rfl,unrest_lt hcritical⟩
    | returned => exact .inr (hfinish _ _ _)
  | @pop t target r c' hc hp =>
    have hcritical := hp.critical
    cases r with
    | blocked => exact .inl ⟨rfl,unrest_lt hcritical⟩
    | returned => exact .inr (hfinish _ _ _)
  | size => exact .inr (hfinish _ _ _)
  | empty => exact .inr (hfinish _ _ _)
  | stop => exact .inr (hfinish _ _ _)

/-- A thread that may take the mutex goes on, whatever its call is. -/
theorem run_enabled {t : τ} {c : Call α} (hs : s.Disciplined) (hopen : s.chan.isStop = false)
    (hc : s.calls t = some c) (ho : s.chan.monitor.owner = none)
    (hawake : ∀ cv, s.chan.monitor.status t ≠ .asleep cv) :
    ∃ target s', step e s (.run t target) = .next s' := by
  have hrunning : c.waitsOn = none → s.chan.monitor.status t = .running := by
    intro hnone
    rw [← Status.waitsOn_eq_none_iff]
    cases hw : (s.chan.monitor.status t).waitsOn with
    | none => rfl
    | some cv =>
      have hcall := hs.waits t cv hw
      rw [hc,Option.bind_some,hnone] at hcall
      cases hcall
  cases c with
  | push x =>
    obtain ⟨target,p,hp⟩ := Channel.push_enabled ho hawake x
    exact ⟨target,s.settle t (fun _ => .push x) p.1 p.2,by simp [step,hc,resume,hp]⟩
  | pop =>
    have hno : ¬ s.chan.PopsEmpty e t := by
      intro h
      rw [h.stopped] at hopen
      cases hopen
    obtain ⟨target,p,hp⟩ := Channel.pop_enabled ho hawake hno
    exact ⟨target,s.settle t .pop p.1 p.2,by simp [step,hc,resume,hp]⟩
  | size =>
    have hrun := hrunning rfl
    exact ⟨none,_,by simp [step,hc,resume,Channel.size,Channel.lock,ho,hrun]; rfl⟩
  | empty =>
    have hrun := hrunning rfl
    exact ⟨none,_,by simp [step,hc,resume,Channel.empty,Channel.lock,ho,hrun]; rfl⟩
  | stop => exact ⟨none,_,by simp [step,hc]; rfl⟩

omit [DecidableEq τ] in
/-- Where something is to be had, one who sleeps on it leaves a notified thread awake. -/
theorem exists_notified {t : τ} {cv : CondVar} {n : Nat}
    (hcover : s.chan.monitor.Covered cv n) (hn : 0 < n)
    (ht : s.chan.monitor.status t = .asleep cv) : ∃ u, s.chan.monitor.status u = .notified cv := by
  have hcard := hcover ⟨t,ht⟩
  obtain ⟨u,hu⟩ := Finset.card_pos.mp (Nat.lt_of_lt_of_le hn hcard)
  exact ⟨u,Monitor.mem_notified.mp hu⟩

/-- Nobody sleeps through what the atomic queue would let him do, unless another thread has
been notified of it. -/
theorem Inv.notified_of_asleep {t : τ} {c : Call α} {cv : CondVar} (hs : s.Inv)
    (hopen : s.chan.isStop = false) (hfree : s.chan.capacity = sizeT (-1) → s.PushesFreely)
    (hc : s.calls t = some c) (ht : s.chan.monitor.status t = .asleep cv)
    (hgo : s.chan.atomic.take e c ≠ .disabled) :
    ∃ u, s.chan.monitor.status u = .notified cv := by
  have hw := hs.disciplined.waits t cv (by rw [ht]; rfl)
  rw [hc] at hw
  cases c with
  | push x =>
    cases hw
    refine exists_notified hs.awake.room ?_ ht
    by_contra hfull
    by_cases hcap : s.chan.capacity = sizeT (-1)
    · exact hfree hcap t x hc (.inr (by simp [ht]))
    · have hlen : ¬ s.chan.queue.length < s.chan.capacity := by omega
      exact hgo (by simp [AtomicQueue.take,Channel.atomic,hopen,hlen,hcap])
  | pop =>
    cases hw
    refine exists_notified hs.awake.items ?_ ht
    by_contra hempty
    have hq : s.chan.queue = [] := List.length_eq_zero_iff.mp (by omega)
    exact hgo (by simp [AtomicQueue.take,Channel.atomic,hopen,hq])
  | size => cases hw
  | empty => cases hw
  | stop => cases hw

theorem Inv.stuck_is_atomic (hs : s.Inv) (hopen : s.chan.isStop = false)
    (hfree : s.chan.capacity = sizeT (-1) → s.PushesFreely)
    (hstuck : ∀ t target s', Clients.step e s (.run t target) ≠ .next s') {t : τ} {c : Call α}
    (hc : s.calls t = some c) : s.chan.atomic.take e c = .disabled := by
  by_contra hgo
  have hnotGo : ¬ ∃ u target s', Clients.step e s (.run u target) = .next s' := by
    intro h
    obtain ⟨u,target,s',hstep⟩ := h
    exact hstuck u target s' hstep
  cases ho : s.chan.monitor.owner with
  | some p =>
    obtain ⟨u,cv⟩ := p
    exact hnotGo ⟨u,none,_,step_parked none hs.disciplined ho⟩
  | none =>
    by_cases hawake : ∀ cv, s.chan.monitor.status t ≠ .asleep cv
    · exact hnotGo ⟨t,run_enabled hs.disciplined hopen hc ho hawake⟩
    · simp only [ne_eq,not_forall,not_not] at hawake
      obtain ⟨cv,ht⟩ := hawake
      obtain ⟨u,hu⟩ := hs.notified_of_asleep hopen hfree hc ht hgo
      -- the notified thread is inside a call, for it has not left its wait
      have hcall := hs.disciplined.waits u cv (by rw [hu]; rfl)
      cases hcu : s.calls u with
      | none => rw [hcu] at hcall; cases hcall
      | some d => exact hnotGo ⟨u,run_enabled hs.disciplined hopen hcu ho (by simp [hu])⟩

/-- A schedule of thread steps has an effect at the latest every `2n+1` steps for `n` threads,
and the threads of an open channel are stuck only where the atomic queue lets none of their
calls take effect. -/
theorem waits_only_as_atomic_queue {capacity : Nat}
    (hs : Reachable (program τ α e capacity) anyStep s) :
    (∀ as s', (∀ a ∈ as, a.IsRun) → replay (program τ α e capacity) s as = .next s' →
      ∃ n, s'.log.length = s.log.length + n ∧
        as.length ≤ 2 * Fintype.card τ + (2 * Fintype.card τ + 1) * n) ∧
    (s.chan.isStop = false → (∀ t target s', step e s (.run t target) ≠ .next s') →
      ∀ t c, s.calls t = some c → s.chan.atomic.take e c = .disabled) := by
  refine ⟨fun as s' has hrun => ?_,fun hopen hstuck t c hc => ?_⟩
  · obtain ⟨n,hn,hle⟩ := replay_amortized (P := Reachable (program τ α e capacity) anyStep)
      unrest (fun s => s.log.length) unrest_le
      (fun hu ha hstep => ⟨hu.next trivial hstep,
        (step_cases (reachable_inv hu).disciplined hstep).settles ha⟩) has hs hrun
    have hs := s.unrest_le
    exact ⟨n,hn,by omega⟩
  · refine (reachable_inv hs).stuck_is_atomic hopen (fun hcap => ?_) hstuck hc
    have hcapacity : capacity = Channel.packetCapacity := (reachable_capacity hs).symm.trans hcap
    subst hcapacity
    exact reachable_pushesFreely hs

/-- One thread asleep in a pop of an empty channel. -/
theorem waits_only_as_atomic_queue_pop :
    ∃ s, Reachable (program Bool Nat .undefined 1) anyStep s ∧ s.calls true = some .pop ∧
      s.chan.atomic.take .undefined .pop = .disabled := by
  obtain ⟨s,hs,hp⟩ := Reachable.exists_of_replay (program Bool Nat .undefined 1) anyStep
    [.call true .pop,.run true none,.run true none]
    (fun s => decide (s.chan.isStop = false ∧ s.calls true = some .pop ∧
      ∀ t target, (step .undefined s (.run t target)).test (fun _ => true) = false))
    (fun _ _ _ => trivial) (by decide)
  obtain ⟨hopen,hc,hstuck⟩ := of_decide_eq_true hp
  refine ⟨s,hs,hc,(waits_only_as_atomic_queue hs).2 hopen (fun t target s' h => ?_) true .pop hc⟩
  have hno := hstuck t target
  rw [h] at hno
  cases hno

end Clients
end HyperStream
