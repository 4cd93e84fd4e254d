import HyperStream.Clients
set_option autoImplicit false

open Transition

namespace HyperStream.Clients
variable {τ α : Type} [DecidableEq τ] [Fintype τ]

/-- `t` is in a pop whose wait is over: what it runs next is the rest of the critical
section. -/
structure PopsNow (s : Clients τ α) (t : τ) : Prop where
  call : s.calls t = some .pop
  free : s.chan.monitor.owner = none
  awake : ∀ cv, s.chan.monitor.status t ≠ .asleep cv
  goesOn : s.chan.predicate .notEmpty = true

/-- A pop past its wait returns: true with the front item or, on an empty queue, false; and
it never reads the front of an empty queue. -/
structure PopContract (e : EmptyPop) (s : Clients τ α) (t : τ) : Prop where
  returns : ∃ target s', step e s (.run t target) = .next s'
  defined : ∀ target, step e s (.run t target) ≠ .undefined
  result : ∀ target s', step e s (.run t target) = .next s' →
    s'.log = s.log ++ [(t,.pop s.chan.queue.head?)] ∧ s'.chan.queue = s.chan.queue.tail

def popped (log : List (τ × Effect α)) : List (Option α) :=
  log.filterMap fun p => match p.2 with | .pop x => some x | _ => none

omit [DecidableEq τ] [Fintype τ] in
@[simp] theorem popped_append (log later : List (τ × Effect α)) :
    popped (log ++ later) = popped log ++ popped later := by simp [popped]

def NoPush (later : List (τ × Effect α)) : Prop := ∀ t x, (t,Effect.push x) ∉ later

variable {e : EmptyPop} {s s' : Clients τ α} {t : τ}

theorem step_popsNow (h : s.PopsNow t) (target : Option τ) :
    step e s (.run t target) = s.resume t .pop (s.chan.remove e t target) := by
  have hw : s.chan.wait .notEmpty t (Channel.remove e t target) = s.chan.remove e t target := by
    simp [Channel.wait,h.goesOn]
  cases hst : s.chan.monitor.status t with
  | asleep cv => exact absurd hst (h.awake cv)
  | _ => simp [step,h.call,Channel.pop,Channel.lock,h.free,hst,hw]

theorem remove_cons {c : Channel τ α} {x : α} {rest : List α} (hq : c.queue = x :: rest)
    (target : Option τ) : c.remove e t target =
      ((c.monitor.leave t).notifyOne .notFull target).bind fun m =>
        .next (.returned (some x),{ c with queue := rest, monitor := m }) := by
  unfold Channel.remove
  rw [hq]

theorem remove_nil {c : Channel τ α} (hq : c.queue = []) (target : Option τ) :
    c.remove .returnsFalse t target =
      .next (.returned none,{ c with monitor := c.monitor.leave t }) ∧
    c.remove .undefined t target = .undefined := by
  unfold Channel.remove
  rw [hq]
  exact ⟨rfl,rfl⟩

theorem popContract_of_item (h : s.PopsNow t) (hq : s.chan.queue ≠ []) : PopContract e s t := by
  obtain ⟨x,rest,hq⟩ := List.exists_cons_of_ne_nil hq
  have hstep : ∀ target, step e s (.run t target) =
      ((s.chan.monitor.leave t).notifyOne .notFull target).bind fun m =>
        .next (s.finish t { s.chan with queue := rest, monitor := m } (.pop (some x))) := by
    intro target
    rw [step_popsNow h,remove_cons hq]
    cases (s.chan.monitor.leave t).notifyOne .notFull target <;> rfl
  refine ⟨?_,fun target hu => ?_,fun target s' hs => ?_⟩
  · obtain ⟨target,m,hm⟩ := (s.chan.monitor.leave t).exists_notifyOne .notFull
    exact ⟨target,_,by rw [hstep,hm]; rfl⟩
  · rw [hstep] at hu
    cases hm : (s.chan.monitor.leave t).notifyOne .notFull target with
    | undefined => exact Monitor.notifyOne_ne_undefined _ _ _ hm
    | _ => rw [hm] at hu; cases hu
  · rw [hstep] at hs
    obtain ⟨m,-,hs⟩ := Outcome.bind_eq_next.mp hs
    cases hs
    simp [finish,hq]

theorem not_popContract_of_empty (h : s.PopsNow t) (hq : s.chan.queue = []) :
    ¬ PopContract .undefined s t := by
  intro hp
  apply hp.defined none
  rw [step_popsNow h,(remove_nil hq none).2]
  rfl

/-- With the false return that the loops test for, the contract has no exception. -/
theorem popContract_of_returnsFalse (h : s.PopsNow t) : PopContract .returnsFalse s t := by
  by_cases hq : s.chan.queue = []
  · have hstep : ∀ target, step .returnsFalse s (.run t target) = .next (s.finish t
        { s.chan with monitor := s.chan.monitor.leave t } (.pop none)) := by
      intro target
      rw [step_popsNow h,(remove_nil hq target).1]
      rfl
    refine ⟨⟨none,_,hstep none⟩,fun target hu => ?_,fun target s' hs => ?_⟩
    · rw [hstep] at hu
      cases hu
    · rw [hstep] at hs
      cases hs
      simp [finish,hq]
  · exact popContract_of_item h hq

/-- What the pops returned while nothing was pushed: items of the queue in order and, once it
is empty, any number of false returns. -/
def Drained (e : EmptyPop) (before after : List α) (results : List (Option α)) : Prop :=
  ∃ taken m, results = taken.map some ++ List.replicate m none ∧ before = taken ++ after ∧
    (0 < m → after = [] ∧ e = .returnsFalse)

theorem Drained.item {before after : List α} {results : List (Option α)} {x : α}
    (h : Drained e before (x :: after) results) :
    Drained e before after (results ++ [some x]) := by
  obtain ⟨taken,m,hr,hq,hm⟩ := h
  have hzero : m = 0 := by
    by_contra hne
    cases (hm (by omega)).1
  subst hzero
  exact ⟨taken ++ [x],0,by simpa using hr,by simpa using hq,by simp⟩

theorem Drained.ended {before : List α} {results : List (Option α)}
    (h : Drained .returnsFalse before [] results) :
    Drained .returnsFalse before [] (results ++ [none]) := by
  obtain ⟨taken,m,hr,hq,-⟩ := h
  refine ⟨taken,m+1,?_,hq,fun _ => ⟨rfl,rfl⟩⟩
  rw [hr,List.append_assoc,List.replicate_succ']

/-- The log of a run only grows and, as long as nothing is pushed, the pops drain the queue. -/
structure Since (e : EmptyPop) (s s' : Clients τ α) (later : List (τ × Effect α)) : Prop where
  log : s'.log = s.log ++ later
  drained : NoPush later → Drained e s.chan.queue s'.chan.queue (popped later)

omit [DecidableEq τ] [Fintype τ] in
theorem Since.refl (s : Clients τ α) : Since e s s [] :=
  ⟨by simp,fun _ => ⟨[],0,rfl,rfl,by simp⟩⟩

omit [DecidableEq τ] [Fintype τ] in
theorem Since.step {u : Clients τ α} {later : List (τ × Effect α)} (h : Since e s u later)
    (hs : Took e u s') : ∃ later', Since e s s' later' := by
  cases hs with
  | silent hlog hq => exact ⟨later,hlog.trans h.log,fun hno => by rw [hq]; exact h.drained hno⟩
  | @effect t eff hlog hat =>
    have hbefore : NoPush (later ++ [(t,eff)]) → Drained e s.chan.queue u.chan.queue
        (popped later) := fun hno => h.drained fun v x hmem => hno v x (by simp [hmem])
    refine ⟨later ++ [(t,eff)],by rw [hlog,h.log,List.append_assoc],fun hno => ?_⟩
    have hd := hbefore hno
    rw [popped_append]
    cases hat with
    | push x => exact absurd (by simp) (hno t x)
    | pop hq => rw [hq] at hd; exact hd.item
    | ended he _ hq hq' => subst he; rw [hq] at hd; rw [hq']; exact hd.ended
    | size hc => simpa [popped,hc] using hd
    | empty hc => simpa [popped,hc] using hd
    | stop hc => simpa [popped,hc,Channel.stop] using hd

theorem run_since {capacity : Nat} {ok : Clients τ α → ClientStep τ α → Prop}
    (hs : Reachable (program τ α e capacity) ok s) (h : Run (program τ α e capacity) ok s s') :
    ∃ later, Since e s s' later :=
  h.induction (P := fun u => ∃ later, Since e s u later) hs ⟨[],.refl s⟩
    fun hu hl _ hstep => hl.elim fun _ hl => hl.step (reachable_took hu hstep)

theorem Drained.length {before after : List α} {results : List (Option α)}
    (h : Drained .undefined before after results) :
    results = (before.take results.length).map some ∧
      (after ≠ [] ↔ results.length < before.length) := by
  obtain ⟨taken,m,hr,rfl,hm⟩ := h
  have hzero : m = 0 := by
    by_contra hne
    cases (hm (by omega)).2
  subst hzero
  rw [List.replicate_zero,List.append_nil] at hr
  subst hr
  simp [List.length_pos_iff]

def PopsMeetContract (τ α : Type) [DecidableEq τ] [Fintype τ] (capacity : Nat) : Prop :=
  ∀ s : Clients τ α, Reachable (program τ α .undefined capacity) anyStep s →
    ∀ t, s.PopsNow t → PopContract .undefined s t

/-- Thread `false` stops the empty channel, then thread `true` pops. -/
def popAfterStop : List (ClientStep Bool Nat) :=
  [.call false .stop,.run false none,.call true .pop]

theorem empty_pop_breaks_contract : ¬ PopsMeetContract Bool Nat Channel.frameCapacity := by
  intro h
  obtain ⟨s,hs,hp⟩ := Reachable.exists_of_replay
    (program Bool Nat .undefined Channel.frameCapacity) anyStep popAfterStop
    (fun s => s.calls true = some .pop ∧ s.chan.monitor.owner = none ∧
      s.chan.monitor.status true = .running ∧ s.chan.isStop = true ∧ s.chan.queue = [])
    (fun _ _ _ => trivial) (by decide)
  simp only [decide_eq_true_eq] at hp
  obtain ⟨hcall,hfree,hrun,hstop,hq⟩ := hp
  have hpops : s.PopsNow true := ⟨hcall,hfree,by simp [hrun],by simp [Channel.predicate,hstop]⟩
  exact not_popContract_of_empty hpops hq (h s hs true hpops)

/-- A pop past its wait meets its contract exactly if the queue holds an item. So as long as
nothing is pushed the pops take the queued items in order, and exactly those that there is
an item for meet it. -/
theorem pop_contract_iff_item (τ α : Type) [DecidableEq τ] [Fintype τ] (capacity : Nat) :
    (∀ (s : Clients τ α) (t : τ), s.PopsNow t →
      (PopContract .undefined s t ↔ s.chan.queue ≠ [])) ∧
    ∀ s s' : Clients τ α, Reachable (program τ α .undefined capacity) anyStep s →
      Run (program τ α .undefined capacity) anyStep s s' →
      ∀ later, s'.log = s.log ++ later → NoPush later →
        popped later = (s.chan.queue.take (popped later).length).map some ∧
        ∀ t, s'.PopsNow t →
          (PopContract .undefined s' t ↔ (popped later).length < s.chan.queue.length) := by
  have hiff : ∀ (s : Clients τ α) (t : τ), s.PopsNow t →
      (PopContract .undefined s t ↔ s.chan.queue ≠ []) := by
    intro s t ht
    exact ⟨fun hp hq => not_popContract_of_empty ht hq hp,popContract_of_item ht⟩
  refine ⟨hiff,fun s s' hs hrun later hlog hno => ?_⟩
  obtain ⟨later',hsince⟩ := run_since hs hrun
  obtain rfl : later = later' := List.append_cancel_left (hlog.symm.trans hsince.log)
  obtain ⟨hresults,hitem⟩ := (hsince.drained hno).length
  exact ⟨hresults,fun t ht => (hiff s' t ht).trans hitem⟩

/-- If pop returned false where the loops expect it, the law would have no condition. -/
theorem pops_drain_then_end (capacity : Nat) {s s' : Clients τ α}
    (hs : Reachable (program τ α .returnsFalse capacity) anyStep s)
    (h : Run (program τ α .returnsFalse capacity) anyStep s s') :
    (∀ t, s'.PopsNow t → PopContract .returnsFalse s' t) ∧
      ∃ later, s'.log = s.log ++ later ∧ (NoPush later →
        Drained .returnsFalse s.chan.queue s'.chan.queue (popped later)) := by
  obtain ⟨later,hsince⟩ := run_since hs h
  exact ⟨fun t ht => popContract_of_returnsFalse ht,later,hsince.log,hsince.drained⟩

end HyperStream.Clients
