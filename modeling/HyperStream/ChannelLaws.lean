import HyperStream.Clients
set_option autoImplicit false

open Transition

namespace HyperStream.Clients
variable {τ α : Type} [DecidableEq τ] [Fintype τ]

/-- The critical sections of the calls form a history of a sequential FIFO queue that
leaves what the channel holds, each call takes effect once between the moment it is made
and its return, and the i-th item that a pop returned is the i-th that a push inserted. -/
theorem channel_linearizable (capacity : Nat) (s : Clients τ α)
    (h : Reachable (program τ α .undefined capacity) anyStep s) :
    Fifo.Legal s.ops s.chan.queue ∧
    (∀ t, (s.returned t).map Effect.call ++ (s.calls t).toList = s.made t) ∧
    Fifo.pushes s.ops = Fifo.pops s.ops ++ s.chan.queue ∧
    ∀ i, i < (Fifo.pops s.ops).length → (Fifo.pops s.ops)[i]? = (Fifo.pushes s.ops)[i]? := by
  have hs := reachable_inv h
  exact ⟨hs.legal,hs.answered,hs.legal.pushes_eq,fun i hi => hs.legal.pops_getElem? hi⟩

/-- Thread 1 sleeps in pop, thread 0 pushes twice, thread 1 takes one item. -/
def sampleRun : List (ClientStep (Fin 2) Nat) :=
  [.call 1 .pop,.run 1 none,.run 1 none,.call 0 (.push 7),.run 0 (some 1),
   .call 0 (.push 8),.run 0 none,.run 1 none]

theorem channel_linearizable_sample :
    ∃ s : Clients (Fin 2) Nat, s.chan.queue = [8] ∧ Fifo.pops s.ops = [7] ∧
      Fifo.pushes s.ops = Fifo.pops s.ops ++ s.chan.queue := by
  obtain ⟨s,hs,hp⟩ := Reachable.exists_of_replay
    (program (Fin 2) Nat .undefined Channel.frameCapacity) anyStep sampleRun
    (fun s => s.chan.queue = [8] && Fifo.pops s.ops = [7]) (fun _ _ _ => trivial) (by decide)
  simp only [Bool.and_eq_true,decide_eq_true_eq] at hp
  exact ⟨s,hp.1,hp.2,(channel_linearizable _ s hs).2.2.1⟩

/-- `t` sleeps on `cv` and no notification for it is on the way. -/
def Asleep (s : Clients τ α) (cv : CondVar) (t : τ) : Prop :=
  s.chan.monitor.status t = .asleep cv

def Inside (s : Clients τ α) (t : τ) : Prop := (s.calls t).bind Call.waitsOn ≠ none

def NeverStops (_ : Clients τ α) (a : ClientStep τ α) : Prop := ∀ t, a ≠ .call t .stop

theorem Inv.inside_of_notified {s : Clients τ α} (hs : s.Inv) {cv : CondVar} {t : τ}
    (ht : t ∈ s.chan.monitor.notified cv) : s.Inside t := by
  have hw : (s.chan.monitor.status t).waitsOn = some cv := by
    rw [Monitor.mem_notified.mp ht]; rfl
  rw [Inside,hs.disciplined.waits t cv hw]
  simp

theorem Inv.notified_eq_empty {s : Clients τ α} (hs : s.Inv)
    (hall : ∀ t, s.Inside t → ∃ cv, s.Asleep cv t) (cv : CondVar) :
    s.chan.monitor.notified cv = ∅ := by
  apply Finset.eq_empty_of_forall_notMem
  intro t ht
  obtain ⟨d,hd⟩ := hall t (hs.inside_of_notified ht)
  rw [Asleep,Monitor.mem_notified.mp ht] at hd
  cases hd

/-- The items are at most the notified poppers while a popper sleeps, the free slots at most
the notified pushers while a pusher sleeps, so a channel never rests with work to do. -/
theorem no_lost_wakeup (s : Clients τ α)
    (h : Reachable (program τ α .undefined Channel.frameCapacity) NeverStops s) :
    ((∃ t, s.Asleep .notEmpty t) →
      s.chan.queue.length ≤ (s.chan.monitor.notified .notEmpty).card) ∧
    ((∃ t, s.Asleep .notFull t) →
      50 - s.chan.queue.length ≤ (s.chan.monitor.notified .notFull).card) ∧
    ((∀ t, s.Inside t → ∃ cv, s.Asleep cv t) →
      ¬ ((∃ t, s.Asleep .notEmpty t) ∧ s.chan.queue ≠ []) ∧
      ¬ ((∃ t, s.Asleep .notFull t) ∧ s.chan.queue.length < 50)) ∧
    ((∀ cv, s.chan.monitor.notified cv = ∅) →
      ¬ ((∃ t, s.Asleep .notEmpty t) ∧ ∃ t, s.Asleep .notFull t)) := by
  have hs := reachable_inv h
  have hcap : s.chan.capacity = 50 := reachable_capacity h
  have hitems := hs.awake.items
  have hroom := hs.awake.room
  rw [hcap] at hroom
  refine ⟨hitems,hroom,fun hall => ⟨?_,?_⟩,?_⟩
  · intro hboth
    obtain ⟨ht,hq⟩ := hboth
    have hle := hitems ht
    rw [hs.notified_eq_empty hall,Finset.card_empty] at hle
    exact hq (List.length_eq_zero_iff.mp (by omega))
  · intro hboth
    obtain ⟨ht,hq⟩ := hboth
    have hle := hroom ht
    rw [hs.notified_eq_empty hall,Finset.card_empty] at hle
    omega
  · intro hno hboth
    obtain ⟨hpop,hpush⟩ := hboth
    have hle := hitems hpop
    have hge := hroom hpush
    rw [hno,Finset.card_empty] at hle hge
    omega

theorem no_lost_wakeup_sample :
    ∃ s : Clients (Fin 2) Nat, s.Asleep .notEmpty 1 ∧
      ¬ ((∃ t, s.Asleep .notEmpty t) ∧ ∃ t, s.Asleep .notFull t) := by
  obtain ⟨s,hs,hp⟩ := Reachable.exists_of_replay
    (program (Fin 2) Nat .undefined Channel.frameCapacity) NeverStops (sampleRun.take 3)
    (fun s => s.chan.monitor.status 1 = .asleep .notEmpty ∧
      ∀ t, s.chan.monitor.status t ≠ .notified .notEmpty ∧
        s.chan.monitor.status t ≠ .notified .notFull)
    (fun a ha _ t => by intro heq; subst heq; simp [sampleRun] at ha) (by decide)
  simp only [decide_eq_true_eq] at hp
  refine ⟨s,hp.1,(no_lost_wakeup s hs).2.2.2 fun cv => ?_⟩
  apply Finset.eq_empty_of_forall_notMem
  intro t ht
  rw [Monitor.mem_notified] at ht
  cases cv with
  | notEmpty => exact (hp.2 t).1 ht
  | notFull => exact (hp.2 t).2 ht

def Stopped (s : Clients τ α) : Prop := ∃ t, (t,Effect.stop) ∈ s.log

/-- Nobody sleeps, or is on the way to sleep between its vain test and its wait. -/
def Quiet (s : Clients τ α) : Prop :=
  s.chan.monitor.owner = none ∧ ∀ cv t, ¬ s.Asleep cv t

def StopsQuietly (s : Clients τ α) (a : ClientStep τ α) : Prop :=
  ∀ t target, a = .run t target → s.calls t = some .stop → s.Quiet

def StopWakesAll (τ α : Type) [DecidableEq τ] [Fintype τ] (capacity : Nat) : Prop :=
  ∀ s : Clients τ α, Reachable (program τ α .undefined capacity) anyStep s → s.Stopped →
    ∀ cv t, ¬ s.Asleep cv t

/-- Thread 1 sleeps in pop when thread 0 stops the channel. -/
def stopRun : List (ClientStep (Fin 2) Nat) :=
  [.call 1 .pop,.run 1 none,.run 1 none,.call 0 .stop,.run 0 none]

theorem stop_leaves_a_sleeper : ¬ StopWakesAll (Fin 2) Nat Channel.frameCapacity := by
  intro h
  obtain ⟨s,hs,hp⟩ := Reachable.exists_of_replay
    (program (Fin 2) Nat .undefined Channel.frameCapacity) anyStep stopRun
    (fun s => (0,Effect.stop) ∈ s.log ∧ s.chan.monitor.status 1 = .asleep .notEmpty)
    (fun _ _ _ => trivial) (by decide)
  simp only [decide_eq_true_eq] at hp
  exact h s hs ⟨0,hp.1⟩ .notEmpty 1 hp.2

theorem Quiet.step {e : EmptyPop} {s s' : Clients τ α} {a : ClientStep τ α}
    (hstop : s.chan.isStop = true) (hq : s.Quiet) (h : Stepped e s a s') :
    s'.chan.isStop = true ∧ s'.Quiet := by
  have hno : ∀ {t : τ} {cv : CondVar} {m : Monitor τ CondVar} {b : Bool},
      Monitor.Critical t cv s.chan.monitor b m → ∀ d u, m.status u ≠ .asleep d := by
    intro t cv m b hc d u hu
    rcases hc.asleep hu with ha | ho
    · exact hq.2 d u ha
    · rw [hq.1] at ho; cases ho
  cases h with
  | call => exact ⟨hstop,hq⟩
  | wake hw =>
    obtain ⟨cv,hcv,-⟩ := Channel.wakeSpuriously_cases hw
    exact absurd hcv (hq.2 cv _)
  | push _ hp =>
    have hawake := hno hp.critical
    cases hp with
    | sleep ho => rw [hq.1] at ho; cases ho
    | park _ _ hf => rw [hstop] at hf; cases hf
    | insert ho _ _ hm => exact ⟨hstop,(Monitor.notifyOne_owner hm).trans ho,hawake⟩
  | pop _ hp =>
    have hawake := hno hp.critical
    cases hp with
    | sleep ho => rw [hq.1] at ho; cases ho
    | park _ _ hf => rw [hstop] at hf; cases hf
    | remove ho _ _ hm => exact ⟨hstop,(Monitor.notifyOne_owner hm).trans ho,hawake⟩
    | ended ho => exact ⟨hstop,ho,hawake⟩
  | size => exact ⟨hstop,hq⟩
  | empty => exact ⟨hstop,hq⟩
  | stop => exact ⟨rfl,hq⟩

theorem Quiet.run {e : EmptyPop} {capacity : Nat}
    {ok : Clients τ α → ClientStep τ α → Prop} {s s' : Clients τ α} (hinv : s.Inv)
    (hstop : s.chan.isStop = true) (hq : s.Quiet) (h : Run (program τ α e capacity) ok s s') :
    s'.Quiet := by
  refine (h.invariant (P := fun s => s.Inv ∧ s.chan.isStop = true ∧ s.Quiet) ?_
    ⟨hinv,hstop,hq⟩).2.2
  intro u v a hu _ hstep
  have hc := step_cases hu.1.disciplined hstep
  exact ⟨hu.1.step hc,Quiet.step hu.2.1 hu.2.2 hc⟩

theorem step_stop {s : Clients τ α} {t : τ} (target : Option τ)
    (ht : s.calls t = some .stop) :
    step .undefined s (.run t target) = .next (s.finish t s.chan.stop .stop) := by
  simp [step,ht]

theorem Stepped.stopped {e : EmptyPop} {s s' : Clients τ α} {a : ClientStep τ α}
    (h : Stepped e s a s') (hs' : s'.Stopped) :
    s.Stopped ∨ ∃ t target, a = .run t target ∧ s.calls t = some .stop ∧
      s' = s.finish t s.chan.stop .stop := by
  have hlog : ∀ {t : τ} {c : Channel τ α} {eff : Effect α}, eff ≠ .stop →
      (s.finish t c eff).Stopped → s.Stopped := by
    intro t c eff heff hst
    obtain ⟨u,hu⟩ := hst
    simp only [finish,List.mem_append,List.mem_singleton,Prod.mk.injEq] at hu
    rcases hu with hu | ⟨-,hu⟩
    · exact ⟨u,hu⟩
    · exact absurd hu.symm heff
  cases h with
  | call => exact .inl hs'
  | wake => exact .inl hs'
  | @push t target x r c' hc hp =>
    cases r with
    | blocked => exact .inl hs'
    | returned v => exact .inl (hlog (by simp) hs')
  | @pop t target r c' hc hp =>
    cases r with
    | blocked => exact .inl hs'
    | returned v => exact .inl (hlog (by simp) hs')
  | size => exact .inl (hlog (by simp) hs')
  | empty => exact .inl (hlog (by simp) hs')
  | stop hc => exact .inr ⟨_,_,rfl,hc,rfl⟩

/-- A thread that is asleep, or about to be, at the store of a stop sleeps after it. -/
theorem not_quiet_sleeps {capacity : Nat} {s : Clients τ α} {t : τ} (hq : ¬ s.Quiet)
    (hinv : s.Inv) (ht : s.calls t = some .stop) :
    ∃ s', Run (program τ α .undefined capacity) anyStep (s.finish t s.chan.stop .stop) s' ∧
      ∃ cv u, s'.Asleep cv u := by
  by_cases ha : ∃ cv u, s.Asleep cv u
  · exact ⟨_,.refl _,ha⟩
  · obtain ⟨⟨u,cv⟩,ho⟩ : ∃ o, s.chan.monitor.owner = some o := by
      cases ho : s.chan.monitor.owner with
      | none => exact absurd ⟨ho,by simpa using ha⟩ hq
      | some o => exact ⟨o,rfl⟩
    have hd := hinv.disciplined.step (step_cases hinv.disciplined (step_stop none ht))
    have hsleep := step_parked (e := .undefined) none hd ho
    exact ⟨_,.step (a := .run u none) (.refl _) trivial hsleep,cv,u,by simp [Asleep]⟩

/-- In a run whose stops all find the channel quiet, it stays quiet after the first. -/
theorem quiet_of_stopsQuietly {capacity : Nat} {s : Clients τ α}
    (h : Reachable (program τ α .undefined capacity) StopsQuietly s) (hst : s.Stopped) :
    s.Quiet := by
  suffices hp : s.Inv ∧ (s.Stopped → s.chan.isStop = true ∧ s.Quiet) from (hp.2 hst).2
  refine h.invariant (P := fun s => s.Inv ∧ (s.Stopped → s.chan.isStop = true ∧ s.Quiet))
    ⟨.start capacity,fun hst => ?_⟩ ?_
  · obtain ⟨t,ht⟩ := hst
    cases ht
  · intro u v a hu hok hstep
    have hc := step_cases hu.1.disciplined hstep
    refine ⟨hu.1.step hc,fun hv => ?_⟩
    by_cases hsu : u.Stopped
    · exact Quiet.step (hu.2 hsu).1 (hu.2 hsu).2 hc
    · obtain hsv | ⟨t,target,ha,ht,rfl⟩ := hc.stopped hv
      · exact absurd hsv hsu
      · exact ⟨rfl,hok t target ha ht⟩

/-- Runs whose stops all find the channel quiet leave nobody asleep after a stop; and a
stop leaves nobody asleep, in whatever way the run goes on, exactly if it finds the
channel quiet. -/
theorem stop_wakes_all_iff_quiet (τ α : Type) [DecidableEq τ] [Fintype τ] (capacity : Nat) :
    (∀ s : Clients τ α, Reachable (program τ α .undefined capacity) StopsQuietly s →
      s.Stopped → ∀ cv t, ¬ s.Asleep cv t) ∧
    ∀ (s : Clients τ α) (t : τ), Reachable (program τ α .undefined capacity) anyStep s →
      s.calls t = some .stop →
      ((∀ s', Run (program τ α .undefined capacity) anyStep (s.finish t s.chan.stop .stop) s' →
        ∀ cv u, ¬ s'.Asleep cv u) ↔ s.Quiet) := by
  refine ⟨fun s h hst => (quiet_of_stopsQuietly h hst).2,fun s t h ht => ?_⟩
  have hinv := reachable_inv h
  constructor
  · intro hall
    by_contra hq
    obtain ⟨s',hs',cv,u,hu⟩ := not_quiet_sleeps hq hinv ht
    exact hall s' hs' cv u hu
  · intro hq s' hs'
    have hnext := hinv.step (step_cases hinv.disciplined (step_stop none ht))
    exact (Quiet.run hnext rfl hq hs').2

end HyperStream.Clients
