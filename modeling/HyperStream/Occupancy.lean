import HyperStream.ChannelLaws
import HyperStream.EndMark
import HyperStream.Enabled
set_option autoImplicit false

open Transition

namespace HyperStream

def Effect.isPush {α : Type} : Effect α → Bool
  | .push _ => true
  | _ => false

/-- After these a push that met a full channel may go on. -/
def Effect.MakesRoom {α : Type} : Effect α → Prop
  | .pop (some _) | .stop => True
  | _ => False

namespace Clients
variable {τ α : Type}

/-- How many pushes took effect after the first stop. -/
def latePushes : List (τ × Effect α) → Nat
  | [] => 0
  | (_,.stop) :: later => later.countP fun p => p.2.isPush
  | _ :: later => latePushes later

def HasStop (log : List (τ × Effect α)) : Prop := ∃ t, (t,Effect.stop) ∈ log

theorem latePushes_of_not_hasStop {log : List (τ × Effect α)} (h : ¬ HasStop log) :
    latePushes log = 0 := by
  induction log with
  | nil => rfl
  | cons p log ih =>
    obtain ⟨t,eff⟩ := p
    have hlog : ¬ HasStop log := fun hs => h (hs.imp fun u hu => List.mem_cons_of_mem _ hu)
    cases eff with
    | stop => exact absurd ⟨t,by simp⟩ h
    | _ => exact ih hlog

theorem latePushes_concat_le (log : List (τ × Effect α)) (p : τ × Effect α) :
    latePushes log ≤ latePushes (log ++ [p]) := by
  induction log with
  | nil => exact Nat.zero_le _
  | cons q log ih =>
    obtain ⟨t,eff⟩ := q
    cases eff with
    | stop => simp [latePushes]
    | _ => exact ih

theorem latePushes_concat_push {log : List (τ × Effect α)} (h : HasStop log) (t : τ) (x : α) :
    latePushes (log ++ [(t,.push x)]) = latePushes log + 1 := by
  induction log with
  | nil => obtain ⟨u,hu⟩ := h; cases hu
  | cons q log ih =>
    obtain ⟨u,eff⟩ := q
    have hrest : eff ≠ .stop → HasStop log := by
      intro hne
      obtain ⟨v,hv⟩ := h
      rcases List.mem_cons.mp hv with heq | hmem
      · cases heq; exact absurd rfl hne
      · exact ⟨v,hmem⟩
    cases eff with
    | stop => simp [latePushes,Effect.isPush]
    | _ => exact ih (hrest (by simp))

/-- Every push among these effects comes after a pop or a stop among them. -/
def RoomFirst (later : List (τ × Effect α)) : Prop :=
  ∀ before t x rest, later = before ++ (t,Effect.push x) :: rest →
    ∃ p ∈ before, p.2.MakesRoom

theorem RoomFirst.concat {later : List (τ × Effect α)} {p : τ × Effect α} (h : RoomFirst later)
    (hp : p.2.isPush = true → ∃ q ∈ later, q.2.MakesRoom) : RoomFirst (later ++ [p]) := by
  intro before t x rest heq
  rcases List.eq_nil_or_concat rest with rfl | ⟨init,last,rfl⟩
  · obtain ⟨rfl,hlast⟩ := List.append_inj' heq rfl
    cases hlast
    exact hp rfl
  · rw [List.concat_eq_append,← List.cons_append,← List.append_assoc] at heq
    obtain ⟨hbefore,-⟩ := List.append_inj' heq rfl
    exact h before t x init hbefore

variable [DecidableEq τ] [Fintype τ] {e : EmptyPop} {s s' : Clients τ α}

/-- In a channel of bounded capacity each item beyond it was pushed after a stop. -/
structure Occupied (capacity : Nat) (s : Clients τ α) : Prop where
  stopped : s.chan.isStop = true ↔ s.Stopped
  bound : s.chan.queue.length ≤ capacity + latePushes s.log

omit [DecidableEq τ] [Fintype τ] in
theorem stopped_concat {t : τ} {eff : Effect α} (hlog : s'.log = s.log ++ [(t,eff)])
    (hne : eff ≠ .stop) : s'.Stopped ↔ s.Stopped := by
  unfold Stopped
  rw [hlog]
  simp [Ne.symm hne]

omit [DecidableEq τ] [Fintype τ] in
theorem Occupied.step {capacity : Nat} (h : Occupied capacity s)
    (hcap : s.chan.capacity = capacity) (hbounded : capacity ≠ sizeT (-1))
    (hs : Took e s s') : Occupied capacity s' := by
  obtain ⟨hstop,hle⟩ := h
  cases hs with
  | silent hlog hq hflag =>
    refine ⟨?_,by rw [hq,hlog]; exact hle⟩
    rw [hflag,hstop,Stopped,Stopped,hlog]
  | @effect t eff hlog hat =>
    have hmono := latePushes_concat_le s.log (t,eff)
    rw [← hlog] at hmono
    have hkeep : eff ≠ .stop → s'.chan.isStop = s.chan.isStop →
        (s'.chan.isStop = true ↔ s'.Stopped) := by
      intro hne hflag
      rw [hflag,hstop,stopped_concat hlog hne]
    cases hat with
    | push x hroom hq hflag =>
      refine ⟨hkeep (by simp) hflag,?_⟩
      rw [hq,List.length_append,List.length_singleton]
      rcases hroom with hset | hroom | hnone
      · rw [hlog,latePushes_concat_push (hstop.mp hset)]
        omega
      · omega
      · exact absurd (hcap.symm.trans hnone) hbounded
    | pop hq hflag =>
      rw [hq,List.length_cons] at hle
      exact ⟨hkeep (by simp) hflag,by omega⟩
    | ended _ _ _ hq hflag => exact ⟨hkeep (by simp) hflag,by rw [hq]; exact Nat.zero_le _⟩
    | size hc => exact ⟨hkeep (by simp) (by rw [hc]),by rw [hc]; omega⟩
    | empty hc => exact ⟨hkeep (by simp) (by rw [hc]),by rw [hc]; omega⟩
    | stop hc =>
      refine ⟨⟨fun _ => ⟨t,by simp [hlog]⟩,fun _ => by rw [hc]; rfl⟩,?_⟩
      rw [hc]
      exact hle.trans (by omega)

theorem reachable_occupied {ok : Clients τ α → ClientStep τ α → Prop} {capacity : Nat}
    (hbounded : capacity ≠ sizeT (-1)) (h : Reachable (program τ α e capacity) ok s) :
    Occupied capacity s := by
  refine h.induction (P := Occupied capacity) .start ⟨⟨nofun,?_⟩,Nat.zero_le _⟩ ?_
  · intro hst
    obtain ⟨t,ht⟩ := hst
    cases ht
  · intro u v a hu ho _ hstep
    exact ho.step (reachable_capacity hu) hbounded (reachable_took hu hstep)

/-- What follows on a full channel that is not stopped. -/
structure AfterFull (capacity : Nat) (s s' : Clients τ α) (later : List (τ × Effect α)) :
    Prop where
  log : s'.log = s.log ++ later
  roomFirst : RoomFirst later
  full : (∃ p ∈ later, p.2.MakesRoom) ∨
    (s'.chan.isStop = false ∧ capacity ≤ s'.chan.queue.length)

omit [DecidableEq τ] [Fintype τ] in
theorem AfterFull.step {u : Clients τ α} {capacity : Nat} {later : List (τ × Effect α)}
    (h : AfterFull capacity s u later) (hcap : u.chan.capacity = capacity)
    (hbounded : capacity ≠ sizeT (-1)) (hs : Took e u s') :
    ∃ later', AfterFull capacity s s' later' := by
  obtain ⟨hlog,hfirst,hfull⟩ := h
  cases hs with
  | silent hl hq hflag => exact ⟨later,hl.trans hlog,hfirst,by rw [hq,hflag]; exact hfull⟩
  | @effect t eff hl hat =>
    refine ⟨later ++ [(t,eff)],by rw [hl,hlog,List.append_assoc],hfirst.concat fun hp => ?_,?_⟩
    · -- the push found room, so something made it
      cases hat with
      | push x hroom =>
        rcases hfull with hmade | ⟨hopen,hlen⟩
        · exact hmade
        · rw [hopen,hcap] at hroom
          rcases hroom with hset | hroom | hnone
          · cases hset
          · omega
          · exact absurd hnone hbounded
      | _ => cases hp
    · rcases hfull with ⟨p,hp,hmade⟩ | ⟨hopen,hlen⟩
      · exact .inl ⟨p,by simp [hp],hmade⟩
      · have hself : eff.MakesRoom → ∃ p ∈ later ++ [(t,eff)], p.2.MakesRoom :=
          fun hmade => ⟨(t,eff),by simp,hmade⟩
        cases hat with
        | push x _ hq hflag => exact .inr ⟨hflag.trans hopen,by simp [hq]; omega⟩
        | pop => exact .inl (hself trivial)
        | ended _ hset => rw [hopen] at hset; cases hset
        | size hc => rw [hc]; exact .inr ⟨hopen,hlen⟩
        | empty hc => rw [hc]; exact .inr ⟨hopen,hlen⟩
        | stop => exact .inl (hself trivial)

theorem run_afterFull {ok : Clients τ α → ClientStep τ α → Prop} {capacity : Nat}
    (hbounded : capacity ≠ sizeT (-1)) (hs : Reachable (program τ α e capacity) ok s)
    (hopen : s.chan.isStop = false) (hfull : capacity ≤ s.chan.queue.length)
    (h : Run (program τ α e capacity) ok s s') : ∃ later, AfterFull capacity s s' later := by
  refine h.induction (P := fun u => ∃ later, AfterFull capacity s u later) hs
    ⟨[],by simp,fun before t x rest heq => by simp at heq,.inr ⟨hopen,hfull⟩⟩ ?_
  intro u v a hu hl _ hstep
  obtain ⟨later,hl⟩ := hl
  exact hl.step (reachable_capacity hu) hbounded (reachable_took hu hstep)

/-- A channel of 50 items holds at most these and those pushed after a stop; and after it was
full and open, a push comes only after a pop or a stop. -/
structure Occupancy (e : EmptyPop) (s : Clients τ α) : Prop where
  bound : s.chan.queue.length ≤ 50 + latePushes s.log
  openBound : ¬ s.Stopped → s.chan.queue.length ≤ 50
  room : s.chan.isStop = false → 50 ≤ s.chan.queue.length → ∀ s',
    Run (program τ α e Channel.frameCapacity) anyStep s s' →
    ∃ later, s'.log = s.log ++ later ∧ RoomFirst later

theorem reachable_occupancy
    (hs : Reachable (program τ α e Channel.frameCapacity) anyStep s) : Occupancy e s := by
  have hbound : s.chan.queue.length ≤ 50 + latePushes s.log :=
    (reachable_occupied (by decide) hs).bound
  refine ⟨hbound,fun hst => ?_,fun hopen hfull s' hrun => ?_⟩
  · rwa [latePushes_of_not_hasStop hst] at hbound
  · obtain ⟨later,hl⟩ := run_afterFull (by decide) hs hopen hfull hrun
    exact ⟨later,hl.log,hl.roomFirst⟩

/-- The step is the critical section of a pop on an empty stopped queue, of which it takes the
front away: no size is left that could be said to be at most anything. -/
def PopsEmptyQueue (e : EmptyPop) (s : Clients τ α) (a : ClientStep τ α) : Prop :=
  ∃ t target, a = .run t target ∧ s.calls t = some .pop ∧ s.chan.PopsEmpty e t

omit [Fintype τ] in
theorem resume_undefined {t : τ} {ρ : Type} {eff : ρ → Effect α}
    {x : Outcome (Reply ρ × Channel τ α)} (h : s.resume t eff x = .undefined) :
    x = .undefined := by
  obtain h | ⟨p,-,h⟩ := Outcome.bind_eq_undefined.mp h
  · exact h
  · cases h

/-- Nothing else leaves the defined behaviours. -/
theorem step_undefined_iff {a : ClientStep τ α} :
    step e s a = .undefined ↔ s.PopsEmptyQueue e a := by
  constructor
  · intro h
    cases a with
    | call t c =>
      simp only [step] at h
      split at h <;> cases h
    | wake t =>
      obtain h | ⟨c,-,h⟩ := Outcome.bind_eq_undefined.mp h
      · obtain h | ⟨m,-,h⟩ := Outcome.bind_eq_undefined.mp h
        · unfold Monitor.wakeSpuriously at h
          split at h <;> cases h
        · cases h
      · cases h
    | run t target =>
      simp only [step] at h
      split at h
      · cases h
      · rename_i x hc
        exact absurd (resume_undefined h) (Channel.push_ne_undefined t x target s.chan)
      · rename_i hc
        exact ⟨t,target,rfl,hc,Channel.pop_undefined_iff.mp (resume_undefined h)⟩
      · obtain ⟨-,-,h | h⟩ := Channel.lock_undefined (resume_undefined h) <;> cases h
      · obtain ⟨-,-,h | h⟩ := Channel.lock_undefined (resume_undefined h) <;> cases h
      · cases h
  · intro h
    obtain ⟨t,target,rfl,hc,hp⟩ := h
    have hpop : s.chan.pop e t target = .undefined := Channel.pop_undefined_iff.mpr hp
    simp only [step,hc,hpop]
    rfl

/-- A step keeps the law exactly if it is no such pop. -/
theorem ensures_occupancy_iff (hs : Reachable (program τ α e Channel.frameCapacity) anyStep s)
    (a : ClientStep τ α) :
    (step e s a).Ensures (Occupancy e) ↔ ¬ s.PopsEmptyQueue e a := by
  rw [← step_undefined_iff]
  cases hstep : step e s a with
  | disabled => simp [Outcome.Ensures]
  | undefined => simp [Outcome.Ensures]
  | next s' =>
    have hs' : Reachable (program τ α e Channel.frameCapacity) anyStep s' :=
      hs.next (a := a) trivial hstep
    simpa [Outcome.Ensures] using reachable_occupancy hs'

/-- The law for whatever a step from a reachable state leads to. -/
def OccupancyKept (τ α : Type) [DecidableEq τ] [Fintype τ] : Prop :=
  ∀ s : Clients τ α, Reachable (program τ α .undefined Channel.frameCapacity) anyStep s →
    ∀ a, (step .undefined s a).Ensures (Occupancy .undefined)

/-- Thread `false` stops the empty channel, then thread `true` pops. -/
def stopThenPop : List (ClientStep Bool AVFrame) :=
  [.call false .stop,.run false none,.call true .pop]

theorem empty_pop_breaks_occupancy : ¬ OccupancyKept Bool AVFrame := by
  intro h
  obtain ⟨s,hs,hp⟩ := Reachable.exists_of_replay
    (program Bool AVFrame .undefined Channel.frameCapacity) anyStep stopThenPop
    (fun s => s.calls true = some .pop ∧ s.chan.monitor.owner = none ∧
      s.chan.monitor.status true = .running ∧ s.chan.isStop = true ∧ s.chan.queue = [])
    (fun _ _ _ => trivial) (by decide)
  simp only [decide_eq_true_eq] at hp
  obtain ⟨hcall,hfree,hrun,hstop,hq⟩ := hp
  have hpops : s.PopsEmptyQueue .undefined (.run true none) :=
    ⟨true,none,rfl,hcall,rfl,hfree,by simp [hrun],hstop,hq⟩
  exact (ensures_occupancy_iff hs _).mp (h s hs _) hpops

/-- Nobody waits in a push. -/
def PushesFreely (s : Clients τ α) : Prop :=
  ∀ t x, s.calls t = some (.push x) → ¬ s.chan.monitor.Waiting t

theorem PushesFreely.settle {t : τ} {cv : CondVar} {ρ : Type} {eff : ρ → Effect α}
    {r : Reply ρ} {c' : Channel τ α} (h : s.PushesFreely)
    (hself : ∀ x, (s.settle t eff r c').calls t = some (.push x) → ¬ c'.monitor.Waiting t)
    (hc : Monitor.Critical t cv s.chan.monitor r.isBlocked c'.monitor) :
    (s.settle t eff r c').PushesFreely := by
  intro u x hu
  have hmonitor : (s.settle t eff r c').chan = c' := by cases r <;> rfl
  rw [hmonitor]
  by_cases hut : u = t
  · subst hut
    exact hself x hu
  · have hcalls : (s.settle t eff r c').calls u = s.calls u := by
      cases r <;> simp [Clients.settle,hut]
    have hno := h u x (hcalls.symm.trans hu)
    rw [Monitor.waiting_iff] at hno ⊢
    intro hw
    rcases hw with ⟨d,ho⟩ | hw
    · exact hut (hc.owner_eq ho).1
    · rw [hc.waitsOn_other hut] at hw
      exact hno (.inr hw)

/-- A push that does not wait and needs no room goes through in one step. -/
theorem PushStep.inserts {t : τ} {x : α} {c c' : Channel τ α} {r : Reply Unit}
    (hno : ¬ c.monitor.Waiting t) (hcap : c.capacity = sizeT (-1)) (h : c.PushStep t x r c') :
    r = .returned () ∧ c'.queue = c.queue ++ [x] := by
  have hrun : c.monitor.status t = .running := by
    by_contra hne
    exact hno (.inr hne)
  cases h with
  | sleep ho => exact absurd (.inl ⟨_,ho⟩) hno
  | park _ _ _ _ hbound => exact absurd hcap (hbound hrun)
  | insert => exact ⟨rfl,rfl⟩

theorem PushesFreely.step {a : ClientStep τ α} (h : s.PushesFreely) (hs : s.Inv)
    (hcap : s.chan.capacity = sizeT (-1)) (hstep : Stepped e s a s') : s'.PushesFreely := by
  cases hstep with
  | @call t c hidle =>
    intro u x hu
    by_cases hut : u = t
    · subst hut
      rw [Monitor.waiting_iff]
      intro hw
      rcases hw with ⟨d,ho⟩ | hw
      · have hcall := hs.disciplined.parked u d ho
        rw [hidle] at hcall
        cases hcall
      · obtain ⟨d,hd⟩ := Option.ne_none_iff_exists'.mp hw
        have hcall := hs.disciplined.waits u d hd
        rw [hidle] at hcall
        cases hcall
    · exact h u x (by simpa [makeCall,setCall,hut] using hu)
  | wake hw =>
    intro u x hu hwait
    exact h u x hu ((Channel.wakeSpuriously_waiting hw).mp hwait)
  | @push t target x r c' hc hp =>
    obtain ⟨rfl,-⟩ := PushStep.inserts (h t x hc) hcap hp
    exact h.settle (by simp [Clients.settle]) hp.critical
  | @pop t target r c' hc hp =>
    refine h.settle (fun x hx => ?_) hp.critical
    cases r <;> simp [Clients.settle,hc] at hx
  | @size t target hc =>
    intro u x hu
    by_cases hut : u = t <;> simp [hut] at hu
    exact h u x hu
  | @empty t target hc =>
    intro u x hu
    by_cases hut : u = t <;> simp [hut] at hu
    exact h u x hu
  | @stop t target hc =>
    intro u x hu
    by_cases hut : u = t <;> simp [hut] at hu
    exact h u x hu

theorem reachable_pushesFreely {ok : Clients τ α → ClientStep τ α → Prop}
    (h : Reachable (program τ α e Channel.packetCapacity) ok s) : s.PushesFreely := by
  refine h.induction (P := PushesFreely) .start nofun ?_
  intro u v a hu hp _ hstep
  have hinv := reachable_inv hu
  exact hp.step hinv (reachable_capacity hu) (step_cases hinv.disciplined hstep)

/-- A push with nothing to wait for: it goes on as soon as the mutex is free, and its next
step inserts the item and returns. -/
structure PushAtOnce (e : EmptyPop) (s : Clients τ α) (t : τ) (x : α) : Prop where
  notWaiting : ¬ s.chan.monitor.Waiting t
  goesOn : s.chan.monitor.owner = none → ∃ target s', step e s (.run t target) = .next s'
  returns : ∀ target s', step e s (.run t target) = .next s' →
    s'.calls t = none ∧ s'.chan.queue = s.chan.queue ++ [x]

theorem PushesFreely.pushAtOnce {t : τ} {x : α} (h : s.PushesFreely)
    (hcap : s.chan.capacity = sizeT (-1)) (hc : s.calls t = some (.push x)) :
    PushAtOnce e s t x := by
  have hno := h t x hc
  refine ⟨hno,fun ho => ?_,fun target s' hstep => ?_⟩
  · have hrun : s.chan.monitor.status t = .running := by
      by_contra hne
      exact hno (.inr hne)
    obtain ⟨target,m,hm⟩ := (s.chan.monitor.leave t).exists_notifyOne .notEmpty
    refine ⟨target,
      s.finish t { s.chan with queue := s.chan.queue ++ [x], monitor := m } (.push x),?_⟩
    simp [Clients.step,hc,Channel.push,Channel.lock,ho,hrun,hcap,Channel.insert,hm,resume,
      Clients.settle]
  · simp only [Clients.step,hc] at hstep
    obtain ⟨⟨r,c'⟩,hp,hstep⟩ := Outcome.bind_eq_next.mp hstep
    cases hstep
    obtain ⟨rfl,hq⟩ := PushStep.inserts hno hcap (Channel.push_cases hp)
    exact ⟨by simp [Clients.settle],hq⟩

end Clients

namespace Worker
variable {α β : Type} {S : Stage α β} {e : EmptyPop} {alloc : Bool}
  {w w' : Worker S.State α β} {src src' : Channel Side α} {dst dst' : Channel Side β}

theorem Stepped.dst_length {capacity : Nat} (h : Stepped S e alloc w src dst w' src' dst')
    (hopen : dst.isStop = true → w.pc = .returned) (hcap : dst.capacity = capacity)
    (hbounded : capacity ≠ sizeT (-1)) (hle : dst.queue.length ≤ capacity) :
    dst'.queue.length ≤ capacity := by
  have hset : dst.isStop ≠ true := fun hs => h.not_returned (hopen hs)
  cases h with
  | hold _ hp => cases hp <;> exact hle
  | send _ hp =>
    cases hp with
    | insert _ _ hroom =>
      rcases hroom with hs | hroom | ⟨-,hnone⟩
      · exact absurd hs hset
      · rw [List.length_append,List.length_singleton]
        omega
      · exact absurd (hcap.symm.trans hnone) hbounded
  | _ => exact hle

theorem Stepped.src_length (h : Stepped S e alloc w src dst w' src' dst') :
    src'.queue.length ≤ src.queue.length := by
  have hpop : ∀ {r : Reply (Option α)} {c : Channel Side α}, src.PopStep e .consumer r c →
      c.queue.length ≤ src.queue.length := by
    intro r c hp
    cases hp with
    | remove _ _ hq => simp [hq]
    | _ => exact le_rfl
  cases h with
  | await _ hp => exact hpop hp
  | receive _ hp => exact hpop hp
  | ended _ hp => exact hpop hp
  | _ => exact le_rfl

end Worker

namespace Controller
variable {su : Setup} {e : EmptyPop} {s s' : Controller su} {a : Label}

/-- The frame in a blocked or coming push. -/
def pushing {α β : Type} : PC α β → Nat
  | .push _ => 1
  | _ => 0

/-- The item that is popped and not fed yet. -/
def inHand {α β : Type} : PC α β → Nat
  | .feed _ => 1
  | _ => 0

/-- The frames that the decoder has pushed or is pushing, without those that the compositor
has passed to av_buffersrc_add_frame. -/
def inFlight (s : Controller su) : Nat :=
  s.decoder.sent.length + pushing s.decoder.pc -
    (s.processor.received.length - inHand s.processor.pc)

/-- Nobody but the decoder stops the channel behind it, so its pushes find room. -/
structure DecodeBounded (s : Controller su) : Prop where
  marked : Marked s.decode (s.decoder.pc = .returned) False
  bound : s.decode.queue.length ≤ Channel.frameCapacity

theorem DecodeBounded.step (h : DecodeBounded s) (hl : Linked s) (hs : Stepped e s a s') :
    DecodeBounded s' := by
  obtain ⟨hm,hle⟩ := h
  cases hs with
  | decoder hw =>
    exact ⟨hw.dst_marked hm,hw.dst_length hm.stopped hl.decode.capacity_eq (by decide) hle⟩
  | processor hw =>
    exact ⟨⟨fun hs => hm.stopped (hw.src_isStop.symm.trans hs),nofun⟩,hw.src_length.trans hle⟩
  | stopper hstop => cases stop_cases hstop <;> exact ⟨hm,hle⟩
  | wakeDecode hw =>
    refine ⟨hm.wakeSpuriously hw,?_⟩
    obtain ⟨cv,-,rfl⟩ := Channel.wakeSpuriously_cases hw
    exact hle
  | _ => exact ⟨hm,hle⟩

theorem reachable_decodeBounded {ok : Controller su → Label → Prop}
    (h : Reachable (program su e) ok s) : DecodeBounded s :=
  h.induction (P := DecodeBounded) .start ⟨⟨nofun,nofun⟩,Nat.zero_le _⟩
    fun hu hb _ hs => hb.step (reachable_linked hu) (step_cases hs)

theorem inFlight_le {ok : Controller su → Label → Prop} (h : Reachable (program su e) ok s) :
    inFlight s ≤ 52 := by
  have hbound : s.decode.queue.length ≤ 50 := (reachable_decodeBounded h).bound
  have hfifo := congrArg List.length (reachable_linked h).decode.fifo
  rw [List.length_append] at hfifo
  have hpush : pushing s.decoder.pc ≤ 1 := by unfold pushing; split <;> omega
  have hhand : inHand s.processor.pc ≤ 1 := by unfold inHand; split <;> omega
  unfold inFlight
  omega

end Controller

/-- In every run, which goes on as long as no pop runs on an empty stopped queue, a frame
channel holds at most 50 frames and those pushed after a stop, and a push that meets a full open
one comes after a pop or a stop; of all steps only such a pop does not keep that. The decoder is
at most 52 frames ahead of the filter graph; and a push on a packet channel never waits. -/
theorem frame_channel_occupancy (τ α : Type) [DecidableEq τ] [Fintype τ] (e : EmptyPop) :
    (∀ s : Clients τ α,
      Reachable (Clients.program τ α e Channel.frameCapacity) anyStep s →
      Clients.Occupancy e s ∧
      ∀ a, (Clients.step e s a).Ensures (Clients.Occupancy e) ↔ ¬ s.PopsEmptyQueue e a) ∧
    (∀ (su : Setup) (s : Controller su), Reachable (Controller.program su e) anyStep s →
      Controller.inFlight s ≤ 52) ∧
    ∀ s : Clients τ α,
      Reachable (Clients.program τ α e Channel.packetCapacity) anyStep s →
      ∀ t x, s.calls t = some (.push x) → Clients.PushAtOnce e s t x :=
  ⟨fun _ hs => ⟨Clients.reachable_occupancy hs,Clients.ensures_occupancy_iff hs⟩,
    fun _ _ hs => Controller.inFlight_le hs,fun _ hs _ _ hc =>
      (Clients.reachable_pushesFreely hs).pushAtOnce (Clients.reachable_capacity hs) hc⟩

end HyperStream
