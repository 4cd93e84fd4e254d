import HyperStream.Wakeup
set_option autoImplicit false

open Transition

namespace HyperStream

/-- The two threads at the ends of a channel of the pipeline. -/
inductive Side where
  | producer
  | consumer
  deriving DecidableEq, Repr

instance : Fintype Side := ⟨{.producer,.consumer},fun s => by cases s <;> simp⟩

def Side.waitsOn : Side → CondVar
  | .producer => .notFull
  | .consumer => .notEmpty

/-- A channel between two threads: the one has inserted `sent`, the other has removed
`received`, and each waits on its own condition variable only. -/
structure Link {α : Type} (capacity : Nat) (sent : List α) (c : Channel Side α)
    (received : List α) : Prop where
  fifo : sent = received ++ c.queue
  awake : c.Awake
  capacity_eq : c.capacity = capacity
  waits : ∀ side cv, (c.monitor.status side).waitsOn = some cv → cv = side.waitsOn
  parked : ∀ side cv, c.monitor.owner = some (side,cv) → cv = side.waitsOn
  unbounded : capacity = sizeT (-1) → ¬ c.monitor.Waiting .producer

namespace Link
variable {α : Type} {capacity : Nat} {sent received : List α} {c c' : Channel Side α}

theorem new (capacity : Nat) : Link capacity [] (Channel.new capacity : Channel Side α) [] where
  fifo := rfl
  awake := .new capacity
  capacity_eq := rfl
  waits := by intro side cv h; cases h
  parked := by intro side cv h; cases h
  unbounded := by
    intro hcap hw
    rcases hw with ⟨cv,h⟩ | h
    · cases h
    · exact h rfl

theorem stop (h : Link capacity sent c received) : Link capacity sent c.stop received :=
  ⟨h.fifo,h.awake.stop,h.capacity_eq,h.waits,h.parked,h.unbounded⟩

theorem critical_waits {side : Side} {b : Bool} (h : Link capacity sent c received)
    (hc : Monitor.Critical side side.waitsOn c.monitor b c'.monitor) :
    (∀ u cv, (c'.monitor.status u).waitsOn = some cv → cv = u.waitsOn) ∧
    ∀ u cv, c'.monitor.owner = some (u,cv) → cv = u.waitsOn := by
  constructor
  · intro u cv hu
    by_cases hs : u = side
    · subst hs
      exact h.parked u cv (hc.waitsOn_self hu).2
    · exact h.waits u cv ((hc.waitsOn_other hs).symm.trans hu)
  · intro u cv hu
    obtain ⟨rfl,rfl,-⟩ := hc.owner_eq hu
    rfl

theorem waitsOn_producer (h : Link capacity sent c received) :
    (c.monitor.status .producer).waitsOn ≠ some .notEmpty := by
  intro hw
  cases h.waits _ _ hw

theorem waitsOn_consumer (h : Link capacity sent c received) :
    (c.monitor.status .consumer).waitsOn ≠ some .notFull := by
  intro hw
  cases h.waits _ _ hw

theorem push {x : α} {r : Reply Unit} (h : Link capacity sent c received)
    (hp : c.PushStep .producer x r c') :
    Link capacity (if r.isBlocked then sent else sent ++ [x]) c' received := by
  obtain ⟨hwaits,hparked⟩ := h.critical_waits hp.critical
  refine ⟨?_,h.awake.push h.waitsOn_producer hp,hp.frame.2.trans h.capacity_eq,hwaits,hparked,?_⟩
  · cases hp with
    | sleep => exact h.fifo
    | park => exact h.fifo
    | insert => simp [Reply.isBlocked,h.fifo]
  · intro hcap hw
    have hno := h.unbounded hcap
    have hcritical := hp.critical
    have hrun : c.monitor.status .producer = .running := by
      by_contra hs
      exact hno (.inr hs)
    cases hp with
    | sleep ho => exact hno (.inl ⟨_,ho⟩)
    | park _ _ _ _ hbound => exact hbound hrun (h.capacity_eq.trans hcap)
    | insert => exact hcritical.not_waiting hw

theorem pop {e : EmptyPop} {r : Reply (Option α)} (h : Link capacity sent c received)
    (hp : c.PopStep e .consumer r c') :
    Link capacity sent c'
      (match r with | .returned (some x) => received ++ [x] | _ => received) := by
  obtain ⟨hwaits,hparked⟩ := h.critical_waits hp.critical
  refine ⟨?_,h.awake.pop h.waitsOn_consumer hp,hp.frame.2.trans h.capacity_eq,hwaits,hparked,?_⟩
  · cases hp with
    | sleep => exact h.fifo
    | park => exact h.fifo
    | remove _ _ hq => simp [h.fifo,hq]
    | ended => exact h.fifo
  · intro hcap hw
    apply h.unbounded hcap
    rw [Monitor.waiting_iff] at hw ⊢
    rcases hw with ⟨cv,ho⟩ | hw
    · cases (hp.critical.owner_eq ho).1
    · rw [hp.critical.waitsOn_other (by simp)] at hw
      exact .inr hw

theorem wakeSpuriously {side : Side} (h : Link capacity sent c received)
    (hw : c.wakeSpuriously side = .next c') : Link capacity sent c' received := by
  have hawake := h.awake.wakeSpuriously hw
  obtain ⟨m,hm,hw⟩ := Outcome.bind_eq_next.mp hw
  cases hw
  refine ⟨h.fifo,hawake,h.capacity_eq,fun u cv hu => ?_,fun u cv hu => ?_,fun hcap hu => ?_⟩
  · exact h.waits u cv ((Monitor.wakeSpuriously_waitsOn hm u).symm.trans hu)
  · exact h.parked u cv ((Monitor.wakeSpuriously_owner hm).symm.trans hu)
  · exact h.unbounded hcap ((Monitor.wakeSpuriously_waiting hm).mp hu)

theorem received_prefix (h : Link capacity sent c received) : received <+: sent :=
  h.fifo ▸ List.prefix_append _ _

theorem received_eq (h : Link capacity sent c received) (hq : c.queue = []) : sent = received := by
  have hf := h.fifo
  rwa [hq,List.append_nil] at hf

/-- A side sleeps on its own condition variable, and nobody else is notified of that. -/
theorem asleep_alone {side : Side} {cv : CondVar} (h : Link capacity sent c received)
    (hs : c.monitor.status side = .asleep cv) :
    cv = side.waitsOn ∧ c.monitor.notified cv = ∅ := by
  have hcv : cv = side.waitsOn := h.waits side cv (by rw [hs]; rfl)
  refine ⟨hcv,Finset.eq_empty_of_forall_notMem fun u hu => ?_⟩
  have hn := Monitor.mem_notified.mp hu
  have hu' : cv = u.waitsOn := h.waits u cv (by rw [hn]; rfl)
  have hsame : u = side := by
    cases u <;> cases side <;> simp_all [Side.waitsOn]
  rw [hsame,hs] at hn
  cases hn

theorem consumer_asleep {cv : CondVar} (h : Link capacity sent c received)
    (hs : c.monitor.status .consumer = .asleep cv) : c.queue = [] := by
  obtain ⟨rfl,hno⟩ := h.asleep_alone hs
  have hle := h.awake.items ⟨_,hs⟩
  rw [show Side.waitsOn .consumer = .notEmpty from rfl] at hno
  rw [hno,Finset.card_empty] at hle
  exact List.length_eq_zero_iff.mp (by omega)

theorem producer_asleep {cv : CondVar} (h : Link capacity sent c received)
    (hs : c.monitor.status .producer = .asleep cv) : capacity ≤ c.queue.length := by
  obtain ⟨rfl,hno⟩ := h.asleep_alone hs
  have hle := h.awake.room ⟨_,hs⟩
  rw [show Side.waitsOn .producer = .notFull from rfl] at hno
  rw [hno,Finset.card_empty,h.capacity_eq] at hle
  omega

/-- No room is waited for in front of an empty queue. -/
theorem producer_not_asleep (h : Link capacity sent c received) (hpos : 0 < capacity)
    (hq : c.queue = []) : ¬ ∃ cv, c.monitor.status .producer = .asleep cv := by
  intro hs
  obtain ⟨cv,hcv⟩ := hs
  have hle := h.producer_asleep hcv
  rw [hq,List.length_nil] at hle
  omega

end Link
end HyperStream
