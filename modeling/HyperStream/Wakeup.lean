import HyperStream.Channel
set_option autoImplicit false

open Transition

namespace HyperStream.Channel
variable {τ α : Type} [Fintype τ]

/-- The waits of a channel are kept: each item there is a notified popper for while any
popper sleeps, each free slot there is a notified pusher for while any pusher sleeps,
and a thread that is about to sleep has nothing to wake for. -/
structure Awake (c : Channel τ α) : Prop where
  items : c.monitor.Covered .notEmpty c.queue.length
  room : c.monitor.Covered .notFull (c.capacity - c.queue.length)
  parked_status : ∀ t cv, c.monitor.owner = some (t,cv) → c.monitor.status t = .running
  parked_items : ∀ t, c.monitor.owner = some (t,.notEmpty) → c.queue = []
  parked_room : ∀ t, c.monitor.owner = some (t,.notFull) → c.capacity ≤ c.queue.length

theorem Awake.new (capacity : Nat) : (Channel.new capacity : Channel τ α).Awake where
  items := .zero _ _
  room := by intro hs; obtain ⟨t,ht⟩ := hs; cases ht
  parked_status := by intro t cv h; cases h
  parked_items := by intro t h; cases h
  parked_room := by intro t h; cases h

theorem Awake.stop {c : Channel τ α} (h : c.Awake) : c.stop.Awake :=
  ⟨h.items,h.room,h.parked_status,h.parked_items,h.parked_room⟩

variable [DecidableEq τ]

theorem Awake.sleep {c : Channel τ α} {t : τ} {cv : CondVar} (h : c.Awake)
    (ho : c.monitor.owner = some (t,cv)) :
    Awake { c with monitor := c.monitor.sleep t cv } := by
  have hrun : (c.monitor.status t).waitsOn = none := by rw [h.parked_status t cv ho]; rfl
  refine ⟨?_,?_,?_,?_,?_⟩
  · cases cv with
    | notEmpty =>
      have hq := h.parked_items t ho
      simpa [hq] using Monitor.Covered.zero _ _
    | notFull =>
      exact (h.items.setStatus_of_waitsOn (t := t) (s := .asleep .notFull) (by simp [hrun])
        (by simp) :)
  · cases cv with
    | notEmpty =>
      exact (h.room.setStatus_of_waitsOn (t := t) (s := .asleep .notEmpty) (by simp [hrun])
        (by simp) :)
    | notFull =>
      have hc := h.parked_room t ho
      simpa [Nat.sub_eq_zero_of_le hc] using Monitor.Covered.zero _ _
  · intro u cv' hu; cases hu
  · intro u hu; cases hu
  · intro u hu; cases hu

theorem Awake.push {c c' : Channel τ α} {t : τ} {x : α} {r : Reply Unit}
    (h : c.Awake) (hd : (c.monitor.status t).waitsOn ≠ some .notEmpty)
    (hstep : PushStep t x c r c') : c'.Awake := by
  cases hstep with
  | sleep ho => exact h.sleep ho
  | park ho hs hstop hfull hbound =>
    refine ⟨(h.items.setStatus_of_waitsOn (s := .running) hd (by simp) :),?_,?_,?_,?_⟩
    · simpa [Nat.sub_eq_zero_of_le hfull] using Monitor.Covered.zero _ _
    · intro u cv hu; cases hu; simp
    · intro u hu; cases hu
    · intro u hu; exact hfull
  | @insert m target ho hs hroom hm =>
    have hitems : (c.monitor.leave t).Covered .notEmpty c.queue.length :=
      h.items.setStatus_of_waitsOn hd (by simp)
    have hleave : (c.monitor.leave t).Covered .notFull (c.capacity - (c.queue.length+1)) := by
      by_cases hfull : c.capacity ≤ c.queue.length
      · rw [Nat.sub_eq_zero_of_le (by omega)]; exact .zero _ _
      · have hr := h.room
        rw [show c.capacity - c.queue.length = c.capacity - (c.queue.length+1) + 1 by omega] at hr
        exact hr.setStatus (by simp)
    have howner : m.owner = none := (Monitor.notifyOne_owner hm).trans ho
    refine ⟨?_,?_,?_,?_,?_⟩
    · simpa using hitems.notifyOne hm
    · simpa using hleave.notifyOne_other hm
    · intro u cv hu; simp [howner] at hu
    · intro u hu; simp [howner] at hu
    · intro u hu; simp [howner] at hu

theorem Awake.pop {e : EmptyPop} {c c' : Channel τ α} {t : τ} {r : Reply (Option α)}
    (h : c.Awake) (hd : (c.monitor.status t).waitsOn ≠ some .notFull)
    (hstep : PopStep e t c r c') : c'.Awake := by
  cases hstep with
  | sleep ho => exact h.sleep ho
  | park ho hs hstop hempty =>
    refine ⟨?_,(h.room.setStatus_of_waitsOn (s := .running) hd (by simp) :),?_,?_,?_⟩
    · simpa [hempty] using Monitor.Covered.zero _ _
    · intro u cv hu; cases hu; simp
    · intro u hu; exact hempty
    · intro u hu; cases hu
  | @remove x rest m target ho hs hq hm =>
    have hlen : c.queue.length = rest.length + 1 := by simp [hq]
    have hitems : (c.monitor.leave t).Covered .notEmpty rest.length := by
      have hi := h.items
      rw [hlen] at hi
      exact hi.setStatus (by simp)
    have hroom : (c.monitor.leave t).Covered .notFull (c.capacity - c.queue.length) :=
      h.room.setStatus_of_waitsOn hd (by simp)
    have howner : m.owner = none := (Monitor.notifyOne_owner hm).trans ho
    refine ⟨hitems.notifyOne_other hm,(hroom.notifyOne hm).mono ?_,?_,?_,?_⟩
    · simp only [hlen]; omega
    · intro u cv hu; simp [howner] at hu
    · intro u hu; simp [howner] at hu
    · intro u hu; simp [howner] at hu
  | ended ho hs he hstop hempty =>
    refine ⟨?_,(h.room.setStatus_of_waitsOn (s := .running) hd (by simp) :),?_,?_,?_⟩
    · simpa [hempty] using Monitor.Covered.zero _ _
    · intro u cv hu; simp [ho] at hu
    · intro u hu; simp [ho] at hu
    · intro u hu; simp [ho] at hu

theorem Awake.wakeSpuriously {c c' : Channel τ α} {t : τ} (h : c.Awake)
    (hstep : c.wakeSpuriously t = .next c') : c'.Awake := by
  obtain ⟨m,hm,hstep⟩ := Outcome.bind_eq_next.mp hstep
  cases hstep
  have howner := Monitor.wakeSpuriously_owner hm
  refine ⟨h.items.wakeSpuriously hm,h.room.wakeSpuriously hm,?_,?_,?_⟩
  · intro u cv hu
    have hrun := h.parked_status u cv (howner ▸ hu)
    rw [← Status.waitsOn_eq_none_iff] at hrun ⊢
    rw [Monitor.wakeSpuriously_waitsOn hm,hrun]
  · intro u hu
    exact h.parked_items u (howner ▸ hu)
  · intro u hu
    exact h.parked_room u (howner ▸ hu)

end HyperStream.Channel
