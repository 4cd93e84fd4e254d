import HyperStream.Channel
set_option autoImplicit false

open Transition

namespace HyperStream

/-- The next pop of `t` would take the front of an empty queue. -/
structure Channel.PopsEmpty {τ α : Type} (e : EmptyPop) (c : Channel τ α) (t : τ) : Prop where
  code : e = .undefined
  free : c.monitor.owner = none
  awake : ∀ cv, c.monitor.status t ≠ .asleep cv
  stopped : c.isStop = true
  empty : c.queue = []

namespace Channel
variable {τ α : Type} [DecidableEq τ] {e : EmptyPop} {t : τ} {target : Option τ}
  {c : Channel τ α}

theorem lock_undefined {ρ : Type}
    {fresh again : Channel τ α → Outcome (Reply ρ × Channel τ α)}
    (h : c.lock t fresh again = .undefined) :
    c.monitor.owner = none ∧ (∀ cv, c.monitor.status t ≠ .asleep cv) ∧
      (fresh c = .undefined ∨ again c = .undefined) := by
  unfold lock at h
  split at h
  · split at h <;> cases h
  · rename_i ho
    split at h
    · rename_i hs; exact ⟨ho,by simp [hs],.inl h⟩
    · cases h
    all_goals
      rename_i hs
      exact ⟨ho,by simp [hs],.inr h⟩

theorem wait_undefined {ρ : Type} {cv : CondVar}
    {body : Channel τ α → Outcome (Reply ρ × Channel τ α)}
    (h : c.wait cv t body = .undefined) : c.predicate cv = true ∧ body c = .undefined := by
  unfold wait at h
  split at h
  · exact ⟨‹_›,h⟩
  · cases h

variable [Fintype τ]

theorem insert_ne_undefined (t : τ) (x : α) (target : Option τ) (c : Channel τ α) :
    c.insert t x target ≠ .undefined := by
  unfold insert
  cases hm : (c.monitor.leave t).notifyOne .notEmpty target with
  | undefined => exact absurd hm (Monitor.notifyOne_ne_undefined _ _ _)
  | _ => simp

theorem push_ne_undefined (t : τ) (x : α) (target : Option τ) (c : Channel τ α) :
    c.push t x target ≠ .undefined := by
  intro h
  have hwait : c.wait .notFull t (Channel.insert t x target) ≠ .undefined :=
    fun hw => insert_ne_undefined t x target c (wait_undefined hw).2
  obtain ⟨-,-,hfresh | hagain⟩ := lock_undefined h
  · split at hfresh
    · exact hwait hfresh
    · exact insert_ne_undefined t x target c hfresh
  · exact hwait hagain

theorem remove_undefined (h : c.remove e t target = .undefined) :
    e = .undefined ∧ c.queue = [] := by
  unfold remove at h
  split at h
  · rename_i hq
    cases e with
    | undefined => exact ⟨rfl,hq⟩
    | returnsFalse => cases h
  · cases hm : (c.monitor.leave t).notifyOne .notFull target with
    | undefined => exact absurd hm (Monitor.notifyOne_ne_undefined _ _ _)
    | disabled => simp [hm] at h
    | next m => simp [hm] at h

theorem pop_undefined_iff : c.pop e t target = .undefined ↔ c.PopsEmpty e t := by
  constructor
  · intro h
    obtain ⟨ho,hs,hbody⟩ := lock_undefined h
    obtain ⟨hp,hr⟩ := wait_undefined (or_self_iff.mp hbody)
    obtain ⟨he,hq⟩ := remove_undefined hr
    exact ⟨he,ho,hs,by simpa [predicate,hq] using hp,hq⟩
  · intro h
    obtain ⟨rfl,ho,hs,hstop,hq⟩ := h
    cases hst : c.monitor.status t with
    | asleep cv => exact absurd hst (hs cv)
    | _ => simp [pop,lock,ho,hst,wait,predicate,hstop,remove,hq]

theorem push_parked {cv : CondVar} (ho : c.monitor.owner = some (t,cv)) (x : α)
    (target : Option τ) : c.push t x target =
      .next (.blocked,{ c with monitor := c.monitor.sleep t cv }) := by
  simp [push,lock,ho]

theorem pop_parked {cv : CondVar} (ho : c.monitor.owner = some (t,cv))
    (target : Option τ) : c.pop e t target =
      .next (.blocked,{ c with monitor := c.monitor.sleep t cv }) := by
  simp [pop,lock,ho]

/-- A pusher that finds the mutex free and is not asleep goes on. -/
theorem push_enabled (ho : c.monitor.owner = none)
    (hs : ∀ cv, c.monitor.status t ≠ .asleep cv) (x : α) :
    ∃ target p, c.push t x target = .next p := by
  obtain ⟨target,m,hm⟩ := (c.monitor.leave t).exists_notifyOne .notEmpty
  have hinsert : c.insert t x target =
      .next (.returned (),{ c with queue := c.queue ++ [x], monitor := m }) := by
    simp [insert,hm]
  have hwait : ∃ p, c.wait .notFull t (insert t x target) = .next p := by
    unfold wait
    split
    · exact ⟨_,hinsert⟩
    · exact ⟨_,rfl⟩
  refine ⟨target,?_⟩
  cases hst : c.monitor.status t with
  | asleep cv => exact absurd hst (hs cv)
  | running =>
    simp only [push,lock,ho,hst]
    split
    · exact hwait
    · exact ⟨_,hinsert⟩
  | notified => simpa only [push,lock,ho,hst] using hwait
  | woken => simpa only [push,lock,ho,hst] using hwait

/-- And so does a popper, unless its pop would take from an empty queue. -/
theorem pop_enabled (ho : c.monitor.owner = none)
    (hs : ∀ cv, c.monitor.status t ≠ .asleep cv) (hno : ¬ c.PopsEmpty e t) :
    ∃ target p, c.pop e t target = .next p := by
  obtain ⟨target,m,hm⟩ := (c.monitor.leave t).exists_notifyOne .notFull
  refine ⟨target,?_⟩
  cases hp : c.pop e t target with
  | next p => exact ⟨p,rfl⟩
  | undefined => exact absurd (pop_undefined_iff.mp hp) hno
  | disabled =>
    have hwait : c.wait .notEmpty t (remove e t target) = .disabled := by
      cases hst : c.monitor.status t with
      | asleep cv => exact absurd hst (hs cv)
      | _ => simpa only [pop,lock,ho,hst] using hp
    unfold wait remove at hwait
    split at hwait
    · split at hwait
      · cases e <;> cases hwait
      · simp [hm] at hwait
    · cases hwait

end Channel
end HyperStream
