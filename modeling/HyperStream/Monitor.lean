import Mathlib.Data.Fintype.Basic
import Mathlib.Data.Finset.Card
import HyperStream.Transition
set_option autoImplicit false

open Transition

universe u v w

/-- Where a thread stands with the condition variables of a monitor. A thread that
was notified, or that woke without a notification, still has to take the mutex
and test its predicate again. -/
inductive Status (κ : Type v) where
  | running
  | asleep (c : κ)
  | notified (c : κ)
  | woken (c : κ)
  deriving DecidableEq, Repr

/-- The condition variable whose wait a thread has not left yet. -/
def Status.waitsOn {κ : Type v} : Status κ → Option κ
  | .running => none
  | .asleep c | .notified c | .woken c => some c

theorem Status.waitsOn_eq_none_iff {κ : Type v} {s : Status κ} :
    s.waitsOn = none ↔ s = .running := by
  cases s <;> simp [waitsOn]

/-- A mutex with its condition variables. Critical sections are atomic, except that a
thread which tested its predicate in vain keeps the mutex until it is asleep:
`owner` is that thread, with the condition variable it is about to sleep on. -/
structure Monitor (τ : Type u) (κ : Type v) where
  owner : Option (τ × κ)
  status : τ → Status κ

inductive Reply (ρ : Type w) where
  | blocked
  | returned (r : ρ)
  deriving DecidableEq, Repr

def Reply.isBlocked {ρ : Type w} : Reply ρ → Bool
  | .blocked => true
  | .returned _ => false

namespace Monitor
variable {τ : Type u} {κ : Type v}

def new : Monitor τ κ := ⟨none, fun _ => .running⟩

/-- Does `t` hold the mutex between its vain test and its sleep? -/
def Parked (m : Monitor τ κ) (t : τ) : Prop := ∃ c, m.owner = some (t,c)

/-- `t` is inside a wait: about to sleep, asleep, or awake without the mutex. -/
def Waiting (m : Monitor τ κ) (t : τ) : Prop := m.Parked t ∨ m.status t ≠ .running

theorem waiting_iff {m : Monitor τ κ} {t : τ} :
    m.Waiting t ↔ m.Parked t ∨ (m.status t).waitsOn ≠ none := by
  rw [Waiting,ne_eq,ne_eq,Status.waitsOn_eq_none_iff]

instance [DecidableEq τ] [DecidableEq κ] (m : Monitor τ κ) (t : τ) : Decidable (m.Waiting t) :=
  have : Decidable (m.Parked t) :=
    decidable_of_iff (m.owner.map Prod.fst = some t) (by simp [Parked])
  inferInstanceAs (Decidable (m.Parked t ∨ m.status t ≠ .running))

section Operations
variable [DecidableEq τ]

def setStatus (m : Monitor τ κ) (t : τ) (s : Status κ) : Monitor τ κ :=
  { m with status := fun u => if u = t then s else m.status u }

def leave (m : Monitor τ κ) (t : τ) : Monitor τ κ := m.setStatus t .running

/-- `t` found its predicate false and will sleep on `c`. -/
def park (m : Monitor τ κ) (t : τ) (c : κ) : Monitor τ κ :=
  { m.setStatus t .running with owner := some (t,c) }

/-- `t` gives the mutex up and sleeps, in one step. -/
def sleep (m : Monitor τ κ) (t : τ) (c : κ) : Monitor τ κ :=
  { m.setStatus t (.asleep c) with owner := none }

def wakeSpuriously [DecidableEq κ] (m : Monitor τ κ) (t : τ) : Outcome (Monitor τ κ) :=
  match m.status t with
  | .asleep c => .next (m.setStatus t (.woken c))
  | _ => .disabled

/-- `notify_one`: wake the sleeper that `target` picks; no one, if no one sleeps on `c`. -/
def notifyOne [Fintype τ] [DecidableEq κ] (m : Monitor τ κ) (c : κ) (target : Option τ) :
    Outcome (Monitor τ κ) :=
  match target with
  | some t => if m.status t = .asleep c then .next (m.setStatus t (.notified c)) else .disabled
  | none => if ∀ t, m.status t ≠ .asleep c then .next m else .disabled

@[simp] theorem setStatus_owner (m : Monitor τ κ) (t : τ) (s : Status κ) :
    (m.setStatus t s).owner = m.owner := rfl

@[simp] theorem setStatus_status (m : Monitor τ κ) (t u : τ) (s : Status κ) :
    (m.setStatus t s).status u = if u = t then s else m.status u := rfl

@[simp] theorem leave_owner (m : Monitor τ κ) (t : τ) : (m.leave t).owner = m.owner := rfl

@[simp] theorem leave_status (m : Monitor τ κ) (t u : τ) :
    (m.leave t).status u = if u = t then .running else m.status u := rfl

@[simp] theorem park_owner (m : Monitor τ κ) (t : τ) (c : κ) :
    (m.park t c).owner = some (t,c) := rfl

@[simp] theorem park_status (m : Monitor τ κ) (t u : τ) (c : κ) :
    (m.park t c).status u = if u = t then .running else m.status u := rfl

@[simp] theorem sleep_owner (m : Monitor τ κ) (t : τ) (c : κ) : (m.sleep t c).owner = none := rfl

@[simp] theorem sleep_status (m : Monitor τ κ) (t u : τ) (c : κ) :
    (m.sleep t c).status u = if u = t then .asleep c else m.status u := rfl

theorem sleeper_of_setStatus {m : Monitor τ κ} {c : κ} {t : τ} {s : Status κ}
    (hs : s ≠ .asleep c) (h : ∃ u, (m.setStatus t s).status u = .asleep c) :
    ∃ u, m.status u = .asleep c := by
  obtain ⟨u,hu⟩ := h
  have hut : u ≠ t := by
    intro heq
    subst heq
    exact hs (by simpa using hu)
  exact ⟨u,by simpa [hut] using hu⟩

theorem wakeSpuriously_cases [DecidableEq κ] {m m' : Monitor τ κ} {t : τ}
    (h : m.wakeSpuriously t = .next m') :
    ∃ c, m.status t = .asleep c ∧ m' = m.setStatus t (.woken c) := by
  unfold wakeSpuriously at h
  cases hs : m.status t <;> simp only [hs] at h <;> cases h
  exact ⟨_,rfl,rfl⟩

theorem wakeSpuriously_owner [DecidableEq κ] {m m' : Monitor τ κ} {t : τ}
    (h : m.wakeSpuriously t = .next m') : m'.owner = m.owner := by
  obtain ⟨c,-,rfl⟩ := wakeSpuriously_cases h
  rfl

theorem wakeSpuriously_waitsOn [DecidableEq κ] {m m' : Monitor τ κ} {t : τ}
    (h : m.wakeSpuriously t = .next m') (u : τ) :
    (m'.status u).waitsOn = (m.status u).waitsOn := by
  obtain ⟨c,hc,rfl⟩ := wakeSpuriously_cases h
  by_cases hu : u = t
  · subst hu; simp [hc,Status.waitsOn]
  · simp [hu]

theorem wakeSpuriously_waiting [DecidableEq κ] {m m' : Monitor τ κ} {t u : τ}
    (h : m.wakeSpuriously t = .next m') : m'.Waiting u ↔ m.Waiting u := by
  rw [waiting_iff,waiting_iff,Parked,Parked,wakeSpuriously_owner h,wakeSpuriously_waitsOn h]

theorem notifyOne_cases [Fintype τ] [DecidableEq κ] {m m' : Monitor τ κ} {c : κ}
    {target : Option τ} (h : m.notifyOne c target = .next m') :
    (∃ t, m.status t = .asleep c ∧ m' = m.setStatus t (.notified c)) ∨
    ((∀ t, m.status t ≠ .asleep c) ∧ m' = m) := by
  cases target with
  | none =>
    simp only [notifyOne] at h
    split at h
    · cases h; exact .inr ⟨‹_›,rfl⟩
    · cases h
  | some t =>
    simp only [notifyOne] at h
    split at h
    · cases h; exact .inl ⟨t,‹_›,rfl⟩
    · cases h

/-- Some thread, or no one if nobody sleeps there, can be picked. -/
theorem exists_notifyOne [Fintype τ] [DecidableEq κ] (m : Monitor τ κ) (c : κ) :
    ∃ target m', m.notifyOne c target = .next m' := by
  by_cases h : ∃ t, m.status t = .asleep c
  · obtain ⟨t,ht⟩ := h
    exact ⟨some t,_,if_pos ht⟩
  · simp only [not_exists] at h
    exact ⟨none,m,by simp [notifyOne,h]⟩

theorem notifyOne_ne_undefined [Fintype τ] [DecidableEq κ] (m : Monitor τ κ) (c : κ)
    (target : Option τ) : m.notifyOne c target ≠ .undefined := by
  cases target <;> simp only [notifyOne] <;> split <;> simp

theorem notifyOne_owner [Fintype τ] [DecidableEq κ] {m m' : Monitor τ κ} {c : κ}
    {target : Option τ} (h : m.notifyOne c target = .next m') : m'.owner = m.owner := by
  obtain ⟨u,-,rfl⟩ | ⟨-,rfl⟩ := notifyOne_cases h <;> rfl

theorem notifyOne_waitsOn [Fintype τ] [DecidableEq κ] {m m' : Monitor τ κ} {c : κ}
    {target : Option τ} (h : m.notifyOne c target = .next m') (u : τ) :
    (m'.status u).waitsOn = (m.status u).waitsOn := by
  obtain ⟨t,ht,rfl⟩ | ⟨-,rfl⟩ := notifyOne_cases h
  · by_cases hu : u = t
    · subst hu; simp [ht,Status.waitsOn]
    · simp [hu]
  · rfl

/-- What a step of `t` inside a call that waits on `cv` does to the monitor; the flag says
that the call is blocked. -/
inductive Critical [Fintype τ] [DecidableEq κ] (t : τ) (cv : κ) (m : Monitor τ κ) :
    Bool → Monitor τ κ → Prop where
  | sleep {d : κ} : m.owner = some (t,d) → Critical t cv m true (m.sleep t d)
  | park : m.owner = none → (∀ d, m.status t ≠ .asleep d) → Critical t cv m true (m.park t cv)
  | notify {d : κ} {target : Option τ} {m' : Monitor τ κ} : m.owner = none →
      (m.leave t).notifyOne d target = .next m' → Critical t cv m false m'
  | leave : m.owner = none → Critical t cv m false (m.leave t)

namespace Critical
variable [Fintype τ] [DecidableEq κ] {t u : τ} {cv d : κ} {m m' : Monitor τ κ} {b : Bool}

theorem waitsOn_other (h : Critical t cv m b m') (hu : u ≠ t) :
    (m'.status u).waitsOn = (m.status u).waitsOn := by
  cases h with
  | sleep _ => simp [hu]
  | park => simp [hu]
  | notify _ hn => rw [notifyOne_waitsOn hn]; simp [hu]
  | leave _ => simp [hu]

theorem waitsOn_self (h : Critical t cv m b m') (hd : (m'.status t).waitsOn = some d) :
    b = true ∧ m.owner = some (t,d) := by
  cases h with
  | sleep ho =>
    simp only [sleep_status,if_true,Status.waitsOn,Option.some.injEq] at hd
    exact ⟨rfl,hd ▸ ho⟩
  | park => simp [Status.waitsOn] at hd
  | notify _ hn => rw [notifyOne_waitsOn hn] at hd; simp [Status.waitsOn] at hd
  | leave _ => simp [Status.waitsOn] at hd

/-- Only the thread that holds the mutex after a vain test falls asleep. -/
theorem asleep (h : Critical t cv m b m') (hu : m'.status u = .asleep d) :
    m.status u = .asleep d ∨ m.owner = some (u,d) := by
  cases h with
  | @sleep c ho =>
    by_cases hut : u = t
    · subst hut
      simp only [sleep_status,if_true,Status.asleep.injEq] at hu
      exact .inr (hu ▸ ho)
    · exact .inl (by simpa [hut] using hu)
  | park =>
    by_cases hut : u = t
    · simp [hut] at hu
    · exact .inl (by simpa [hut] using hu)
  | @notify c target _ _ hn =>
    have hl : (m.leave t).status u = .asleep d := by
      obtain ⟨v,-,rfl⟩ | ⟨-,rfl⟩ := notifyOne_cases hn
      · by_cases huv : u = v
        · simp [huv] at hu
        · simpa [huv] using hu
      · exact hu
    by_cases hut : u = t
    · simp [hut] at hl
    · exact .inl (by simpa [hut] using hl)
  | leave _ =>
    by_cases hut : u = t
    · simp [hut] at hu
    · exact .inl (by simpa [hut] using hu)

theorem not_waiting (h : Critical t cv m false m') : ¬ m'.Waiting t := by
  rw [waiting_iff,Parked]
  cases h with
  | notify ho hn =>
    rw [notifyOne_owner hn,notifyOne_waitsOn hn,leave_owner,ho]
    simp [Status.waitsOn]
  | leave ho => simp [ho,Status.waitsOn]

theorem owner_eq (h : Critical t cv m b m') (ho : m'.owner = some (u,d)) :
    u = t ∧ d = cv ∧ b = true := by
  cases h with
  | sleep _ => cases ho
  | park => cases ho; exact ⟨rfl,rfl,rfl⟩
  | notify hm hn => rw [notifyOne_owner hn,leave_owner,hm] at ho; cases ho
  | leave hm => rw [leave_owner,hm] at ho; cases ho

theorem waiting_other (h : Critical t cv m b m') (hu : u ≠ t) (hw : m'.Waiting u) :
    m.Waiting u := by
  rw [waiting_iff] at hw ⊢
  rcases hw with ⟨d,ho⟩ | hw
  · exact absurd (h.owner_eq ho).1 hu
  · rw [h.waitsOn_other hu] at hw
    exact .inr hw

end Critical

/-- How many steps a thread may still take inside its call before it sleeps. -/
def unrest (m : Monitor τ κ) (t : τ) : Nat :=
  if m.owner.map Prod.fst = some t then 1
  else match m.status t with
    | .asleep _ => 0
    | _ => 2

theorem unrest_le (m : Monitor τ κ) (t : τ) : m.unrest t ≤ 2 := by
  unfold unrest
  split
  · omega
  · split <;> omega

theorem unrest_eq_two {m : Monitor τ κ} {t : τ} (ho : m.owner = none)
    (hs : ∀ d, m.status t ≠ .asleep d) : m.unrest t = 2 := by
  unfold unrest
  rw [if_neg (by simp [ho])]
  cases h : m.status t with
  | asleep d => exact absurd h (hs d)
  | _ => rfl

/-- A blocked step brings its thread nearer to sleep and leaves the others where they are. -/
theorem Critical.unrest [Fintype τ] [DecidableEq κ] {t : τ} {cv : κ} {m m' : Monitor τ κ}
    (h : Critical t cv m true m') :
    m'.unrest t < m.unrest t ∧ ∀ u, u ≠ t → m'.unrest u = m.unrest u := by
  cases h with
  | sleep ho =>
    refine ⟨by simp [Monitor.unrest,ho],fun u hu => ?_⟩
    simp [Monitor.unrest,ho,hu,Ne.symm hu]
  | park ho hs =>
    refine ⟨?_,fun u hu => ?_⟩
    · rw [unrest_eq_two ho hs]
      simp [Monitor.unrest]
    · simp [Monitor.unrest,ho,hu,Ne.symm hu]

end Operations

/-! Counting notifications. `Covered c n` is the law that keeps wakeups from being lost:
while anyone sleeps on `c`, each of the `n` things to be had there has its own
notified thread on the way. -/

section Counting
variable [Fintype τ] [DecidableEq κ]

def notified (m : Monitor τ κ) (c : κ) : Finset τ :=
  Finset.univ.filter fun t => m.status t = .notified c

def Covered (m : Monitor τ κ) (c : κ) (n : Nat) : Prop :=
  (∃ t, m.status t = .asleep c) → n ≤ (m.notified c).card

theorem mem_notified {m : Monitor τ κ} {c : κ} {t : τ} :
    t ∈ m.notified c ↔ m.status t = .notified c := by simp [notified]

theorem Covered.mono {m : Monitor τ κ} {c : κ} {n k : Nat} (h : m.Covered c n) (hk : k ≤ n) :
    m.Covered c k := fun hs => hk.trans (h hs)

theorem Covered.zero (m : Monitor τ κ) (c : κ) : m.Covered c 0 := fun _ => Nat.zero_le _

variable [DecidableEq τ]

theorem notified_setStatus_notified {m : Monitor τ κ} {c : κ} {t : τ} :
    (m.setStatus t (.notified c)).notified c = insert t (m.notified c) := by
  ext u
  by_cases hu : u = t <;> simp [mem_notified,hu]

theorem notified_setStatus_of_ne {m : Monitor τ κ} {c : κ} {t : τ} {s : Status κ}
    (hs : s ≠ .notified c) : (m.setStatus t s).notified c = (m.notified c).erase t := by
  ext u
  by_cases hu : u = t <;> simp [mem_notified,hu,hs]

/-- Changing the status of one thread loses at most the one notification it had. -/
theorem card_notified_setStatus (m : Monitor τ κ) (c : κ) (t : τ) (s : Status κ) :
    (m.notified c).card ≤ ((m.setStatus t s).notified c).card + 1 := by
  by_cases hs : s = .notified c
  · subst s
    rw [notified_setStatus_notified]
    have := Finset.card_le_card (Finset.subset_insert t (m.notified c))
    omega
  · rw [notified_setStatus_of_ne hs]
    have := Finset.pred_card_le_card_erase (s := m.notified c) (a := t)
    omega

/-- A thread without a notification of `c` has none to lose. -/
theorem card_notified_setStatus_of_notMem {m : Monitor τ κ} {c : κ} {t : τ} (s : Status κ)
    (ht : t ∉ m.notified c) : (m.notified c).card ≤ ((m.setStatus t s).notified c).card := by
  apply Finset.card_le_card
  intro u hu
  have hut : u ≠ t := by
    intro heq
    subst heq
    exact ht hu
  simpa [mem_notified,hut] using mem_notified.mp hu

/-- Unless it falls asleep on `c`, a thread takes at most one thing with it. -/
theorem Covered.setStatus {m : Monitor τ κ} {c : κ} {n : Nat} {t : τ} {s : Status κ}
    (h : m.Covered c (n+1)) (hs : s ≠ .asleep c) : (m.setStatus t s).Covered c n := by
  intro hsleep
  have hn := h (sleeper_of_setStatus hs hsleep)
  have hc := card_notified_setStatus m c t s
  omega

theorem Covered.setStatus_of_notMem {m : Monitor τ κ} {c : κ} {n : Nat} {t : τ} {s : Status κ}
    (h : m.Covered c n) (ht : t ∉ m.notified c) (hs : s ≠ .asleep c) :
    (m.setStatus t s).Covered c n := by
  intro hsleep
  have hn := h (sleeper_of_setStatus hs hsleep)
  have hc := card_notified_setStatus_of_notMem s ht
  omega

/-- A thread that waits elsewhere, or nowhere, leaves what is on the way for `c`. -/
theorem Covered.setStatus_of_waitsOn {m : Monitor τ κ} {c : κ} {n : Nat} {t : τ}
    {s : Status κ} (h : m.Covered c n) (ht : (m.status t).waitsOn ≠ some c)
    (hs : s ≠ .asleep c) : (m.setStatus t s).Covered c n := by
  refine h.setStatus_of_notMem (fun hn => ht ?_) hs
  rw [mem_notified.mp hn]
  rfl

/-- A sleeper that wakes, for whatever reason, loses no notification. -/
theorem Covered.wake {m : Monitor τ κ} {c d : κ} {n : Nat} {t : τ} {s : Status κ}
    (h : m.Covered c n) (ht : m.status t = .asleep d) (hs : s ≠ .asleep c) :
    (m.setStatus t s).Covered c n := by
  refine h.setStatus_of_notMem (fun hn => ?_) hs
  rw [mem_notified,ht] at hn
  cases hn

theorem Covered.wakeSpuriously {m m' : Monitor τ κ} {c : κ} {n : Nat} {t : τ}
    (h : m.Covered c n) (hw : m.wakeSpuriously t = .next m') : m'.Covered c n := by
  obtain ⟨d,hd,rfl⟩ := wakeSpuriously_cases hw
  exact h.wake hd (by simp)

theorem Covered.notifyOne_other {m m' : Monitor τ κ} {c d : κ} {n : Nat} {target : Option τ}
    (h : m.Covered c n) (hn : m.notifyOne d target = .next m') : m'.Covered c n := by
  obtain ⟨t,ht,rfl⟩ | ⟨-,rfl⟩ := notifyOne_cases hn
  · exact h.wake ht (by simp)
  · exact h

theorem Covered.notifyOne {m m' : Monitor τ κ} {c : κ} {n : Nat} {target : Option τ}
    (h : m.Covered c n) (hn : m.notifyOne c target = .next m') : m'.Covered c (n+1) := by
  obtain ⟨t,ht,rfl⟩ | ⟨hno,rfl⟩ := notifyOne_cases hn
  · intro _
    have hfresh : t ∉ m.notified c := by simp [mem_notified,ht]
    rw [notified_setStatus_notified,Finset.card_insert_of_notMem hfresh]
    exact Nat.succ_le_succ (h ⟨t,ht⟩)
  · intro hs
    obtain ⟨t,ht⟩ := hs
    exact absurd ht (hno t)

end Counting
end Monitor
