import HyperStream.Monitor
set_option autoImplicit false

open Transition

namespace HyperStream

/-- The value that an int has as a size_t. -/
def sizeT (z : Int) : Nat := (BitVec.ofInt 64 z).toNat

inductive CondVar where
  | notFull
  | notEmpty
  deriving DecidableEq, Repr

/-- `monitor` is the mutex with its two condition variables. The threads that use the
channel are those of `τ`. -/
structure Channel (τ α : Type) where
  queue : List α
  monitor : Monitor τ CondVar
  capacity : Nat
  isStop : Bool

/-- What a pop does on a stopped empty queue. The code reads `queue.front()` there, which
is undefined; the loops that call it test for a false return instead. -/
inductive EmptyPop where
  | undefined
  | returnsFalse
  deriving DecidableEq, Repr

namespace Channel
variable {τ α : Type}

def new (capacity : Nat) : Channel τ α := ⟨[],Monitor.new,capacity,false⟩

def packetCapacity : Nat := sizeT (-1)

example : packetCapacity = 18446744073709551615 := rfl

def frameCapacity : Nat := sizeT 50

def predicate (c : Channel τ α) : CondVar → Bool
  | .notFull => c.isStop || decide (c.queue.length < c.capacity)
  | .notEmpty => c.isStop || !c.queue.isEmpty

section Operations
variable [DecidableEq τ]

/-- Go on with `body` if the predicate holds; otherwise wait, the mutex still held. -/
def wait {ρ : Type} (cv : CondVar) (t : τ)
    (body : Channel τ α → Outcome (Reply ρ × Channel τ α)) (c : Channel τ α) :
    Outcome (Reply ρ × Channel τ α) :=
  if c.predicate cv then body c
  else .next (.blocked,{ c with monitor := c.monitor.park t cv })

/-- The next step of `t` inside a call: it falls asleep after a vain test, or it takes the
free mutex, for the first time (`fresh`) or after it woke (`again`). -/
def lock {ρ : Type} (t : τ) (fresh again : Channel τ α → Outcome (Reply ρ × Channel τ α))
    (c : Channel τ α) : Outcome (Reply ρ × Channel τ α) :=
  match c.monitor.owner with
  | some (u,cv) =>
    if u = t then .next (.blocked,{ c with monitor := c.monitor.sleep t cv }) else .disabled
  | none =>
    match c.monitor.status t with
    | .running => fresh c
    | .asleep _ => .disabled
    | .notified _ | .woken _ => again c

def wakeSpuriously (t : τ) (c : Channel τ α) : Outcome (Channel τ α) :=
  (c.monitor.wakeSpuriously t).bind fun m => .next { c with monitor := m }

def empty (t : τ) (c : Channel τ α) : Outcome (Reply Bool × Channel τ α) :=
  c.lock t (fun c => .next (.returned c.queue.isEmpty,c)) fun _ => .disabled

def size (t : τ) (c : Channel τ α) : Outcome (Reply Nat × Channel τ α) :=
  c.lock t (fun c => .next (.returned c.queue.length,c)) fun _ => .disabled

/-- The store takes no mutex and notifies no one. -/
def stop (c : Channel τ α) : Channel τ α := { c with isStop := true }

variable [Fintype τ]

def insert (t : τ) (x : α) (target : Option τ) (c : Channel τ α) :
    Outcome (Reply Unit × Channel τ α) :=
  ((c.monitor.leave t).notifyOne .notEmpty target).bind fun m =>
    .next (.returned (),{ c with queue := c.queue ++ [x], monitor := m })

/-- What pop does once it no longer waits; `none` is the false return. -/
def remove (e : EmptyPop) (t : τ) (target : Option τ) (c : Channel τ α) :
    Outcome (Reply (Option α) × Channel τ α) :=
  match c.queue with
  | [] =>
    match e with
    | .undefined => .undefined
    | .returnsFalse => .next (.returned none,{ c with monitor := c.monitor.leave t })
  | x :: rest =>
    ((c.monitor.leave t).notifyOne .notFull target).bind fun m =>
      .next (.returned (some x),{ c with queue := rest, monitor := m })

def push (t : τ) (x : α) (target : Option τ) (c : Channel τ α) :
    Outcome (Reply Unit × Channel τ α) :=
  c.lock t
    (fun c =>
      if c.capacity ≠ sizeT (-1) ∧ c.capacity ≤ c.queue.length then
        c.wait .notFull t (insert t x target)
      else c.insert t x target)
    (wait .notFull t (insert t x target))

def pop (e : EmptyPop) (t : τ) (target : Option τ) (c : Channel τ α) :
    Outcome (Reply (Option α) × Channel τ α) :=
  c.lock t (wait .notEmpty t (remove e t target)) (wait .notEmpty t (remove e t target))

end Operations

section Steps
variable [DecidableEq τ]

theorem lock_asleep {ρ : Type} {t : τ} {cv : CondVar}
    {fresh again : Channel τ α → Outcome (Reply ρ × Channel τ α)} {c : Channel τ α}
    (ho : c.monitor.owner = none) (hs : c.monitor.status t = .asleep cv) :
    c.lock t fresh again = .disabled := by simp [lock,ho,hs]

theorem wait_cases {ρ : Type} {cv : CondVar} {t : τ}
    {body : Channel τ α → Outcome (Reply ρ × Channel τ α)} {c c' : Channel τ α} {r : Reply ρ}
    (h : c.wait cv t body = .next (r,c')) :
    (c.predicate cv = true ∧ body c = .next (r,c')) ∨
    (c.predicate cv = false ∧ r = .blocked ∧ c' = { c with monitor := c.monitor.park t cv }) := by
  unfold wait at h
  split at h
  · exact .inl ⟨‹_›,h⟩
  · rename_i hp
    cases h; exact .inr ⟨by simpa using hp,rfl,rfl⟩

theorem lock_cases {ρ : Type} {t : τ}
    {fresh again : Channel τ α → Outcome (Reply ρ × Channel τ α)} {c c' : Channel τ α}
    {r : Reply ρ} (h : c.lock t fresh again = .next (r,c')) :
    (∃ cv, c.monitor.owner = some (t,cv) ∧ r = .blocked ∧
      c' = { c with monitor := c.monitor.sleep t cv }) ∨
    (c.monitor.owner = none ∧ c.monitor.status t = .running ∧ fresh c = .next (r,c')) ∨
    (c.monitor.owner = none ∧ c.monitor.status t ≠ .running ∧
      (∀ cv, c.monitor.status t ≠ .asleep cv) ∧ again c = .next (r,c')) := by
  unfold lock at h
  split at h
  · rename_i u cv ho
    split at h
    · rename_i hu
      subst hu
      cases h; exact .inl ⟨cv,ho,rfl,rfl⟩
    · cases h
  · rename_i ho
    split at h
    · exact .inr (.inl ⟨ho,‹_›,h⟩)
    · cases h
    all_goals
      rename_i hs
      exact .inr (.inr ⟨ho,by simp [hs],by simp [hs],h⟩)

theorem wakeSpuriously_cases {t : τ} {c c' : Channel τ α}
    (h : c.wakeSpuriously t = .next c') :
    ∃ cv, c.monitor.status t = .asleep cv ∧
      c' = { c with monitor := c.monitor.setStatus t (.woken cv) } := by
  obtain ⟨m,hm,h⟩ := Outcome.bind_eq_next.mp h
  obtain ⟨cv,hcv,rfl⟩ := Monitor.wakeSpuriously_cases hm
  cases h; exact ⟨cv,hcv,rfl⟩

theorem wakeSpuriously_isStop {t : τ} {c c' : Channel τ α} (h : c.wakeSpuriously t = .next c') :
    c'.isStop = c.isStop := by
  obtain ⟨cv,-,rfl⟩ := wakeSpuriously_cases h
  rfl

theorem wakeSpuriously_waiting {t u : τ} {c c' : Channel τ α}
    (h : c.wakeSpuriously t = .next c') : c'.monitor.Waiting u ↔ c.monitor.Waiting u := by
  obtain ⟨m,hm,h⟩ := Outcome.bind_eq_next.mp h
  cases h
  exact Monitor.wakeSpuriously_waiting hm

variable [Fintype τ]

/-- All that a step of a push can do. -/
inductive PushStep (t : τ) (x : α) (c : Channel τ α) : Reply Unit → Channel τ α → Prop where
  | sleep {cv : CondVar} : c.monitor.owner = some (t,cv) →
      PushStep t x c .blocked { c with monitor := c.monitor.sleep t cv }
  | park : c.monitor.owner = none → (∀ cv, c.monitor.status t ≠ .asleep cv) →
      c.isStop = false → c.capacity ≤ c.queue.length →
      (c.monitor.status t = .running → c.capacity ≠ sizeT (-1)) →
      PushStep t x c .blocked { c with monitor := c.monitor.park t .notFull }
  | insert {m : Monitor τ CondVar} {target : Option τ} : c.monitor.owner = none →
      (∀ cv, c.monitor.status t ≠ .asleep cv) →
      (c.isStop = true ∨ c.queue.length < c.capacity ∨
        (c.monitor.status t = .running ∧ c.capacity = sizeT (-1))) →
      (c.monitor.leave t).notifyOne .notEmpty target = .next m →
      PushStep t x c (.returned ()) { c with queue := c.queue ++ [x], monitor := m }

inductive PopStep (e : EmptyPop) (t : τ) (c : Channel τ α) :
    Reply (Option α) → Channel τ α → Prop where
  | sleep {cv : CondVar} : c.monitor.owner = some (t,cv) →
      PopStep e t c .blocked { c with monitor := c.monitor.sleep t cv }
  | park : c.monitor.owner = none → (∀ cv, c.monitor.status t ≠ .asleep cv) →
      c.isStop = false → c.queue = [] →
      PopStep e t c .blocked { c with monitor := c.monitor.park t .notEmpty }
  | remove {x : α} {rest : List α} {m : Monitor τ CondVar} {target : Option τ} :
      c.monitor.owner = none → (∀ cv, c.monitor.status t ≠ .asleep cv) →
      c.queue = x :: rest → (c.monitor.leave t).notifyOne .notFull target = .next m →
      PopStep e t c (.returned (some x)) { c with queue := rest, monitor := m }
  | ended : c.monitor.owner = none → (∀ cv, c.monitor.status t ≠ .asleep cv) →
      e = .returnsFalse → c.isStop = true → c.queue = [] →
      PopStep e t c (.returned none) { c with monitor := c.monitor.leave t }

theorem PushStep.of_insert {t : τ} {x : α} {target : Option τ} {c c' : Channel τ α}
    {r : Reply Unit} (ho : c.monitor.owner = none) (hs : ∀ cv, c.monitor.status t ≠ .asleep cv)
    (hroom : c.isStop = true ∨ c.queue.length < c.capacity ∨
      (c.monitor.status t = .running ∧ c.capacity = sizeT (-1)))
    (h : c.insert t x target = .next (r,c')) : PushStep t x c r c' := by
  obtain ⟨m,hm,h⟩ := Outcome.bind_eq_next.mp h
  cases h; exact .insert ho hs hroom hm

theorem PushStep.of_wait {t : τ} {x : α} {target : Option τ} {c c' : Channel τ α}
    {r : Reply Unit} (ho : c.monitor.owner = none) (hs : ∀ cv, c.monitor.status t ≠ .asleep cv)
    (hbound : c.monitor.status t = .running → c.capacity ≠ sizeT (-1))
    (h : c.wait .notFull t (Channel.insert t x target) = .next (r,c')) : PushStep t x c r c' := by
  obtain ⟨hp,h⟩ | ⟨hp,rfl,rfl⟩ := wait_cases h
  · refine .of_insert ho hs ?_ h
    simp only [predicate,Bool.or_eq_true,decide_eq_true_eq] at hp
    exact hp.imp_right .inl
  · simp only [predicate,Bool.or_eq_false_iff,decide_eq_false_iff_not,Nat.not_lt] at hp
    exact .park ho hs hp.1 hp.2 hbound

theorem push_cases {t : τ} {x : α} {target : Option τ} {c c' : Channel τ α} {r : Reply Unit}
    (h : c.push t x target = .next (r,c')) : PushStep t x c r c' := by
  obtain ⟨cv,ho,rfl,rfl⟩ | ⟨ho,hrun,h⟩ | ⟨ho,hrun,hs,h⟩ := lock_cases h
  · exact .sleep ho
  · have hs : ∀ cv, c.monitor.status t ≠ .asleep cv := by simp [hrun]
    split at h
    · exact .of_wait ho hs (fun _ => (‹_ ∧ _› : _ ∧ _).1) h
    · rename_i hroom
      refine .of_insert ho hs (.inr ?_) h
      by_cases hc : c.capacity = sizeT (-1)
      · exact .inr ⟨hrun,hc⟩
      · exact .inl (by simpa [hc] using hroom)
  · exact .of_wait ho hs (fun hr => absurd hr hrun) h

theorem PopStep.of_wait {e : EmptyPop} {t : τ} {target : Option τ} {c c' : Channel τ α}
    {r : Reply (Option α)} (ho : c.monitor.owner = none)
    (hs : ∀ cv, c.monitor.status t ≠ .asleep cv)
    (h : c.wait .notEmpty t (Channel.remove e t target) = .next (r,c')) : PopStep e t c r c' := by
  obtain ⟨hp,h⟩ | ⟨hp,rfl,rfl⟩ := wait_cases h
  · unfold Channel.remove at h
    split at h
    · rename_i hq
      have hstop : c.isStop = true := by simpa [predicate,hq] using hp
      cases e with
      | undefined => cases h
      | returnsFalse => cases h; exact .ended ho hs rfl hstop hq
    · rename_i x rest hq
      obtain ⟨m,hm,h⟩ := Outcome.bind_eq_next.mp h
      cases h; exact .remove ho hs hq hm
  · have hp : c.isStop = false ∧ c.queue = [] := by simpa [predicate] using hp
    exact .park ho hs hp.1 hp.2

theorem pop_cases {e : EmptyPop} {t : τ} {target : Option τ} {c c' : Channel τ α}
    {r : Reply (Option α)} (h : c.pop e t target = .next (r,c')) : PopStep e t c r c' := by
  obtain ⟨cv,ho,rfl,rfl⟩ | ⟨ho,hrun,h⟩ | ⟨ho,hrun,hs,h⟩ := lock_cases h
  · exact .sleep ho
  · exact .of_wait ho (by simp [hrun]) h
  · exact .of_wait ho hs h

theorem PushStep.critical {t : τ} {x : α} {c c' : Channel τ α} {r : Reply Unit}
    (h : PushStep t x c r c') :
    Monitor.Critical t .notFull c.monitor (r.isBlocked) c'.monitor := by
  cases h with
  | sleep ho => exact .sleep ho
  | park ho hs => exact .park ho hs
  | insert ho _ _ hm => exact .notify ho hm

theorem PopStep.critical {e : EmptyPop} {t : τ} {c c' : Channel τ α} {r : Reply (Option α)}
    (h : PopStep e t c r c') :
    Monitor.Critical t .notEmpty c.monitor (r.isBlocked) c'.monitor := by
  cases h with
  | sleep ho => exact .sleep ho
  | park ho hs => exact .park ho hs
  | remove ho _ _ hm => exact .notify ho hm
  | ended ho => exact .leave ho

/-- A push waits only if it waited already or met a full channel that is not stopped. -/
theorem PushStep.waiting {t : τ} {x : α} {c c' : Channel τ α} {r : Reply Unit}
    (h : PushStep t x c r c') (hw : c'.monitor.Waiting t) :
    c.monitor.Waiting t ∨ (c.isStop = false ∧ c.capacity ≤ c.queue.length) := by
  have hcritical := h.critical
  cases h with
  | sleep ho => exact .inl (.inl ⟨_,ho⟩)
  | park _ _ hstop hfull => exact .inr ⟨hstop,hfull⟩
  | insert => exact absurd hw hcritical.not_waiting

theorem PushStep.frame {t : τ} {x : α} {c c' : Channel τ α} {r : Reply Unit}
    (h : PushStep t x c r c') : c'.isStop = c.isStop ∧ c'.capacity = c.capacity := by
  cases h <;> exact ⟨rfl,rfl⟩

theorem PopStep.frame {e : EmptyPop} {t : τ} {c c' : Channel τ α} {r : Reply (Option α)}
    (h : PopStep e t c r c') : c'.isStop = c.isStop ∧ c'.capacity = c.capacity := by
  cases h <;> exact ⟨rfl,rfl⟩

end Steps
end Channel
end HyperStream
