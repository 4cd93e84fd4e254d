import Mathlib.Logic.Basic
set_option autoImplicit false

namespace Transition

universe u v w

/-- What one atomic step of a program does in a state: it has to wait, it leaves
the behaviours that its language defines, or it goes on. A run ends at an undefined step: no
state is claimed after it, and the step itself is judged by what its code does. -/
inductive Outcome (σ : Type u) where
  | disabled
  | undefined
  | next (s : σ)
  deriving DecidableEq, Repr

namespace Outcome
variable {σ : Type u} {ρ : Type v}

def bind (x : Outcome σ) (f : σ → Outcome ρ) : Outcome ρ :=
  match x with
  | .disabled => .disabled
  | .undefined => .undefined
  | .next s => f s

@[simp] theorem bind_disabled (f : σ → Outcome ρ) : bind .disabled f = .disabled := rfl
@[simp] theorem bind_undefined (f : σ → Outcome ρ) : bind .undefined f = .undefined := rfl
@[simp] theorem bind_next (s : σ) (f : σ → Outcome ρ) : bind (.next s) f = f s := rfl

theorem bind_eq_next {x : Outcome σ} {f : σ → Outcome ρ} {r : ρ} :
    x.bind f = .next r ↔ ∃ s, x = .next s ∧ f s = .next r := by
  cases x <;> simp [bind]

theorem bind_eq_undefined {x : Outcome σ} {f : σ → Outcome ρ} :
    x.bind f = .undefined ↔ x = .undefined ∨ ∃ s, x = .next s ∧ f s = .undefined := by
  cases x <;> simp [bind]

def test (x : Outcome σ) (p : σ → Bool) : Bool :=
  match x with
  | .next s => p s
  | _ => false

/-- A step that can be taken leads to a state, and that meets `p`. -/
def Ensures (p : σ → Prop) : Outcome σ → Prop
  | .disabled => True
  | .undefined => False
  | .next s => p s

end Outcome

/-- A program is an initial state and, for each label (which thread moves, and how
its nondeterminism is resolved), the outcome of that step. -/
structure Program (σ : Type u) (ι : Type v) where
  start : σ
  step : σ → ι → Outcome σ

section Runs
variable {σ : Type u} {ι : Type v} (M : Program σ ι) (ok : σ → ι → Prop)

/-- The runs whose every step meets `ok` in the state it is taken from. -/
inductive Run : σ → σ → Prop where
  | refl (s : σ) : Run s s
  | step {s t u : σ} {a : ι} : Run s t → ok t a → M.step t a = .next u → Run s u

def Reachable (s : σ) : Prop := Run M ok M.start s

def anyStep : σ → ι → Prop := fun _ _ => True

variable {M ok}

theorem Run.trans {s t u : σ} (h : Run M ok s t) (k : Run M ok t u) : Run M ok s u := by
  induction k with
  | refl => exact h
  | step _ ha hs ih => exact .step ih ha hs

theorem Reachable.start : Reachable M ok M.start := .refl _

theorem Run.mono {ok' : σ → ι → Prop} {s t : σ} (h : Run M ok s t)
    (hok : ∀ s a, ok s a → ok' s a) : Run M ok' s t := by
  induction h with
  | refl => exact .refl _
  | step _ ha hs ih => exact .step ih (hok _ _ ha) hs

theorem Reachable.mono {ok' : σ → ι → Prop} {s : σ} (h : Reachable M ok s)
    (hok : ∀ s a, ok s a → ok' s a) : Reachable M ok' s := Run.mono h hok

theorem Reachable.next {s t : σ} {a : ι} (h : Reachable M ok s) (ha : ok s a)
    (hs : M.step s a = .next t) : Reachable M ok t := Run.step h ha hs

/-- The invariant rule: what every permitted step preserves holds along every run. -/
theorem Run.invariant {P : σ → Prop}
    (hstep : ∀ {s t : σ} {a : ι}, P s → ok s a → M.step s a = .next t → P t)
    {s t : σ} (h : Run M ok s t) (h0 : P s) : P t := by
  induction h with
  | refl => exact h0
  | step _ ha hs ih => exact hstep ih ha hs

theorem Reachable.invariant {P : σ → Prop} (h0 : P M.start)
    (hstep : ∀ {s t : σ} {a : ι}, P s → ok s a → M.step s a = .next t → P t)
    {s : σ} (h : Reachable M ok s) : P s := Run.invariant hstep h h0

/-- The invariant rule for a run from a reachable state, all of whose states are reachable. -/
theorem Run.induction {P : σ → Prop} {s t : σ} (hs : Reachable M ok s) (h : Run M ok s t)
    (h0 : P s) (hstep : ∀ {u v : σ} {a : ι}, Reachable M ok u → P u → ok u a →
      M.step u a = .next v → P v) : P t := by
  suffices hboth : Reachable M ok t ∧ P t from hboth.2
  refine h.invariant (P := fun u => Reachable M ok u ∧ P u) ?_ ⟨hs,h0⟩
  intro u v a hu ha huv
  exact ⟨hu.1.next ha huv,hstep hu.1 hu.2 ha huv⟩

variable (M) in
def replay : σ → List ι → Outcome σ
  | s, [] => .next s
  | s, a :: as => (M.step s a).bind fun t => replay t as

theorem Run.of_replay {as : List ι} {s t : σ} (hok : ∀ a ∈ as, ∀ s, ok s a)
    (h : replay M s as = .next t) : Run M ok s t := by
  induction as generalizing s with
  | nil => cases h; exact .refl _
  | cons a as ih =>
    obtain ⟨r, hr, ht⟩ := Outcome.bind_eq_next.mp h
    exact (Run.step (.refl s) (hok a (by simp) s) hr).trans
      (ih (fun b hb => hok b (by simp [hb])) ht)

variable (M ok) in
theorem Reachable.exists_of_replay (as : List ι) (p : σ → Bool) (hok : ∀ a ∈ as, ∀ s, ok s a)
    (h : (replay M M.start as).test p = true) : ∃ s, Reachable M ok s ∧ p s = true := by
  cases hr : replay M M.start as with
  | disabled => simp [hr,Outcome.test] at h
  | undefined => simp [hr,Outcome.test] at h
  | next s => exact ⟨s,.of_replay hok hr,by simpa [hr,Outcome.test] using h⟩

/-- The program that takes the permitted steps only. -/
def Program.guarded (M : Program σ ι) (ok : σ → ι → Prop) [∀ s a, Decidable (ok s a)] :
    Program σ ι where
  start := M.start
  step s a := if ok s a then M.step s a else .disabled

theorem Run.of_guarded [∀ s a, Decidable (ok s a)] {s t : σ}
    (h : Run (M.guarded ok) anyStep s t) : Run M ok s t := by
  induction h with
  | refl => exact .refl s
  | @step t u a _ _ hs ih =>
    simp only [Program.guarded] at hs
    split at hs
    · exact .step ih ‹_› hs
    · cases hs

variable (M ok) in
/-- A rank that every live step lowers: some reachable state has no live step
that goes on. -/
theorem exists_halt (live : ι → Prop) (hlive : ∀ s a, live a → ok s a) (rank : σ → Nat)
    (hrank : ∀ {s t : σ} {a : ι}, Reachable M ok s → live a → M.step s a = .next t →
      rank t < rank s) :
    ∃ s, Reachable M ok s ∧ ∀ a, live a → ∀ t, M.step s a ≠ .next t := by
  suffices h : ∀ n s, rank s = n → Reachable M ok s →
      ∃ t, Reachable M ok t ∧ ∀ a, live a → ∀ u, M.step t a ≠ .next u from
    h _ _ rfl .start
  intro n
  induction n using Nat.strongRecOn with
  | ind n ih =>
    intro s hn hs
    by_cases hstop : ∀ a, live a → ∀ t, M.step s a ≠ .next t
    · exact ⟨s, hs, hstop⟩
    · simp only [not_forall, ne_eq, not_not] at hstop
      obtain ⟨a, ha, t, ht⟩ := hstop
      have hlt := hrank hs ha ht
      exact ih (rank t) (by omega) t rfl (hs.next (hlive s a ha) ht)

/-- A schedule of live steps is no longer than the rank that each of them lowers. -/
theorem replay_length {P : σ → Prop} {live : ι → Prop} (rank : σ → Nat)
    (hstep : ∀ {s t : σ} {a : ι}, P s → live a → M.step s a = .next t → P t ∧ rank t < rank s)
    {as : List ι} (has : ∀ a ∈ as, live a) {s t : σ} (hs : P s)
    (h : replay M s as = .next t) : as.length ≤ rank s := by
  induction as generalizing s with
  | nil => exact Nat.zero_le _
  | cons a as ih =>
    obtain ⟨r, hr, ht⟩ := Outcome.bind_eq_next.mp h
    obtain ⟨hP, hlt⟩ := hstep hs (has a (by simp)) hr
    have hle := ih (fun b hb => has b (by simp [hb])) hP ht
    rw [List.length_cons]
    omega

/-- Between two counted steps a rank of at most `bound` falls: a schedule of live steps is
no longer than its counted steps allow. -/
theorem replay_amortized {P : σ → Prop} {live : ι → Prop} (rank count : σ → Nat) {bound : Nat}
    (hbound : ∀ s, rank s ≤ bound)
    (hstep : ∀ {s t : σ} {a : ι}, P s → live a → M.step s a = .next t →
      P t ∧ (count t = count s ∧ rank t < rank s ∨ count t = count s + 1))
    {as : List ι} (has : ∀ a ∈ as, live a) {s t : σ} (hs : P s)
    (h : replay M s as = .next t) : ∃ n, count t = count s + n ∧
      as.length ≤ rank s + (bound+1) * n := by
  induction as generalizing s with
  | nil => cases h; exact ⟨0,rfl,Nat.zero_le _⟩
  | cons a as ih =>
    obtain ⟨r,hr,ht⟩ := Outcome.bind_eq_next.mp h
    obtain ⟨hP,hcase⟩ := hstep hs (has a (by simp)) hr
    obtain ⟨n,hn,hle⟩ := ih (fun b hb => has b (by simp [hb])) hP ht
    rw [List.length_cons]
    rcases hcase with ⟨hcount,hlt⟩ | hcount
    · exact ⟨n,by omega,by omega⟩
    · have hr := hbound r
      exact ⟨n+1,by omega,by rw [Nat.mul_succ]; omega⟩

end Runs
end Transition
