import Mathlib.Data.List.Infix
set_option autoImplicit false

universe u v w

/-- How a transducer takes an input: it leaves the defined behaviours, passes the input
over, or goes on to give its outputs. -/
inductive Feed (σ : Type u) where
  | undefined
  | skip (s : σ)
  | drain (s : σ)

/-- One turn of the loop that takes the outputs. -/
inductive Drain (σ : Type u) (β : Type v) where
  | undefined
  | leave (s : σ)
  | again (s : σ)
  | push (b : β) (s : σ)

/-- A machine that is fed one input at a time and after each gives any number of outputs.
The flag of `drain` says whether there is memory for an output. -/
structure Transducer (α : Type u) (β : Type v) where
  State : Type w
  feed : State → α → Feed State
  drain : State → Bool → Drain State β

def Feed.Holds {σ : Type u} (P : σ → Prop) : Feed σ → Prop
  | .undefined => True
  | .skip s | .drain s => P s

def Drain.Holds {σ : Type u} {β : Type v} (P : σ → Prop) (Q : β → Prop) : Drain σ β → Prop
  | .undefined => True
  | .leave s | .again s => P s
  | .push b s => Q b ∧ P s

theorem Feed.Holds.mono {σ : Type u} {P P' : σ → Prop} {f : Feed σ} (h : f.Holds P)
    (hP : ∀ s, P s → P' s) : f.Holds P' := by
  cases f with
  | undefined => trivial
  | skip s => exact hP s h
  | drain s => exact hP s h

theorem Drain.Holds.mono {σ : Type u} {β : Type v} {P P' : σ → Prop} {Q Q' : β → Prop}
    {d : Drain σ β} (h : d.Holds P Q) (hP : ∀ s, P s → P' s) (hQ : ∀ b, Q b → Q' b) :
    d.Holds P' Q' := by
  cases d with
  | undefined => trivial
  | leave s => exact hP s h
  | again s => exact hP s h
  | push b s => exact ⟨hQ b h.1,hP s h.2⟩

inductive Drain.Related {σ : Type u} {β : Type v} (R : σ → σ → Prop) :
    Drain σ β → Drain σ β → Prop where
  | undefined : Related R .undefined .undefined
  | leave {s t : σ} : R s t → Related R (.leave s) (.leave t)
  | again {s t : σ} : R s t → Related R (.again s) (.again t)
  | push {s t : σ} (b : β) : R s t → Related R (.push b s) (.push b t)

namespace Transducer
variable {α : Type u} {β : Type v} {T : Transducer.{u,v,w} α β}

/-- The outputs of at most `n` turns, and the state after them unless the turns run out or
it is undefined. -/
def release (T : Transducer.{u,v,w} α β) : Nat → T.State → List β × Option T.State
  | 0, _ => ([],none)
  | n+1, s =>
    match T.drain s true with
    | .undefined => ([],none)
    | .leave s' => ([],some s')
    | .again s' => T.release n s'
    | .push b s' => (b :: (T.release n s').1,(T.release n s').2)

theorem release_holds {P : T.State → Prop} {Q : β → Prop}
    (hP : ∀ s, P s → (T.drain s true).Holds P Q) (n : Nat) {s : T.State} (hs : P s) :
    (∀ b ∈ (T.release n s).1, Q b) ∧ ∀ t, (T.release n s).2 = some t → P t := by
  induction n generalizing s with
  | zero => simp [release]
  | succ n ih =>
    have hturn := hP s hs
    unfold release
    cases hd : T.drain s true with
    | undefined => simp
    | leave s' => rw [hd] at hturn; simpa [Drain.Holds] using hturn
    | again s' => rw [hd] at hturn; exact ih hturn
    | push b s' =>
      rw [hd] at hturn
      obtain ⟨hb,hs'⟩ := hturn
      have hrest := ih hs'
      exact ⟨by simpa [hb] using hrest.1,hrest.2⟩

theorem release_related {R : T.State → T.State → Prop}
    (hR : ∀ s t, R s t → Drain.Related R (T.drain s true) (T.drain t true)) (n : Nat)
    {s t : T.State} (h : R s t) : (T.release n s).1 = (T.release n t).1 ∧
      ∀ s', (T.release n s).2 = some s' → ∃ t', (T.release n t).2 = some t' ∧ R s' t' := by
  induction n generalizing s t with
  | zero => simp [release]
  | succ n ih =>
    have hturn := hR s t h
    unfold release
    generalize T.drain s true = ds at hturn ⊢
    generalize T.drain t true = dt at hturn ⊢
    cases hturn with
    | undefined => simp
    | leave hr => simpa using hr
    | again hr => exact ih hr
    | push b hr => exact ⟨congrArg (b :: ·) (ih hr).1,(ih hr).2⟩

/-- Go on where a computation with outputs has stopped, if its state is defined. -/
def andThen {σ : Type w} (r : List β × Option σ) (f : σ → List β × Option σ) :
    List β × Option σ :=
  match r with
  | (bs,none) => (bs,none)
  | (bs,some t) => (bs ++ (f t).1,(f t).2)

theorem andThen_assoc {σ : Type w} (r : List β × Option σ) (f g : σ → List β × Option σ) :
    andThen (andThen r f) g = andThen r fun t => andThen (f t) g := by
  obtain ⟨bs,o⟩ := r
  cases o with
  | none => rfl
  | some t =>
    simp only [andThen]
    obtain ⟨cs,p⟩ := f t
    cases p <;> simp

theorem andThen_prefix {σ : Type w} (r : List β × Option σ) (f : σ → List β × Option σ) :
    r.1 <+: (andThen r f).1 := by
  obtain ⟨bs,o⟩ := r
  cases o with
  | none => exact List.prefix_refl bs
  | some t => exact List.prefix_append bs _

/-- The outputs for one input, in at most `fuel` turns of the loop, and the state after them
if there is one. -/
def answer (T : Transducer.{u,v,w} α β) (fuel : T.State → Nat) (s : T.State) (a : α) :
    List β × Option T.State :=
  match T.feed s a with
  | .undefined => ([],none)
  | .skip s' => ([],some s')
  | .drain s' => T.release (fuel s') s'

theorem answer_skip {fuel : T.State → Nat} {s s' : T.State} {a : α} (h : T.feed s a = .skip s') :
    T.answer fuel s a = ([],some s') := by simp [answer,h]

theorem answer_drain {fuel : T.State → Nat} {s s' : T.State} {a : α}
    (h : T.feed s a = .drain s') : T.answer fuel s a = T.release (fuel s') s' := by
  simp [answer,h]

def run (T : Transducer.{u,v,w} α β) (fuel : T.State → Nat) (s : T.State) :
    List α → List β × Option T.State
  | [] => ([],some s)
  | a :: rest => andThen (T.answer fuel s a) fun t => T.run fuel t rest

def outputs (T : Transducer.{u,v,w} α β) (fuel : T.State → Nat) (s : T.State) (as : List α) :
    List β := (T.run fuel s as).1

theorem outputs_cons {fuel : T.State → Nat} {s t : T.State} {a : α}
    (h : (T.answer fuel s a).2 = some t) (rest : List α) :
    T.outputs fuel s (a :: rest) = (T.answer fuel s a).1 ++ T.outputs fuel t rest := by
  rcases ha : T.answer fuel s a with ⟨bs,o⟩
  rw [ha] at h
  cases h
  simp [outputs,run,ha,andThen]

theorem run_append (fuel : T.State → Nat) (s : T.State) (as cs : List α) :
    T.run fuel s (as ++ cs) = andThen (T.run fuel s as) fun t => T.run fuel t cs := by
  induction as generalizing s with
  | nil => simp [run,andThen]
  | cons a as ih =>
    simp only [run,List.cons_append,andThen_assoc]
    congr 1
    funext t
    exact ih t

theorem run_concat (fuel : T.State → Nat) (s : T.State) (as : List α) (a : α) :
    T.run fuel s (as ++ [a]) = andThen (T.run fuel s as) fun t => T.answer fuel t a := by
  rw [run_append]
  congr 1
  funext t
  rcases h : T.answer fuel t a with ⟨bs,o⟩
  cases o <;> simp [run,andThen,h]

theorem outputs_prefix (fuel : T.State → Nat) (s : T.State) {as cs : List α} (h : as <+: cs) :
    T.outputs fuel s as <+: T.outputs fuel s cs := by
  obtain ⟨ds,rfl⟩ := h
  unfold outputs
  rw [run_append]
  exact andThen_prefix _ _

/-- The states that a run comes through, whatever its inputs are and wherever memory fails. -/
inductive Visited (T : Transducer.{u,v,w} α β) (s₀ : T.State) : T.State → Prop where
  | start : Visited T s₀ s₀
  | skip {s s' : T.State} {a : α} : Visited T s₀ s → T.feed s a = .skip s' → Visited T s₀ s'
  | accept {s s' : T.State} {a : α} : Visited T s₀ s → T.feed s a = .drain s' → Visited T s₀ s'
  | leave {s s' : T.State} {alloc : Bool} : Visited T s₀ s → T.drain s alloc = .leave s' →
      Visited T s₀ s'
  | again {s s' : T.State} {alloc : Bool} : Visited T s₀ s → T.drain s alloc = .again s' →
      Visited T s₀ s'
  | push {s s' : T.State} {alloc : Bool} {b : β} : Visited T s₀ s →
      T.drain s alloc = .push b s' → Visited T s₀ s'

/-- What the feeding and the turns preserve holds wherever a run comes. -/
theorem Visited.invariant {P : T.State → Prop} (hfeed : ∀ s a, P s → (T.feed s a).Holds P)
    (hdrain : ∀ s alloc, P s → (T.drain s alloc).Holds P fun _ => True) {s₀ s : T.State}
    (h : T.Visited s₀ s) (h₀ : P s₀) : P s := by
  induction h with
  | start => exact h₀
  | @skip s s' a _ hf ih => have hs := hfeed s a ih; rwa [hf] at hs
  | @accept s s' a _ hf ih => have hs := hfeed s a ih; rwa [hf] at hs
  | @leave s s' alloc _ hd ih => have hs := hdrain s alloc ih; rwa [hd] at hs
  | @again s s' alloc _ hd ih => have hs := hdrain s alloc ih; rwa [hd] at hs
  | @push s s' alloc b _ hd ih =>
    have hs := hdrain s alloc ih
    rw [hd] at hs
    exact hs.2

/-- A turn without memory is undefined, or it does what it does with memory, or its output
is lost and nothing else. -/
def Lossy (T : Transducer.{u,v,w} α β) : Prop :=
  ∀ s, T.drain s false = .undefined ∨ T.drain s false = T.drain s true ∨
    ∃ b s', T.drain s true = .push b s' ∧ T.drain s false = .again s'

theorem Lossy.turn (hT : T.Lossy) {s : T.State} {alloc : Bool} {d : Drain T.State β}
    (h : T.drain s alloc = d) (hd : d ≠ .undefined) :
    T.drain s true = d ∨ ∃ b s', T.drain s true = .push b s' ∧ d = .again s' := by
  cases alloc with
  | true => exact .inl h
  | false =>
    rcases hT s with hundef | hsame | ⟨b,s',hpush,hagain⟩
    · exact absurd (h.symm.trans hundef) hd
    · exact .inl (hsame.symm.trans h)
    · exact .inr ⟨b,s',hpush,h.symm.trans hagain⟩

/-- With memory available every loop of outputs ends, and no output is dropped. -/
structure Bounded (T : Transducer.{u,v,w} α β) where
  held : T.State → Nat
  held_lt : ∀ (s s' : T.State) (b : β), T.drain s true = .push b s' → held s' < held s
  again_ne : ∀ s s' : T.State, T.drain s true ≠ .again s'

namespace Bounded

def fuel (hT : T.Bounded) (s : T.State) : Nat := hT.held s + 1

theorem release_eq (hT : T.Bounded) {n m : Nat} {s : T.State} (hn : hT.held s < n)
    (hm : hT.held s < m) : T.release n s = T.release m s := by
  induction n generalizing m s with
  | zero => omega
  | succ n ih =>
    cases m with
    | zero => omega
    | succ m =>
      unfold release
      cases hd : T.drain s true with
      | undefined => rfl
      | leave s' => rfl
      | again s' => exact absurd hd (hT.again_ne s s')
      | push b s' =>
        have hlt := hT.held_lt s s' b hd
        simp only [ih (m := m) (s := s') (by omega) (by omega)]

/-- A loop of outputs that keeps clear of what is undefined ends in a state. -/
theorem release_defined (hT : T.Bounded) {P : T.State → Prop}
    (hP : ∀ s, P s → (T.drain s true).Holds P fun _ => True)
    (hdef : ∀ s, P s → T.drain s true ≠ .undefined) {n : Nat} {s : T.State} (hs : P s)
    (hn : hT.held s < n) : ∃ t, (T.release n s).2 = some t := by
  induction n generalizing s with
  | zero => omega
  | succ n ih =>
    have hturn := hP s hs
    unfold release
    cases hd : T.drain s true with
    | undefined => exact absurd hd (hdef s hs)
    | leave s' => exact ⟨s',rfl⟩
    | again s' => exact absurd hd (hT.again_ne s s')
    | push b s' =>
      rw [hd] at hturn
      have hlt := hT.held_lt s s' b hd
      exact ih hturn.2 (by omega)

theorem answer_eq (hT : T.Bounded) (s : T.State) (a : α) :
    ∃ N, ∀ n, N ≤ n → T.answer (fun _ => n) s a = T.answer hT.fuel s a := by
  cases hf : T.feed s a with
  | undefined => exact ⟨0,fun n _ => by simp [answer,hf]⟩
  | skip s' => exact ⟨0,fun n _ => by simp [answer,hf]⟩
  | drain s' =>
    refine ⟨hT.fuel s',fun n hn => ?_⟩
    simp only [answer,hf]
    exact hT.release_eq hn (Nat.lt_succ_self _)

theorem run_eq (hT : T.Bounded) (s : T.State) (as : List α) :
    ∃ N, ∀ n, N ≤ n → T.run (fun _ => n) s as = T.run hT.fuel s as := by
  induction as generalizing s with
  | nil => exact ⟨0,fun n _ => rfl⟩
  | cons a as ih =>
    obtain ⟨N,hN⟩ := hT.answer_eq s a
    rcases ha : T.answer hT.fuel s a with ⟨bs,o⟩
    cases o with
    | none => exact ⟨N,fun n hn => by simp [run,hN n hn,ha,andThen]⟩
    | some t =>
      obtain ⟨M,hM⟩ := ih t
      refine ⟨max N M,fun n hn => ?_⟩
      simp [run,hN n (by omega),ha,andThen,hM n (by omega)]

theorem outputs_eq (hT : T.Bounded) (s : T.State) (as : List α) :
    ∃ N, ∀ n, N ≤ n → T.outputs (fun _ => n) s as = T.outputs hT.fuel s as := by
  obtain ⟨N,hN⟩ := hT.run_eq s as
  exact ⟨N,fun n hn => by rw [outputs,hN n hn,outputs]⟩

end Bounded

/-- Where a thread that works a transducer step by step stands between two inputs. -/
inductive Mode (α : Type u) (β : Type v) where
  | idle
  | feed (a : α)
  | drain
  | push (b : β)

/-- With turns enough, the thread has received and sent what the run over its input says,
up to the work in progress: of that, `used` turns are over. -/
def Follows (T : Transducer.{u,v,w} α β) (s₀ : T.State) (received : List α) (sent : List β) :
    Mode α β → T.State → Prop
  | .idle, s => ∃ k, ∀ n, k ≤ n → T.run (fun _ => n) s₀ received = (sent,some s)
  | .feed a, s => ∃ before, received = before ++ [a] ∧
      ∃ k, ∀ n, k ≤ n → T.run (fun _ => n) s₀ before = (sent,some s)
  | .drain, s => ∃ used k, ∀ n, k ≤ n → T.run (fun _ => n+used) s₀ received =
      (sent ++ (T.release n s).1,(T.release n s).2)
  | .push b, s => ∃ used k, ∀ n, k ≤ n → T.run (fun _ => n+used) s₀ received =
      (sent ++ b :: (T.release n s).1,(T.release n s).2)

namespace Follows
variable {s₀ s s' : T.State} {received : List α} {sent : List β} {a : α} {b : β}

theorem start (s₀ : T.State) : Follows T s₀ [] [] .idle s₀ := ⟨0,fun _ _ => rfl⟩

theorem receive (h : Follows T s₀ received sent .idle s) (a : α) :
    Follows T s₀ (received ++ [a]) sent (.feed a) s := ⟨received,rfl,h⟩

theorem skip (h : Follows T s₀ received sent (.feed a) s) (hf : T.feed s a = .skip s') :
    Follows T s₀ received sent .idle s' := by
  obtain ⟨before,rfl,k,hr⟩ := h
  refine ⟨k,fun n hn => ?_⟩
  rw [run_concat,hr n hn]
  simp [andThen,answer_skip hf]

theorem drain (h : Follows T s₀ received sent (.feed a) s) (hf : T.feed s a = .drain s') :
    Follows T s₀ received sent .drain s' := by
  obtain ⟨before,rfl,k,hr⟩ := h
  refine ⟨0,k,fun n hn => ?_⟩
  rw [Nat.add_zero,run_concat,hr n hn]
  simp [andThen,answer_drain hf]

theorem turn (h : Follows T s₀ received sent .drain s) :
    ∃ used k, ∀ n, k ≤ n → T.run (fun _ => n+used) s₀ received =
      (sent ++ (T.release (n+1) s).1,(T.release (n+1) s).2) := by
  obtain ⟨used,k,hr⟩ := h
  refine ⟨used+1,k,fun n hn => ?_⟩
  rw [show n+(used+1) = n+1+used by omega]
  exact hr (n+1) (by omega)

theorem leave (h : Follows T s₀ received sent .drain s) (hd : T.drain s true = .leave s') :
    Follows T s₀ received sent .idle s' := by
  obtain ⟨used,k,hr⟩ := h.turn
  refine ⟨k+used,fun n hn => ?_⟩
  obtain ⟨m,rfl⟩ : ∃ m, n = m+used := ⟨n-used,by omega⟩
  rw [hr m (by omega)]
  simp [release,hd]

theorem again (h : Follows T s₀ received sent .drain s) (hd : T.drain s true = .again s') :
    Follows T s₀ received sent .drain s' := by
  obtain ⟨used,k,hr⟩ := h.turn
  exact ⟨used,k,fun n hn => by simpa [release,hd] using hr n hn⟩

theorem output (h : Follows T s₀ received sent .drain s) (hd : T.drain s true = .push b s') :
    Follows T s₀ received sent (.push b) s' := by
  obtain ⟨used,k,hr⟩ := h.turn
  exact ⟨used,k,fun n hn => by simpa [release,hd] using hr n hn⟩

theorem pushed (h : Follows T s₀ received sent (.push b) s) :
    Follows T s₀ received (sent ++ [b]) .drain s := by
  obtain ⟨used,k,hr⟩ := h
  exact ⟨used,k,fun n hn => by simpa using hr n hn⟩

/-- Whatever the thread is doing, it has sent a prefix of the outputs for its input. -/
theorem prefix_outputs {mode : Mode α β} (h : Follows T s₀ received sent mode s) :
    ∃ k, ∀ n, k ≤ n → sent <+: T.outputs (fun _ => n) s₀ received := by
  unfold outputs
  cases mode with
  | idle =>
    obtain ⟨k,hr⟩ := h
    exact ⟨k,fun n hn => by rw [hr n hn]⟩
  | feed a =>
    obtain ⟨before,rfl,k,hr⟩ := h
    refine ⟨k,fun n hn => ?_⟩
    rw [run_append,hr n hn]
    exact List.prefix_append _ _
  | drain | push b =>
    obtain ⟨used,k,hr⟩ := h
    refine ⟨k+used,fun n hn => ?_⟩
    obtain ⟨m,rfl⟩ : ∃ m, n = m+used := ⟨n-used,by omega⟩
    rw [hr m (by omega)]
    exact List.prefix_append _ _

end Follows
end Transducer
