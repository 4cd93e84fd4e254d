import HyperStream.Transition
set_option autoImplicit false

namespace Transition

universe u v w x
variable {σ : Type u} {ι : Type v} {ρ : Type w} {κ : Type x}

/-- Seen through `abs`, the program `M` does nothing that `N` does not: a step is one of `N` or
is not seen, and what is undefined in `M` is undefined in `N`. -/
structure Refines (M : Program σ ι) (ok : σ → ι → Prop) (N : Program ρ κ)
    (ok' : ρ → κ → Prop) (abs : σ → ρ) : Prop where
  start : abs M.start = N.start
  step : ∀ {s t : σ} {a : ι}, Reachable M ok s → ok s a → M.step s a = .next t →
    abs t = abs s ∨ ∃ b, ok' (abs s) b ∧ N.step (abs s) b = .next (abs t)
  undefined : ∀ {s : σ} {a : ι}, Reachable M ok s → ok s a → M.step s a = .undefined →
    ∃ b, ok' (abs s) b ∧ N.step (abs s) b = .undefined

namespace Refines
variable {M : Program σ ι} {ok : σ → ι → Prop} {N : Program ρ κ} {ok' : ρ → κ → Prop} {abs : σ → ρ}

theorem run (h : Refines M ok N ok' abs) {s t : σ} (hs : Reachable M ok s) (hr : Run M ok s t) :
    Run N ok' (abs s) (abs t) := by
  refine hr.induction (P := fun t => Run N ok' (abs s) (abs t)) hs (.refl _) ?_
  intro u v a hu hrun ha hstep
  rcases h.step hu ha hstep with heq | ⟨b,hb,hbstep⟩
  · rw [heq]; exact hrun
  · exact .step hrun hb hbstep

theorem reachable (h : Refines M ok N ok' abs) {s : σ} (hs : Reachable M ok s) :
    Reachable N ok' (abs s) := by
  have hr := h.run .start hs
  rwa [h.start] at hr

end Refines

end Transition
