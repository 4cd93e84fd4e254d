import Mathlib.Logic.Basic
set_option autoImplicit false

universe u v

/-- A sequential piece of code: the events it made, and what it returned, if it did not leave
the behaviours that its language defines. -/
structure Traced (ε : Type u) (α : Type v) where
  events : List ε
  result : Option α

namespace Traced
variable {ε : Type u} {α β : Type v}

instance : Monad (Traced ε) where
  pure a := ⟨[],some a⟩
  bind x f :=
    match x.result with
    | none => ⟨x.events,none⟩
    | some a => ⟨x.events ++ (f a).events,(f a).result⟩

def emit (event : ε) : Traced ε Unit := ⟨[event],some ()⟩

def undefined : Traced ε α := ⟨[],none⟩

def ofOption (x : Option α) : Traced ε α := ⟨[],x⟩

variable {x : Traced ε α} {f : α → Traced ε β} {a : α} {event : ε}

theorem bind_of_result (h : x.result = some a) :
    x >>= f = ⟨x.events ++ (f a).events,(f a).result⟩ := by simp only [bind,h]

theorem result_bind {b : β} :
    (x >>= f).result = some b ↔ ∃ a, x.result = some a ∧ (f a).result = some b := by
  cases h : x.result with
  | none => simp [bind,h]
  | some a => simp [bind_of_result h]

theorem mem_bind :
    event ∈ (x >>= f).events ↔
      event ∈ x.events ∨ ∃ a, x.result = some a ∧ event ∈ (f a).events := by
  cases h : x.result with
  | none => simp [bind,h]
  | some a => simp [bind_of_result h]

theorem mem_bind_left (h : event ∈ x.events) : event ∈ (x >>= f).events :=
  mem_bind.mpr (.inl h)

theorem mem_bind_right (hr : x.result = some a) (h : event ∈ (f a).events) :
    event ∈ (x >>= f).events := mem_bind.mpr (.inr ⟨a,hr,h⟩)

/-- Every event that the code makes is of this kind. -/
def All (P : ε → Prop) (x : Traced ε α) : Prop := ∀ event ∈ x.events, P event

namespace All
variable {P : ε → Prop}

theorem pure (a : α) : All P (Pure.pure a : Traced ε α) := fun _ h => by cases h

theorem emit (h : P event) : All P (Traced.emit event) := by
  intro event' hmem
  rw [List.mem_singleton.mp hmem]
  exact h

theorem undefined : All P (Traced.undefined : Traced ε α) := fun _ h => by cases h

theorem ofOption (x : Option α) : All P (Traced.ofOption x : Traced ε α) := fun _ h => by cases h

theorem bind (hx : All P x) (hf : ∀ a, x.result = some a → All P (f a)) : All P (x >>= f) := by
  intro event h
  rcases mem_bind.mp h with h | ⟨a,ha,h⟩
  · exact hx event h
  · exact hf a ha event h

end All
end Traced
