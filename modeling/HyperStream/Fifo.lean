import Mathlib.Data.List.Basic
set_option autoImplicit false

namespace Fifo

universe u

/-- An operation on a queue with what it took or returned. -/
inductive Op (α : Type u) where
  | push (x : α)
  | pop (x : α)
  | size (n : Nat)
  | empty (b : Bool)
  deriving DecidableEq, Repr

variable {α : Type u}

/-- The histories of a sequential FIFO queue that starts empty, each with the contents
that it leaves. -/
inductive Legal : List (Op α) → List α → Prop where
  | nil : Legal [] []
  | push {h : List (Op α)} {q : List α} (x : α) : Legal h q → Legal (h ++ [.push x]) (q ++ [x])
  | pop {h : List (Op α)} {q : List α} {x : α} : Legal h (x :: q) → Legal (h ++ [.pop x]) q
  | size {h : List (Op α)} {q : List α} : Legal h q → Legal (h ++ [.size q.length]) q
  | empty {h : List (Op α)} {q : List α} : Legal h q → Legal (h ++ [.empty q.isEmpty]) q

def pushes (h : List (Op α)) : List α :=
  h.filterMap fun | .push x => some x | _ => none

def pops (h : List (Op α)) : List α :=
  h.filterMap fun | .pop x => some x | _ => none

@[simp] theorem pushes_append (h k : List (Op α)) : pushes (h ++ k) = pushes h ++ pushes k := by
  simp [pushes]

@[simp] theorem pops_append (h k : List (Op α)) : pops (h ++ k) = pops h ++ pops k := by
  simp [pops]

/-- First in, first out: what went in is what came out, then what is still there. -/
theorem Legal.pushes_eq {h : List (Op α)} {q : List α} (hl : Legal h q) :
    pushes h = pops h ++ q := by
  induction hl with
  | nil => rfl
  | push x _ ih => rw [pushes_append,pops_append,ih]; simp [pushes,pops]
  | pop _ ih => rw [pushes_append,pops_append,ih]; simp [pushes,pops]
  | size _ ih => rw [pushes_append,pops_append,ih]; simp [pushes,pops]
  | empty _ ih => rw [pushes_append,pops_append,ih]; simp [pushes,pops]

theorem Legal.pops_getElem? {h : List (Op α)} {q : List α} (hl : Legal h q) {i : Nat}
    (hi : i < (pops h).length) : (pops h)[i]? = (pushes h)[i]? := by
  rw [hl.pushes_eq,List.getElem?_append_left hi]

end Fifo
