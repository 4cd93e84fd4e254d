import HyperStream.Media
import HyperStream.Worker
set_option autoImplicit false

open Transition

namespace HyperStream.MultiviewCompositor

structure Param where
  framerate : AVRational
  timebase : AVRational
  width : Int
  height : Int
  deriving DecidableEq, Repr

/-- A buffer source of the graph: the number of the label `v0`, `v1`, ... that it is linked
to, and the parameters it is declared with. -/
structure BufferSrc where
  input : Nat
  width : Int
  height : Int
  timeBase : AVRational
  frameRate : AVRational
  deriving DecidableEq, Repr

/-- `buffer_ctxs`, where a filter context that was not created is null. -/
abbrev BufferCtxs := AList fun _ : Int => Option BufferSrc

/-- `created` says whether avfilter_graph_create_filter makes the buffer source. -/
def bufferSrc (param : Param) (created : Nat → Bool) (idx : Nat) : Option BufferSrc :=
  if created idx then some ⟨idx,param.width,param.height,param.timebase,param.framerate⟩
  else none

def createFilterGraph (param : Param) (created : Nat → Bool) (ctxs : BufferCtxs) (idx : Nat) :
    BufferCtxs :=
  ctxs.insert (idx : Int) (bufferSrc param created idx)

def initializeBufferCtxs (param : Param) (created : Nat → Bool) : BufferCtxs :=
  (List.range 4).foldl (createFilterGraph param created) ∅

/-- `buffer_ctxs[idx]`, which inserts a null entry for a key that is not there. -/
def bufferCtx (ctxs : BufferCtxs) (idx : Int) : Option BufferSrc × BufferCtxs :=
  match ctxs.lookup idx with
  | some ctx => (ctx,ctxs)
  | none => (none,ctxs.insert idx none)

structure State (C : Component (Nat × AVFrame) AVFrame) where
  bufferCtxs : BufferCtxs
  graph : C.State

variable (C : Component (Nat × AVFrame) AVFrame)

/-- The result of av_buffersrc_add_frame is logged only; a null context is dereferenced. -/
def feed (s : State C) (frame : AVFrame) : Feed (State C) :=
  match frame.metadata with
  | none => .undefined
  | some metadata =>
    match bufferCtx s.bufferCtxs metadata.streamIndex with
    | (none,_) => .undefined
    | (some src,ctxs) => .drain ⟨ctxs,(C.send s.graph (some (src.input,frame))).2⟩

def drain (s : State C) (alloc : Bool) : Drain (State C) AVFrame :=
  -- av_buffersink_get_frame writes through the frame pointer, also when the allocation failed
  if !alloc then .undefined
  else match C.receive s.graph with
    | (.output frame,graph) => .push frame { s with graph := graph }
    | (_,graph) => .leave { s with graph := graph }

def stage : Stage AVFrame AVFrame where
  State := State C
  feed := feed C
  drain := drain C
  allocates := false
  cleanup := .next

variable {C}

theorem feed_cases {s : State C} {frame : AVFrame} {f : Feed (State C)}
    (h : (stage C).feed s frame = f) : f = .undefined ∨ ∃ i src,
      frame.metadata = some ⟨i⟩ ∧ (bufferCtx s.bufferCtxs i).1 = some src ∧
      f = .drain ⟨(bufferCtx s.bufferCtxs i).2,(C.send s.graph (some (src.input,frame))).2⟩ := by
  simp only [stage,feed] at h
  cases hm : frame.metadata with
  | none => rw [hm] at h; exact .inl h.symm
  | some md =>
    rw [hm] at h
    dsimp only at h
    rcases hb : bufferCtx s.bufferCtxs md.streamIndex with ⟨ctx,ctxs⟩
    rw [hb] at h
    cases ctx with
    | none => exact .inl h.symm
    | some src => exact .inr ⟨md.streamIndex,src,rfl,by rw [hb],by rw [hb]; exact h.symm⟩

theorem drain_output {s : State C} {frame : AVFrame} {graph : C.State}
    (h : C.receive s.graph = (.output frame,graph)) :
    (stage C).drain s true = .push frame { s with graph := graph } := by
  simp [stage,drain,h]

theorem drain_cases {s : State C} {alloc : Bool} {d : Drain (State C) AVFrame}
    (h : (stage C).drain s alloc = d) : d = .undefined ∨
    ∃ r graph, C.receive s.graph = (r,graph) ∧
      ((∃ frame, r = .output frame ∧ d = .push frame { s with graph := graph }) ∨
        ((∀ frame, r ≠ .output frame) ∧ d = .leave { s with graph := graph })) := by
  subst h
  cases alloc with
  | false => exact .inl rfl
  | true =>
    rcases hr : C.receive s.graph with ⟨r,graph⟩
    refine .inr ⟨r,graph,rfl,?_⟩
    cases r with
    | output frame => exact .inl ⟨frame,rfl,drain_output hr⟩
    | _ => exact .inr ⟨by simp,by simp [stage,drain,hr]⟩

def stageBounded (hC : C.Bounded) : (stage C).Bounded where
  held s := hC.held s.graph
  held_lt s s' b h := by
    simp only [stage,drain,Bool.not_true,Bool.false_eq_true,if_false] at h
    rcases hr : C.receive s.graph with ⟨r,graph⟩
    cases r <;> simp only [hr] at h <;> cases h
    exact hC.held_lt _ _ _ hr
  again_ne s s' h := by
    simp only [stage,drain,Bool.not_true,Bool.false_eq_true,if_false] at h
    rcases hr : C.receive s.graph with ⟨r,graph⟩
    cases r <;> simp [hr] at h

/-- A null entry that `buffer_ctxs[idx]` inserts is dereferenced at once, so no later step
sees it. -/
theorem feed_bufferCtxs (s : State C) (frame : AVFrame) :
    ((stage C).feed s frame).Holds fun t : State C => t.bufferCtxs = s.bufferCtxs := by
  simp only [stage]
  unfold feed bufferCtx
  cases frame.metadata with
  | none => trivial
  | some md =>
    dsimp only
    cases s.bufferCtxs.lookup md.streamIndex with
    | none => trivial
    | some ctx =>
      cases ctx with
      | none => trivial
      | some src => exact rfl

theorem drain_bufferCtxs (s : State C) (alloc : Bool) :
    ((stage C).drain s alloc).Holds (fun t : State C => t.bufferCtxs = s.bufferCtxs)
      fun _ => True := by
  obtain h | ⟨r,graph,-,⟨frame,-,h⟩ | ⟨-,h⟩⟩ := drain_cases (rfl : (stage C).drain s alloc = _)
  all_goals rw [h]
  · trivial
  · exact ⟨trivial,rfl⟩
  · exact rfl

end HyperStream.MultiviewCompositor
