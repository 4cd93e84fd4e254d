import HyperStream.Ingest
import HyperStream.Worker
set_option autoImplicit false

open Transition

namespace HyperStream

namespace VideoDecoder

/-- The library calls of initialize: whether they find a decoder, allocate a context and
copy the parameters, and the opened context. -/
structure Calls (σ : Type) where
  findDecoderByName : String → Bool
  findDecoder : AVCodecID → Bool
  allocContext3 : AVStream → Bool
  parametersToContext : AVStream → Bool
  open2 : AVStream → Option σ

abbrev Contexts (σ : Type) := AList fun _ : Int => σ

/-- The body of the loop in initialize: the context of a stream, or none at a `continue`. -/
def openStream {σ : Type} (calls : Calls σ) (stream : AVStream) : Option σ :=
  let codec :=
    if stream.codecId = .hevc then calls.findDecoderByName "hevc_nvdec"
    else calls.findDecoder stream.codecId
  if !codec then none
  else if !calls.allocContext3 stream then none
  else if !calls.parametersToContext stream then none
  else calls.open2 stream

def addStream {σ : Type} (calls : Calls σ) (contexts : Contexts σ) (stream : AVStream) :
    Contexts σ :=
  match openStream calls stream with
  | none => contexts
  | some ctx => contexts.insert stream.index ctx

def initializeContexts {σ : Type} (calls : Calls σ) (videoStreams : List AVStream) :
    Bool × Contexts σ :=
  if videoStreams.isEmpty then (false,∅)
  else
    let contexts := videoStreams.foldl (addStream calls) ∅
    (!contexts.entries.isEmpty,contexts)

/-- The contexts, and the index that run() has taken from the packet in work. -/
structure State (C : Component AVPacket AVFrame) where
  contexts : Contexts C.State
  idx : Int

variable (C : Component AVPacket AVFrame)

def feed (s : State C) (pkt : AVPacket) : Feed (State C) :=
  match s.contexts.lookup pkt.streamIndex with
  | none => .skip s
  | some ctx =>
    match C.send ctx (some pkt) with
    | (.ok,ctx') => .drain ⟨s.contexts.insert pkt.streamIndex ctx',pkt.streamIndex⟩
    | (_,ctx') => .skip ⟨s.contexts.insert pkt.streamIndex ctx',pkt.streamIndex⟩

def drain (s : State C) (alloc : Bool) : Drain (State C) AVFrame :=
  -- avcodec_receive_frame writes through the frame pointer, also when the allocation failed
  if !alloc then .undefined
  else match s.contexts.lookup s.idx with
    | none => .undefined
    | some ctx =>
      match C.receive ctx with
      | (.output frame,ctx') =>
        .push { frame with metadata := some ⟨s.idx⟩ }
          { s with contexts := s.contexts.insert s.idx ctx' }
      | (_,ctx') => .leave { s with contexts := s.contexts.insert s.idx ctx' }

def stage : Stage AVPacket AVFrame where
  State := State C
  feed := feed C
  drain := drain C
  allocates := true
  cleanup s := .next { s with contexts := ∅ }

variable {C}

theorem feed_unknown {s : State C} {pkt : AVPacket}
    (h : s.contexts.lookup pkt.streamIndex = none) : (stage C).feed s pkt = .skip s := by
  simp [stage,feed,h]

theorem feed_sent {s : State C} {pkt : AVPacket} {ctx ctx' : C.State}
    (h : s.contexts.lookup pkt.streamIndex = some ctx)
    (hs : C.send ctx (some pkt) = (.ok,ctx')) : (stage C).feed s pkt =
      .drain ⟨s.contexts.insert pkt.streamIndex ctx',pkt.streamIndex⟩ := by
  simp [stage,feed,h,hs]

theorem feed_refused {s : State C} {pkt : AVPacket} {ctx ctx' : C.State} {r : SendResult}
    (h : s.contexts.lookup pkt.streamIndex = some ctx) (hr : r ≠ .ok)
    (hs : C.send ctx (some pkt) = (r,ctx')) : (stage C).feed s pkt =
      .skip ⟨s.contexts.insert pkt.streamIndex ctx',pkt.streamIndex⟩ := by
  cases r with
  | ok => exact absurd rfl hr
  | _ => simp [stage,feed,h,hs]

theorem feed_cases {s : State C} {pkt : AVPacket} {f : Feed (State C)}
    (h : (stage C).feed s pkt = f) :
    (s.contexts.lookup pkt.streamIndex = none ∧ f = .skip s) ∨
    ∃ ctx r ctx', s.contexts.lookup pkt.streamIndex = some ctx ∧
      C.send ctx (some pkt) = (r,ctx') ∧
      ((r = .ok ∧ f = .drain ⟨s.contexts.insert pkt.streamIndex ctx',pkt.streamIndex⟩) ∨
        (r ≠ .ok ∧ f = .skip ⟨s.contexts.insert pkt.streamIndex ctx',pkt.streamIndex⟩)) := by
  subst h
  cases hl : s.contexts.lookup pkt.streamIndex with
  | none => exact .inl ⟨rfl,feed_unknown hl⟩
  | some ctx =>
    rcases hs : C.send ctx (some pkt) with ⟨r,ctx'⟩
    refine .inr ⟨ctx,r,ctx',rfl,hs,?_⟩
    by_cases hr : r = .ok
    · subst hr
      exact .inl ⟨rfl,feed_sent hl hs⟩
    · exact .inr ⟨hr,feed_refused hl hr hs⟩

theorem drain_output {s : State C} {frame : AVFrame} {ctx ctx' : C.State}
    (h : s.contexts.lookup s.idx = some ctx) (hr : C.receive ctx = (.output frame,ctx')) :
    (stage C).drain s true = .push { frame with metadata := some ⟨s.idx⟩ }
      { s with contexts := s.contexts.insert s.idx ctx' } := by
  simp [stage,drain,h,hr]

theorem drain_leave {s : State C} {ctx ctx' : C.State} {r : ReceiveResult AVFrame}
    (h : s.contexts.lookup s.idx = some ctx) (hr : C.receive ctx = (r,ctx'))
    (hout : ∀ frame, r ≠ .output frame) :
    (stage C).drain s true = .leave { s with contexts := s.contexts.insert s.idx ctx' } := by
  cases r with
  | output frame => exact absurd rfl (hout frame)
  | _ => simp [stage,drain,h,hr]

theorem drain_cases {s : State C} {alloc : Bool} {d : Drain (State C) AVFrame}
    (h : (stage C).drain s alloc = d) : d = .undefined ∨
    ∃ ctx r ctx', s.contexts.lookup s.idx = some ctx ∧ C.receive ctx = (r,ctx') ∧
      ((∃ frame, r = .output frame ∧ d = .push { frame with metadata := some ⟨s.idx⟩ }
          { s with contexts := s.contexts.insert s.idx ctx' }) ∨
        ((∀ frame, r ≠ .output frame) ∧
          d = .leave { s with contexts := s.contexts.insert s.idx ctx' })) := by
  subst h
  cases alloc with
  | false => exact .inl rfl
  | true =>
    cases hl : s.contexts.lookup s.idx with
    | none => exact .inl (by simp [stage,drain,hl])
    | some ctx =>
      rcases hr : C.receive ctx with ⟨r,ctx'⟩
      refine .inr ⟨ctx,r,ctx',rfl,hr,?_⟩
      cases r with
      | output frame => exact .inl ⟨frame,rfl,drain_output hl hr⟩
      | _ => exact .inr ⟨by simp,drain_leave hl hr (by simp)⟩

theorem drain_holds {s : State C} {P : State C → Prop} {Q : AVFrame → Prop}
    (h : ∀ ctx ctx', s.contexts.lookup s.idx = some ctx →
      P { s with contexts := s.contexts.insert s.idx ctx' } ∧
        ∀ frame, frame.metadata = some ⟨s.idx⟩ → Q frame) (alloc : Bool) :
    ((stage C).drain s alloc).Holds P Q := by
  obtain heq | ⟨ctx,r,ctx',hl,-,⟨frame,-,heq⟩ | ⟨-,heq⟩⟩ :=
    drain_cases (rfl : (stage C).drain s alloc = _)
  · rw [heq]; trivial
  · rw [heq]; exact ⟨(h ctx ctx' hl).2 _ rfl,(h ctx ctx' hl).1⟩
  · rw [heq]; exact (h ctx ctx' hl).1

def stageBounded (hC : C.Bounded) : (stage C).Bounded where
  held s := ((s.contexts.lookup s.idx).map hC.held).getD 0
  held_lt s s' b h := by
    obtain heq | ⟨ctx,r,ctx',hl,hr,⟨frame,rfl,heq⟩ | ⟨-,heq⟩⟩ := drain_cases h
    · cases heq
    · cases heq
      simpa [hl] using hC.held_lt _ _ _ hr
    · cases heq
  again_ne s s' h := by
    obtain heq | ⟨ctx,r,ctx',-,-,⟨frame,-,heq⟩ | ⟨-,heq⟩⟩ := drain_cases h
    · cases heq
    · cases heq
    · cases heq

end VideoDecoder

namespace VideoEncoder

/-- `codec_ctx`, null once it is freed. -/
abbrev State (C : Component AVFrame AVPacket) := Option C.State

variable (C : Component AVFrame AVPacket)

def feed (s : State C) (frame : AVFrame) : Feed (State C) :=
  match s with
  | none => .undefined
  | some ctx =>
    match C.send ctx (some frame) with
    | (.ok,ctx') => .drain (some ctx')
    | (_,ctx') => .skip (some ctx')

def drain (s : State C) (alloc : Bool) : Drain (State C) AVPacket :=
  match s with
  | none => .undefined
  | some ctx =>
    match C.receive ctx with
    | (.output pkt,ctx') =>
      -- without a new packet to move it to, the output is dropped
      if alloc then .push { pkt with streamIndex := 0 } (some ctx') else .again (some ctx')
    | (_,ctx') => .leave (some ctx')

/-- Flushes the encoder, takes none of what that releases, and frees the context. -/
def cleanup (s : State C) : Outcome (State C) :=
  match s with
  | none => .undefined
  | some _ => .next none

def stage : Stage AVFrame AVPacket where
  State := State C
  feed := feed C
  drain := drain C
  allocates := true
  cleanup := cleanup C

variable {C}

theorem feed_sent {ctx ctx' : C.State} {frame : AVFrame}
    (h : C.send ctx (some frame) = (.ok,ctx')) :
    (stage C).feed (some ctx) frame = .drain (some ctx') := by simp [stage,feed,h]

theorem feed_refused {ctx ctx' : C.State} {frame : AVFrame} {r : SendResult} (hr : r ≠ .ok)
    (h : C.send ctx (some frame) = (r,ctx')) :
    (stage C).feed (some ctx) frame = .skip (some ctx') := by
  cases r with
  | ok => exact absurd rfl hr
  | _ => simp [stage,feed,h]

theorem feed_cases {s : State C} {frame : AVFrame} {f : Feed (State C)}
    (h : (stage C).feed s frame = f) : f = .undefined ∨
    ∃ ctx r ctx', s = some ctx ∧ C.send ctx (some frame) = (r,ctx') ∧
      ((r = .ok ∧ f = .drain (some ctx')) ∨ (r ≠ .ok ∧ f = .skip (some ctx'))) := by
  subst h
  cases s with
  | none => exact .inl rfl
  | some ctx =>
    rcases hs : C.send ctx (some frame) with ⟨r,ctx'⟩
    refine .inr ⟨ctx,r,ctx',rfl,hs,?_⟩
    by_cases hr : r = .ok
    · subst hr
      exact .inl ⟨rfl,feed_sent hs⟩
    · exact .inr ⟨hr,feed_refused hr hs⟩

theorem drain_output {ctx ctx' : C.State} {pkt : AVPacket}
    (h : C.receive ctx = (.output pkt,ctx')) :
    (stage C).drain (some ctx) true = .push { pkt with streamIndex := 0 } (some ctx') := by
  simp [stage,drain,h]

theorem drain_dropped {ctx ctx' : C.State} {pkt : AVPacket}
    (h : C.receive ctx = (.output pkt,ctx')) :
    (stage C).drain (some ctx) false = .again (some ctx') := by
  simp [stage,drain,h]

theorem drain_leave {ctx ctx' : C.State} {alloc : Bool} {r : ReceiveResult AVPacket}
    (h : C.receive ctx = (r,ctx')) (hout : ∀ pkt, r ≠ .output pkt) :
    (stage C).drain (some ctx) alloc = .leave (some ctx') := by
  cases r with
  | output pkt => exact absurd rfl (hout pkt)
  | _ => simp [stage,drain,h]

theorem drain_cases {s : State C} {alloc : Bool} {d : Drain (State C) AVPacket}
    (h : (stage C).drain s alloc = d) : d = .undefined ∨
    ∃ ctx r ctx', s = some ctx ∧ C.receive ctx = (r,ctx') ∧
      ((∃ pkt, r = .output pkt ∧ alloc = true ∧
          d = .push { pkt with streamIndex := 0 } (some ctx')) ∨
        (alloc = false ∧ d = .again (some ctx')) ∨
        ((∀ pkt, r ≠ .output pkt) ∧ d = .leave (some ctx'))) := by
  subst h
  cases s with
  | none => exact .inl rfl
  | some ctx =>
    rcases hr : C.receive ctx with ⟨r,ctx'⟩
    refine .inr ⟨ctx,r,ctx',rfl,hr,?_⟩
    cases r with
    | output pkt =>
      cases alloc with
      | true => exact .inl ⟨pkt,rfl,rfl,drain_output hr⟩
      | false => exact .inr (.inl ⟨rfl,drain_dropped hr⟩)
    | _ => exact .inr (.inr ⟨by simp,drain_leave hr (by simp)⟩)

def stageBounded (hC : C.Bounded) : (stage C).Bounded where
  held s := (s.map hC.held).getD 0
  held_lt s s' b h := by
    obtain heq | ⟨ctx,r,ctx',rfl,hr,⟨pkt,rfl,-,heq⟩ | ⟨halloc,-⟩ | ⟨-,heq⟩⟩ := drain_cases h
    · cases heq
    · cases heq
      simpa using hC.held_lt _ _ _ hr
    · cases halloc
    · cases heq
  again_ne s s' h := by
    obtain heq | ⟨ctx,r,ctx',-,-,⟨pkt,-,-,heq⟩ | ⟨halloc,-⟩ | ⟨-,heq⟩⟩ := drain_cases h
    · cases heq
    · cases heq
    · cases halloc
    · cases heq

end VideoEncoder
end HyperStream
