import HyperStream.Driven
import HyperStream.Isolation
set_option autoImplicit false

open Transition

namespace HyperStream

/-- The outputs of at most `n` receives, up to the end of the stream. -/
def Component.receives {α β : Type} (C : Component α β) : Nat → C.State → List β
  | 0, _ => []
  | n+1, s =>
    match C.receive s with
    | (.output b,s') => b :: C.receives n s'
    | (.eof,_) => []
    | (.eagain,s') | (.error _,s') => C.receives n s'

/-- What a null input and `n` receives after it bring out. -/
def Component.flush {α β : Type} (C : Component α β) (n : Nat) (s : C.State) : List β :=
  C.receives n (C.send s none).2

theorem prefix_iff_nil {β : Type} {sent : List β} {more : Nat → List β} :
    (∀ n, sent ++ more n <+: sent) ↔ ∀ n, more n = [] := by
  constructor
  · intro h n
    have hle := (h n).length_le
    rw [List.length_append] at hle
    exact List.length_eq_zero_iff.mp (by omega)
  · intro h n
    rw [h n,List.append_nil]

/-- A stage that left its loop has nothing in hand. -/
theorem Worker.Balanced.left {σ α β : Type} {w : Worker σ α β} {released : List β} {dropped : Nat}
    (h : w.Balanced released dropped) (hpc : w.pc = .cleanup) :
    released.length = w.sent.length + dropped ∧ (dropped = 0 → released = w.sent) := by
  obtain ⟨hcount,hall⟩ := h
  have hheld : w.held = [] := by simp [Worker.held,hpc]
  rw [hheld] at hcount hall
  exact ⟨by simpa using hcount,by simpa using hall⟩

namespace VideoDecoder
variable {C : Component AVPacket AVFrame} {e : EmptyPop} {s₀ : State C}
  {w : Worker (stage C).State AVPacket AVFrame} {released : List AVFrame} {dropped : Nat}
  {ok : Worker (stage C).State AVPacket AVFrame → Prop}

/-- The frames that a flush of the context of stream `i` would bring out, stamped as run
stamps them. -/
def heldBack (C : Component AVPacket AVFrame) (s : State C) (i : Int) (n : Nat) :
    List AVFrame :=
  match s.contexts.lookup i with
  | none => []
  | some ctx => (C.flush n ctx).map fun frame => { frame with metadata := some ⟨i⟩ }

/-- All that each context gave and all that a flush would still bring out is pushed. -/
def Complete (C : Component AVPacket AVFrame) (w : Worker (State C) AVPacket AVFrame)
    (released : List AVFrame) : Prop :=
  ∀ i n, framesOf i released ++ heldBack C w.state i n <+: framesOf i w.sent

theorem memoryDrops : Worker.MemoryDrops (stage C) := fun _ => .inl rfl

theorem complete_iff (h : Worker.Driven (stage C) e s₀ ok w released dropped)
    (hpc : w.pc = .cleanup) : Complete C w released ↔ ∀ i n, heldBack C w.state i n = [] := by
  have hall := (h.balanced memoryDrops).left hpc
  rw [hall.2 (h.none_dropped fun _ => rfl)]
  exact forall_congr' fun i => prefix_iff_nil

end VideoDecoder

namespace MultiviewCompositor
variable {C : Component (Nat × AVFrame) AVFrame} {e : EmptyPop} {s₀ : State C}
  {w : Worker (stage C).State AVFrame AVFrame} {released : List AVFrame} {dropped : Nat}
  {ok : Worker (stage C).State AVFrame AVFrame → Prop}

def heldBack (C : Component (Nat × AVFrame) AVFrame) (s : State C) (n : Nat) : List AVFrame :=
  C.flush n s.graph

def Complete (C : Component (Nat × AVFrame) AVFrame) (w : Worker (State C) AVFrame AVFrame)
    (released : List AVFrame) : Prop :=
  ∀ n, released ++ heldBack C w.state n <+: w.sent

theorem memoryDrops : Worker.MemoryDrops (stage C) := fun _ => .inl rfl

theorem complete_iff (h : Worker.Driven (stage C) e s₀ ok w released dropped)
    (hpc : w.pc = .cleanup) : Complete C w released ↔ ∀ n, heldBack C w.state n = [] := by
  have hall := (h.balanced memoryDrops).left hpc
  rw [hall.2 (h.none_dropped fun _ => rfl)]
  exact prefix_iff_nil

end MultiviewCompositor

namespace VideoEncoder
variable {C : Component AVFrame AVPacket} {e : EmptyPop} {s₀ : State C}
  {w : Worker (stage C).State AVFrame AVPacket} {released : List AVPacket} {dropped : Nat}
  {ok : Worker (stage C).State AVFrame AVPacket → Prop}

/-- The packets that a flush of the encoder would bring out, numbered as run numbers them. -/
def heldBack (C : Component AVFrame AVPacket) (s : State C) (n : Nat) : List AVPacket :=
  match s with
  | none => []
  | some ctx => (C.flush n ctx).map fun pkt => { pkt with streamIndex := 0 }

def Complete (C : Component AVFrame AVPacket) (w : Worker (State C) AVFrame AVPacket)
    (released : List AVPacket) : Prop :=
  ∀ n, released ++ heldBack C w.state n <+: w.sent

theorem memoryDrops : Worker.MemoryDrops (stage C) := by
  intro s
  cases s with
  | none => exact .inl rfl
  | some ctx =>
    rcases hr : C.receive ctx with ⟨r,ctx'⟩
    cases r with
    | output pkt => exact .inr (.inl ⟨_,_,drain_output hr,drain_dropped hr⟩)
    | _ =>
      have hleave : ∀ alloc, (stage C).drain (some ctx) alloc = .leave (some ctx') :=
        fun _ => drain_leave hr (by simp)
      exact .inr (.inr ⟨by rw [hleave,hleave],by simp [hleave]⟩)

theorem complete_iff (h : Worker.Driven (stage C) e s₀ ok w released dropped)
    (hpc : w.pc = .cleanup) :
    Complete C w released ↔ dropped = 0 ∧ ∀ n, heldBack C w.state n = [] := by
  obtain ⟨hcount,hall⟩ := (h.balanced memoryDrops).left hpc
  constructor
  · intro hc
    have hle := (hc 0).length_le
    rw [List.length_append] at hle
    have hzero : dropped = 0 := by omega
    unfold Complete at hc
    rw [hall hzero] at hc
    exact ⟨hzero,prefix_iff_nil.mp hc⟩
  · intro hc
    unfold Complete
    rw [hall hc.1]
    exact prefix_iff_nil.mpr hc.2

end VideoEncoder

/-- The component that gives the output for an input when the next one comes, or a flush. -/
def Component.delay {α β : Type} (f : α → β) : Component α β where
  State := Option β × List β
  send s a := (.ok,a.map f,s.2 ++ s.1.toList)
  receive s :=
    match s.2 with
    | [] => (.eagain,s)
    | b :: rest => (.output b,s.1,rest)

/-- Whatever the encoder is, all its packets are pushed before its context is freed. -/
def EncoderLeavesNothing : Prop :=
  ∀ (C : Component AVFrame AVPacket) (s₀ : VideoEncoder.State C)
    (w : Worker (VideoEncoder.stage C).State AVFrame AVPacket) released dropped,
    Worker.Driven (VideoEncoder.stage C) .undefined s₀ Worker.anyTurn w released dropped →
    w.pc = .cleanup → VideoEncoder.Complete C w released

def delayedSetup : Setup :=
  { sampleSetup [⟨0,900,900,1,[]⟩] with
    encoder := .delay fun frame => ⟨0,frame.pts,frame.pts,1,frame.data⟩
    encoderState := some (none,[]) }

/-- The encoder has taken one frame when a stop lets it leave its loop. -/
theorem delayed_packet_lost : ¬ EncoderLeavesNothing := by
  intro h
  obtain ⟨s,hs,hp⟩ := Reachable.exists_of_replay (Controller.program delayedSetup .undefined)
    anyStep (Controller.turns [(.source,3),(.decoder,6),(.processor,6),(.encoder,5),(.stopper,5),
      (.encoder,1)])
    (fun s => s.encoder.pc = .cleanup ∧ s.encoder.sent = [] ∧
      VideoEncoder.heldBack delayedSetup.encoder s.encoder.state 1 ≠ [])
    (fun _ _ _ => trivial) (by decide)
  simp only [decide_eq_true_eq] at hp
  obtain ⟨hpc,hsent,hheld⟩ := hp
  obtain ⟨released,dropped,hd⟩ :=
    (Controller.reachable_driven (.any _) (fun _ _ _ => Controller.StageTurns.any_met _ _)
      hs).encoder
  have hprefix := h _ _ _ released dropped hd hpc 1
  rw [hsent,List.prefix_nil,List.append_eq_nil_iff] at hprefix
  exact hheld hprefix.2

/-- Decoder, compositor and encoder of the pipeline run as stages in an environment. When
such a stage leaves its loop, all that its library would ever bring out is pushed exactly if a
flush would bring out nothing more, and the encoder dropped nothing for lack of memory. -/
theorem complete_iff_nothing_held (e : EmptyPop) :
    (∀ (su : Setup) (s : Controller su), Reachable (Controller.program su e) anyStep s →
      Controller.StagesDriven (.any su) e s) ∧
    (∀ (C : Component AVPacket AVFrame) (s₀ : VideoDecoder.State C)
      (w : Worker (VideoDecoder.stage C).State AVPacket AVFrame) released dropped,
      Worker.Driven (VideoDecoder.stage C) e s₀ Worker.anyTurn w released dropped →
      w.pc = .cleanup →
      (VideoDecoder.Complete C w released ↔
        ∀ i n, VideoDecoder.heldBack C w.state i n = [])) ∧
    (∀ (C : Component (Nat × AVFrame) AVFrame) (s₀ : MultiviewCompositor.State C)
      (w : Worker (MultiviewCompositor.stage C).State AVFrame AVFrame) released dropped,
      Worker.Driven (MultiviewCompositor.stage C) e s₀ Worker.anyTurn w released dropped →
      w.pc = .cleanup →
      (MultiviewCompositor.Complete C w released ↔
        ∀ n, MultiviewCompositor.heldBack C w.state n = [])) ∧
    ∀ (C : Component AVFrame AVPacket) (s₀ : VideoEncoder.State C)
      (w : Worker (VideoEncoder.stage C).State AVFrame AVPacket) released dropped,
      Worker.Driven (VideoEncoder.stage C) e s₀ Worker.anyTurn w released dropped →
      w.pc = .cleanup →
      (VideoEncoder.Complete C w released ↔
        dropped = 0 ∧ ∀ n, VideoEncoder.heldBack C w.state n = []) :=
  ⟨fun _ _ hs =>
      Controller.reachable_driven _ (fun _ _ _ => Controller.StageTurns.any_met _ _) hs,
    fun _ _ _ _ _ h hpc => VideoDecoder.complete_iff h hpc,
    fun _ _ _ _ _ h hpc => MultiviewCompositor.complete_iff h hpc,
    fun _ _ _ _ _ h hpc => VideoEncoder.complete_iff h hpc⟩

end HyperStream
