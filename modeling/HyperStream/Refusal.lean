import HyperStream.Driven
set_option autoImplicit false

open Transition

namespace HyperStream
namespace Component
variable {α β : Type} {C : Component α β}

/-- The send/receive contract of avcodec.h: input is refused with EAGAIN, and then not
consumed, only while there is unread output, and a receive that answers EAGAIN or EOF leaves
none. An error may leave some. -/
structure Contract (C : Component α β) where
  pending : C.State → Prop
  send_eagain : ∀ s a s', C.send s (some a) = (.eagain,s') → pending s ∧ s' = s
  receive_eagain : ∀ s s', C.receive s = (.eagain,s') → ¬ pending s ∧ ¬ pending s'
  receive_eof : ∀ s s', C.receive s = (.eof,s') → ¬ pending s'

/-- Some input of this kind is refused with EAGAIN. -/
def Refuses (C : Component α β) (kind : α → Prop) (s : C.State) : Prop :=
  ∃ a, kind a ∧ (C.send s (some a)).1 = .eagain

theorem Contract.not_refuses (hC : C.Contract) {kind : α → Prop} {s : C.State}
    (hs : ¬ hC.pending s) : ¬ C.Refuses kind s := by
  intro hr
  obtain ⟨a,-,ha⟩ := hr
  rcases hsend : C.send s (some a) with ⟨r,s'⟩
  rw [hsend] at ha
  subst ha
  exact hs (hC.send_eagain s a s' hsend).1

theorem Refuses.of_send {kind : α → Prop} {s s' : C.State} {a : α} (hkind : kind a)
    (h : C.send s (some a) = (.eagain,s')) : C.Refuses kind s := ⟨a,hkind,by rw [h]⟩

/-- Whatever ended the loop of outputs but an error leaves room for the next input. -/
theorem Contract.room_after (hC : C.Contract) {kind : α → Prop} {s s' : C.State}
    {r : ReceiveResult β} (h : C.receive s = (r,s')) (hout : ∀ b, r ≠ .output b)
    (herr : ∀ code, r = .error code → ¬ C.Refuses kind s') : ¬ C.Refuses kind s' := by
  cases r with
  | output b => exact absurd rfl (hout b)
  | eagain => exact hC.not_refuses (hC.receive_eagain s s' h).2
  | eof => exact hC.not_refuses (hC.receive_eof s s' h)
  | error code => exact herr code rfl

end Component

namespace VideoDecoder
variable {C : Component AVPacket AVFrame} {s s' : State C} {pkt : AVPacket} {frame : AVFrame}
  {alloc : Bool}

/-- Packets of stream `i`. -/
def OfStream (i : Int) (pkt : AVPacket) : Prop := pkt.streamIndex = i

/-- The packet in work, if its stream has an open context, is consumed or refused with an error
other than EAGAIN. -/
def KeepsInput (C : Component AVPacket AVFrame) (w : Worker (State C) AVPacket AVFrame) : Prop :=
  ∀ pkt ctx, w.pc = .feed pkt → w.state.contexts.lookup pkt.streamIndex = some ctx →
    (C.send ctx (some pkt)).1 ≠ .eagain

/-- An error that a context answers now, while the loop goes on, leaves it ready for the next
packet of its stream. -/
def RoomAfterError (C : Component AVPacket AVFrame) (w : Worker (State C) AVPacket AVFrame) :
    Prop :=
  w.isStop = false →
    (∀ pkt ctx code ctx', w.pc = .feed pkt →
      w.state.contexts.lookup pkt.streamIndex = some ctx →
      C.send ctx (some pkt) = (.error code,ctx') → ¬ C.Refuses (OfStream pkt.streamIndex) ctx') ∧
    ∀ ctx code ctx', w.pc = .drain → w.state.contexts.lookup w.state.idx = some ctx →
      C.receive ctx = (.error code,ctx') → ¬ C.Refuses (OfStream w.state.idx) ctx'

/-- Every context but those excepted takes its next packet. -/
def Ready (C : Component AVPacket AVFrame) (except : Int → Prop) (s : State C) : Prop :=
  ∀ i ctx, ¬ except i → s.contexts.lookup i = some ctx → ¬ C.Refuses (OfStream i) ctx

theorem Ready.insert {except except' : Int → Prop} {i idx : Int} {ctx : C.State}
    (h : Ready C except s) (hexcept : ∀ j, j ≠ i → ¬ except' j → ¬ except j)
    (hctx : ¬ except' i → ¬ C.Refuses (OfStream i) ctx) :
    Ready C except' ⟨s.contexts.insert i ctx,idx⟩ := by
  intro j ctx' hj hl
  by_cases hji : j = i
  · subst hji
    rw [AList.lookup_insert,Option.some.injEq] at hl
    exact hl ▸ hctx hj
  · rw [AList.lookup_insert_ne hji] at hl
    exact h j ctx' (hexcept j hji hj) hl

/-- Before each packet every context is ready for it, and while one is drained the others
are. -/
theorem loopRule (hC : C.Contract) {s₀ : State C}
    (hfresh : ∀ i ctx, s₀.contexts.lookup i = some ctx → ¬ hC.pending ctx) :
    Worker.LoopRule (stage C) s₀ (RoomAfterError C) (Ready C fun _ => False)
      (fun s => Ready C (· = s.idx) s) where
  start i ctx _ hl := hC.not_refuses (hfresh i ctx hl)
  skip w pkt s hok hflag hpc hready hf := by
    obtain ⟨-,h⟩ | ⟨ctx,r,ctx',hl,hsend,⟨-,h⟩ | ⟨hr,h⟩⟩ := feed_cases hf
    · cases h; exact hready
    · cases h
    · cases h
      refine hready.insert (fun _ _ h => h) fun _ => ?_
      cases r with
      | ok => exact absurd rfl hr
      | eagain => exact absurd (.of_send rfl hsend) (hready _ ctx id hl)
      | error code => exact (hok hflag).1 pkt ctx code ctx' hpc hl hsend
  accept s pkt s' hready hf := by
    obtain ⟨-,h⟩ | ⟨ctx,r,ctx',-,-,⟨-,h⟩ | ⟨-,h⟩⟩ := feed_cases hf
    · cases h
    · cases h; exact hready.insert (fun _ _ _ => id) fun h => absurd rfl h
    · cases h
  leave w alloc s hok hflag hpc hready hd := by
    obtain h | ⟨ctx,r,ctx',hl,hrec,⟨frame,-,h⟩ | ⟨hout,h⟩⟩ := drain_cases hd
    · cases h
    · cases h
    · cases h
      refine hready.insert (fun _ hne _ => hne) fun _ => hC.room_after hrec hout ?_
      intro code hr
      exact (hok hflag).2 ctx code ctx' hpc hl (hr ▸ hrec)
  again s alloc s' _ hd := by
    obtain h | ⟨ctx,r,ctx',-,-,⟨frame,-,h⟩ | ⟨-,h⟩⟩ := drain_cases hd <;> cases h
  push s alloc frame s' hready hd := by
    obtain h | ⟨ctx,r,ctx',-,-,⟨_,-,h⟩ | ⟨-,h⟩⟩ := drain_cases hd
    · cases h
    · cases h; exact hready.insert (fun _ hne _ => hne) fun h => absurd rfl h
    · cases h

theorem keeps_input (hC : C.Contract) {e : EmptyPop} {s₀ : State C}
    (hfresh : ∀ i ctx, s₀.contexts.lookup i = some ctx → ¬ hC.pending ctx)
    {w : Worker (stage C).State AVPacket AVFrame}
    (hw : Worker.IsDriven (stage C) e s₀ (RoomAfterError C) w) : KeepsInput C w := by
  intro pkt ctx hpc hl heagain
  have hready := (loopRule hC hfresh).inLoop hw
  unfold Worker.InLoop at hready
  rw [hpc] at hready
  exact hready _ ctx id hl ⟨pkt,rfl,heagain⟩

section Exact
variable {e : EmptyPop} {s₀ : State C} {w : Worker (stage C).State AVPacket AVFrame}

theorem not_refuses_of_keeps
    (hkeeps : ∀ w, Worker.IsDriven (stage C) e s₀ Worker.anyTurn w → KeepsInput C w)
    (hw : Worker.IsDriven (stage C) e s₀ Worker.anyTurn w) (hpc : w.pc = .test)
    (hflag : w.isStop = false) {i : Int} {ctx : C.State}
    (hl : w.state.contexts.lookup i = some ctx) : ¬ C.Refuses (OfStream i) ctx := by
  intro hr
  obtain ⟨pkt,rfl,heagain⟩ := hr
  exact hkeeps _ (hw.fed hpc hflag pkt) pkt ctx rfl hl heagain

/-- After an error that leaves a context refusing, the next packet may be one it refuses. -/
theorem roomAfterError_of_keeps
    (hkeeps : ∀ w, Worker.IsDriven (stage C) e s₀ Worker.anyTurn w → KeepsInput C w)
    (hw : Worker.IsDriven (stage C) e s₀ Worker.anyTurn w) : RoomAfterError C w := by
  intro hflag
  constructor
  · intro pkt ctx code ctx' hpc hl hsend
    have hskip := hw.skipped hpc (feed_refused (r := .error code) hl nofun hsend)
    exact not_refuses_of_keeps hkeeps hskip rfl hflag (AList.lookup_insert _)
  · intro ctx code ctx' hpc hl hrec
    have hleave := hw.drained hpc (drain_leave hl hrec nofun)
    exact not_refuses_of_keeps hkeeps hleave rfl hflag (AList.lookup_insert _)

theorem keeps_iff (hC : C.Contract)
    (hfresh : ∀ i ctx, s₀.contexts.lookup i = some ctx → ¬ hC.pending ctx) :
    (∀ w, Worker.IsDriven (stage C) e s₀ Worker.anyTurn w → KeepsInput C w) ↔
      ∀ w, Worker.IsDriven (stage C) e s₀ Worker.anyTurn w → RoomAfterError C w :=
  ⟨fun hkeeps _ hw => roomAfterError_of_keeps hkeeps hw,
    fun hroom _ hw => keeps_input hC hfresh (hw.strengthen hroom)⟩

end Exact
end VideoDecoder

namespace VideoEncoder
variable {C : Component AVFrame AVPacket} {s s' : State C} {frame : AVFrame} {alloc : Bool}

def AnyFrame (_ : AVFrame) : Prop := True

/-- The frame in work is consumed or refused with an error other than EAGAIN. -/
def KeepsInput (C : Component AVFrame AVPacket) (w : Worker (State C) AVFrame AVPacket) : Prop :=
  ∀ frame ctx, w.pc = .feed frame → w.state = some ctx → (C.send ctx (some frame)).1 ≠ .eagain

/-- An error that the encoder answers now, while the loop goes on, leaves it ready for the next
frame. -/
def RoomAfterError (C : Component AVFrame AVPacket) (w : Worker (State C) AVFrame AVPacket) :
    Prop :=
  w.isStop = false →
    (∀ frame ctx code ctx', w.pc = .feed frame → w.state = some ctx →
      C.send ctx (some frame) = (.error code,ctx') → ¬ C.Refuses AnyFrame ctx') ∧
    ∀ ctx code ctx', w.pc = .drain → w.state = some ctx →
      C.receive ctx = (.error code,ctx') → ¬ C.Refuses AnyFrame ctx'

def Ready (C : Component AVFrame AVPacket) (s : State C) : Prop :=
  ∀ ctx, s = some ctx → ¬ C.Refuses AnyFrame ctx

theorem Ready.some {ctx : C.State} (h : ¬ C.Refuses AnyFrame ctx) : Ready C (some ctx) := by
  intro ctx' heq
  cases heq
  exact h

theorem loopRule (hC : C.Contract) {s₀ : State C}
    (hfresh : ∀ ctx, s₀ = some ctx → ¬ hC.pending ctx) :
    Worker.LoopRule (stage C) s₀ (RoomAfterError C) (Ready C) (fun _ => True) where
  start ctx h := hC.not_refuses (hfresh ctx h)
  skip w frame s hok hflag hpc hready hf := by
    obtain h | ⟨ctx,r,ctx',hctx,hsend,⟨-,h⟩ | ⟨hr,h⟩⟩ := feed_cases hf
    · cases h
    · cases h
    · cases h
      refine .some ?_
      cases r with
      | ok => exact absurd rfl hr
      | eagain => exact absurd (.of_send trivial hsend) (hready ctx hctx)
      | error code => exact (hok hflag).1 frame ctx code ctx' hpc hctx hsend
  accept _ _ _ _ _ := trivial
  leave w alloc s hok hflag hpc _ hd := by
    obtain h | ⟨ctx,r,ctx',hctx,hrec,⟨pkt,-,-,h⟩ | ⟨-,h⟩ | ⟨hout,h⟩⟩ := drain_cases hd
    · cases h
    · cases h
    · cases h
    · cases h
      refine .some (hC.room_after hrec hout ?_)
      intro code hr
      exact (hok hflag).2 ctx code ctx' hpc hctx (hr ▸ hrec)
  again _ _ _ _ _ := trivial
  push _ _ _ _ _ _ := trivial

section Exact
variable {e : EmptyPop} {s₀ : State C} {w : Worker (stage C).State AVFrame AVPacket}

theorem keeps_input (hC : C.Contract) (hfresh : ∀ ctx, s₀ = some ctx → ¬ hC.pending ctx)
    (hw : Worker.IsDriven (stage C) e s₀ (RoomAfterError C) w) : KeepsInput C w := by
  intro frame ctx hpc hctx heagain
  have hready := (loopRule hC hfresh).inLoop hw
  unfold Worker.InLoop at hready
  rw [hpc] at hready
  exact hready ctx hctx ⟨frame,trivial,heagain⟩

theorem not_refuses_of_keeps
    (hkeeps : ∀ w, Worker.IsDriven (stage C) e s₀ Worker.anyTurn w → KeepsInput C w)
    (hw : Worker.IsDriven (stage C) e s₀ Worker.anyTurn w) (hpc : w.pc = .test)
    (hflag : w.isStop = false) {ctx : C.State} (hctx : w.state = some ctx) :
    ¬ C.Refuses AnyFrame ctx := by
  intro hr
  obtain ⟨frame,-,heagain⟩ := hr
  exact hkeeps _ (hw.fed hpc hflag frame) frame ctx rfl hctx heagain

theorem roomAfterError_of_keeps
    (hkeeps : ∀ w, Worker.IsDriven (stage C) e s₀ Worker.anyTurn w → KeepsInput C w)
    (hw : Worker.IsDriven (stage C) e s₀ Worker.anyTurn w) : RoomAfterError C w := by
  intro hflag
  constructor
  · intro frame ctx code ctx' hpc hctx hsend
    have hfeed : (stage C).feed w.state frame = .skip (some ctx') :=
      hctx ▸ feed_refused (r := .error code) nofun hsend
    exact not_refuses_of_keeps hkeeps (hw.skipped hpc hfeed) rfl hflag rfl
  · intro ctx code ctx' hpc hctx hrec
    have hdrain : (stage C).drain w.state true = .leave (some ctx') :=
      hctx ▸ drain_leave hrec nofun
    exact not_refuses_of_keeps hkeeps (hw.drained hpc hdrain) rfl hflag rfl

theorem keeps_iff (hC : C.Contract) (hfresh : ∀ ctx, s₀ = some ctx → ¬ hC.pending ctx) :
    (∀ w, Worker.IsDriven (stage C) e s₀ Worker.anyTurn w → KeepsInput C w) ↔
      ∀ w, Worker.IsDriven (stage C) e s₀ Worker.anyTurn w → RoomAfterError C w :=
  ⟨fun hkeeps _ hw => roomAfterError_of_keeps hkeeps hw,
    fun hroom _ hw => keeps_input hC hfresh (hw.strengthen hroom)⟩

end Exact
end VideoEncoder

/-- The components obey the contract, and their contexts are fresh. -/
structure Setup.Contracts (su : Setup) where
  decoder : su.decoder.Contract
  encoder : su.encoder.Contract
  contexts_fresh : ∀ i ctx, su.contexts.lookup i = some ctx → ¬ decoder.pending ctx
  encoder_fresh : ∀ ctx, su.encoderState = some ctx → ¬ encoder.pending ctx

def Component.relayContract {α β : Type} (f : α → β) : (Component.relay f).Contract where
  pending s := s ≠ []
  send_eagain _ _ _ h := by cases h
  receive_eagain s s' h := by
    cases s with
    | nil => cases h; exact ⟨fun hs => hs rfl,fun hs => hs rfl⟩
    | cons b rest => cases h
  receive_eof s s' h := by cases s <;> cases h

theorem Component.relay_send_ne_error {α β : Type} {f : α → β} {s s' : List β} {a : Option α}
    {code : Nat} : (Component.relay f).send s a ≠ (.error code,s') := nofun

theorem Component.relay_receive_ne_error {α β : Type} {f : α → β} {s s' : List β} {code : Nat} :
    (Component.relay f).receive s ≠ (.error code,s') := by
  cases s <;> exact nofun

/-- The component that takes one input at a time, and reports an error before it gives the
output. -/
def Component.faulty {α β : Type} (f : α → β) : Component α β where
  State := List (Option β)
  send
    | [],a => (.ok,(a.map fun a => [none,some (f a)]).getD [])
    | s,none => (.ok,s)
    | s,some _ => (.eagain,s)
  receive
    | [] => (.eagain,[])
    | none :: rest => (.error 1,rest)
    | some b :: rest => (.output b,rest)

def Component.faultyContract {α β : Type} (f : α → β) : (Component.faulty f).Contract where
  pending s := s ≠ []
  send_eagain s a s' h := by
    cases s with
    | nil => cases h
    | cons b rest => cases h; exact ⟨List.cons_ne_nil _ _,rfl⟩
  receive_eagain s s' h := by
    match s with
    | [] => cases h; exact ⟨fun hs => hs rfl,fun hs => hs rfl⟩
    | none :: rest => cases h
    | some b :: rest => cases h
  receive_eof s s' h := by
    match s with
    | [] => cases h
    | none :: rest => cases h
    | some b :: rest => cases h

/-- The component that takes one input at a time, and reports an error instead of an output for
those that are `bad`. -/
def Component.dropping {α β : Type} (bad : α → Bool) (f : α → β) : Component α β where
  State := List (Option β)
  send
    | [],a => (.ok,(a.map fun a => [if bad a then none else some (f a)]).getD [])
    | s,none => (.ok,s)
    | s,some _ => (.eagain,s)
  receive
    | [] => (.eagain,[])
    | none :: _ => (.error 1,[])
    | some b :: rest => (.output b,rest)

def Component.droppingContract {α β : Type} (bad : α → Bool) (f : α → β) :
    (Component.dropping bad f).Contract where
  pending s := s ≠ []
  send_eagain s a s' h := by
    cases s with
    | nil => cases h
    | cons b rest => cases h; exact ⟨List.cons_ne_nil _ _,rfl⟩
  receive_eagain s s' h := by
    match s with
    | [] => cases h; exact ⟨fun hs => hs rfl,fun hs => hs rfl⟩
    | none :: _ => cases h
    | some b :: rest => cases h
  receive_eof s s' h := by
    match s with
    | [] => cases h
    | none :: _ => cases h
    | some b :: rest => cases h

theorem Component.dropping_send_ne_error {α β : Type} {bad : α → Bool} {f : α → β}
    {s s' : List (Option β)} {a : Option α} {code : Nat} :
    (Component.dropping bad f).send s a ≠ (.error code,s') := by
  cases s <;> cases a <;> exact nofun

/-- Its error gives up what it was about, so it leaves room. -/
theorem Component.dropping_room {α β : Type} {bad : α → Bool} {f : α → β}
    {s s' : List (Option β)} {code : Nat} (kind : α → Prop)
    (h : (Component.dropping bad f).receive s = (.error code,s')) :
    ¬ (Component.dropping bad f).Refuses kind s' := by
  match s with
  | [] => cases h
  | none :: _ =>
    cases h
    exact (Component.droppingContract bad f).not_refuses fun hs => hs rfl
  | some b :: rest => cases h

theorem VideoDecoder.eq_of_lookup_single {σ : Type} {i j : Int} {ctx ctx' : σ}
    (h : AList.lookup i (AList.insert j ctx (∅ : Contexts σ)) = some ctx') : ctx' = ctx := by
  by_cases hi : i = j
  · subst hi
    rw [AList.lookup_insert,Option.some.injEq] at h
    exact h.symm
  · rw [AList.lookup_insert_ne hi] at h
    cases h

namespace Controller

/-- Decoder and encoder keep their input, whatever components behind the contract they run. -/
def InputKept : Prop :=
  ∀ (su : Setup) (_ : su.Contracts) (e : EmptyPop) (s : Controller su),
    Reachable (program su e) anyStep s →
    VideoDecoder.KeepsInput su.decoder s.decoder ∧ VideoEncoder.KeepsInput su.encoder s.encoder

def faultySetup : Setup :=
  { sampleSetup [⟨0,900,900,1,[]⟩,⟨0,1800,1800,1,[]⟩] with
    decoder := .faulty fun pkt => ⟨pkt.pts,pkt.data,none⟩
    contexts := AList.insert 0 [] ∅ }

def faultyContracts : faultySetup.Contracts where
  decoder := Component.faultyContract _
  encoder := Component.relayContract _
  contexts_fresh _ _ h hpending := hpending (VideoDecoder.eq_of_lookup_single h)
  encoder_fresh ctx h hpending := by
    cases h
    exact hpending rfl

/-- The error in the first packet ends the loop with a frame unread, and the second packet is
refused. -/
theorem refused_packet_lost : ¬ InputKept := by
  intro h
  obtain ⟨s,hs,hp⟩ := Reachable.exists_of_replay (program faultySetup .undefined) anyStep
    (turns [(.source,6),(.decoder,7)])
    (fun s => s.decoder.pc = .feed ⟨0,1800,1800,1,[]⟩ ∧
      (s.decoder.state.contexts.lookup 0).map (fun ctx =>
        (faultySetup.decoder.send ctx (some ⟨0,1800,1800,1,[]⟩)).1) = some .eagain)
    (fun _ _ _ => trivial) (by decide)
  simp only [decide_eq_true_eq,Option.map_eq_some_iff] at hp
  obtain ⟨hpc,ctx,hl,heagain⟩ := hp
  exact (h _ faultyContracts _ s hs).1 _ ctx hpc hl heagain

/-- The steps of decoder and encoder at which an error leaves room. -/
def roomTurns (su : Setup) : StageTurns su :=
  ⟨VideoDecoder.RoomAfterError su.decoder,Worker.anyTurn,VideoEncoder.RoomAfterError su.encoder⟩

/-- While every error leaves room, decoder and encoder lose no input to EAGAIN. Each of them,
run as a stage in any environment, never loses any exactly if every error leaves room. -/
theorem input_kept_iff_room (su : Setup) (hC : su.Contracts) (e : EmptyPop) :
    (∀ s : Controller su, Reachable (program su e) (roomTurns su).Met s →
      VideoDecoder.KeepsInput su.decoder s.decoder ∧
        VideoEncoder.KeepsInput su.encoder s.encoder) ∧
    ((∀ w, Worker.IsDriven su.decoderStage e ⟨su.contexts,0⟩ Worker.anyTurn w →
        VideoDecoder.KeepsInput su.decoder w) ↔
      ∀ w, Worker.IsDriven su.decoderStage e ⟨su.contexts,0⟩ Worker.anyTurn w →
        VideoDecoder.RoomAfterError su.decoder w) ∧
    ((∀ w, Worker.IsDriven su.encoderStage e su.encoderState Worker.anyTurn w →
        VideoEncoder.KeepsInput su.encoder w) ↔
      ∀ w, Worker.IsDriven su.encoderStage e su.encoderState Worker.anyTurn w →
        VideoEncoder.RoomAfterError su.encoder w) := by
  refine ⟨fun s hs => ?_,VideoDecoder.keeps_iff hC.decoder hC.contexts_fresh,
    VideoEncoder.keeps_iff hC.encoder hC.encoder_fresh⟩
  have hdriven := reachable_driven (roomTurns su) (fun _ _ h => h) hs
  exact ⟨VideoDecoder.keeps_input hC.decoder hC.contexts_fresh hdriven.decoder,
    VideoEncoder.keeps_input hC.encoder hC.encoder_fresh hdriven.encoder⟩

/-- The first packet gives an error and no frame. -/
def droppingSetup : Setup :=
  { sampleSetup [⟨0,900,900,1,[]⟩,⟨0,1800,1800,1,[]⟩] with
    decoder := .dropping (fun pkt => pkt.pts = 900) fun pkt => ⟨pkt.pts,pkt.data,none⟩
    contexts := AList.insert 0 [] ∅ }

def droppingContracts : droppingSetup.Contracts where
  decoder := Component.droppingContract _ _
  encoder := Component.relayContract _
  contexts_fresh _ _ h hpending := hpending (VideoDecoder.eq_of_lookup_single h)
  encoder_fresh ctx h hpending := by
    cases h
    exact hpending rfl

theorem droppingSetup_met (s : Controller droppingSetup) (a : Label) :
    (roomTurns droppingSetup).Met s a := by
  unfold StageTurns.Met
  split
  · exact fun _ => ⟨fun _ _ _ _ _ _ h => absurd h Component.dropping_send_ne_error,
      fun _ _ _ _ _ h => Component.dropping_room _ h⟩
  · trivial
  · exact fun _ => ⟨fun _ _ _ _ _ _ h => absurd h Component.relay_send_ne_error,
      fun _ _ _ _ _ h => absurd h Component.relay_receive_ne_error⟩
  · trivial

/-- The decoder has met the error, and has the second packet in work. -/
theorem input_kept_iff_room_sample :
    ∃ s : Controller droppingSetup, s.decoder.pc = .feed ⟨0,1800,1800,1,[]⟩ ∧
      s.decoder.sent = [] ∧ VideoDecoder.KeepsInput droppingSetup.decoder s.decoder := by
  obtain ⟨s,hs,hp⟩ := Reachable.exists_of_replay
    (program droppingSetup .undefined) (roomTurns droppingSetup).Met
    (turns [(.source,6),(.decoder,7)])
    (fun s => s.decoder.pc = .feed ⟨0,1800,1800,1,[]⟩ ∧ s.decoder.sent = [])
    (fun a _ s => droppingSetup_met s a) (by decide)
  simp only [decide_eq_true_eq] at hp
  exact ⟨s,hp.1,hp.2,((input_kept_iff_room _ droppingContracts .undefined).1 s hs).1⟩

end Controller
end HyperStream
