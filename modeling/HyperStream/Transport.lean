import Mathlib.Data.Rat.Floor
import HyperStream.Link
import HyperStream.Media
import HyperStream.Rounding
set_option autoImplicit false

open Transition

namespace HyperStream

def avRescaleQ (a : Int) (bq cq : AVRational) : Int :=
  Rounding.nearAway ((a : ℚ) * bq.toRat / cq.toRat)

namespace MediaSink

/-- The time bases that run() reads: that of the encoder context and that of the stream,
which the muxer may have changed. -/
structure TimeBases where
  enc : AVRational
  stream : AVRational
  deriving DecidableEq, Repr

def rewrite (tb : TimeBases) (pkt : AVPacket) : AVPacket :=
  { pkt with
    streamIndex := 0
    pts := avRescaleQ pkt.pts tb.enc tb.stream
    dts := avRescaleQ pkt.dts tb.enc tb.stream
    duration := avRescaleQ pkt.duration tb.enc tb.stream }

inductive PC where
  | test
  | pop
  | write (pkt : AVPacket)
  | trailer
  | returned
  deriving DecidableEq, Repr

/-- The thread of run(): the packets that its pops returned, those that it has handed to
av_interleaved_write_frame, and how many these were when it wrote the trailer. -/
structure Thread where
  pc : PC
  isStop : Bool
  received : List AVPacket
  written : List AVPacket
  trailer : Option Nat
  deriving DecidableEq, Repr

def start : Thread := ⟨.test,false,[],[],none⟩

def step (tb : TimeBases) (e : EmptyPop) (target : Option Side) (th : Thread)
    (src : Channel Side AVPacket) : Outcome (Thread × Channel Side AVPacket) :=
  match th.pc with
  | .test => .next ({ th with pc := if th.isStop then .trailer else .pop },src)
  | .pop =>
    (src.pop e .consumer target).bind fun
      | (.blocked,src') => .next (th,src')
      | (.returned none,src') => .next ({ th with pc := .trailer },src')
      | (.returned (some pkt),src') =>
        .next ({ th with pc := .write pkt, received := th.received ++ [pkt] },src')
  | .write pkt => .next ({ th with pc := .test, written := th.written ++ [rewrite tb pkt] },src)
  | .trailer => .next ({ th with pc := .returned, trailer := some th.written.length },src)
  | .returned => .disabled

inductive Stepped (tb : TimeBases) (e : EmptyPop) (th : Thread) (src : Channel Side AVPacket) :
    Thread → Channel Side AVPacket → Prop where
  | go : th.pc = .test → th.isStop = false → Stepped tb e th src { th with pc := .pop } src
  | quit : th.pc = .test → th.isStop = true → Stepped tb e th src { th with pc := .trailer } src
  | await {src' : Channel Side AVPacket} : th.pc = .pop →
      src.PopStep e .consumer .blocked src' → Stepped tb e th src th src'
  | receive {pkt : AVPacket} {src' : Channel Side AVPacket} : th.pc = .pop →
      src.PopStep e .consumer (.returned (some pkt)) src' →
      Stepped tb e th src { th with pc := .write pkt, received := th.received ++ [pkt] } src'
  | ended {src' : Channel Side AVPacket} : th.pc = .pop →
      src.PopStep e .consumer (.returned none) src' →
      Stepped tb e th src { th with pc := .trailer } src'
  | write {pkt : AVPacket} : th.pc = .write pkt →
      Stepped tb e th src { th with pc := .test, written := th.written ++ [rewrite tb pkt] } src
  | trailer : th.pc = .trailer →
      Stepped tb e th src { th with pc := .returned, trailer := some th.written.length } src

variable {tb : TimeBases} {e : EmptyPop} {target : Option Side} {th th' : Thread}
  {src src' : Channel Side AVPacket}

theorem step_cases (h : step tb e target th src = .next (th',src')) :
    Stepped tb e th src th' src' := by
  unfold step at h
  cases hpc : th.pc with
  | test =>
    simp only [hpc] at h
    by_cases hs : th.isStop = true
    · rw [if_pos hs] at h; cases h; exact .quit hpc hs
    · rw [if_neg hs] at h; cases h; exact .go hpc (by simpa using hs)
  | pop =>
    simp only [hpc] at h
    obtain ⟨⟨r,c⟩,hp,h⟩ := Outcome.bind_eq_next.mp h
    have hp := Channel.pop_cases hp
    match r with
    | .blocked => cases h; exact .await hpc hp
    | .returned none => cases h; exact .ended hpc hp
    | .returned (some a) => cases h; exact .receive hpc hp
  | write pkt => simp only [hpc] at h; cases h; exact .write hpc
  | trailer => simp only [hpc] at h; cases h; exact .trailer hpc
  | returned => simp [hpc] at h

theorem Stepped.src_link {capacity : Nat} {sent : List AVPacket}
    (h : Stepped tb e th src th' src') (hl : Link capacity sent src th.received) :
    Link capacity sent src' th'.received := by
  cases h with
  | await _ hp => exact hl.pop hp
  | receive _ hp => exact hl.pop hp
  | ended _ hp => exact hl.pop hp
  | _ => exact hl

theorem Stepped.src_isStop (h : Stepped tb e th src th' src') : src'.isStop = src.isStop := by
  cases h with
  | await _ hp => exact hp.frame.1
  | receive _ hp => exact hp.frame.1
  | ended _ hp => exact hp.frame.1
  | _ => rfl

end MediaSink
end HyperStream
