import Mathlib.Data.Rat.Defs
import Mathlib.Data.List.AList
set_option autoImplicit false

namespace HyperStream

/-- A timestamp unit of `num/den` seconds. -/
structure AVRational where
  num : Int
  den : Int
  deriving DecidableEq, Repr

def AVRational.toRat (r : AVRational) : ℚ := r.num / r.den

inductive AVMediaType where
  | unknown | video | audio | data | subtitle | attachment
  deriving DecidableEq, Repr

/-- The codec numbers, of which the program names one. -/
inductive AVCodecID where
  | hevc
  | other (id : Nat)
  deriving DecidableEq, Repr

/-- A stream of the container, with the fields of its codec parameters that are read. -/
structure AVStream where
  index : Int
  codecType : AVMediaType
  codecId : AVCodecID
  timeBase : AVRational
  deriving DecidableEq, Repr

structure AVPacket where
  streamIndex : Int
  pts : Int
  dts : Int
  duration : Int
  data : List UInt8
  deriving DecidableEq, Repr

structure Metadata where
  streamIndex : Int
  deriving DecidableEq, Repr

/-- `metadata` is what the frame's user pointer points to, if it is set. -/
structure AVFrame where
  pts : Int
  data : List UInt8
  metadata : Option Metadata
  deriving DecidableEq, Repr

/-- The returns of avcodec_send_packet, avcodec_send_frame and av_buffersrc_add_frame. -/
inductive SendResult where
  | ok
  | eagain
  | error (code : Nat)
  deriving DecidableEq, Repr

/-- The returns of avcodec_receive_frame, avcodec_receive_packet and
av_buffersink_get_frame. -/
inductive ReceiveResult (β : Type) where
  | output (b : β)
  | eagain
  | eof
  | error (code : Nat)
  deriving DecidableEq, Repr

/-- A library component behind a send/receive interface: a deterministic state machine
of the calls made on it. Sending nothing asks it to flush. -/
structure Component (α β : Type) where
  State : Type
  send : State → Option α → SendResult × State
  receive : State → ReceiveResult β × State

/-- The component has come from `s₀` to a state when it was sent these inputs, one after the
other, with any number of receives in between. -/
inductive Component.Fed {α β : Type} (C : Component α β) (s₀ : C.State) :
    List α → C.State → Prop where
  | start : Fed C s₀ [] s₀
  | send {as : List α} {s : C.State} (a : α) : Fed C s₀ as s →
      Fed C s₀ (as ++ [a]) (C.send s (some a)).2
  | receive {as : List α} {s : C.State} : Fed C s₀ as s → Fed C s₀ as (C.receive s).2

/-- "In general, no codec will permit unlimited buffering" (avcodec.h): `held` bounds the
outputs that a component still has to give before it asks for input. -/
structure Component.Bounded {α β : Type} (C : Component α β) where
  held : C.State → Nat
  held_lt : ∀ (s s' : C.State) (b : β), C.receive s = (.output b,s') → held s' < held s

/-- The component that gives one output for each input, as soon as it is asked. -/
def Component.relay {α β : Type} (f : α → β) : Component α β where
  State := List β
  send s a := (.ok,s ++ (a.map f).toList)
  receive s :=
    match s with
    | [] => (.eagain,[])
    | b :: rest => (.output b,rest)

def Component.relayBounded {α β : Type} (f : α → β) : (Component.relay f).Bounded where
  held := List.length
  held_lt s s' b h := by
    cases s with
    | nil => cases h
    | cons c rest => cases h; exact Nat.lt_succ_self _

end HyperStream
