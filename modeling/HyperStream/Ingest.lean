import HyperStream.Media
import HyperStream.Link
set_option autoImplicit false

open Transition

namespace HyperStream.MediaSource

/-- `input_ctx->streams[i]`; there is nothing outside of the array. -/
def streamAt (streams : List AVStream) (i : Int) : Option AVStream :=
  if 0 ≤ i then streams[i.toNat]? else none

def getVideoStreams (streams : List AVStream) : List AVStream :=
  streams.filter fun s => s.codecType = .video

def isVideo (streams : List AVStream) (pkt : AVPacket) : Bool :=
  match streamAt streams pkt.streamIndex with
  | none => false
  | some s => s.codecType = .video

/-- The packets of the calls `k`, ..., `k+n-1` of av_read_frame, up to the first that fails. -/
def packetsFrom (read : Nat → Option AVPacket) (k : Nat) : Nat → List AVPacket
  | 0 => []
  | n+1 =>
    match read k with
    | none => []
    | some pkt => pkt :: packetsFrom read (k+1) n

def packets (read : Nat → Option AVPacket) (n : Nat) : List AVPacket := packetsFrom read 0 n

def forward (streams : List AVStream) (pkts : List AVPacket) : List AVPacket :=
  pkts.filter (isVideo streams)

inductive PC where
  | test
  | read
  | push (pkt : AVPacket)
  | stopDst
  | returned
  deriving DecidableEq, Repr

/-- The thread of run(): it has called av_read_frame `reads` times and pushed `sent`. -/
structure Thread where
  pc : PC
  isStop : Bool
  reads : Nat
  sent : List AVPacket
  deriving DecidableEq, Repr

def start : Thread := ⟨.test,false,0,[]⟩

def step (streams : List AVStream) (read : Nat → Option AVPacket) (target : Option Side)
    (alloc : Bool) (th : Thread) (dst : Channel Side AVPacket) :
    Outcome (Thread × Channel Side AVPacket) :=
  match th.pc with
  | .test => .next ({ th with pc := if th.isStop then .stopDst else .read },dst)
  | .read =>
    -- av_read_frame writes through the packet pointer, also when the allocation failed
    if !alloc then .undefined
    else match read th.reads with
      | none => .next ({ th with pc := .stopDst, reads := th.reads + 1 },dst)
      | some pkt =>
        match streamAt streams pkt.streamIndex with
        | none => .undefined
        | some s => .next ({ th with
            pc := if s.codecType = .video then .push pkt else .test
            reads := th.reads + 1 },dst)
  | .push pkt =>
    (dst.push .producer pkt target).bind fun
      | (.blocked,dst') => .next (th,dst')
      | (.returned _,dst') => .next ({ th with pc := .test, sent := th.sent ++ [pkt] },dst')
  | .stopDst => .next ({ th with pc := .returned },dst.stop)
  | .returned => .disabled

inductive Stepped (streams : List AVStream) (read : Nat → Option AVPacket) (alloc : Bool)
    (th : Thread) (dst : Channel Side AVPacket) : Thread → Channel Side AVPacket → Prop where
  | go : th.pc = .test → th.isStop = false →
      Stepped streams read alloc th dst { th with pc := .read } dst
  | quit : th.pc = .test → th.isStop = true →
      Stepped streams read alloc th dst { th with pc := .stopDst } dst
  | finish : th.pc = .read → alloc = true → read th.reads = none →
      Stepped streams read alloc th dst { th with pc := .stopDst, reads := th.reads + 1 } dst
  | video {pkt : AVPacket} : th.pc = .read → alloc = true → read th.reads = some pkt →
      isVideo streams pkt = true →
      Stepped streams read alloc th dst { th with pc := .push pkt, reads := th.reads + 1 } dst
  | other {pkt : AVPacket} : th.pc = .read → alloc = true → read th.reads = some pkt →
      isVideo streams pkt = false →
      Stepped streams read alloc th dst { th with pc := .test, reads := th.reads + 1 } dst
  | hold {pkt : AVPacket} {dst' : Channel Side AVPacket} : th.pc = .push pkt →
      dst.PushStep .producer pkt .blocked dst' → Stepped streams read alloc th dst th dst'
  | send {pkt : AVPacket} {dst' : Channel Side AVPacket} : th.pc = .push pkt →
      dst.PushStep .producer pkt (.returned ()) dst' →
      Stepped streams read alloc th dst { th with pc := .test, sent := th.sent ++ [pkt] } dst'
  | stop : th.pc = .stopDst → Stepped streams read alloc th dst { th with pc := .returned } dst.stop

variable {streams : List AVStream} {read : Nat → Option AVPacket} {target : Option Side}
  {alloc : Bool} {th th' : Thread} {dst dst' : Channel Side AVPacket}

theorem step_cases (h : step streams read target alloc th dst = .next (th',dst')) :
    Stepped streams read alloc th dst th' dst' := by
  unfold step at h
  cases hpc : th.pc with
  | test =>
    simp only [hpc] at h
    by_cases hs : th.isStop = true
    · rw [if_pos hs] at h; cases h; exact .quit hpc hs
    · rw [if_neg hs] at h; cases h; exact .go hpc (by simpa using hs)
  | read =>
    simp only [hpc] at h
    cases alloc with
    | false => cases h
    | true =>
      simp only [Bool.not_true,Bool.false_eq_true,if_false] at h
      cases hr : read th.reads with
      | none => simp only [hr] at h; cases h; exact .finish hpc rfl hr
      | some pkt =>
        simp only [hr] at h
        cases hs : streamAt streams pkt.streamIndex with
        | none => simp [hs] at h
        | some s =>
          simp only [hs] at h
          by_cases hv : s.codecType = .video
          · rw [if_pos hv] at h; cases h; exact .video hpc rfl hr (by simp [isVideo,hs,hv])
          · rw [if_neg hv] at h; cases h; exact .other hpc rfl hr (by simp [isVideo,hs,hv])
  | push pkt =>
    simp only [hpc] at h
    obtain ⟨⟨r,c⟩,hp,h⟩ := Outcome.bind_eq_next.mp h
    have hp := Channel.push_cases hp
    cases r with
    | blocked => cases h; exact .hold hpc hp
    | returned v => cases h; exact .send hpc hp
  | stopDst => simp only [hpc] at h; cases h; exact .stop hpc
  | returned => simp [hpc] at h

theorem Stepped.dst_link {capacity : Nat} {received : List AVPacket}
    (h : Stepped streams read alloc th dst th' dst')
    (hl : Link capacity th.sent dst received) : Link capacity th'.sent dst' received := by
  cases h with
  | hold _ hp => exact hl.push hp
  | send _ hp => exact hl.push hp
  | stop => exact hl.stop
  | _ => exact hl

theorem Stepped.dst_isStop (h : Stepped streams read alloc th dst th' dst')
    (hs : dst.isStop = true) : dst'.isStop = true := by
  cases h with
  | hold _ hp => exact hp.frame.1.trans hs
  | send _ hp => exact hp.frame.1.trans hs
  | stop => rfl
  | _ => exact hs

theorem packetsFrom_none {k : Nat} (h : read k = none) (n : Nat) : packetsFrom read k n = [] := by
  cases n <;> simp [packetsFrom,h]

theorem packetsFrom_some {k : Nat} {pkt : AVPacket} (h : read k = some pkt) (n : Nat) :
    packetsFrom read k (n+1) = pkt :: packetsFrom read (k+1) n := by
  simp [packetsFrom,h]

theorem packetsFrom_succ_none {k n : Nat} (h : read (k+n) = none) :
    packetsFrom read k (n+1) = packetsFrom read k n := by
  induction n generalizing k with
  | zero =>
    rw [Nat.add_zero] at h
    rw [packetsFrom_none h,packetsFrom_none h]
  | succ n ih =>
    cases hk : read k with
    | none => rw [packetsFrom_none hk,packetsFrom_none hk]
    | some p =>
      rw [packetsFrom_some hk,packetsFrom_some hk,ih]
      rw [show k+1+n = k+(n+1) by omega]
      exact h

theorem packetsFrom_succ_some {k n : Nat} {pkt : AVPacket}
    (hall : ∀ j < n, (read (k+j)).isSome) (h : read (k+n) = some pkt) :
    packetsFrom read k (n+1) = packetsFrom read k n ++ [pkt] := by
  induction n generalizing k with
  | zero =>
    rw [Nat.add_zero] at h
    rw [packetsFrom_some h]; rfl
  | succ n ih =>
    obtain ⟨p,hp⟩ := Option.isSome_iff_exists.mp (hall 0 (by omega))
    rw [Nat.add_zero] at hp
    rw [packetsFrom_some hp,packetsFrom_some hp,ih,List.cons_append]
    · intro j hj
      rw [show k+1+j = k+(j+1) by omega]
      exact hall (j+1) (by omega)
    · rw [show k+1+n = k+(n+1) by omega]
      exact h

theorem packetsFrom_prefix (read : Nat → Option AVPacket) (k : Nat) {n m : Nat} (h : n ≤ m) :
    packetsFrom read k n <+: packetsFrom read k m := by
  induction n generalizing k m with
  | zero => exact List.nil_prefix
  | succ n ih =>
    obtain ⟨l,rfl⟩ : ∃ l, m = l+1 := ⟨m-1,by omega⟩
    cases hk : read k with
    | none => rw [packetsFrom_none hk]; exact List.nil_prefix
    | some p =>
      rw [packetsFrom_some hk,packetsFrom_some hk]
      exact List.cons_prefix_cons.mpr ⟨rfl,ih (k+1) (by omega)⟩

theorem packetsFrom_prefix_of_none {k m : Nat} (h : read (k+m) = none) (n : Nat) :
    packetsFrom read k n <+: packetsFrom read k m := by
  induction m generalizing k n with
  | zero =>
    rw [Nat.add_zero] at h
    rw [packetsFrom_none h]
    exact List.nil_prefix
  | succ m ih =>
    cases n with
    | zero => exact List.nil_prefix
    | succ n =>
      cases hk : read k with
      | none => rw [packetsFrom_none hk]; exact List.nil_prefix
      | some p =>
        rw [packetsFrom_some hk,packetsFrom_some hk]
        refine List.cons_prefix_cons.mpr ⟨rfl,ih ?_ n⟩
        rw [show k+1+m = k+(m+1) by omega]
        exact h

theorem packets_prefix_of_none {m : Nat} (h : read m = none) (n : Nat) :
    packets read n <+: packets read m :=
  packetsFrom_prefix_of_none (by rw [Nat.zero_add]; exact h) n

theorem forward_prefix (streams : List AVStream) {ps qs : List AVPacket} (h : ps <+: qs) :
    forward streams ps <+: forward streams qs := h.filter _

end HyperStream.MediaSource
