import Mathlib.Algebra.Order.Archimedean.Basic
import HyperStream.Sequential
set_option autoImplicit false

open Transition

namespace HyperStream

/-- A time base that av_rescale_q is called with. -/
structure AVRational.Positive (r : AVRational) : Prop where
  num : 0 < r.num
  den : 0 < r.den

/-- The fields are of type int. -/
structure AVRational.FitsInt (r : AVRational) : Prop where
  num : r.num ≤ 2147483647
  den : r.den ≤ 2147483647

def avNoptsValue : Int := -9223372036854775808

def FitsInt64 (x : Int) : Prop := -9223372036854775808 ≤ x ∧ x ≤ 9223372036854775807

/-- The timestamps are there, and all times are of type int64_t. -/
structure AVPacket.Stamped (pkt : AVPacket) : Prop where
  fits : ∀ x ∈ [pkt.pts,pkt.dts,pkt.duration], FitsInt64 x
  present : pkt.pts ≠ avNoptsValue ∧ pkt.dts ≠ avNoptsValue

def Increasing (pkts : List AVPacket) : Prop := pkts.Pairwise fun p q => p.dts < q.dts

theorem AVRational.Positive.toRat_pos {r : AVRational} (h : r.Positive) : 0 < r.toRat :=
  div_pos (by exact_mod_cast h.num) (by exact_mod_cast h.den)

theorem avRescaleQ_mono {e s : AVRational} (he : e.Positive) (hs : s.Positive) {m n : Int}
    (h : m ≤ n) : avRescaleQ m e s ≤ avRescaleQ n e s := by
  have hmn : (m : ℚ) ≤ n := by exact_mod_cast h
  apply Rounding.nearAway_mono
  gcongr
  · exact hs.toRat_pos.le
  · exact he.toRat_pos.le

theorem ratio_lt_one {e s : AVRational} (hs : s.Positive) (hlt : e.toRat < s.toRat) :
    e.toRat/s.toRat < 1 := (div_lt_one hs.toRat_pos).mpr hlt

/-- Ratios below 1 of such time bases stay away from it. -/
theorem one_le_gap {e s : AVRational} (he : e.Positive) (hs : s.Positive)
    (hlt : e.toRat < s.toRat) : 1 ≤ (1 - e.toRat/s.toRat)*(e.den*s.num) := by
  have hed : (0 : ℚ) < e.den := by exact_mod_cast he.den
  have hsd : (0 : ℚ) < s.den := by exact_mod_cast hs.den
  have hsn : (0 : ℚ) < s.num := by exact_mod_cast hs.num
  have hcross : e.num*s.den < s.num*e.den := by
    rw [AVRational.toRat,AVRational.toRat,div_lt_div_iff₀ hed hsd] at hlt
    exact_mod_cast hlt
  have hgap : 1 ≤ s.num*e.den - e.num*s.den := by omega
  have heq : (1 - e.toRat/s.toRat)*(e.den*s.num) = s.num*e.den - e.num*s.den := by
    rw [AVRational.toRat,AVRational.toRat]
    field_simp
  rw [heq]
  exact_mod_cast hgap

theorem avRescaleQ_collides {e s : AVRational} {N : ℕ} (h : 1/2 < (N : ℚ)*(1 - e.toRat/s.toRat)) :
    ∃ n : ℕ, n < N ∧ avRescaleQ (n+1) e s ≤ avRescaleQ n e s := by
  obtain ⟨n,hn,hle⟩ := Rounding.exists_collision h
  refine ⟨n,hn,?_⟩
  unfold avRescaleQ
  push_cast at hle ⊢
  rwa [mul_div_assoc,mul_div_assoc]

theorem avRescaleQ_bounds {e s : AVRational} {n : Int} (he : e.Positive) (hs : s.Positive)
    (hlt : e.toRat < s.toRat) (hn : 0 ≤ n) : 0 ≤ avRescaleQ n e s ∧ avRescaleQ n e s ≤ n := by
  have hn' : (0 : ℚ) ≤ n := by exact_mod_cast hn
  have hpos := div_pos he.toRat_pos hs.toRat_pos
  have hlt := ratio_lt_one hs hlt
  have heq : (n : ℚ)*e.toRat/s.toRat = n*(e.toRat/s.toRat) := by ring
  have hle : (n : ℚ)*(e.toRat/s.toRat) ≤ n := by nlinarith
  unfold avRescaleQ
  rw [heq]
  refine ⟨Rounding.nearAway_nonneg (by positivity),?_⟩
  have hhalf := Rounding.nearAway_le_add_half ((n : ℚ)*(e.toRat/s.toRat))
  have hnear : (Rounding.nearAway ((n : ℚ)*(e.toRat/s.toRat)) : ℚ) < n+1 := by linarith
  have hint : Rounding.nearAway ((n : ℚ)*(e.toRat/s.toRat)) < n+1 := by exact_mod_cast hnear
  omega

namespace MediaSink

/-- What run hands to av_interleaved_write_frame for the packets that it pops. -/
def writes (tb : TimeBases) (pkts : List AVPacket) : List AVPacket := pkts.map (rewrite tb)

/-- Everything that goes into av_rescale_q and comes out of it is there and representable. -/
def Representable (tb : TimeBases) (pkts : List AVPacket) : Prop :=
  ∀ pkt ∈ pkts, pkt.Stamped ∧ (rewrite tb pkt).Stamped

/-- Two frames, one unit of the encoder's time base apart. -/
def neighbours (n : Int) : List AVPacket := [⟨0,n,n,0,[]⟩,⟨0,n+1,n+1,0,[]⟩]

theorem stamped_of_bounds {p : AVPacket}
    (h : ∀ x ∈ [p.pts,p.dts,p.duration], 0 ≤ x ∧ x ≤ 9223372036854775807) : p.Stamped := by
  have hfits : ∀ x ∈ [p.pts,p.dts,p.duration], FitsInt64 x ∧ x ≠ avNoptsValue := by
    intro x hx
    obtain ⟨hlow,hhigh⟩ := h x hx
    unfold FitsInt64 avNoptsValue
    omega
  exact ⟨fun x hx => (hfits x hx).1,(hfits p.pts (by simp)).2,(hfits p.dts (by simp)).2⟩

theorem stamped_frame {e s : AVRational} {n : Int} (he : e.Positive) (hs : s.Positive)
    (hlt : e.toRat < s.toRat) (hn : 0 ≤ n) (hle : n ≤ 9223372036854775807) :
    (⟨0,n,n,0,[]⟩ : AVPacket).Stamped ∧ (rewrite ⟨e,s⟩ ⟨0,n,n,0,[]⟩).Stamped := by
  have htime := avRescaleQ_bounds he hs hlt hn
  have hzero := avRescaleQ_bounds (n := 0) he hs hlt le_rfl
  constructor
  · apply stamped_of_bounds
    intro x hx
    simp only [List.mem_cons,List.not_mem_nil,or_false] at hx
    omega
  · apply stamped_of_bounds
    intro x hx
    simp only [rewrite,List.mem_cons,List.not_mem_nil,or_false] at hx
    omega

theorem increasing_writes_neighbours {tb : TimeBases} {n : Int}
    (h : Increasing (writes tb (neighbours n))) :
    avRescaleQ n tb.enc tb.stream < avRescaleQ (n+1) tb.enc tb.stream := by
  simpa [Increasing,neighbours,writes,rewrite] using h

theorem representable_neighbours {e s : AVRational} {n : Int} (he : e.Positive)
    (hs : s.Positive) (hlt : e.toRat < s.toRat) (hn : 0 ≤ n) (hle : n < 9223372036854775807) :
    Representable ⟨e,s⟩ (neighbours n) := by
  intro pkt hpkt
  simp only [neighbours,List.mem_cons,List.not_mem_nil,or_false] at hpkt
  rcases hpkt with rfl | rfl
  · exact stamped_frame he hs hlt hn (by omega)
  · exact stamped_frame he hs hlt (by omega) (by omega)

end MediaSink

open MediaSink

namespace Controller

theorem written_step {su : Setup} {e : EmptyPop} {s s' : Controller su} {a : Label}
    (h : Written su.timeBases s.sink) (hs : Stepped e s a s') : Written su.timeBases s'.sink := by
  cases hs with
  | sink hw => exact h.step hw
  | stopper hstop => cases stop_cases hstop <;> exact h
  | _ => exact h

theorem reachable_written {su : Setup} {e : EmptyPop} {ok : Controller su → Label → Prop}
    {s : Controller su} (h : Reachable (program su e) ok s) :
    s.sink.written <+: writes su.timeBases s.sink.received := by
  have hw : Written su.timeBases s.sink :=
    h.invariant (P := fun t => Written su.timeBases t.sink) (by exact rfl)
      fun ht _ hs => written_step ht (step_cases hs)
  exact hw.prefix_map

end Controller

theorem coarse_base_collides {e s : AVRational} (hs : s.Positive) (hlt : e.toRat < s.toRat) :
    ∃ n : ℕ, ¬ Increasing (writes ⟨e,s⟩ (neighbours n)) := by
  have hgap : 0 < 1 - e.toRat/s.toRat := sub_pos.mpr (ratio_lt_one hs hlt)
  obtain ⟨N,hN⟩ := exists_nat_gt (1/2/(1 - e.toRat/s.toRat))
  obtain ⟨n,-,hle⟩ := avRescaleQ_collides ((div_lt_iff₀ hgap).mp hN)
  exact ⟨n,fun hinc => absurd (increasing_writes_neighbours hinc) (not_lt.mpr hle)⟩

/-- With time bases of two ints the collision comes within the range of int64_t. -/
theorem coarse_base_collides_int64 {e s : AVRational} (he : e.Positive) (hs : s.Positive)
    (hfe : e.FitsInt) (hfs : s.FitsInt) (hlt : e.toRat < s.toRat) :
    ∃ n : ℕ, Representable ⟨e,s⟩ (neighbours n) ∧
      ¬ Increasing (writes ⟨e,s⟩ (neighbours n)) := by
  have hgap : 0 < 1 - e.toRat/s.toRat := sub_pos.mpr (ratio_lt_one hs hlt)
  have hone := one_le_gap he hs hlt
  have hden : (0 : ℚ) < e.den := by exact_mod_cast he.den
  have hnum : (0 : ℚ) < s.num := by exact_mod_cast hs.num
  have hden' : (e.den : ℚ) ≤ 2147483647 := by exact_mod_cast hfe.den
  have hnum' : (s.num : ℚ) ≤ 2147483647 := by exact_mod_cast hfs.num
  have hprod : (e.den : ℚ)*s.num ≤ 2147483647*2147483647 :=
    mul_le_mul hden' hnum' hnum.le (by norm_num)
  have hN : 1/2 < ((2305843009213693952 : ℕ) : ℚ)*(1 - e.toRat/s.toRat) := by
    push_cast
    nlinarith
  obtain ⟨n,hn,hle⟩ := avRescaleQ_collides hN
  exact ⟨n,representable_neighbours he hs hlt (by omega) (by omega),
    fun hinc => absurd (increasing_writes_neighbours hinc) (not_lt.mpr hle)⟩

end HyperStream
