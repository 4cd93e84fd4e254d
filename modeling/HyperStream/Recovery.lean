import HyperStream.Muxing
set_option autoImplicit false

open Transition

namespace HyperStream

open MediaSink

theorem avRescaleQ_back {e s : AVRational} (hs : s.Positive) (hle : s.toRat ≤ e.toRat)
    (n : Int) : avRescaleQ (avRescaleQ n e s) s e = n := by
  have hratio : 1 ≤ e.toRat/s.toRat := (one_le_div hs.toRat_pos).mpr hle
  have hinv : s.toRat/e.toRat = (e.toRat/s.toRat)⁻¹ := (inv_div _ _).symm
  unfold avRescaleQ
  rw [mul_div_assoc,mul_div_assoc,hinv,← div_eq_mul_inv]
  exact Rounding.nearAway_div_nearAway hratio n

theorem rewrite_back {e s : AVRational} (hs : s.Positive) (hle : s.toRat ≤ e.toRat)
    {pkt : AVPacket} (hindex : pkt.streamIndex = 0) :
    rewrite ⟨s,e⟩ (rewrite ⟨e,s⟩ pkt) = pkt := by
  simp only [rewrite,avRescaleQ_back hs hle,← hindex]

/-- Of two neighbours that collide one is not recovered. -/
theorem neighbour_lost {e s : AVRational} (he : e.Positive) (hs : s.Positive) {n : Int}
    (h : ¬ Increasing (writes ⟨e,s⟩ (neighbours n))) :
    ∃ pkt ∈ neighbours n, rewrite ⟨s,e⟩ (rewrite ⟨e,s⟩ pkt) ≠ pkt := by
  have hle : avRescaleQ (n+1) e s ≤ avRescaleQ n e s := by
    by_contra hlt
    exact h (by simpa [Increasing,neighbours,writes,rewrite] using hlt)
  have hsame : avRescaleQ (n+1) e s = avRescaleQ n e s :=
    le_antisymm hle (avRescaleQ_mono he hs (by omega))
  by_contra hback
  simp only [not_exists,not_and,not_not] at hback
  have hfirst := congrArg AVPacket.pts (hback ⟨0,n,n,0,[]⟩ (by simp [neighbours]))
  have hsecond := congrArg AVPacket.pts (hback ⟨0,n+1,n+1,0,[]⟩ (by simp [neighbours]))
  simp only [rewrite] at hfirst hsecond
  rw [hsame,hfirst] at hsecond
  omega

theorem streamIndex_neighbours {n : Int} {pkt : AVPacket} (h : pkt ∈ neighbours n) :
    pkt.streamIndex = 0 := by
  simp only [neighbours,List.mem_cons,List.not_mem_nil,or_false] at h
  rcases h with rfl | rfl <;> rfl

namespace Controller
variable {su : Setup}

/-- The encoder's run sets the stream index of all that it pushes. -/
theorem encoder_ensures (su : Setup) :
    Worker.Ensures su.encoderStage (fun _ => True) fun pkt => pkt.streamIndex = 0 where
  feed s a _ := by
    cases su.encoderStage.feed s a <;> trivial
  drain s alloc _ := by
    obtain heq | ⟨ctx,r,ctx',-,-,⟨pkt,-,-,heq⟩ | ⟨-,heq⟩ | ⟨-,heq⟩⟩ :=
      VideoEncoder.drain_cases (rfl : su.encoderStage.drain s alloc = _)
    all_goals rw [heq]
    · trivial
    · exact ⟨rfl,trivial⟩
    · trivial
    · trivial
  cleanup := fun _ _ _ _ => trivial

theorem encoder_holds_step {e : EmptyPop} {s s' : Controller su} {a : Label}
    (h : s.encoder.Holds (fun _ => True) fun pkt => pkt.streamIndex = 0)
    (hs : Stepped e s a s') : s'.encoder.Holds (fun _ => True) fun pkt => pkt.streamIndex = 0 := by
  cases hs with
  | encoder hw => exact hw.holds (encoder_ensures su) h
  | stopper hstop => cases stop_cases hstop <;> exact ⟨h.state,h.sent,h.inHand⟩
  | _ => exact h

theorem reachable_encoder_holds {e : EmptyPop} {ok : Controller su → Label → Prop}
    {s : Controller su} (h : Reachable (program su e) ok s) :
    s.encoder.Holds (fun _ => True) fun pkt => pkt.streamIndex = 0 :=
  h.invariant (P := fun s => s.encoder.Holds (fun _ => True) fun pkt => pkt.streamIndex = 0)
    ⟨trivial,by simp [program,start,Worker.start],by simp [program,start,Worker.start]⟩
    fun ht _ hs => encoder_holds_step ht (step_cases hs)

end Controller

/-- What the encoder gave is recovered from the file, whatever the packets are, exactly if the
stream's unit is not coarser than the encoder's, and int64_t makes no difference; then the
written packets, scaled back, are the first that the encoder has sent, in every run. -/
theorem recovered_iff_fine_enough (e s : AVRational) (he : e.Positive) (hs : s.Positive) :
    ((∀ pkt : AVPacket, pkt.streamIndex = 0 →
      rewrite ⟨s,e⟩ (rewrite ⟨e,s⟩ pkt) = pkt) ↔ s.toRat ≤ e.toRat) ∧
    (e.FitsInt → s.FitsInt →
      ((∀ pkt : AVPacket, pkt.streamIndex = 0 → Representable ⟨e,s⟩ [pkt] →
        rewrite ⟨s,e⟩ (rewrite ⟨e,s⟩ pkt) = pkt) ↔ s.toRat ≤ e.toRat)) ∧
    (s.toRat ≤ e.toRat → ∀ (su : Setup) (code : EmptyPop) (t : Controller su),
      su.timeBases = ⟨e,s⟩ → Reachable (Controller.program su code) anyStep t →
      t.sink.written.map (rewrite ⟨s,e⟩) <+: t.encoder.sent) := by
  refine ⟨⟨fun h => ?_,fun hle pkt => rewrite_back hs hle⟩,fun hfe hfs => ⟨fun h => ?_,
    fun hle pkt hindex _ => rewrite_back hs hle hindex⟩,fun hle su code t htb ht => ?_⟩
  · by_contra hlt
    obtain ⟨n,hn⟩ := coarse_base_collides hs (not_le.mp hlt)
    obtain ⟨pkt,hpkt,hlost⟩ := neighbour_lost he hs hn
    exact hlost (h pkt (streamIndex_neighbours hpkt))
  · by_contra hlt
    obtain ⟨n,hr,hn⟩ := coarse_base_collides_int64 he hs hfe hfs (not_le.mp hlt)
    obtain ⟨pkt,hpkt,hlost⟩ := neighbour_lost he hs hn
    refine hlost (h pkt (streamIndex_neighbours hpkt) fun q hq => ?_)
    rw [List.mem_singleton.mp hq]
    exact hr pkt hpkt
  · have hsent := (Controller.reachable_encoder_holds ht).sent
    have hreceived := (Controller.reachable_linked ht).encode.received_prefix
    have hwritten := (Controller.reachable_written ht).map (rewrite ⟨s,e⟩)
    rw [htb,writes,List.map_map] at hwritten
    have hself : t.sink.received.map (rewrite ⟨s,e⟩ ∘ rewrite ⟨e,s⟩) = t.sink.received := by
      refine (List.map_congr_left fun pkt hpkt => ?_).trans (List.map_id _)
      exact rewrite_back hs hle (hsent pkt (hreceived.subset hpkt))
    rw [hself] at hwritten
    exact hwritten.trans hreceived

/-- Nothing of 1/60 s is lost in the 1/90000 s of MPEG-TS, nor in a run that has written a
packet so; but the other way it is. -/
theorem recovered_iff_fine_enough_sample :
    rewrite ⟨⟨1,90000⟩,⟨1,60⟩⟩ (rewrite ⟨⟨1,60⟩,⟨1,90000⟩⟩ ⟨0,901,900,1,[]⟩) =
      ⟨0,901,900,1,[]⟩ ∧
    (∃ t : Controller (sampleSetup [⟨0,900,900,1,[]⟩]), t.sink.written.length = 1 ∧
      t.sink.written.map (rewrite ⟨⟨1,90000⟩,⟨1,60⟩⟩) <+: t.encoder.sent) ∧
    ¬ ∀ pkt : AVPacket, pkt.streamIndex = 0 →
      rewrite ⟨⟨1,60⟩,⟨1,90000⟩⟩ (rewrite ⟨⟨1,90000⟩,⟨1,60⟩⟩ pkt) = pkt := by
  have hcoarse : AVRational.Positive ⟨1,60⟩ := ⟨by decide,by decide⟩
  have hfine : AVRational.Positive ⟨1,90000⟩ := ⟨by decide,by decide⟩
  obtain ⟨hback,-,hruns⟩ := recovered_iff_fine_enough _ _ hcoarse hfine
  have hle : (⟨1,90000⟩ : AVRational).toRat ≤ (⟨1,60⟩ : AVRational).toRat := by
    norm_num [AVRational.toRat]
  refine ⟨hback.mpr hle _ rfl,?_,?_⟩
  · obtain ⟨t,ht,hp⟩ := Reachable.exists_of_replay
      (Controller.program (sampleSetup [⟨0,900,900,1,[]⟩]) .undefined) anyStep
      (Controller.turns [(.source,3),(.decoder,6),(.processor,6),(.encoder,6),(.sink,3)])
      (fun t => t.sink.written.length = 1) (fun _ _ _ => trivial) (by decide)
    rw [decide_eq_true_eq] at hp
    exact ⟨t,hp,hruns hle _ _ t rfl ht⟩
  · rw [(recovered_iff_fine_enough _ _ hfine hcoarse).1]
    norm_num [AVRational.toRat]

end HyperStream
