import HyperStream.Codec
set_option autoImplicit false

namespace HyperStream.VideoDecoder

/-- A video stream of index `i` whose decoder initialize has opened. -/
def Opened {σ : Type} (calls : Calls σ) (streams : List AVStream) (i : Int) : Prop :=
  ∃ stream ∈ MediaSource.getVideoStreams streams,
    stream.index = i ∧ (openStream calls stream).isSome

theorem mem_addStream {σ : Type} (calls : Calls σ) (contexts : Contexts σ) (stream : AVStream)
    (i : Int) : i ∈ addStream calls contexts stream ↔
      i ∈ contexts ∨ (stream.index = i ∧ (openStream calls stream).isSome) := by
  unfold addStream
  cases openStream calls stream with
  | none => simp
  | some ctx => simp [AList.mem_insert,eq_comm,or_comm]

theorem mem_foldl_addStream {σ : Type} (calls : Calls σ) (videoStreams : List AVStream)
    (contexts : Contexts σ) (i : Int) : i ∈ videoStreams.foldl (addStream calls) contexts ↔
      i ∈ contexts ∨
        ∃ stream ∈ videoStreams, stream.index = i ∧ (openStream calls stream).isSome := by
  induction videoStreams generalizing contexts with
  | nil => simp
  | cons stream rest ih =>
    rw [List.foldl_cons,ih,mem_addStream]
    simp [or_assoc]

theorem mem_initializeContexts {σ : Type} (calls : Calls σ) (streams : List AVStream) (i : Int) :
    i ∈ (initializeContexts calls (MediaSource.getVideoStreams streams)).2 ↔
      Opened calls streams i := by
  unfold initializeContexts Opened
  split
  · rename_i hempty
    rw [List.isEmpty_iff] at hempty
    simp [hempty]
  · simp [mem_foldl_addStream]

variable {C : Component AVPacket AVFrame}

/-- In the loop of outputs for stream `j`: the contexts are those of `before`, but for that of
`j`, which is there. -/
structure Draining (j : Int) (before : Contexts C.State) (s : State C) : Prop where
  idx : s.idx = j
  here : j ∈ s.contexts
  others : ∀ i, i ≠ j → s.contexts.lookup i = before.lookup i

theorem Draining.insert {j : Int} {before : Contexts C.State} {s : State C}
    (h : Draining j before s) (ctx : C.State) :
    Draining j before { s with contexts := s.contexts.insert s.idx ctx } := by
  obtain ⟨rfl,-,hothers⟩ := h
  refine ⟨rfl,AList.mem_insert _ |>.mpr (.inl rfl),fun i hi => ?_⟩
  rw [AList.lookup_insert_ne hi,hothers i hi]

theorem Draining.drain {j : Int} {before : Contexts C.State} {s : State C}
    (h : Draining j before s) (alloc : Bool) :
    (VideoDecoder.drain C s alloc).Holds (Draining j before)
      fun frame => frame.metadata = some ⟨j⟩ :=
  drain_holds (fun _ ctx' _ => ⟨h.insert ctx',fun _ hframe => h.idx ▸ hframe⟩) alloc

theorem Draining.defined {j : Int} {before : Contexts C.State} {s : State C}
    (h : Draining j before s) : VideoDecoder.drain C s true ≠ .undefined := by
  obtain ⟨rfl,hhere,-⟩ := h
  obtain ⟨ctx,hctx⟩ := Option.isSome_iff_exists.mp (AList.lookup_isSome.mpr hhere)
  unfold VideoDecoder.drain
  simp only [Bool.not_true,Bool.false_eq_true,if_false,hctx]
  rcases C.receive ctx with ⟨r,ctx'⟩
  cases r <;> simp

/-- Two states that agree on the context of stream `i`, which is in work. -/
structure Agree (i : Int) (s t : State C) : Prop where
  left : s.idx = i
  right : t.idx = i
  same : s.contexts.lookup i = t.contexts.lookup i

theorem Agree.drain {i : Int} {s t : State C} (h : Agree i s t) :
    Drain.Related (Agree i) (VideoDecoder.drain C s true) (VideoDecoder.drain C t true) := by
  obtain ⟨cs,j⟩ := s
  obtain ⟨ct,k⟩ := t
  obtain ⟨hj,hk,hsame⟩ := h
  dsimp only at hj hk hsame
  subst hj hk
  have hinsert : ∀ ctx', Agree k ⟨cs.insert k ctx',k⟩ (⟨ct.insert k ctx',k⟩ : State C) :=
    fun ctx' => ⟨rfl,rfl,by simp⟩
  unfold VideoDecoder.drain
  simp only [Bool.not_true,Bool.false_eq_true,if_false,hsame]
  cases ct.lookup _ with
  | none => exact .undefined
  | some ctx =>
    dsimp only
    rcases C.receive ctx with ⟨r,ctx'⟩
    cases r with
    | output frame => exact .push _ (hinsert ctx')
    | _ => exact .leave (hinsert ctx')

/-- One packet: the frames carry its index, and the other streams keep their contexts. -/
theorem answer_spec (hC : C.Bounded) (s : State C) (pkt : AVPacket) :
    (∀ frame ∈ ((stage C).answer (stageBounded hC).fuel s pkt).1,
      frame.metadata = some ⟨pkt.streamIndex⟩) ∧
    ∃ t : State C, ((stage C).answer (stageBounded hC).fuel s pkt).2 = some t ∧
      ∀ i, i ≠ pkt.streamIndex → t.contexts.lookup i = s.contexts.lookup i := by
  cases hctx : s.contexts.lookup pkt.streamIndex with
  | none =>
    rw [Transducer.answer_skip (feed_unknown hctx)]
    exact ⟨by simp,s,rfl,fun _ _ => rfl⟩
  | some ctx =>
    rcases hsend : C.send ctx (some pkt) with ⟨r,ctx'⟩
    have hinsert : Draining pkt.streamIndex s.contexts
        ⟨s.contexts.insert pkt.streamIndex ctx',pkt.streamIndex⟩ :=
      ⟨rfl,AList.mem_insert _ |>.mpr (.inl rfl),fun i hi => AList.lookup_insert_ne hi⟩
    by_cases hr : r = .ok
    · subst hr
      rw [Transducer.answer_drain (feed_sent hctx hsend)]
      obtain ⟨hframes,hend⟩ := Transducer.release_holds (T := (stage C).toTransducer)
        (fun t (ht : Draining pkt.streamIndex s.contexts t) => ht.drain true)
        ((stageBounded hC).fuel _) hinsert
      obtain ⟨t,ht⟩ := (stageBounded hC).release_defined (P := Draining pkt.streamIndex s.contexts)
        (fun t ht => (ht.drain true).mono (fun _ h => h) fun _ _ => trivial)
        (fun t ht => ht.defined) hinsert (Nat.lt_succ_self _)
      exact ⟨hframes,t,ht,(hend t ht).others⟩
    · rw [Transducer.answer_skip (feed_refused hctx hr hsend)]
      exact ⟨by simp,_,rfl,hinsert.others⟩

/-- One packet: the frames depend on the context of its stream only. -/
theorem answer_local (hC : C.Bounded) {s t : State C} {pkt : AVPacket}
    (h : s.contexts.lookup pkt.streamIndex = t.contexts.lookup pkt.streamIndex) :
    ((stage C).answer (stageBounded hC).fuel s pkt).1 =
      ((stage C).answer (stageBounded hC).fuel t pkt).1 ∧
    ∀ s' : State C, ((stage C).answer (stageBounded hC).fuel s pkt).2 = some s' →
      ∃ t' : State C, ((stage C).answer (stageBounded hC).fuel t pkt).2 = some t' ∧
        s'.contexts.lookup pkt.streamIndex = t'.contexts.lookup pkt.streamIndex := by
  cases hctx : t.contexts.lookup pkt.streamIndex with
  | none =>
    rw [hctx] at h
    rw [Transducer.answer_skip (feed_unknown h),Transducer.answer_skip (feed_unknown hctx)]
    exact ⟨rfl,fun s' hs' => ⟨t,rfl,by cases hs'; exact h.trans hctx.symm⟩⟩
  | some ctx =>
    rw [hctx] at h
    rcases hsend : C.send ctx (some pkt) with ⟨r,ctx'⟩
    have hagree : Agree pkt.streamIndex ⟨s.contexts.insert pkt.streamIndex ctx',pkt.streamIndex⟩
        (⟨t.contexts.insert pkt.streamIndex ctx',pkt.streamIndex⟩ : State C) := ⟨rfl,rfl,by simp⟩
    by_cases hr : r = .ok
    · subst hr
      rw [Transducer.answer_drain (feed_sent h hsend),
        Transducer.answer_drain (feed_sent hctx hsend)]
      have hfuel : (stageBounded hC).fuel ⟨s.contexts.insert pkt.streamIndex ctx',pkt.streamIndex⟩ =
          (stageBounded hC).fuel ⟨t.contexts.insert pkt.streamIndex ctx',pkt.streamIndex⟩ := by
        simp [Transducer.Bounded.fuel,stageBounded]
      rw [hfuel]
      obtain ⟨hframes,hend⟩ := Transducer.release_related (T := (stage C).toTransducer)
        (fun _ _ (hr : Agree pkt.streamIndex _ _) => hr.drain) ((stageBounded hC).fuel _) hagree
      refine ⟨hframes,fun s' hs' => ?_⟩
      obtain ⟨t',ht',hr⟩ := hend s' hs'
      exact ⟨t',ht',hr.same⟩
    · rw [Transducer.answer_skip (feed_refused h hr hsend),
        Transducer.answer_skip (feed_refused hctx hr hsend)]
      exact ⟨rfl,fun s' hs' => ⟨_,rfl,by cases hs'; exact hagree.same⟩⟩

def framesOf (i : Int) (frames : List AVFrame) : List AVFrame :=
  frames.filter fun frame => frame.metadata = some ⟨i⟩

theorem framesOf_append (i : Int) (as bs : List AVFrame) :
    framesOf i (as ++ bs) = framesOf i as ++ framesOf i bs := List.filter_append ..

theorem framesOf_stamped {i j : Int} {frames : List AVFrame}
    (h : ∀ frame ∈ frames, frame.metadata = some ⟨j⟩) :
    framesOf i frames = if i = j then frames else [] := by
  unfold framesOf
  split
  · rename_i hij
    rw [List.filter_eq_self]
    intro frame hframe
    simp [h frame hframe,hij]
  · rename_i hij
    rw [List.filter_eq_nil_iff]
    intro frame hframe
    simp [h frame hframe,Ne.symm hij]

/-- The frames of stream `i` are those of the run over its own packets, from any contexts that
agree on that of `i`. -/
theorem framesOf_outputs (hC : C.Bounded) (i : Int) (pkts : List AVPacket) {s t : State C}
    (h : s.contexts.lookup i = t.contexts.lookup i) :
    framesOf i ((stage C).outputs (stageBounded hC).fuel s pkts) =
      (stage C).outputs (stageBounded hC).fuel t (pkts.filter fun pkt => pkt.streamIndex = i) := by
  induction pkts generalizing s t with
  | nil => rfl
  | cons pkt rest ih =>
    obtain ⟨hstamp,s',hs',hothers⟩ := answer_spec hC s pkt
    rw [Transducer.outputs_cons hs',framesOf_append,framesOf_stamped hstamp]
    by_cases hi : i = pkt.streamIndex
    · subst hi
      obtain ⟨hframes,hend⟩ := answer_local hC h
      obtain ⟨t',ht',hsame⟩ := hend s' hs'
      rw [if_pos rfl,List.filter_cons_of_pos (by simp),Transducer.outputs_cons ht',ih hsame,hframes]
    · rw [if_neg hi,List.nil_append,List.filter_cons_of_neg (by simpa using Ne.symm hi)]
      exact ih ((hothers i hi).trans h)

theorem outputs_unknown (hC : C.Bounded) {s : State C} {pkts : List AVPacket}
    (h : ∀ pkt ∈ pkts, s.contexts.lookup pkt.streamIndex = none) :
    (stage C).outputs (stageBounded hC).fuel s pkts = [] := by
  induction pkts with
  | nil => rfl
  | cons pkt rest ih =>
    have hskip : (stage C).answer (stageBounded hC).fuel s pkt = ([],some s) :=
      Transducer.answer_skip (feed_unknown (h pkt (by simp)))
    have hsome : ((stage C).answer (stageBounded hC).fuel s pkt).2 = some s := by rw [hskip]
    rw [Transducer.outputs_cons hsome,hskip,ih fun p hp => h p (by simp [hp])]
    rfl

def SameKeys (before : Contexts C.State) (s : State C) : Prop :=
  ∀ i, i ∈ s.contexts ↔ i ∈ before

theorem sameKeys_insert {contexts : Contexts C.State} {j : Int} (hj : j ∈ contexts)
    (ctx : C.State) (k : Int) : SameKeys contexts ⟨contexts.insert j ctx,k⟩ := by
  intro i
  rw [AList.mem_insert]
  exact or_iff_right_of_imp fun hi => hi ▸ hj

theorem feed_sameKeys (s : State C) (pkt : AVPacket) :
    ((stage C).feed s pkt).Holds (SameKeys s.contexts) := by
  cases hctx : s.contexts.lookup pkt.streamIndex with
  | none => rw [feed_unknown hctx]; exact fun _ => Iff.rfl
  | some ctx =>
    have hmem : pkt.streamIndex ∈ s.contexts := AList.lookup_isSome.mp (by rw [hctx]; rfl)
    rcases hsend : C.send ctx (some pkt) with ⟨r,ctx'⟩
    by_cases hr : r = .ok
    · subst hr
      rw [feed_sent hctx hsend]
      exact sameKeys_insert hmem ctx' _
    · rw [feed_refused hctx hr hsend]
      exact sameKeys_insert hmem ctx' _

theorem drain_sameKeys (s : State C) (alloc : Bool) :
    ((stage C).drain s alloc).Holds (SameKeys s.contexts)
      fun frame => ∃ i, frame.metadata = some ⟨i⟩ ∧ i ∈ s.contexts := by
  refine drain_holds (fun ctx ctx' hctx => ?_) alloc
  have hmem : s.idx ∈ s.contexts := AList.lookup_isSome.mp (by rw [hctx]; rfl)
  exact ⟨sameKeys_insert hmem ctx' _,fun frame hframe => ⟨s.idx,hframe,hmem⟩⟩

/-- The frames that run pushes for what the source forwards of `pkts`, after initialize. -/
def decode (hC : C.Bounded) (calls : Calls C.State) (streams : List AVStream)
    (pkts : List AVPacket) : List AVFrame :=
  (stage C).outputs (stageBounded hC).fuel
    ⟨(initializeContexts calls (MediaSource.getVideoStreams streams)).2,0⟩
    (MediaSource.forward streams pkts)

theorem framesOf_decode (hC : C.Bounded) (calls : Calls C.State) (streams : List AVStream)
    (pkts : List AVPacket) (i : Int) : framesOf i (decode hC calls streams pkts) =
      decode hC calls streams (pkts.filter fun pkt => pkt.streamIndex = i) := by
  unfold decode
  rw [framesOf_outputs hC i _ rfl,MediaSource.forward,MediaSource.forward,List.filter_filter,
    List.filter_filter]
  congr 2
  funext pkt
  exact Bool.and_comm _ _

theorem decode_unopened (hC : C.Bounded) {calls : Calls C.State} {streams : List AVStream}
    (pkts : List AVPacket) {i : Int} (h : ¬ Opened calls streams i) :
    decode hC calls streams (pkts.filter fun pkt => pkt.streamIndex = i) = [] := by
  rw [← mem_initializeContexts,← AList.lookup_isSome,Option.not_isSome_iff_eq_none] at h
  apply outputs_unknown
  intro pkt hpkt
  have hidx : pkt.streamIndex = i := by
    simpa using (List.mem_filter.mp (List.mem_of_mem_filter hpkt)).2
  rw [hidx]
  exact h

/-- The source forwards nothing of a stream that is not video. -/
theorem decode_not_video (hC : C.Bounded) (calls : Calls C.State) {streams : List AVStream}
    (pkts : List AVPacket) {i : Int} (h : ∀ stream, MediaSource.streamAt streams i = some stream →
      stream.codecType ≠ .video) :
    decode hC calls streams (pkts.filter fun pkt => pkt.streamIndex = i) = [] := by
  have hnone : MediaSource.forward streams (pkts.filter fun pkt => pkt.streamIndex = i) = [] := by
    rw [MediaSource.forward,List.filter_eq_nil_iff]
    intro pkt hpkt
    have hidx : pkt.streamIndex = i := by simpa using (List.mem_filter.mp hpkt).2
    unfold MediaSource.isVideo
    rw [hidx]
    cases hstream : MediaSource.streamAt streams i with
    | none => simp
    | some stream => simpa using h stream hstream
  unfold decode
  rw [hnone]
  rfl

theorem visited_sameKeys {s₀ s : State C} (h : (stage C).Visited s₀ s) :
    SameKeys s₀.contexts s := by
  refine h.invariant (P := SameKeys s₀.contexts) (fun t pkt ht => ?_) (fun t alloc ht => ?_)
    (fun _ => Iff.rfl)
  · exact (feed_sameKeys t pkt).mono fun _ hsame i => (hsame i).trans (ht i)
  · exact (drain_sameKeys t alloc).mono (fun _ hsame i => (hsame i).trans (ht i))
      fun _ _ => trivial

/-- Each stream is decoded as if it were alone: streams that are not video or were not opened
give no frames, the frames of any other are those for its packets only, each frame carries
the index of its packet, and the contexts stay those of the opened streams. -/
theorem decoding_isolated (hC : C.Bounded) (calls : Calls C.State) (streams : List AVStream)
    (pkts : List AVPacket) :
    (∀ i, (¬ Opened calls streams i ∨
        ∀ stream, MediaSource.streamAt streams i = some stream → stream.codecType ≠ .video) →
      framesOf i (decode hC calls streams pkts) = []) ∧
    (∀ i, framesOf i (decode hC calls streams pkts) =
      decode hC calls streams (pkts.filter fun pkt => pkt.streamIndex = i)) ∧
    (∀ (s : State C) (pkt : AVPacket),
      ∀ frame ∈ ((stage C).answer (stageBounded hC).fuel s pkt).1,
        frame.metadata = some ⟨pkt.streamIndex⟩) ∧
    ∀ s : State C, (stage C).Visited
        ⟨(initializeContexts calls (MediaSource.getVideoStreams streams)).2,0⟩ s →
      ∀ i, i ∈ s.contexts ↔ Opened calls streams i := by
  refine ⟨fun i hi => ?_,framesOf_decode hC calls streams pkts,
    fun s pkt => (answer_spec hC s pkt).1,fun s hs i => ?_⟩
  · rw [framesOf_decode]
    rcases hi with hclosed | hother
    · exact decode_unopened hC pkts hclosed
    · exact decode_not_video hC calls pkts hother
  · rw [← mem_initializeContexts]
    exact visited_sameKeys hs i

/-- Two video streams, of which the second has no decoder that could be opened. -/
def twoStreams : List AVStream := [⟨0,.video,.hevc,⟨1,60⟩⟩,⟨1,.video,.hevc,⟨1,60⟩⟩]

def firstOpens : Calls (List AVFrame) where
  findDecoderByName _ := true
  findDecoder _ := true
  allocContext3 _ := true
  parametersToContext _ := true
  open2 stream := if stream.index = 1 then none else some []

/-- The frames for packets of both, of a decoder that gives one frame for each packet. -/
def twoStreamFrames : List AVFrame :=
  decode (Component.relayBounded fun pkt => ⟨pkt.pts,pkt.data,none⟩) firstOpens twoStreams
    [⟨1,10,10,1,[]⟩,⟨0,20,20,1,[]⟩,⟨1,30,30,1,[]⟩,⟨0,40,40,1,[]⟩]

theorem decoding_isolated_sample : framesOf 1 twoStreamFrames = [] ∧
    framesOf 0 twoStreamFrames = [⟨20,[],some ⟨0⟩⟩,⟨40,[],some ⟨0⟩⟩] := by
  obtain ⟨hclosed,halone,-,-⟩ := decoding_isolated
    (Component.relayBounded fun pkt : AVPacket => (⟨pkt.pts,pkt.data,none⟩ : AVFrame)) firstOpens
    twoStreams [⟨1,10,10,1,[]⟩,⟨0,20,20,1,[]⟩,⟨1,30,30,1,[]⟩,⟨0,40,40,1,[]⟩]
  refine ⟨hclosed 1 (.inl fun ho => ?_),(halone 0).trans rfl⟩
  obtain ⟨stream,-,hindex,hopen⟩ := ho
  have hclosed : (openStream firstOpens stream).isSome = false := by
    simp [openStream,firstOpens,hindex]
  cases hclosed.symm.trans hopen

end HyperStream.VideoDecoder
