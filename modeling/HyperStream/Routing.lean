import Mathlib.Data.List.NodupEquivFin
import HyperStream.Isolation
import HyperStream.Controller
set_option autoImplicit false

open Transition

namespace HyperStream

/-- libavformat numbers the streams of a container by their places. -/
def MediaSource.Indexed (streams : List AVStream) : Prop :=
  ∀ (j : Nat) stream, streams[j]? = some stream → stream.index = j

theorem MediaSource.getVideoStreams_getElem? {streams : List AVStream} {k : Nat}
    {stream : AVStream} (h : (getVideoStreams streams)[k]? = some stream) :
    stream.codecType = .video ∧ ∃ j, k ≤ j ∧ streams[j]? = some stream := by
  constructor
  · have hmem := List.mem_of_getElem? h
    simpa [getVideoStreams] using (List.mem_filter.mp hmem).2
  · obtain ⟨f,hf⟩ := List.sublist_iff_exists_orderEmbedding_getElem?_eq.mp
      (List.filter_sublist : (getVideoStreams streams).Sublist streams)
    exact ⟨f k,f.strictMono.le_apply,(hf k).symm.trans h⟩

namespace MultiviewCompositor

theorem mem_initializeBufferCtxs (param : Param) (created : Nat → Bool) (i : Int) :
    i ∈ initializeBufferCtxs param created ↔ 0 ≤ i ∧ i < 4 := by
  simp only [initializeBufferCtxs,List.range,List.range.loop,List.foldl,createFilterGraph,
    AList.mem_insert,AList.notMem_empty,or_false]
  omega

theorem lookup_initializeBufferCtxs (param : Param) (created : Nat → Bool) {k : Nat} (hk : k < 4) :
    (initializeBufferCtxs param created).lookup (k : Int) = some (bufferSrc param created k) := by
  have hcases : k = 0 ∨ k = 1 ∨ k = 2 ∨ k = 3 := by omega
  rcases hcases with rfl | rfl | rfl | rfl <;> rfl

theorem input_of_bufferSrc {param : Param} {created : Nat → Bool} {k : Nat} {src : BufferSrc}
    (h : bufferSrc param created k = some src) : src.input = k := by
  unfold bufferSrc at h
  split at h
  · cases h; rfl
  · cases h

theorem bufferCtx_initializeBufferCtxs (param : Param) (created : Nat → Bool) {k : Nat}
    (hk : k < 4) :
    (bufferCtx (initializeBufferCtxs param created) (k : Int)).1 = bufferSrc param created k := by
  rw [bufferCtx,lookup_initializeBufferCtxs param created hk]

end MultiviewCompositor

/-- The item that is popped and not fed yet. -/
def PC.unfed {α β : Type} : PC α β → List α
  | .feed a => [a]
  | _ => []

namespace Controller
variable {su : Setup}

/-- The setup that the initialize methods of the decoder and the compositor leave. -/
structure Initialized (su : Setup) (calls : VideoDecoder.Calls su.decoder.State)
    (param : MultiviewCompositor.Param) (created : Nat → Bool) : Prop where
  contexts : su.contexts =
    (VideoDecoder.initializeContexts calls (MediaSource.getVideoStreams su.streams)).2
  bufferCtxs : su.bufferCtxs = MultiviewCompositor.initializeBufferCtxs param created

/-- What av_buffersrc_add_frame was given, frame by frame with the number of the input: the
popped frames, but the one that is not fed yet, each at the buffer source of its index. -/
structure Added (frames : List (Nat × AVFrame)) (s : Controller su) : Prop where
  fed : su.graph.Fed su.graphState frames s.processor.state.graph
  popped : s.processor.received = frames.map Prod.snd ++ s.processor.pc.unfed
  source : ∀ p ∈ frames, ∃ i src, p.2.metadata = some ⟨i⟩ ∧
    (MultiviewCompositor.bufferCtx su.bufferCtxs i).1 = some src ∧ src.input = p.1

/-- The map of buffer sources is that of initialize, each frame that the compositor popped has
its stream index as a key there, and frames of the k-th video stream are added to `vk` and to
no other input: of all that the graph was sent, they stand beside `k`. -/
structure Routed (param : MultiviewCompositor.Param) (created : Nat → Bool)
    (s : Controller su) : Prop where
  unchanged : s.processor.state.bufferCtxs = su.bufferCtxs
  key : ∀ frame ∈ s.processor.received, ∃ i, frame.metadata = some ⟨i⟩ ∧ i ∈ su.bufferCtxs
  input : ∀ frame ∈ s.processor.received, ∀ i, frame.metadata = some ⟨i⟩ → ∀ k stream, k < 4 →
    (MediaSource.getVideoStreams su.streams)[k]? = some stream → stream.index = i →
    (MultiviewCompositor.bufferCtx s.processor.state.bufferCtxs i).1 =
      MultiviewCompositor.bufferSrc param created k
  added : ∃ frames, Added frames s ∧ ∀ p ∈ frames, ∀ i, p.2.metadata = some ⟨i⟩ →
    ∀ k stream, k < 4 → (MediaSource.getVideoStreams su.streams)[k]? = some stream →
    stream.index = i → p.1 = k

/-- Routing is right for every input from these streams, when the decoders of those that
`opens` says are opened. -/
def RoutesViews (streams : List AVStream) (opens : AVStream → Bool) : Prop :=
  ∀ (su : Setup) (calls : VideoDecoder.Calls su.decoder.State)
    (param : MultiviewCompositor.Param) (created : Nat → Bool), su.streams = streams →
    (∀ stream, (VideoDecoder.openStream calls stream).isSome = opens stream) →
    Initialized su calls param created →
    ∀ s : Controller su, Reachable (program su .undefined) anyStep s → Routed param created s

/-- The stamps of the frames are keys of the decoder's contexts, which initialize has put
there, and the compositor's map of buffer sources does not change. -/
structure Stamped (s : Controller su) : Prop where
  linked : Linked s
  decoder : s.decoder.Holds (fun t => ∀ i, i ∈ t.contexts → i ∈ su.contexts)
    fun frame => ∃ i, frame.metadata = some ⟨i⟩ ∧ i ∈ su.contexts
  processor : s.processor.Holds (fun t => t.bufferCtxs = su.bufferCtxs) fun _ => True

theorem decoder_ensures (su : Setup) : Worker.Ensures su.decoderStage
    (fun t => ∀ i, i ∈ t.contexts → i ∈ su.contexts)
    fun frame => ∃ i, frame.metadata = some ⟨i⟩ ∧ i ∈ su.contexts where
  feed t pkt ht := (VideoDecoder.feed_sameKeys t pkt).mono fun _ hsame i hi =>
    ht i ((hsame i).mp hi)
  drain t alloc ht := (VideoDecoder.drain_sameKeys t alloc).mono
    (fun _ hsame i hi => ht i ((hsame i).mp hi)) fun _ ⟨i,hframe,hi⟩ => ⟨i,hframe,ht i hi⟩
  cleanup t t' _ hc := by
    cases hc
    intro i hi
    exact absurd hi (AList.notMem_empty i)

theorem processor_ensures (su : Setup) : Worker.Ensures su.processorStage
    (fun t => t.bufferCtxs = su.bufferCtxs) fun _ => True where
  feed t frame ht := (MultiviewCompositor.feed_bufferCtxs t frame).mono fun _ h => h.trans ht
  drain t alloc ht := (MultiviewCompositor.drain_bufferCtxs t alloc).mono
    (fun _ h => h.trans ht) fun _ h => h
  cleanup t t' ht hc := by
    cases hc
    exact ht

theorem Stamped.step {e : EmptyPop} {s s' : Controller su} {a : Label} (h : Stamped s)
    (hs : Stepped e s a s') : Stamped s' := by
  have hl := h.linked.step hs
  obtain ⟨-,hdecoder,hprocessor⟩ := h
  cases hs with
  | decoder hw => exact ⟨hl,hw.holds (decoder_ensures su) hdecoder,hprocessor⟩
  | processor hw => exact ⟨hl,hdecoder,hw.holds (processor_ensures su) hprocessor⟩
  | stopper hstop =>
    cases stop_cases hstop
    all_goals
      exact ⟨hl,⟨hdecoder.state,hdecoder.sent,hdecoder.inHand⟩,
        ⟨hprocessor.state,hprocessor.sent,hprocessor.inHand⟩⟩
  | _ => exact ⟨hl,hdecoder,hprocessor⟩

theorem reachable_stamped {e : EmptyPop} {ok : Controller su → Label → Prop} {s : Controller su}
    (h : Reachable (program su e) ok s) : Stamped s := by
  refine h.invariant ⟨.start su,⟨fun _ hi => hi,?_,?_⟩,⟨rfl,?_,?_⟩⟩ fun hi _ hs =>
    hi.step (step_cases hs)
  all_goals simp [program,start,Worker.start]

theorem Stamped.received {s : Controller su} (h : Stamped s) {frame : AVFrame}
    (hf : frame ∈ s.processor.received) : ∃ i, frame.metadata = some ⟨i⟩ ∧ i ∈ su.contexts :=
  h.decoder.sent frame (h.linked.decode.received_prefix.subset hf)

theorem Added.fedStep {e : EmptyPop} {frames : List (Nat × AVFrame)} {s : Controller su}
    (h : Added frames s) (hctxs : s.processor.state.bufferCtxs = su.bufferCtxs) {alloc : Bool}
    {w : Worker su.processorStage.State AVFrame AVFrame} {src dst : Channel Side AVFrame}
    (hw : Worker.Stepped su.processorStage e alloc s.processor s.decode s.filter w src dst) :
    ∃ frames', Added frames' { s with processor := w, decode := src, filter := dst } := by
  obtain ⟨hfed,hpopped,hsource⟩ := h
  cases hw with
  | receive hpc =>
    simp only [hpc,PC.unfed,List.append_nil] at hpopped
    exact ⟨frames,hfed,by simp [PC.unfed,hpopped],hsource⟩
  | skip _ hf => obtain hf | ⟨i,src,-,-,hf⟩ := MultiviewCompositor.feed_cases hf <;> cases hf
  | @accept frame st hpc hf =>
    obtain hf | ⟨i,src,hmeta,hctx,hf⟩ := MultiviewCompositor.feed_cases hf
    · cases hf
    · cases hf
      refine ⟨frames ++ [(src.input,frame)],hfed.send _,?_,fun p hp => ?_⟩
      · rw [hpc,PC.unfed] at hpopped
        simp [PC.unfed,hpopped]
      · rcases List.mem_append.mp hp with hold | hnew
        · exact hsource p hold
        · rw [List.mem_singleton.mp hnew]
          exact ⟨i,src,hmeta,hctxs ▸ hctx,rfl⟩
  | again _ hd =>
    obtain hd | ⟨r,graph,-,⟨_,-,hd⟩ | ⟨-,hd⟩⟩ := MultiviewCompositor.drain_cases hd <;> cases hd
  | leave hpc hd | output hpc hd =>
    have hreceived := hfed.receive
    obtain hd | ⟨r,graph,hr,⟨_,-,hd⟩ | ⟨-,hd⟩⟩ := MultiviewCompositor.drain_cases hd <;> cases hd
    rw [hr] at hreceived
    exact ⟨frames,hreceived,by simpa [hpc,PC.unfed] using hpopped,hsource⟩
  | clean hpc hc =>
    cases hc
    exact ⟨frames,hfed,by simpa [hpc,PC.unfed] using hpopped,hsource⟩
  | await => exact ⟨frames,hfed,hpopped,hsource⟩
  | hold => exact ⟨frames,hfed,hpopped,hsource⟩
  | fail hpc | enter hpc | go hpc | quit hpc | ended hpc | send hpc | stop hpc =>
    exact ⟨frames,hfed,by simpa [hpc,PC.unfed] using hpopped,hsource⟩

theorem reachable_added {e : EmptyPop} {ok : Controller su → Label → Prop} {s : Controller su}
    (h : Reachable (program su e) ok s) : ∃ frames, Added frames s := by
  refine h.induction (P := fun s => ∃ frames, Added frames s) .start
    ⟨[],.start,rfl,nofun⟩ fun {u v a} hu hadded _ hs => ?_
  obtain ⟨frames,hadded⟩ := hadded
  cases step_cases hs with
  | processor hw => exact hadded.fedStep (reachable_stamped hu).processor.state hw
  | stopper hstop =>
    cases stop_cases hstop <;> exact ⟨frames,hadded.fed,hadded.popped,hadded.source⟩
  | _ => exact ⟨frames,hadded.fed,hadded.popped,hadded.source⟩

theorem Stamped.routed {calls : VideoDecoder.Calls su.decoder.State}
    {param : MultiviewCompositor.Param} {created : Nat → Bool} {s : Controller su} (h : Stamped s)
    (hadded : ∃ frames, Added frames s) (hidx : MediaSource.Indexed su.streams) (hinit : Initialized su calls param created)
    (hfirst : ∀ (k : Nat) stream, (MediaSource.getVideoStreams su.streams)[k]? = some stream →
      (VideoDecoder.openStream calls stream).isSome → k < 4 ∧ stream.index = k) :
    Routed param created s := by
  have hopened : ∀ frame ∈ s.processor.received, ∃ i stream, ∃ k : Nat, frame.metadata = some ⟨i⟩ ∧
      stream.index = i ∧ (VideoDecoder.openStream calls stream).isSome ∧
      (MediaSource.getVideoStreams su.streams)[k]? = some stream := by
    intro frame hf
    obtain ⟨i,hmeta,hi⟩ := h.received hf
    rw [hinit.contexts,VideoDecoder.mem_initializeContexts] at hi
    obtain ⟨stream,hmem,hindex,hopen⟩ := hi
    obtain ⟨k,hk⟩ := List.mem_iff_getElem?.mp hmem
    exact ⟨i,stream,k,hmeta,hindex,hopen,hk⟩
  have hinput : ∀ frame ∈ s.processor.received, ∀ i, frame.metadata = some ⟨i⟩ → ∀ k stream,
      k < 4 → (MediaSource.getVideoStreams su.streams)[k]? = some stream → stream.index = i →
      (MultiviewCompositor.bufferCtx su.bufferCtxs i).1 =
        MultiviewCompositor.bufferSrc param created k := by
    intro frame hf i hmeta k' stream' hk' hstream' hi'
    obtain ⟨i₀,stream,k,hmeta₀,hindex,hopen,hk⟩ := hopened frame hf
    rw [hmeta] at hmeta₀
    cases hmeta₀
    -- one index is one place of the container, so the two streams are the same
    obtain ⟨-,j,-,hj⟩ := MediaSource.getVideoStreams_getElem? hk
    obtain ⟨-,j',-,hj'⟩ := MediaSource.getVideoStreams_getElem? hstream'
    have hplace := hidx j stream hj
    have hplace' := hidx j' stream' hj'
    have hsame : j = j' := by omega
    rw [hsame,hj'] at hj
    rw [Option.some.inj hj] at hstream'
    have heq := (hfirst k' stream hstream' hopen).2
    rw [hinit.bufferCtxs,← hindex,heq,
      MultiviewCompositor.bufferCtx_initializeBufferCtxs param created hk']
  obtain ⟨frames,hadded⟩ := hadded
  refine ⟨h.processor.state,fun frame hf => ?_,by rw [h.processor.state]; exact hinput,
    frames,hadded,fun p hp i hmeta k stream hk hstream hi => ?_⟩
  · obtain ⟨i,stream,k,hmeta,hindex,hopen,hk⟩ := hopened frame hf
    obtain ⟨hlt,heq⟩ := hfirst k stream hk hopen
    refine ⟨i,hmeta,?_⟩
    rw [hinit.bufferCtxs,MultiviewCompositor.mem_initializeBufferCtxs]
    omega
  · obtain ⟨i₀,src,hmeta₀,hsrc,hsame⟩ := hadded.source p hp
    rw [hmeta] at hmeta₀
    cases hmeta₀
    have hreceived : p.2 ∈ s.processor.received := by
      rw [hadded.popped]
      exact List.mem_append_left _ (List.mem_map_of_mem hp)
    rw [hinput p.2 hreceived i hmeta k stream hk hstream hi] at hsrc
    exact hsame.symm.trans (MultiviewCompositor.input_of_bufferSrc hsrc)

/-! The other direction: one packet of a stream that is out of place goes the wrong way. -/

def strayCalls (opens : AVStream → Bool) : VideoDecoder.Calls (List AVFrame) where
  findDecoderByName _ := true
  findDecoder _ := true
  allocContext3 _ := true
  parametersToContext _ := true
  open2 stream := if opens stream then some [] else none

/-- One packet of stream `j` comes in; the components give one output for each input. -/
def straySetup (streams : List AVStream) (opens : AVStream → Bool) (j : Int) : Setup :=
  { sampleSetup [⟨j,0,0,1,[]⟩] with
    streams := streams
    contexts :=
      (VideoDecoder.initializeContexts (strayCalls opens) (MediaSource.getVideoStreams streams)).2 }

theorem openStream_strayCalls (opens : AVStream → Bool) (stream : AVStream) :
    (VideoDecoder.openStream (strayCalls opens) stream).isSome = opens stream := by
  cases ho : opens stream <;> simp [VideoDecoder.openStream,strayCalls,ho]

/-- The channel holds one item, and nobody has waited in it. -/
def HoldsOne {α : Type} (c : Channel Side α) (x : α) : Prop :=
  c.queue = [x] ∧ c.isStop = false ∧ c.monitor.owner = none ∧ ∀ u, c.monitor.status u = .running

theorem source_passes (su : Setup) (e : EmptyPop) {pkt : AVPacket} {stream : AVStream}
    (hr : su.read 0 = some pkt) (hs : MediaSource.streamAt su.streams pkt.streamIndex = some stream)
    (hv : stream.codecType = .video) :
    ∃ th c, Run (program su e) anyStep (start su) { start su with source := th, ingest := c } ∧
      HoldsOne c pkt := by
  refine ⟨⟨.test,false,1,[pkt]⟩,⟨[pkt],Monitor.new.leave .producer,Channel.packetCapacity,false⟩,
    Run.of_replay (fun _ _ _ => trivial) (?_ : replay _ _ (turns [(.source,3)]) = _),
    rfl,rfl,rfl,by simp [Monitor.new]⟩
  simp [turns,replay,program,step,start,MediaSource.step,MediaSource.start,hr,hs,hv,Channel.push,
    Channel.lock,Channel.new,Monitor.new,Channel.insert,Monitor.notifyOne,Channel.packetCapacity]

theorem decoder_passes (e : EmptyPop) {s : Controller su} {st st₁ st₂ : su.decoderStage.State}
    {pkt : AVPacket} {frame : AVFrame} (hw : s.decoder = .start st) (hsrc : HoldsOne s.ingest pkt)
    (hdst : s.decode = .new Channel.frameCapacity) (hf : su.decoderStage.feed st pkt = .drain st₁)
    (hd : su.decoderStage.drain st₁ true = .push frame st₂) :
    ∃ w src dst, Run (program su e) anyStep s
        { s with decoder := w, ingest := src, decode := dst } ∧ HoldsOne dst frame := by
  obtain ⟨hq,hflag,ho,hm⟩ := hsrc
  refine ⟨⟨.drain,false,st₂,[pkt],[frame]⟩,
    ⟨[],s.ingest.monitor.leave .consumer,s.ingest.capacity,s.ingest.isStop⟩,
    ⟨[frame],Monitor.new.leave .producer,Channel.frameCapacity,false⟩,
    Run.of_replay (fun _ _ _ => trivial) (?_ : replay _ _ (turns [(.decoder,6)]) = _),
    rfl,rfl,rfl,by simp [Monitor.new]⟩
  simp [turns,replay,program,step,Worker.step,Worker.start,hw,hq,hflag,ho,hm,hdst,hf,hd,
    Channel.push,Channel.pop,Channel.wait,Channel.predicate,Channel.remove,Channel.lock,Channel.new,
    Monitor.new,Channel.insert,Monitor.notifyOne,Channel.frameCapacity,sizeT]

theorem processor_receives (e : EmptyPop) {s : Controller su} {st : su.processorStage.State}
    {frame : AVFrame} (hw : s.processor = .start st) (hsrc : HoldsOne s.decode frame) :
    ∃ s', Run (program su e) anyStep s s' ∧ s'.processor = ⟨.feed frame,false,st,[frame],[]⟩ := by
  obtain ⟨hq,hflag,ho,hm⟩ := hsrc
  refine ⟨{ s with
      processor := ⟨.feed frame,false,st,[frame],[]⟩
      decode := ⟨[],s.decode.monitor.leave .consumer,s.decode.capacity,s.decode.isStop⟩ },
    Run.of_replay (fun _ _ _ => trivial) (?_ : replay _ _ (turns [(.processor,3)]) = _),rfl⟩
  simp [turns,replay,program,step,Worker.step,Worker.start,hw,hq,hflag,ho,hm,
    MultiviewCompositor.stage,Channel.pop,Channel.wait,Channel.predicate,Channel.remove,
    Channel.lock,Monitor.notifyOne]

/-- The decoder accepts the packet and gives a frame that carries its index. -/
theorem stray_decoded {streams : List AVStream} {opens : AVStream → Bool} {stream : AVStream}
    (hmem : stream ∈ MediaSource.getVideoStreams streams) (hopen : opens stream = true) :
    ∃ st₁ st₂ frame, (straySetup streams opens stream.index).decoderStage.feed
        ⟨(straySetup streams opens stream.index).contexts,0⟩ ⟨stream.index,0,0,1,[]⟩ = .drain st₁ ∧
      (straySetup streams opens stream.index).decoderStage.drain st₁ true = .push frame st₂ ∧
      frame.metadata = some ⟨stream.index⟩ := by
  have hkey : stream.index ∈ (straySetup streams opens stream.index).contexts :=
    (VideoDecoder.mem_initializeContexts (strayCalls opens) streams _).mpr
      ⟨stream,hmem,rfl,by rw [openStream_strayCalls,hopen]⟩
  obtain ⟨ctx,hctx⟩ : ∃ ctx : List AVFrame,
      (straySetup streams opens stream.index).contexts.lookup stream.index = some ctx :=
    Option.isSome_iff_exists.mp (AList.lookup_isSome.mpr hkey)
  have hfeed : (straySetup streams opens stream.index).decoderStage.feed
      ⟨(straySetup streams opens stream.index).contexts,0⟩ ⟨stream.index,0,0,1,[]⟩ = .drain
        ⟨(straySetup streams opens stream.index).contexts.insert stream.index
          (ctx ++ [(⟨0,[],none⟩ : AVFrame)]),stream.index⟩ := VideoDecoder.feed_sent hctx rfl
  -- whatever the context held before, it now has a frame to give
  obtain ⟨first,rest,hfirst⟩ := List.exists_cons_of_ne_nil
    (List.append_ne_nil_of_right_ne_nil ctx (List.cons_ne_nil (⟨0,[],none⟩ : AVFrame) []))
  rw [hfirst] at hfeed
  have hdrain := VideoDecoder.drain_output (C := (straySetup streams opens stream.index).decoder)
    (s := ⟨(straySetup streams opens stream.index).contexts.insert stream.index (first :: rest),
      stream.index⟩) (AList.lookup_insert _) rfl
  exact ⟨_,_,_,hfeed,hdrain,rfl⟩

theorem stray_received {streams : List AVStream} {opens : AVStream → Bool} {k : Nat}
    {stream : AVStream} (hidx : MediaSource.Indexed streams)
    (hk : (MediaSource.getVideoStreams streams)[k]? = some stream) (hopen : opens stream = true) :
    ∃ s : Controller (straySetup streams opens stream.index),
      Reachable (program _ .undefined) anyStep s ∧
      ∃ frame ∈ s.processor.received, frame.metadata = some ⟨stream.index⟩ := by
  obtain ⟨hvideo,j,-,hj⟩ := MediaSource.getVideoStreams_getElem? hk
  have hindex := hidx j stream hj
  have hplace : MediaSource.streamAt streams stream.index = some stream := by
    rw [MediaSource.streamAt,if_pos (by omega),hindex,Int.toNat_natCast,hj]
  obtain ⟨st₁,st₂,frame,hfeed,hdrain,hmeta⟩ := stray_decoded (List.mem_of_getElem? hk) hopen
  obtain ⟨th,c,h₁,hc⟩ :=
    source_passes (straySetup streams opens stream.index) .undefined rfl hplace hvideo
  obtain ⟨w,src,dst,h₂,hdst⟩ := decoder_passes .undefined
    (s := { start (straySetup streams opens stream.index) with source := th, ingest := c })
    rfl hc rfl hfeed hdrain
  obtain ⟨s,h₃,hs⟩ := processor_receives .undefined
    (s := { start (straySetup streams opens stream.index) with
      source := th, ingest := src, decoder := w, decode := dst }) rfl hdst
  exact ⟨s,(h₁.trans h₂).trans h₃,frame,by rw [hs]; exact List.mem_singleton_self _,hmeta⟩

theorem routes_only_in_place {streams : List AVStream} {opens : AVStream → Bool}
    (hidx : MediaSource.Indexed streams) (h : RoutesViews streams opens) (k : Nat)
    (stream : AVStream) (hk : (MediaSource.getVideoStreams streams)[k]? = some stream)
    (hopen : opens stream = true) : k < 4 ∧ stream.index = k := by
  obtain ⟨s,hs,frame,hframe,hmeta⟩ := stray_received hidx hk hopen
  have hr := h (straySetup streams opens stream.index) (strayCalls opens)
    ⟨⟨60,1⟩,⟨1,60⟩,3840,2160⟩ (fun _ => true) rfl (openStream_strayCalls opens) ⟨rfl,rfl⟩ s hs
  obtain ⟨i,hi,hkey⟩ := hr.key frame hframe
  rw [hmeta] at hi
  cases hi
  obtain ⟨h₀,h₄⟩ := (MultiviewCompositor.mem_initializeBufferCtxs _ _ _).mp hkey
  obtain ⟨-,j,hkj,hj⟩ := MediaSource.getVideoStreams_getElem? hk
  have hindex := hidx j stream hj
  have hlt : k < 4 := by omega
  have hinput := hr.input frame hframe stream.index hmeta k stream hlt hk rfl
  rw [hr.unchanged,hindex] at hinput
  have hsrc := (MultiviewCompositor.bufferCtx_initializeBufferCtxs ⟨⟨60,1⟩,⟨1,60⟩,3840,2160⟩
    (fun _ => true) (show j < 4 by omega)).symm.trans hinput
  have hjk : j = k := congrArg MultiviewCompositor.BufferSrc.input (Option.some.inj hsrc)
  exact ⟨hlt,by omega⟩

/-- Views are routed right exactly when each video stream whose decoder opens is one of the
first four streams of the container and has only video streams before it. -/
theorem routes_views_iff_in_place (streams : List AVStream) (opens : AVStream → Bool)
    (hidx : MediaSource.Indexed streams) :
    RoutesViews streams opens ↔
      ∀ (k : Nat) stream, (MediaSource.getVideoStreams streams)[k]? = some stream →
        opens stream = true → k < 4 ∧ stream.index = k := by
  constructor
  · exact routes_only_in_place hidx
  · intro hfirst su calls param created hstreams hopens hinit s hs
    subst hstreams
    refine (reachable_stamped hs).routed (reachable_added hs) hidx hinit fun k stream hk hopen => ?_
    exact hfirst k stream hk ((hopens stream).symm.trans hopen)

theorem routes_views_iff_in_place_sample :
    RoutesViews [⟨0,.video,.hevc,⟨1,60⟩⟩,⟨1,.audio,.other 1,⟨1,48000⟩⟩] (fun _ => true) :=
  (routes_views_iff_in_place _ _ (by
    intro j stream hj
    match j with
    | 0 => cases hj; rfl
    | 1 => cases hj; rfl)).mpr (by
    intro k stream hk _
    match k with
    | 0 => cases hk; exact ⟨by decide,rfl⟩)

/-- Five video streams, of which the last has no buffer source; and one that comes after the
sound, whose frames go to `v1` instead of `v0`. -/
theorem misrouted_views :
    ¬ RoutesViews ((List.range 5).map fun n : Nat => ⟨n,.video,.hevc,⟨1,60⟩⟩) (fun _ => true) ∧
    ¬ RoutesViews [⟨0,.audio,.other 1,⟨1,48000⟩⟩,⟨1,.video,.hevc,⟨1,60⟩⟩] (fun _ => true) := by
  constructor
  · intro h
    have hidx : MediaSource.Indexed
        ((List.range 5).map fun n : Nat => ⟨n,.video,.hevc,⟨1,60⟩⟩) := by
      intro j stream hj
      simp only [List.getElem?_map,Option.map_eq_some_iff] at hj
      obtain ⟨n,hn,rfl⟩ := hj
      obtain ⟨hlt,hget⟩ := List.getElem?_eq_some_iff.mp hn
      rw [List.getElem_range] at hget
      rw [hget]
    have hfour := (routes_only_in_place hidx h 4 _ rfl rfl).1
    omega
  · intro h
    have hidx : MediaSource.Indexed
        [⟨0,.audio,.other 1,⟨1,48000⟩⟩,⟨1,.video,.hevc,⟨1,60⟩⟩] := by
      intro j stream hj
      match j with
      | 0 => cases hj; rfl
      | 1 => cases hj; rfl
    have hzero := (routes_only_in_place hidx h 0 _ rfl rfl).2
    cases hzero

end Controller
end HyperStream
