import HyperStream.Startup
set_option autoImplicit false

namespace HyperStream.Controller
variable {σ : Type}

/-- The calls that are due for the parameters and the streams of the opened input. -/
def dueCalls (param : ControllerParam) (streams : List AVStream) : List InitCall :=
  let decoderParam :=
    { param.decoderParam with videoStreams := MediaSource.getVideoStreams streams }
  [.processor param.processorParam,.encoder param.encoderParam,.sink param.sinkParam,
    .source param.sourceParam,.decoder decoderParam]

/-- The calls of init_hw_device succeed. -/
structure DeviceMade (lib : Library σ) : Prop where
  device : lib.hwdeviceCtxCreate .cuda = true
  frames : lib.hwframeCtxAlloc = true
  init : lib.hwframeCtxInit ⟨.cuda,.nv12,3840,2160,50⟩ = true

theorem callInit_result {τ : Type} {call : InitCall} {answer : Option (Bool × τ)} {stage : τ}
    (h : (callInit call answer).result = some stage) :
    ∃ ok, answer = some (ok,stage) ∧ .initialized call ok ∈ (callInit call answer).events := by
  obtain ⟨⟨ok,made⟩,hanswer,h⟩ := Traced.result_bind.mp h
  obtain ⟨_,-,h⟩ := Traced.result_bind.mp h
  cases h
  refine ⟨ok,hanswer,Traced.mem_bind_right hanswer ?_⟩
  exact Traced.mem_bind_left (List.mem_singleton_self _)

theorem Instance.initHwDevice_frame (lib : Library σ) (c : Instance σ) :
    ∃ device frames,
      (c.initHwDevice lib).2 = { c with hwDeviceCtx := device, hwFramesCtx := frames } := by
  unfold initHwDevice
  split
  · exact ⟨_,_,rfl⟩
  · dsimp only
    split <;> exact ⟨_,_,rfl⟩

theorem Instance.initHwDevice_fst (lib : Library σ) (c : Instance σ) :
    (c.initHwDevice lib).1 = true ↔ DeviceMade lib := by
  unfold initHwDevice
  constructor
  · intro h
    split at h
    · cases h
    · rename_i hdevice
      dsimp only at h
      split at h
      · cases h
      · rename_i hframes
        simp only [Bool.not_eq_true',Bool.not_eq_false] at hdevice hframes
        exact ⟨hdevice,hframes,h⟩
  · intro h
    simp [h.device,h.frames,h.init]

/-- Without the device there are no stages, else they are initialized with zero parameters. -/
theorem getInstance_cases (lib : Library σ) :
    (¬ DeviceMade lib ∧ ∃ c, getInstance lib = pure c ∧ c.source = none) ∨
    DeviceMade lib ∧ ∃ c : Instance σ, getInstance lib = c.initializeStages lib ∧
      c.param = (Instance.zero : Instance σ).param := by
  unfold getInstance Instance.initializeController
  rw [← (Instance.zero : Instance σ).initHwDevice_fst lib]
  obtain ⟨device,frames,hframe⟩ := (Instance.zero : Instance σ).initHwDevice_frame lib
  rcases hdevice : (Instance.zero : Instance σ).initHwDevice lib with ⟨ok,c⟩
  rw [hdevice] at hframe
  subst hframe
  cases ok with
  | false => exact .inl ⟨nofun,_,rfl,rfl⟩
  | true => exact .inr ⟨rfl,_,rfl,rfl⟩

theorem callInit_all {P : Event → Prop} {τ : Type} {call : InitCall}
    {answer : Option (Bool × τ)} (h : ∀ ok, P (.initialized call ok)) :
    (callInit call answer).All P :=
  .bind (.ofOption _) fun ⟨ok,_⟩ _ => .bind (.emit (h ok)) fun _ _ => .pure _

theorem getVideoStreams_all {P : Event → Prop} {source : MediaSource.Object}
    (h : ∀ b, P (.getVideoStreams b)) : (getVideoStreams source).All P :=
  .bind (.emit (h _)) fun _ _ => .bind (.ofOption _) fun _ _ => .pure _

theorem startThread_all {P : Event → Prop} {thread : ThreadId} {r : Option Bool}
    (h : P (.started thread r)) : (startThread thread r).All P := by
  refine .bind (.emit h) fun _ _ => ?_
  split
  · exact .undefined
  · exact .pure _

theorem getVideoStreams_result {source : MediaSource.Object} {videoStreams : List AVStream}
    (h : (getVideoStreams source).result = some videoStreams) :
    ∃ streams, source.inputCtx = some streams ∧
      videoStreams = MediaSource.getVideoStreams streams := by
  obtain ⟨_,-,h⟩ := Traced.result_bind.mp h
  obtain ⟨streams,hstreams,h⟩ := Traced.result_bind.mp h
  cases h
  exact ⟨streams,hstreams,rfl⟩

/-- What comes before run: the due calls and the question for the streams. -/
def Event.BeforeRun (param : ControllerParam) (streams : List AVStream) : Event → Prop
  | .initialized call _ => call ∈ dueCalls param streams
  | .getVideoStreams _ => True
  | .started _ _ => False

theorem Instance.initializeStages_all (lib : Library σ) (c : Instance σ) :
    (c.initializeStages lib).All (Event.BeforeRun c.param lib.source.streams) := by
  unfold initializeStages
  refine .bind (callInit_all fun _ => by simp [Event.BeforeRun,dueCalls]) fun _ _ => ?_
  refine .bind (callInit_all fun _ => by simp [Event.BeforeRun,dueCalls]) fun _ _ => ?_
  refine .bind (callInit_all fun _ => by simp [Event.BeforeRun,dueCalls]) fun _ _ => ?_
  refine .bind (callInit_all fun _ => by simp [Event.BeforeRun,dueCalls]) fun source hsource => ?_
  refine .bind (getVideoStreams_all fun _ => trivial) fun videoStreams hvideo => ?_
  -- the decoder gets the video streams of the input that the source has opened
  obtain ⟨_,hanswer,-⟩ := callInit_result hsource
  obtain ⟨streams,hinput,rfl⟩ := getVideoStreams_result hvideo
  obtain rfl : streams = lib.source.streams :=
    MediaSource.initializeSource_inputCtx (Option.some.inj hanswer) hinput
  exact .bind (callInit_all fun _ => by simp [Event.BeforeRun,dueCalls]) fun _ _ => .pure _

theorem getInstance_all (lib : Library σ) : (getInstance lib).All
    (Event.BeforeRun (Instance.zero : Instance σ).param lib.source.streams) := by
  obtain ⟨-,c,heq,-⟩ | ⟨-,c,heq,hparam⟩ := getInstance_cases lib
  · rw [heq]
    exact .pure c
  · rw [heq,← hparam]
    exact c.initializeStages_all lib

theorem Instance.run_all {P : Event → Prop} (h : ∀ thread r, P (.started thread r))
    (c : Instance σ) : c.run.All P :=
  .bind (startThread_all (h _ _)) fun _ _ => .bind (startThread_all (h _ _)) fun _ _ =>
    .bind (startThread_all (h _ _)) fun _ _ => .bind (startThread_all (h _ _)) fun _ _ =>
    startThread_all (h _ _)

/-- What main builds reaches no stage: each gets the zeros of the Controller, and the decoder
the streams of the input. -/
theorem called_with_own_param (lib : Library σ) (encCtx : Option AVCodecContext)
    (call : InitCall) (ok : Bool) (h : .initialized call ok ∈ (main lib encCtx).events) :
    call ∈ dueCalls (Instance.zero : Instance σ).param lib.source.streams := by
  rcases Traced.mem_bind.mp h with h | ⟨c,-,h⟩
  · exact getInstance_all lib _ h
  · have hstarts : c.run.All fun event => event ≠ .initialized call ok :=
      c.run_all fun _ _ => by simp
    rcases Traced.mem_bind.mp h with h | ⟨_,-,h⟩
    · exact absurd rfl (hstarts _ h)
    · cases h

end HyperStream.Controller
