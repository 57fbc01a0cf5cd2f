import VoxLattice.Plugin.Runs

/-!
# The cursors of the timeline

What a step of the processor does to its cursors and buffers (`step_moves`), and the invariant
that the raw buffer reaches from the output cursor to the input cursor (`Cursors`).  Every block
keeps it but the last one of `_close`, which empties the buffer and leaves the output cursor
behind.  A call of `_process` that has appended its frame and not read yet may then ask for audio
that is gone (`close_beside_process`); `fallback_available` says when that cannot happen.
-/

namespace VoxLattice.Plugin

open Server (Bytes PyError)

/-- How far the output trails the input. -/
def RemoteFastEnhancerConfig.lag (config : RemoteFastEnhancerConfig) : Nat :=
  algorithmicDelaySamples + config.responseWaitSamples

/-- The frame of a call. -/
def Call.frame : Call → AudioFrame
  | .sending frame _ | .overflowing frame | .resetting frame | .emitting frame => frame

/-- The output that is due and not returned yet. -/
def RemoteFastEnhancer.due (config : RemoteFastEnhancerConfig) (p : RemoteFastEnhancer) : Nat :=
  p.inputCursor - config.lag - p.outputCursor

/-! ## What a step does -/

/-- The cursors, the raw buffer and the counters of samples stay, and so do the segments, unless
they are cleared. -/
structure Steady (p p' : RemoteFastEnhancer) : Prop where
  enabled : p'.enabled = p.enabled
  closed : p'.closed = p.closed
  inputCursor : p'.inputCursor = p.inputCursor
  outputCursor : p'.outputCursor = p.outputCursor
  raw : p'.raw = p.raw
  enhanced : p'.enhanced = p.enhanced ∨ p'.enhanced = p.enhanced.clear
  samplesOut : p'.metrics.samplesOut = p.metrics.samplesOut
  enhancedSamples : p'.metrics.enhancedSamples = p.metrics.enhancedSamples
  rawFallbackSamples : p'.metrics.rawFallbackSamples = p.metrics.rawFallbackSamples

theorem Steady.refl (p : RemoteFastEnhancer) : Steady p p :=
  ⟨rfl, rfl, rfl, rfl, rfl, .inl rfl, rfl, rfl, rfl⟩

/-- What a step can do to the timeline. -/
inductive Moves (config : RemoteFastEnhancerConfig) (e : ProcessorEvent) (s s' : ProcessorState) :
    Prop where
  /-- The call may go on, too. -/
  | steady (h : Steady s.processor s'.processor)
      (call : s'.call.map Call.frame = s.call.map Call.frame) (returned : s'.returned = s.returned)
  | stored (start : Nat) (pcm : Bytes) (enhanced : EnhancedSegments)
      (insert : s.processor.enhanced.insert start pcm = .ok enhanced)
      (low : s.processor.outputCursor ≤ start)
      (high : start + pcm.length / 2 ≤ s.processor.inputCursor)
      (h : Steady { s.processor with enhanced } s'.processor) (call : s'.call = s.call)
      (returned : s'.returned = s.returned)
  /-- A frame passes through the disabled processor. -/
  | passed (frame : AudioFrame) (closed : s.processor.closed = false)
      (enabled : s.processor.enabled = false)
      (take : s.processor.takeFrame frame = (s'.processor, .passthrough)) (idle : s.call = none)
      (call : s'.call = none)
  | appended (frame : AudioFrame) (raw : ContiguousPCM)
      (checked : RemoteFastEnhancer.checkFrame config frame = .ok ())
      (closed : s.processor.closed = false) (enabled : s.processor.enabled = true)
      (append : s.processor.raw.append s.processor.inputCursor frame.data = .ok raw)
      (take : s.processor.takeFrame frame = (s'.processor, .appended s.processor.inputCursor))
      (idle : s.call = none) (call : s'.call.map Call.frame = some frame)
      (returned : s'.returned = s.returned)
  /-- A frame does not fit the raw buffer. -/
  | refused (frame : AudioFrame) (error : PyError)
      (checked : RemoteFastEnhancer.checkFrame config frame = .ok ())
      (closed : s.processor.closed = false) (enabled : s.processor.enabled = true)
      (append : s.processor.raw.append s.processor.inputCursor frame.data = .error error)
  | emitted (frame output : AudioFrame) (calling : s.call = some (.emitting frame))
      (emit : s.processor.emitFrame config frame = (s'.processor, .ok output))
      (call : s'.call = none)
      (returned : s'.returned = s.returned ++
        [⟨false, s.processor.outputCursor, s.processor.remoteGeneration, s.stored, output⟩])
  /-- The last block of `_process` raises. -/
  | stuck (frame : AudioFrame) (error : PyError) (calling : s.call = some (.emitting frame))
      (emit : s.processor.emitFrame config frame = (s'.processor, .error error))
  /-- `force_reset` raises. -/
  | raised (event : e = .resetRaised) (processor : s'.processor = s.processor)
      (call : s'.call = none) (returned : s'.returned = s.returned)
  | toggled (value : Bool) (event : e = .setEnabled value)
      (flips : (s.processor.setEnabled value).2 = true)
      (processor : s'.processor = (s.processor.setEnabled value).1) (call : s'.call = s.call)
      (returned : s'.returned = s.returned)
  | closing (event : e = .beginClose) (processor : s'.processor = s.processor.beginClose.1)
      (call : s'.call = s.call) (returned : s'.returned = s.returned)
  | cleared (event : e = .endClose) (closed : s.processor.closed = true)
      (processor : s'.processor = s.processor.endClose) (call : s'.call = s.call)
      (returned : s'.returned = s.returned)

section Moves

variable {config : RemoteFastEnhancerConfig} {s s' : ProcessorState} {e : ProcessorEvent}
  {p : RemoteFastEnhancer}

theorem moves_self : Moves config e s s := .steady (.refl _) rfl rfl

theorem receiveAudio_moves (generation start : Nat) (pcm : Bytes) :
    Moves config e s (s.receiveAudio generation start pcm) := by
  unfold ProcessorState.receiveAudio
  cases hreceive : s.processor.receiveAudio generation start pcm with
  | mk processor received =>
      unfold RemoteFastEnhancer.receiveAudio at hreceive
      dsimp only at hreceive
      split at hreceive
      · cases hreceive
        exact .steady ⟨rfl, rfl, rfl, rfl, rfl, .inl rfl, rfl, rfl, rfl⟩ rfl rfl
      · split at hreceive
        · cases hreceive
          exact .steady ⟨rfl, rfl, rfl, rfl, rfl, .inl rfl, rfl, rfl, rfl⟩ rfl rfl
        · split at hreceive
          · cases hreceive
            exact .steady ⟨rfl, rfl, rfl, rfl, rfl, .inl rfl, rfl, rfl, rfl⟩ rfl rfl
          · next hwithin =>
              split at hreceive
              · next enhanced hinsert =>
                  cases hreceive
                  exact .stored _ _ enhanced hinsert (Nat.le_max_right _ _)
                    (Nat.le_of_not_lt hwithin)
                    ⟨rfl, rfl, rfl, rfl, rfl, .inl rfl, rfl, rfl, rfl⟩ rfl rfl
              · cases hreceive
                exact .steady ⟨rfl, rfl, rfl, rfl, rfl, .inr rfl, rfl, rfl, rfl⟩ rfl rfl

theorem process_moves (frame : AudioFrame) (hidle : s.call = none) :
    Moves config e s (s.process config frame) := by
  unfold ProcessorState.process
  cases hcheck : RemoteFastEnhancer.checkFrame config frame with
  | error _ => exact moves_self
  | ok _ =>
      dsimp only
      cases hclosed : s.processor.closed with
      | true =>
          have htake : s.processor.takeFrame frame =
              (s.processor, .raised (.runtime "RemoteFastEnhancer is closed")) := by
            rw [RemoteFastEnhancer.takeFrame, if_pos hclosed]
          rw [htake]
          exact .steady (.refl _) rfl rfl
      | false =>
          cases henabled : s.processor.enabled with
          | false =>
              have htake : (s.processor.takeFrame frame).2 = .passthrough := by
                simp only [RemoteFastEnhancer.takeFrame, hclosed, henabled, Bool.false_eq_true,
                  if_false, Bool.not_false, if_true]
              cases htaken : s.processor.takeFrame frame with
              | mk processor taken =>
                  rw [htaken] at htake
                  cases htake
                  exact .passed frame hclosed henabled htaken hidle hidle
          | true =>
              cases happend : s.processor.raw.append s.processor.inputCursor frame.data with
              | ok raw =>
                  have htake : (s.processor.takeFrame frame).2 =
                      .appended s.processor.inputCursor := by
                    simp only [RemoteFastEnhancer.takeFrame, hclosed, henabled, happend,
                      Bool.false_eq_true, if_false, Bool.not_true]
                  cases htaken : s.processor.takeFrame frame with
                  | mk processor taken =>
                      rw [htaken] at htake
                      cases htake
                      exact .appended frame raw hcheck hclosed henabled happend htaken hidle rfl
                        rfl
              | error error => exact .refused frame error hcheck hclosed henabled happend

theorem emit_moves {frame : AudioFrame} (hcall : s.call = some (.emitting frame)) :
    Moves config e s (s.emit config frame) := by
  unfold ProcessorState.emit
  cases hemit : s.processor.emitFrame config frame with
  | mk processor result =>
      cases result with
      | ok output => exact .emitted frame output hcall hemit rfl rfl
      | error error => exact .stuck frame error hcall hemit

/-- Every step does one of the things listed. -/
theorem step_moves (h : s.step config e = some s') : Moves config e s s' := by
  cases ProcessorState.step_stepped h with
  | process frame idle => exact process_moves frame idle
  | trySend sent call =>
      refine .steady (.refl _) ?_ rfl
      rw [call]
      cases sent with
      | true => rfl
      | false => rfl
  | overflow call =>
      refine .steady ⟨rfl, rfl, rfl, rfl, rfl, .inr rfl, rfl, rfl, rfl⟩ ?_ rfl
      rw [call]
      rfl
  | forceReset call =>
      refine .steady (.refl _) ?_ rfl
      rw [call]
      rfl
  | resetRaised _ => exact .raised rfl rfl rfl rfl
  | emit call => exact emit_moves call
  | setEnabled value =>
      cases hflips : (s.processor.setEnabled value).2 with
      | true => exact .toggled value rfl hflips rfl rfl rfl
      | false =>
          have hsame : (s.processor.setEnabled value).1 = s.processor := by
            unfold RemoteFastEnhancer.setEnabled at hflips ⊢
            split
            · rfl
            · split
              · rfl
              · next hclosed hvalue => simp [hclosed, hvalue] at hflips
          refine .steady ?_ rfl rfl
          rw [hsame]
          exact .refl _
  | beginClose => exact .closing rfl rfl rfl rfl
  | endClose closed => exact .cleared rfl closed rfl rfl rfl
  | streamInfoUpdated room participant publication =>
      exact .steady ⟨rfl, rfl, rfl, rfl, rfl, .inl rfl, rfl, rfl, rfl⟩ rfl rfl
  | streamInfoCleared =>
      exact .steady ⟨rfl, rfl, rfl, rfl, rfl, .inl rfl, rfl, rfl, rfl⟩ rfl rfl
  | generationChanged generation state =>
      refine .steady ?_ rfl rfl
      dsimp only
      unfold RemoteFastEnhancer.generationChanged
      dsimp only
      split
      · refine ⟨rfl, rfl, rfl, rfl, rfl, .inr rfl, ?_, ?_, ?_⟩
        · dsimp only
          split
          · rfl
          · rfl
        · dsimp only
          split
          · rfl
          · rfl
        · dsimp only
          split
          · rfl
          · rfl
      · exact ⟨rfl, rfl, rfl, rfl, rfl, .inl rfl, rfl, rfl, rfl⟩
  | protocolError generation =>
      refine .steady ?_ rfl rfl
      dsimp only
      unfold RemoteFastEnhancer.protocolError
      split
      · exact ⟨rfl, rfl, rfl, rfl, rfl, .inr rfl, rfl, rfl, rfl⟩
      · exact .refl _
  | receiveAudio generation start pcm => exact receiveAudio_moves generation start pcm

end Moves

/-! ## The blocks of `_process` -/

/-- The last block of `_process` returns a frame. -/
structure Emits (config : RemoteFastEnhancerConfig) (frame output : AudioFrame)
    (p p' : RemoteFastEnhancer) : Prop where
  enabled : p'.enabled = p.enabled
  closed : p'.closed = p.closed
  inputCursor : p'.inputCursor = p.inputCursor
  outputCursor : p'.outputCursor =
    p.outputCursor + RemoteFastEnhancer.outputSamples config frame.samplesPerChannel p
  raw : p'.raw = p.raw.discardBefore p'.outputCursor
  enhanced : p'.enhanced = p.enhanced.discardBefore p'.outputCursor
  samples : output.samplesPerChannel =
    RemoteFastEnhancer.outputSamples config frame.samplesPerChannel p
  samplesOut : p'.metrics.samplesOut = p.metrics.samplesOut + output.samplesPerChannel
  sources : p'.metrics.enhancedSamples + p'.metrics.rawFallbackSamples =
    p.metrics.enhancedSamples + p.metrics.rawFallbackSamples + output.samplesPerChannel

/-- A frame passes through. -/
structure Passes (frame : AudioFrame) (p p' : RemoteFastEnhancer) : Prop where
  enabled : p'.enabled = p.enabled
  closed : p'.closed = p.closed
  inputCursor : p'.inputCursor = p.inputCursor + frame.samplesPerChannel
  outputCursor : p'.outputCursor = p.inputCursor + frame.samplesPerChannel
  raw : p'.raw = p.raw
  enhanced : p'.enhanced = p.enhanced
  samplesOut : p'.metrics.samplesOut = p.metrics.samplesOut + frame.samplesPerChannel
  sources : p'.metrics.enhancedSamples + p'.metrics.rawFallbackSamples =
    p.metrics.enhancedSamples + p.metrics.rawFallbackSamples + frame.samplesPerChannel

/-- A frame is appended to the raw buffer. -/
structure Appends (frame : AudioFrame) (p p' : RemoteFastEnhancer) : Prop where
  enabled : p'.enabled = true
  closed : p'.closed = false
  inputCursor : p'.inputCursor = p.inputCursor + frame.samplesPerChannel
  outputCursor : p'.outputCursor = p.outputCursor
  raw : p.raw.append p.inputCursor frame.data = .ok p'.raw
  enhanced : p'.enhanced = p.enhanced
  samplesOut : p'.metrics.samplesOut = p.metrics.samplesOut
  enhancedSamples : p'.metrics.enhancedSamples = p.metrics.enhancedSamples
  rawFallbackSamples : p'.metrics.rawFallbackSamples = p.metrics.rawFallbackSamples

section Blocks

variable {config : RemoteFastEnhancerConfig} {frame output : AudioFrame}
  {p p' : RemoteFastEnhancer}

theorem outputSamples_eq (config : RemoteFastEnhancerConfig) (n : Nat) (p : RemoteFastEnhancer) :
    RemoteFastEnhancer.outputSamples config n p = min n (p.due config) := by
  rw [RemoteFastEnhancer.outputSamples, RemoteFastEnhancer.due, RemoteFastEnhancerConfig.lag,
    Nat.sub_sub p.inputCursor]

theorem emitFrame_emits (h : p.emitFrame config frame = (p', .ok output)) :
    Emits config frame output p p' := by
  unfold RemoteFastEnhancer.emitFrame at h
  dsimp only at h
  split at h
  · cases h
  · next enhanced _ =>
      cases h
      refine ⟨rfl, rfl, rfl, rfl, rfl, rfl, rfl, rfl, ?_⟩
      cases enhanced with
      | true =>
          simp only [if_true]
          omega
      | false =>
          simp only [Bool.false_eq_true, if_false]
          omega

/-- The last block of `_process` raises only what reading the raw buffer raises. -/
theorem emitFrame_error {error : PyError} (h : p.emitFrame config frame = (p', .error error)) :
    p' = p ∧ RemoteFastEnhancer.outputSamples config frame.samplesPerChannel p ≠ 0 ∧
      p.raw.read p.outputCursor
        (RemoteFastEnhancer.outputSamples config frame.samplesPerChannel p) = .error error := by
  unfold RemoteFastEnhancer.emitFrame at h
  dsimp only at h
  split at h
  · next hread =>
      cases h
      unfold RemoteFastEnhancer.readOutput at hread
      split at hread
      · cases hread
      · next hnone =>
          refine ⟨rfl, fun hzero => ?_, ?_⟩
          · rw [if_pos hzero] at hnone
            cases hnone
          · cases hraw : p.raw.read p.outputCursor
                (RemoteFastEnhancer.outputSamples config frame.samplesPerChannel p) with
            | error _ =>
                rw [hraw] at hread
                cases hread
                rfl
            | ok _ =>
                rw [hraw] at hread
                cases hread
  · cases h

theorem takeFrame_passes (hclosed : p.closed = false) (henabled : p.enabled = false)
    (h : p.takeFrame frame = (p', .passthrough)) : Passes frame p p' := by
  simp only [RemoteFastEnhancer.takeFrame, hclosed, henabled, Bool.false_eq_true, if_false,
    Bool.not_false, if_true] at h
  cases h
  exact ⟨henabled.symm, hclosed.symm, rfl, rfl, rfl, rfl, rfl, (Nat.add_assoc _ _ _).symm⟩

theorem takeFrame_appends (hclosed : p.closed = false) (henabled : p.enabled = true)
    {raw : ContiguousPCM} (happend : p.raw.append p.inputCursor frame.data = .ok raw)
    (h : p.takeFrame frame = (p', .appended p.inputCursor)) : Appends frame p p' := by
  simp only [RemoteFastEnhancer.takeFrame, hclosed, henabled, happend, Bool.false_eq_true,
    if_false, Bool.not_true] at h
  cases h
  exact ⟨rfl, rfl, rfl, rfl, happend, rfl, rfl, rfl, rfl⟩

end Blocks

/-! ## The invariant -/

/-- The raw buffer reaches from the output cursor to the input cursor while the processor is
enabled, and is empty otherwise. -/
structure Cursors (p : RemoteFastEnhancer) : Prop where
  behind : p.outputCursor ≤ p.inputCursor
  low : p.raw.startSample ≤ p.outputCursor
  even : p.raw.data.length % 2 = 0
  enabled : p.enabled = true →
    p.raw.startSample = p.outputCursor ∧ p.raw.endSample = p.inputCursor
  disabled : p.enabled = false → p.outputCursor = p.inputCursor ∧ p.raw.data = []

namespace Cursors

variable {config : RemoteFastEnhancerConfig} {frame output : AudioFrame}
  {p p' : RemoteFastEnhancer}

theorem steady (h : Cursors p) (hs : Steady p p') : Cursors p' := by
  obtain ⟨henabled, -, hinput, houtput, hraw, -, -, -, -⟩ := hs
  constructor
  · rw [houtput, hinput]
    exact h.behind
  · rw [houtput, hraw]
    exact h.low
  · rw [hraw]
    exact h.even
  · rw [henabled, houtput, hinput, hraw]
    exact h.enabled
  · rw [henabled, houtput, hinput, hraw]
    exact h.disabled

/-- What is returned next is in the buffer. -/
theorem range (h : Cursors p) (n : Nat)
    (hdue : RemoteFastEnhancer.outputSamples config n p ≠ 0) :
    p.raw.startSample ≤ p.outputCursor ∧
      p.outputCursor + RemoteFastEnhancer.outputSamples config n p ≤ p.raw.endSample := by
  refine ⟨h.low, ?_⟩
  rw [outputSamples_eq, RemoteFastEnhancer.due] at hdue ⊢
  cases henabled : p.enabled with
  | true =>
      have hbehind := h.behind
      rw [(h.enabled henabled).2]
      omega
  | false =>
      rw [(h.disabled henabled).1] at hdue
      omega

theorem emitFrame_ok (h : Cursors p) (config : RemoteFastEnhancerConfig) (frame : AudioFrame) :
    ∃ p' output, p.emitFrame config frame = (p', .ok output) := by
  cases hemit : p.emitFrame config frame with
  | mk p' result =>
      cases result with
      | ok output => exact ⟨p', output, rfl⟩
      | error error =>
          obtain ⟨-, hdue, hread⟩ := emitFrame_error hemit
          obtain ⟨hlow, hhigh⟩ := h.range frame.samplesPerChannel hdue
          obtain ⟨bytes, hbytes⟩ := ContiguousPCM.read_eq_ok hlow hhigh
          rw [hbytes] at hread
          cases hread

theorem emits (h : Cursors p) (he : Emits config frame output p p') : Cursors p' := by
  have hbehind := h.behind
  have hlow := h.low
  have heven := h.even
  have hcount := he.outputCursor
  rw [outputSamples_eq, RemoteFastEnhancer.due] at hcount
  have hdata : p'.raw.data.length % 2 = 0 := by
    rw [he.raw, ContiguousPCM.discardBefore, List.length_drop]
    omega
  cases henabled : p.enabled with
  | true =>
      obtain ⟨hstart, hend⟩ := h.enabled henabled
      have hstart' : p'.raw.startSample = p'.outputCursor := by
        rw [he.raw]
        exact ContiguousPCM.discardBefore_startSample (by omega) (by omega)
      have hend' : p'.raw.endSample = p'.inputCursor := by
        rw [he.raw, ContiguousPCM.discardBefore_endSample, he.inputCursor, hend]
      refine ⟨?_, hstart'.le, hdata, fun _ => ⟨hstart', hend'⟩, fun hdisabled => ?_⟩
      · rw [he.inputCursor]
        omega
      · rw [he.enabled, henabled] at hdisabled
        cases hdisabled
  | false =>
      obtain ⟨hcursor, hempty⟩ := h.disabled henabled
      have hsame : p'.outputCursor = p'.inputCursor := by
        rw [he.inputCursor]
        omega
      refine ⟨hsame.le, ?_, hdata, fun h' => ?_, fun _ => ⟨hsame, ?_⟩⟩
      · rw [he.raw, ContiguousPCM.discardBefore, hempty]
        simp only [List.length_nil]
        omega
      · rw [he.enabled, henabled] at h'
        cases h'
      · rw [he.raw, ContiguousPCM.discardBefore, hempty, List.drop_nil]

theorem passes (h : Cursors p) (hp : Passes frame p p') (hdisabled : p.enabled = false) :
    Cursors p' := by
  have hcursor : p'.outputCursor = p'.inputCursor := by rw [hp.outputCursor, hp.inputCursor]
  refine ⟨hcursor.le, ?_, ?_, fun henabled => ?_, fun _ => ⟨hcursor, ?_⟩⟩
  · have hlow := h.low
    have hbehind := h.behind
    rw [hp.raw, hp.outputCursor]
    omega
  · rw [hp.raw]
    exact h.even
  · rw [hp.enabled, hdisabled] at henabled
    cases henabled
  · rw [hp.raw]
    exact (h.disabled hdisabled).2

theorem append_eq_ok (h : Cursors p) (henabled : p.enabled = true)
    (hframe : frame.data.length = frame.samplesPerChannel * 2) :
    p.raw.append p.inputCursor frame.data =
      .ok { p.raw with data := p.raw.data ++ frame.data } := by
  refine ContiguousPCM.append_eq_ok (h.enabled henabled).2.symm ?_
  rw [hframe]
  exact Nat.mul_mod_left _ _

theorem appends (h : Cursors p) (ha : Appends frame p p') (henabled : p.enabled = true)
    (hframe : frame.data.length = frame.samplesPerChannel * 2) : Cursors p' := by
  obtain ⟨hstart, hend⟩ := h.enabled henabled
  have hraw := ha.raw
  rw [h.append_eq_ok henabled hframe, Except.ok.injEq] at hraw
  have heven := h.even
  have hlen : p'.raw.data.length = p.raw.data.length + frame.samplesPerChannel * 2 := by
    rw [← hraw, List.length_append, hframe]
  have hstart' : p'.raw.startSample = p'.outputCursor := by
    rw [ha.outputCursor, ← hraw]
    exact hstart
  have hend' : p'.raw.endSample = p'.inputCursor := by
    rw [ContiguousPCM.endSample] at hend ⊢
    rw [hstart', ha.outputCursor, ha.inputCursor, hlen]
    omega
  refine ⟨?_, hstart'.le, ?_, fun _ => ⟨hstart', hend'⟩, fun hdisabled => ?_⟩
  · have hbehind := h.behind
    rw [ha.outputCursor, ha.inputCursor]
    omega
  · omega
  · rw [ha.enabled] at hdisabled
    cases hdisabled

theorem setEnabled (h : Cursors p) (value : Bool) : Cursors (p.setEnabled value).1 := by
  unfold RemoteFastEnhancer.setEnabled
  split
  · exact h
  · split
    · exact h
    · exact ⟨le_rfl, le_rfl, rfl, fun _ => ⟨rfl, ContiguousPCM.endSample_nil _⟩,
        fun _ => ⟨rfl, rfl⟩⟩

theorem beginClose (h : Cursors p) : Cursors p.beginClose.1 := by
  unfold RemoteFastEnhancer.beginClose
  split
  · exact h
  · exact ⟨h.behind, h.low, h.even, h.enabled, h.disabled⟩

theorem new (config : RemoteFastEnhancerConfig) : Cursors (.new config) :=
  ⟨le_rfl, le_rfl, rfl, fun _ => ⟨rfl, ContiguousPCM.endSample_nil _⟩, nofun⟩

/-- Every step keeps the invariant, except for the last block of `_close`. -/
theorem moves {s s' : ProcessorState} {e : ProcessorEvent} (h : Cursors s.processor)
    (hm : Moves config e s s') (he : e ≠ .endClose) : Cursors s'.processor := by
  cases hm with
  | steady hs => exact h.steady hs
  | stored start pcm enhanced insert low high hs =>
      have h' : Cursors { s.processor with enhanced } :=
        ⟨h.behind, h.low, h.even, h.enabled, h.disabled⟩
      exact h'.steady hs
  | passed frame closed enabled take =>
      exact h.passes (takeFrame_passes closed enabled take) enabled
  | appended frame raw checked closed enabled append take =>
      exact h.appends (takeFrame_appends closed enabled append take) enabled (checkFrame_ok checked)
  | refused frame error checked closed enabled append =>
      rw [h.append_eq_ok enabled (checkFrame_ok checked)] at append
      cases append
  | emitted frame output calling emit => exact h.emits (emitFrame_emits emit)
  | stuck frame error calling emit =>
      rw [(emitFrame_error emit).1]
      exact h
  | raised event processor =>
      rw [processor]
      exact h
  | toggled value event flips processor =>
      rw [processor]
      exact h.setEnabled value
  | closing event processor =>
      rw [processor]
      exact h.beginClose
  | cleared event => exact absurd event he

end Cursors

/-- The first block of a call appends the frame, and the call goes on. -/
theorem process_appends {config : RemoteFastEnhancerConfig} {s : ProcessorState}
    {frame : AudioFrame} (hcursors : Cursors s.processor) (hclosed : s.processor.closed = false)
    (henabled : s.processor.enabled = true)
    (hcheck : RemoteFastEnhancer.checkFrame config frame = .ok ()) :
    ∃ p, Appends frame s.processor p ∧ s.process config frame =
      { s with
        processor := p
        input := s.input ++ frame.data
        call := some (.sending frame s.processor.inputCursor) } := by
  have happend := hcursors.append_eq_ok henabled (checkFrame_ok hcheck)
  cases htake : s.processor.takeFrame frame with
  | mk p taken =>
      have htaken : taken = .appended s.processor.inputCursor := by
        simp only [RemoteFastEnhancer.takeFrame, hclosed, henabled, happend, Bool.false_eq_true,
          if_false, Bool.not_true] at htake
        exact (Prod.mk.inj htake).2.symm
      subst htaken
      refine ⟨p, takeFrame_appends hclosed henabled happend htake, ?_⟩
      simp only [ProcessorState.process, hcheck, htake, hclosed, Bool.false_eq_true, if_false]

/-! ## The raw fallback -/

/-- The exception that a block of `_process` raises in the step. -/
def ProcessorState.raises (config : RemoteFastEnhancerConfig) (s : ProcessorState) :
    ProcessorEvent → Option PyError
  | .process frame =>
    match RemoteFastEnhancer.checkFrame config frame with
    | .error error => some error
    | .ok () =>
      match (s.processor.takeFrame frame).2 with
      | .raised error => some error
      | _ => none
  | .emit =>
    match s.call with
    | some (.emitting frame) =>
      match (s.processor.emitFrame config frame).2 with
      | .error error => some error
      | .ok _ => none
    | _ => none
  | _ => none

/-- The audio that `_process` asks the raw buffer for is there, and what it raises is an error of
its argument or says that the processor is closed. -/
structure FallbackAvailable (config : RemoteFastEnhancerConfig) (s : ProcessorState) : Prop where
  range : ∀ frame, s.call = some (.emitting frame) →
    RemoteFastEnhancer.outputSamples config frame.samplesPerChannel s.processor ≠ 0 →
    s.processor.raw.startSample ≤ s.processor.outputCursor ∧
      s.processor.outputCursor ≤ s.processor.inputCursor ∧
      s.processor.outputCursor +
        RemoteFastEnhancer.outputSamples config frame.samplesPerChannel s.processor ≤
          s.processor.raw.endSample
  documented : ∀ e error, s.raises config e = some error → ∃ frame, e = .process frame ∧
    (RemoteFastEnhancer.checkFrame config frame = .error error ∨
      s.processor.closed = true ∧ error = .runtime "RemoteFastEnhancer is closed")

/-- The last block of `_close` does not come between the append of a call and its read, unless
the call has nothing to return. -/
def ClosesIdle (config : RemoteFastEnhancerConfig) (s : ProcessorState) (e : ProcessorEvent) :
    Prop :=
  e = .endClose → ∀ call, s.call = some call → call.frame.samplesPerChannel = 0 ∨
    s.processor.inputCursor ≤ s.processor.outputCursor + config.lag

instance (config : RemoteFastEnhancerConfig) (s : ProcessorState) (e : ProcessorEvent) :
    Decidable (ClosesIdle config s e) :=
  decidable_of_iff (e = .endClose → (s.call.all fun call =>
    decide (call.frame.samplesPerChannel = 0 ∨
      s.processor.inputCursor ≤ s.processor.outputCursor + config.lag)) = true) (by
    cases hcall : s.call with
    | none => simp [ClosesIdle, hcall]
    | some call => simp [ClosesIdle, hcall])

/-- The raw buffer is emptied for good, and the call in progress does not read it. -/
structure Emptied (config : RemoteFastEnhancerConfig) (s : ProcessorState) : Prop where
  closed : s.processor.closed = true
  behind : s.processor.outputCursor ≤ s.processor.inputCursor
  raw : s.processor.raw.data = []
  nothing : ∀ call, s.call = some call → call.frame.samplesPerChannel = 0 ∨
    s.processor.inputCursor ≤ s.processor.outputCursor + config.lag

section Fallback

variable {config : RemoteFastEnhancerConfig} {s s' : ProcessorState} {e : ProcessorEvent}

theorem Emptied.outputSamples (h : Emptied config s) {call : Call} (hcall : s.call = some call) :
    RemoteFastEnhancer.outputSamples config call.frame.samplesPerChannel s.processor = 0 := by
  have hnothing := h.nothing call hcall
  rw [outputSamples_eq, RemoteFastEnhancer.due]
  omega

theorem Emptied.moves (h : Emptied config s) (hm : Moves config e s s') : Emptied config s' := by
  have hclosed := h.closed
  cases hm with
  | steady hs call =>
      refine ⟨hs.closed.trans hclosed, ?_, ?_, fun c hc => ?_⟩
      · rw [hs.outputCursor, hs.inputCursor]
        exact h.behind
      · rw [hs.raw]
        exact h.raw
      · rw [hc, Option.map_some] at call
        obtain ⟨c', hc', hframe⟩ := Option.map_eq_some_iff.mp call.symm
        rw [hs.inputCursor, hs.outputCursor, ← hframe]
        exact h.nothing c' hc'
  | stored start pcm enhanced insert low high hs call =>
      refine ⟨hs.closed.trans hclosed, ?_, ?_, fun c hc => ?_⟩
      · rw [hs.outputCursor, hs.inputCursor]
        exact h.behind
      · rw [hs.raw]
        exact h.raw
      · rw [hs.inputCursor, hs.outputCursor]
        exact h.nothing c (call ▸ hc)
  | passed _ closed =>
      rw [hclosed] at closed
      cases closed
  | appended _ _ _ closed =>
      rw [hclosed] at closed
      cases closed
  | refused _ _ _ closed =>
      rw [hclosed] at closed
      cases closed
  | emitted frame output calling emit call =>
      have hemits := emitFrame_emits emit
      have hcount := h.outputSamples calling
      refine ⟨hemits.closed.trans hclosed, ?_, ?_, fun c hc => ?_⟩
      · rw [hemits.outputCursor, hemits.inputCursor]
        rw [Call.frame] at hcount
        rw [hcount]
        exact h.behind
      · rw [hemits.raw, ContiguousPCM.discardBefore, h.raw, List.drop_nil]
      · rw [call] at hc
        cases hc
  | stuck frame error calling emit =>
      obtain ⟨-, hdue, -⟩ := emitFrame_error emit
      exact absurd (h.outputSamples calling) hdue
  | raised _ processor call =>
      refine ⟨?_, ?_, ?_, fun c hc => ?_⟩
      · rw [processor]
        exact hclosed
      · rw [processor]
        exact h.behind
      · rw [processor]
        exact h.raw
      · rw [call] at hc
        cases hc
  | toggled value _ flips =>
      rw [RemoteFastEnhancer.setEnabled, if_pos hclosed] at flips
      cases flips
  | closing _ processor call =>
      have hsame : s'.processor = s.processor := by
        rw [processor, RemoteFastEnhancer.beginClose, if_pos hclosed]
      refine ⟨?_, ?_, ?_, fun c hc => ?_⟩
      · rw [hsame]
        exact hclosed
      · rw [hsame]
        exact h.behind
      · rw [hsame]
        exact h.raw
      · rw [hsame]
        exact h.nothing c (call ▸ hc)
  | cleared _ _ processor call =>
      refine ⟨?_, ?_, ?_, fun c hc => ?_⟩
      · rw [processor]
        exact hclosed
      · rw [processor]
        exact h.behind
      · rw [processor]
        rfl
      · rw [processor]
        exact h.nothing c (call ▸ hc)

/-- The buffer has what will be read, or nothing will be read. -/
theorem safe_step (h : Cursors s.processor ∨ Emptied config s)
    (hs : ((processorSystem config).restrict (ClosesIdle config)).Step s e s') :
    Cursors s'.processor ∨ Emptied config s' := by
  have hmoves := step_moves hs.eq
  obtain hcursors | hemptied := h
  · by_cases he : e = .endClose
    · subst he
      have hidle := hs.allowed.2 rfl
      have hstep : s.step config .endClose = some s' := hs.eq
      simp only [ProcessorState.step] at hstep
      split at hstep
      · next hclosed =>
          cases hstep
          exact .inr ⟨hclosed, hcursors.behind, rfl, hidle⟩
      · cases hstep
    · exact .inl (hcursors.moves hmoves he)
  · exact .inr (hemptied.moves hmoves)

theorem Cursors.available (h : Cursors s.processor) : FallbackAvailable config s where
  range frame _ hdue := by
    obtain ⟨hlow, hhigh⟩ := h.range frame.samplesPerChannel hdue
    exact ⟨hlow, h.behind, hhigh⟩
  documented e error hraises := by
    unfold ProcessorState.raises at hraises
    split at hraises
    · next frame =>
        refine ⟨frame, rfl, ?_⟩
        split at hraises
        · next hcheck =>
            cases hraises
            exact .inl hcheck
        · next hcheck =>
            right
            cases hclosed : s.processor.closed with
            | true =>
                rw [RemoteFastEnhancer.takeFrame, if_pos hclosed] at hraises
                cases hraises
                exact ⟨rfl, rfl⟩
            | false =>
                cases henabled : s.processor.enabled with
                | true =>
                    have happend := h.append_eq_ok henabled (checkFrame_ok hcheck)
                    simp [RemoteFastEnhancer.takeFrame, hclosed, henabled, happend] at hraises
                | false => simp [RemoteFastEnhancer.takeFrame, hclosed, henabled] at hraises
    · split at hraises
      · next frame hcall =>
          obtain ⟨p', output, hemit⟩ := h.emitFrame_ok config frame
          rw [hemit] at hraises
          cases hraises
      · cases hraises
    · cases hraises

theorem Emptied.available (h : Emptied config s) : FallbackAvailable config s where
  range frame hcall hdue := absurd (h.outputSamples hcall) hdue
  documented e error hraises := by
    unfold ProcessorState.raises at hraises
    split at hraises
    · next frame =>
        refine ⟨frame, rfl, ?_⟩
        split at hraises
        · next hcheck =>
            cases hraises
            exact .inl hcheck
        · rw [RemoteFastEnhancer.takeFrame, if_pos h.closed] at hraises
          cases hraises
          exact .inr ⟨h.closed, rfl⟩
    · split at hraises
      · next frame hcall =>
          cases hemit : s.processor.emitFrame config frame with
          | mk p' result =>
              rw [hemit] at hraises
              cases result with
              | ok output => cases hraises
              | error _ =>
                  obtain ⟨-, hdue, -⟩ := emitFrame_error hemit
                  exact absurd (h.outputSamples hcall) hdue
      · cases hraises
    · cases hraises

/-- In a run in which the last block of `_close` does not come between the append of a call and
its read, or the call has nothing to return, the raw fallback is always available.  Otherwise a
call that is about to read raises `KeyError`. -/
theorem fallback_available (config : RemoteFastEnhancerConfig) :
    (∀ s, ((processorSystem config).restrict (ClosesIdle config)).Reachable s →
      FallbackAvailable config s) ∧
    ∀ s s' frame, (processorSystem config).Step s .endClose s' →
      s.call = some (.emitting frame) → ¬ ClosesIdle config s .endClose →
        s'.raises config .emit = some (.key "requested raw range is unavailable") := by
  constructor
  · intro s hreach
    have hsafe : Cursors s.processor ∨ Emptied config s :=
      Lts.System.Reachable.invariant (.inl (Cursors.new config))
        (fun _ _ _ h hs => safe_step h hs) hreach
    exact hsafe.elim Cursors.available Emptied.available
  · intro s s' frame hs hcall hbusy
    have hstep : s.step config .endClose = some s' := hs.eq
    simp only [ProcessorState.step] at hstep
    split at hstep
    · cases hstep
      have hdue : frame.samplesPerChannel ≠ 0 ∧
          s.processor.outputCursor + config.lag < s.processor.inputCursor := by
        rw [ClosesIdle, Classical.not_imp] at hbusy
        obtain ⟨-, hbusy⟩ := hbusy
        push Not at hbusy
        obtain ⟨call, hcall', hdue⟩ := hbusy
        rw [hcall] at hcall'
        cases hcall'
        exact hdue
      have hcount : RemoteFastEnhancer.outputSamples config frame.samplesPerChannel
          s.processor.endClose ≠ 0 := by
        rw [outputSamples_eq, RemoteFastEnhancer.due]
        change min _ (s.processor.inputCursor - config.lag - s.processor.outputCursor) ≠ 0
        omega
      have hread : s.processor.endClose.readOutput
          (RemoteFastEnhancer.outputSamples config frame.samplesPerChannel s.processor.endClose) =
            .error (.key "requested raw range is unavailable") := by
        have hraw : ∀ count, s.processor.endClose.raw.read s.processor.endClose.outputCursor count =
            .error (.key "requested raw range is unavailable") := by
          have hlt : s.processor.outputCursor < s.processor.inputCursor := by omega
          exact fun count => if_pos (.inl hlt)
        rw [RemoteFastEnhancer.readOutput, if_neg hcount]
        exact congrArg (Except.map _) (hraw _)
      have hemit : (s.processor.endClose.emitFrame config frame).2 =
          .error (.key "requested raw range is unavailable") := by
        rw [RemoteFastEnhancer.emitFrame, hread]
      simp only [ProcessorState.raises, hcall, hemit]
    · cases hstep

/-- The processor is closed after a call. -/
def closedAfterCall : List ProcessorEvent :=
  [.process (testFrame 512 1), .trySend true, .emit, .beginClose, .endClose]

theorem fallback_available_after :
    ∃ s, (processorSystem testConfig).run (.init testConfig) closedAfterCall = some s ∧
      s.processor.closed = true ∧ FallbackAvailable testConfig s := by
  obtain ⟨s, hrun, hreach, hp⟩ := Lts.System.Reachable.of_run
    ((processorSystem testConfig).restrict (ClosesIdle testConfig)) closedAfterCall
    (fun (s : ProcessorState) => s.processor.closed) (by decide +kernel) (by decide +kernel)
  exact ⟨s, hrun, hp, (fallback_available testConfig).1 s hreach⟩

/-- `_close` runs while a call waits for the lock to read 64 samples. -/
theorem close_beside_process :
    ¬ ∀ s, (processorSystem testConfig).Reachable s → FallbackAvailable testConfig s := by
  intro havailable
  obtain ⟨s, _, hreach, hp⟩ := Lts.System.Reachable.of_run (processorSystem testConfig)
    [.process (testFrame 512 1), .trySend true, .beginClose, .endClose]
    (fun (s : ProcessorState) => decide (s.raises testConfig .emit =
      some (.key "requested raw range is unavailable")))
    (by decide +kernel) (by decide +kernel)
  obtain ⟨frame, hevent, -⟩ := (havailable s hreach).documented _ _ (of_decide_eq_true hp)
  cases hevent

end Fallback

end VoxLattice.Plugin
