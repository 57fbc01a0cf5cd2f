import VoxLattice.Lib.Intervals
import VoxLattice.Plugin.Cursors

/-!
# Constant latency

While the processor is enabled, the output trails the input by `lag` samples and no more, however
the input is cut into frames: after each call the output cursor is where `lag` samples of input
are missing, or at the base of the timeline, which is the input cursor at the last enabling
(`constant_latency`).  The frames returned since then are adjacent from the base on.

What the raw buffer and the segments hold between two calls follows from this and from the
configuration alone, and `max_buffer_ms` does not enter (`buffers_bounded_iff`).
-/

namespace VoxLattice.Plugin

open Intervals
open Server (Bytes)

/-- The samples of the frame of the call in progress. -/
def ProcessorState.inCall (s : ProcessorState) : Nat :=
  s.call.elim 0 fun call => call.frame.samplesPerChannel

/-- The samples of a returned frame. -/
def Returned.samples (r : Returned) : Nat := r.frame.samplesPerChannel

/-- No step of `_close`, and `force_reset` does not raise. -/
def ProcessorEvent.ordinary : ProcessorEvent → Bool
  | .beginClose | .endClose | .resetRaised => false
  | _ => true

/-! ## The base of the timeline -/

/-- The processor, with what the last enabling left. -/
structure Timeline where
  track : ProcessorState
  /-- The input cursor when the processor was enabled last, or 0. -/
  base : Nat
  /-- The number of frames that had been returned by then. -/
  mark : Nat

namespace Timeline

/-- A step of the processor, which may begin a timeline. -/
def step (config : RemoteFastEnhancerConfig) (t : Timeline) (e : ProcessorEvent) :
    Option Timeline :=
  (t.track.step config e).map fun track =>
    if track.processor.enabled && !t.track.processor.enabled then
      ⟨track, track.processor.inputCursor, track.returned.length⟩
    else { t with track }

/-- The processor is not closed, and it is enabled and disabled between two calls. -/
def allows (t : Timeline) (e : ProcessorEvent) : Prop :=
  e.ordinary = true ∧ ((∃ value, e = .setEnabled value) → t.track.call = none)

instance (t : Timeline) (e : ProcessorEvent) : Decidable (t.allows e) :=
  have : Decidable (∃ value, e = .setEnabled value) := by
    cases e with
    | setEnabled value => exact .isTrue ⟨value, rfl⟩
    | _ => exact .isFalse nofun
  inferInstanceAs (Decidable (_ ∧ (_ → _)))

/-- The frames returned since the last enabling. -/
def emitted (t : Timeline) : List Returned := t.track.returned.drop t.mark

end Timeline

/-- The processor with its timeline. -/
def timelineSystem (config : RemoteFastEnhancerConfig) :
    Lts.System Timeline ProcessorEvent where
  init := ⟨.init config, 0, 0⟩
  step := Timeline.step config
  allows := Timeline.allows

instance (config : RemoteFastEnhancerConfig) (t : Timeline) (e : ProcessorEvent) :
    Decidable ((timelineSystem config).allows t e) :=
  inferInstanceAs (Decidable (t.allows e))

/-- The latency is constant: no gap, no repetition, no audio held back. -/
structure Latency (config : RemoteFastEnhancerConfig) (t : Timeline) : Prop where
  cursor : t.track.processor.enabled = true → t.track.call = none →
    t.track.processor.outputCursor = max t.base (t.track.processor.inputCursor - config.lag)
  adjacent : t.track.processor.enabled = true →
    Adjacent Returned.start Returned.samples t.base t.emitted ∧
      ∀ r ∈ t.emitted, r.passthrough = false
  total : t.track.processor.enabled = true → t.track.call = none →
    total Returned.samples t.emitted =
      max t.base (t.track.processor.inputCursor - config.lag) - t.base
  /-- The size of the frame does not hold back audio that is due. -/
  uncapped : ∀ frame, t.track.call = some (.emitting frame) →
    RemoteFastEnhancer.outputSamples config frame.samplesPerChannel t.track.processor =
      t.track.processor.due config
  read : ∀ frame, t.track.call = some (.emitting frame) →
    ∃ p output, t.track.processor.emitFrame config frame = (p, .ok output)
  counted : t.track.processor.metrics.samplesOut =
    t.track.processor.metrics.enhancedSamples + t.track.processor.metrics.rawFallbackSamples

/-! ## The invariant -/

/-- The output trails the input by the lag, once the call in progress has returned its frame. -/
structure Trails (config : RemoteFastEnhancerConfig) (base mark : Nat) (s : ProcessorState) :
    Prop where
  begun : base + s.inCall ≤ s.processor.inputCursor
  cursor : s.processor.outputCursor = max base (s.processor.inputCursor - s.inCall - config.lag)
  mark_le : mark ≤ s.returned.length
  adjacent : Adjacent Returned.start Returned.samples base (s.returned.drop mark)
  total : base + total Returned.samples (s.returned.drop mark) = s.processor.outputCursor
  emitted : ∀ r ∈ s.returned.drop mark, r.passthrough = false

/-- The invariant of the timeline. -/
structure Lags (config : RemoteFastEnhancerConfig) (t : Timeline) : Prop where
  cursors : Cursors t.track.processor
  trails : t.track.processor.enabled = true → Trails config t.base t.mark t.track
  busy : t.track.call ≠ none → t.track.processor.enabled = true
  counted : t.track.processor.metrics.samplesOut =
    t.track.processor.metrics.enhancedSamples + t.track.processor.metrics.rawFallbackSamples

section Trails

variable {config : RemoteFastEnhancerConfig} {s s' : ProcessorState} {e : ProcessorEvent}
  {base mark : Nat}

/-- A step that keeps the cursors, the call and the frames returned. -/
theorem Trails.same (h : Trails config base mark s)
    (hinput : s'.processor.inputCursor = s.processor.inputCursor)
    (houtput : s'.processor.outputCursor = s.processor.outputCursor)
    (hcall : s'.inCall = s.inCall) (hreturned : s'.returned = s.returned) :
    Trails config base mark s' where
  begun := by
    rw [hcall, hinput]
    exact h.begun
  cursor := by
    rw [hcall, hinput, houtput]
    exact h.cursor
  mark_le := hreturned ▸ h.mark_le
  adjacent := hreturned ▸ h.adjacent
  total := by
    rw [houtput, hreturned]
    exact h.total
  emitted := hreturned ▸ h.emitted

theorem inCall_map (h : s'.call.map Call.frame = s.call.map Call.frame) :
    s'.inCall = s.inCall := by
  have hmap : ∀ s : ProcessorState, s.inCall =
      (s.call.map Call.frame).elim 0 AudioFrame.samplesPerChannel := by
    intro s
    rw [ProcessorState.inCall]
    cases s.call with
    | none => rfl
    | some call => rfl
  rw [hmap, hmap, h]

theorem Trails.appends (h : Trails config base mark s) {frame : AudioFrame}
    (ha : Appends frame s.processor s'.processor) (hidle : s.call = none)
    (hcall : s'.call.map Call.frame = some frame) (hreturned : s'.returned = s.returned) :
    Trails config base mark s' := by
  have hbefore : s.inCall = 0 := by rw [ProcessorState.inCall, hidle, Option.elim_none]
  have hafter : s'.inCall = frame.samplesPerChannel := by
    obtain ⟨call, hcall', hframe⟩ := Option.map_eq_some_iff.mp hcall
    rw [ProcessorState.inCall, hcall', Option.elim_some, hframe]
  have hbegun := h.begun
  have hcursor := h.cursor
  rw [hbefore] at hbegun hcursor
  refine ⟨?_, ?_, hreturned ▸ h.mark_le, hreturned ▸ h.adjacent, ?_, hreturned ▸ h.emitted⟩
  · rw [hafter, ha.inputCursor]
    omega
  · rw [hafter, ha.inputCursor, ha.outputCursor, hcursor]
    omega
  · rw [ha.outputCursor, hreturned]
    exact h.total

/-- What the frame of the call lets out is all that is due. -/
theorem Trails.uncapped (h : Trails config base mark s) :
    s.processor.due config ≤ s.inCall := by
  have hbegun := h.begun
  have hcursor := h.cursor
  rw [RemoteFastEnhancer.due]
  omega

theorem Trails.emits (h : Trails config base mark s) {frame output : AudioFrame}
    (he : Emits config frame output s.processor s'.processor)
    (hcalling : s.call = some (.emitting frame)) (hcall : s'.call = none)
    (hreturned : s'.returned = s.returned ++
      [⟨false, s.processor.outputCursor, s.processor.remoteGeneration, s.stored, output⟩]) :
    Trails config base mark s' := by
  have hbefore : s.inCall = frame.samplesPerChannel := by
    rw [ProcessorState.inCall, hcalling, Option.elim_some, Call.frame]
  have hafter : s'.inCall = 0 := by rw [ProcessorState.inCall, hcall, Option.elim_none]
  have hdue := h.uncapped
  have hbegun := h.begun
  have hcursor := h.cursor
  have hcount : RemoteFastEnhancer.outputSamples config frame.samplesPerChannel s.processor =
      s.processor.due config := by
    rw [outputSamples_eq, ← hbefore]
    exact Nat.min_eq_right hdue
  have hout := he.outputCursor
  have hsamples := he.samples
  rw [hcount] at hout hsamples
  have hdrop : s'.returned.drop mark = s.returned.drop mark ++
      [⟨false, s.processor.outputCursor, s.processor.remoteGeneration, s.stored, output⟩] := by
    rw [hreturned, List.drop_append_of_le_length h.mark_le]
  refine ⟨?_, ?_, ?_, ?_, ?_, ?_⟩
  · rw [hafter, he.inputCursor]
    omega
  · rw [RemoteFastEnhancer.due] at hout
    rw [hafter, he.inputCursor]
    omega
  · rw [hreturned, List.length_append]
    exact h.mark_le.trans (Nat.le_add_right _ _)
  · rw [hdrop, adjacent_append]
    exact ⟨h.adjacent, h.total.symm, trivial⟩
  · rw [hdrop, total_append, ← Nat.add_assoc, h.total, hout, ← hsamples]
    rfl
  · rw [hdrop]
    intro r hr
    obtain hold | hnew := List.mem_append.mp hr
    · exact h.emitted r hold
    · obtain rfl := List.mem_singleton.mp hnew
      rfl

end Trails

section Lags

variable {config : RemoteFastEnhancerConfig} {t t' : Timeline} {track : ProcessorState}
  {e : ProcessorEvent}

/-- A step that neither enables nor disables the processor. -/
theorem Lags.same (h : Lags config t) (hcursors : Cursors track.processor)
    (hsame : track.processor.enabled = t.track.processor.enabled)
    (htrails : t.track.processor.enabled = true → Trails config t.base t.mark t.track →
      Trails config t.base t.mark track)
    (hbusy : track.call ≠ none → t.track.processor.enabled = true)
    (hcounted : track.processor.metrics.samplesOut =
      track.processor.metrics.enhancedSamples + track.processor.metrics.rawFallbackSamples) :
    Lags config (if track.processor.enabled && !t.track.processor.enabled then
      ⟨track, track.processor.inputCursor, track.returned.length⟩ else { t with track }) := by
  rw [if_neg (by rw [hsame, Bool.and_not_self]; nofun)]
  refine ⟨hcursors, fun henabled => ?_, fun hcall => hsame.trans (hbusy hcall), hcounted⟩
  have henabled' : t.track.processor.enabled = true := hsame.symm.trans henabled
  exact htrails henabled' (h.trails henabled')

/-- The processor is enabled or disabled between two calls. -/
theorem Lags.toggled (h : Lags config t) {value : Bool}
    (hflips : (t.track.processor.setEnabled value).2 = true) (hidle : t.track.call = none)
    (hprocessor : track.processor = (t.track.processor.setEnabled value).1)
    (hcall : track.call = t.track.call) :
    Lags config (if track.processor.enabled && !t.track.processor.enabled then
      ⟨track, track.processor.inputCursor, track.returned.length⟩ else { t with track }) := by
  have hcursors : Cursors track.processor := hprocessor ▸ h.cursors.setEnabled value
  have hcall' : track.call = none := hcall.trans hidle
  have hbusy : track.call ≠ none → track.processor.enabled = true := fun hne => absurd hcall' hne
  unfold RemoteFastEnhancer.setEnabled at hflips hprocessor
  split at hflips
  · cases hflips
  · next hclosed =>
      split at hflips
      · cases hflips
      · next hvalue =>
          rw [if_neg hclosed, if_neg hvalue] at hprocessor
          have hcounted : track.processor.metrics.samplesOut =
              track.processor.metrics.enhancedSamples +
                track.processor.metrics.rawFallbackSamples := by
            rw [hprocessor]
            exact h.counted
          have henabled : track.processor.enabled = value := by rw [hprocessor]
          have houtput : track.processor.outputCursor = track.processor.inputCursor := by
            rw [hprocessor]
          have hinCall : track.inCall = 0 := by
            rw [ProcessorState.inCall, hcall', Option.elim_none]
          cases value with
          | true =>
              have hold : t.track.processor.enabled = false := by
                rw [← Bool.not_eq_true]
                exact fun hold => hvalue hold.symm
              rw [if_pos (by rw [henabled, hold]; rfl)]
              refine ⟨hcursors, fun _ => ?_, hbusy, hcounted⟩
              refine ⟨?_, ?_, le_rfl, ?_, ?_, ?_⟩
              · rw [hinCall]
                exact le_rfl
              · dsimp only
                rw [hinCall, houtput]
                omega
              · dsimp only
                rw [List.drop_length]
                trivial
              · dsimp only
                rw [List.drop_length, houtput]
                rfl
              · dsimp only
                rw [List.drop_length]
                exact fun r hr => absurd hr List.not_mem_nil
          | false =>
              rw [if_neg (by rw [henabled]; nofun)]
              refine ⟨hcursors, fun htrue => ?_, hbusy, hcounted⟩
              rw [henabled] at htrue
              cases htrue

theorem Lags.step (h : Lags config t) (hs : (timelineSystem config).Step t e t') :
    Lags config t' := by
  obtain ⟨⟨hordinary, htoggle⟩, hs⟩ := hs
  obtain ⟨track, htrack, rfl⟩ := Option.map_eq_some_iff.mp hs
  have hmoves := step_moves htrack
  have hcursors := h.cursors.moves hmoves (by rintro rfl; cases hordinary)
  have hcounted := h.counted
  cases hmoves with
  | steady hs call returned =>
      refine h.same hcursors hs.enabled
        (fun _ h => h.same hs.inputCursor hs.outputCursor (inCall_map call) returned) ?_ ?_
      · intro hcall
        refine h.busy fun hnone => hcall ?_
        rw [hnone] at call
        exact Option.map_eq_none_iff.mp call
      · rw [hs.samplesOut, hs.enhancedSamples, hs.rawFallbackSamples]
        exact hcounted
  | stored start pcm enhanced insert low high hs call returned =>
      have hinCall : track.inCall = t.track.inCall := by
        rw [ProcessorState.inCall, ProcessorState.inCall, call]
      refine h.same hcursors hs.enabled
        (fun _ h => h.same hs.inputCursor hs.outputCursor hinCall returned)
        (fun hcall => h.busy (call ▸ hcall)) ?_
      rw [hs.samplesOut, hs.enhancedSamples, hs.rawFallbackSamples]
      exact hcounted
  | passed frame closed enabled take idle call =>
      have hpasses := takeFrame_passes closed enabled take
      refine h.same hcursors hpasses.enabled (fun henabled _ => ?_) (fun hcall => ?_) ?_
      · rw [enabled] at henabled
        cases henabled
      · exact absurd call hcall
      · rw [hpasses.samplesOut, hpasses.sources, hcounted]
  | appended frame raw checked closed enabled append take idle call returned =>
      have happends := takeFrame_appends closed enabled append take
      refine h.same hcursors (happends.enabled.trans enabled.symm)
        (fun _ h => h.appends happends idle call returned) (fun _ => enabled) ?_
      rw [happends.samplesOut, happends.enhancedSamples, happends.rawFallbackSamples]
      exact hcounted
  | refused frame error checked closed enabled append =>
      rw [h.cursors.append_eq_ok enabled (checkFrame_ok checked)] at append
      cases append
  | emitted frame output calling emit call returned =>
      have hemits := emitFrame_emits emit
      refine h.same hcursors hemits.enabled (fun _ h => h.emits hemits calling call returned)
        (fun hcall => absurd call hcall) ?_
      rw [hemits.samplesOut, hemits.sources, hcounted]
  | stuck frame error calling emit =>
      obtain ⟨p, output, hok⟩ := h.cursors.emitFrame_ok config frame
      rw [hok] at emit
      cases emit
  | raised event =>
      subst event
      cases hordinary
  | toggled value event flips processor call =>
      exact h.toggled flips (htoggle ⟨value, event⟩) processor call
  | closing event =>
      subst event
      cases hordinary
  | cleared event =>
      subst event
      cases hordinary

theorem lags_init (config : RemoteFastEnhancerConfig) : Lags config ⟨.init config, 0, 0⟩ where
  cursors := .new config
  trails _ := by
    refine ⟨le_rfl, ?_, le_rfl, trivial, rfl, fun r hr => absurd hr List.not_mem_nil⟩
    change 0 = max 0 (0 - 0 - config.lag)
    omega
  busy hcall := absurd rfl hcall
  counted := rfl

theorem Lags.latency (h : Lags config t) : Latency config t where
  cursor henabled hidle := by
    have hcursor := (h.trails henabled).cursor
    rwa [ProcessorState.inCall, hidle, Option.elim_none, Nat.sub_zero] at hcursor
  adjacent henabled := ⟨(h.trails henabled).adjacent, (h.trails henabled).emitted⟩
  total henabled hidle := by
    have hcursor := (h.trails henabled).cursor
    have htotal := (h.trails henabled).total
    rw [ProcessorState.inCall, hidle, Option.elim_none, Nat.sub_zero] at hcursor
    rw [Timeline.emitted]
    omega
  uncapped frame hcall := by
    have henabled := h.busy (by rw [hcall]; nofun)
    have hdue := (h.trails henabled).uncapped
    rw [ProcessorState.inCall, hcall, Option.elim_some, Call.frame] at hdue
    rw [outputSamples_eq]
    exact Nat.min_eq_right hdue
  read frame _ := h.cursors.emitFrame_ok config frame
  counted := h.counted

/-- While the processor is enabled, and whatever the worker calls back, every call of `_process`
finds its audio, returns frames that are adjacent from the base of the timeline on, and leaves
the output behind the input by the lag. -/
theorem constant_latency (h : (timelineSystem config).Reachable t) : Latency config t := by
  have hlags : Lags config t :=
    Lts.System.Reachable.invariant (lags_init config) (fun _ _ _ h hs => h.step hs) h
  exact hlags.latency

/-- The processor is disabled and enabled again between two calls. -/
def reenabled : List ProcessorEvent :=
  [.process (testFrame 512 1), .trySend true, .emit, .setEnabled false,
    .process (testFrame 100 2), .setEnabled true, .process (testFrame 300 3), .trySend false,
    .overflow, .forceReset, .emit, .process (testFrame 480 4), .trySend true, .emit]

theorem constant_latency_reenabled :
    ∃ t, (timelineSystem testConfig).run ⟨.init testConfig, 0, 0⟩ reenabled = some t ∧
      t.base = 612 ∧ t.track.processor.outputCursor = 944 ∧ Latency testConfig t := by
  obtain ⟨t, hrun, hreach, hp⟩ := Lts.System.Reachable.of_run (timelineSystem testConfig)
    reenabled (fun (t : Timeline) =>
      decide (t.base = 612 ∧ t.track.processor.outputCursor = 944))
    (by decide +kernel) (by decide +kernel)
  obtain ⟨hbase, houtput⟩ := of_decide_eq_true hp
  exact ⟨t, hrun, hbase, houtput, constant_latency hreach⟩

end Lags

/-! ## What the buffers hold -/

/-- The buffers hold no more than `max_buffer_ms`, between the output and the input. -/
structure Bounded (config : RemoteFastEnhancerConfig) (p : RemoteFastEnhancer) : Prop where
  raw : p.raw.endSample - p.raw.startSample ≤ config.maxBufferMs * 16
  enhanced : p.enhanced.samples ≤ config.maxBufferMs * 16
  between : ∀ segment ∈ p.enhanced.segments,
    p.outputCursor ≤ segment.startSample ∧ segment.endSample ≤ p.inputCursor

/-- The processor while it is not closed. -/
def openSystem (config : RemoteFastEnhancerConfig) : Lts.System ProcessorState ProcessorEvent :=
  (processorSystem config).restrict fun _ e => e.ordinary = true

instance (config : RemoteFastEnhancerConfig) (s : ProcessorState) (e : ProcessorEvent) :
    Decidable ((openSystem config).allows s e) :=
  inferInstanceAs (Decidable (_ ∧ _))

/-- The invariant of the buffers. -/
structure Spans (config : RemoteFastEnhancerConfig) (s : ProcessorState) : Prop where
  cursors : Cursors s.processor
  within : s.processor.enhanced.Within s.processor.outputCursor s.processor.inputCursor
  lag : s.processor.inputCursor ≤ s.processor.outputCursor + config.lag + s.inCall

section Spans

variable {config : RemoteFastEnhancerConfig} {s s' : ProcessorState} {e : ProcessorEvent}

theorem within_steady {p p' : RemoteFastEnhancer} {low high : Nat} (hs : Steady p p')
    (h : p.enhanced.Within low high) : p'.enhanced.Within low high := by
  obtain hsame | hclear := hs.enhanced
  · rw [hsame]
    exact h
  · rw [hclear]
    exact p.enhanced.within_clear low high

/-- A disabled processor stores nothing. -/
theorem Spans.nothing (h : Spans config s) (hdisabled : s.processor.enabled = false) :
    s.processor.enhanced.segments = [] := by
  have hwithin := h.within
  rw [(h.cursors.disabled hdisabled).1] at hwithin
  refine List.eq_nil_iff_forall_not_mem.mpr fun segment hmem => ?_
  obtain ⟨hlow, hpos, hhigh⟩ := hwithin.bounds segment hmem
  omega

theorem Spans.step (h : Spans config s)
    (hs : (openSystem config).Step s e s') :
    Spans config s' := by
  have hordinary : e.ordinary = true := hs.allowed.2
  have hmoves := step_moves hs.eq
  have hcursors := h.cursors.moves hmoves (by rintro rfl; cases hordinary)
  have hlag := h.lag
  cases hmoves with
  | steady hs call returned =>
      refine ⟨hcursors, ?_, ?_⟩
      · rw [hs.outputCursor, hs.inputCursor]
        exact within_steady hs h.within
      · rw [hs.outputCursor, hs.inputCursor, inCall_map call]
        exact hlag
  | stored start pcm enhanced insert low high hs call =>
      refine ⟨hcursors, ?_, ?_⟩
      · rw [hs.outputCursor, hs.inputCursor]
        exact within_steady hs (h.within.insert low high insert)
      · rw [hs.outputCursor, hs.inputCursor, ProcessorState.inCall, call]
        exact hlag
  | passed frame closed enabled take idle call =>
      have hpasses := takeFrame_passes closed enabled take
      refine ⟨hcursors, ?_, ?_⟩
      · constructor
        · rw [hpasses.enhanced, h.nothing enabled]
          exact .nil
        · rw [hpasses.enhanced, h.nothing enabled]
          exact fun _ hmem => absurd hmem List.not_mem_nil
      · rw [hpasses.outputCursor, hpasses.inputCursor]
        omega
  | appended frame raw checked closed enabled append take idle call =>
      have happends := takeFrame_appends closed enabled append take
      have hbefore : s.inCall = 0 := by rw [ProcessorState.inCall, idle, Option.elim_none]
      have hafter : s'.inCall = frame.samplesPerChannel := by
        obtain ⟨c, hc, hframe⟩ := Option.map_eq_some_iff.mp call
        rw [ProcessorState.inCall, hc, Option.elim_some, hframe]
      refine ⟨hcursors, ?_, ?_⟩
      · rw [happends.outputCursor, happends.inputCursor, happends.enhanced]
        exact h.within.mono (Nat.le_add_right _ _)
      · rw [happends.outputCursor, happends.inputCursor]
        omega
  | refused frame error checked closed enabled append =>
      rw [h.cursors.append_eq_ok enabled (checkFrame_ok checked)] at append
      cases append
  | emitted frame output calling emit call =>
      have hemits := emitFrame_emits emit
      have hinCall : s.inCall = frame.samplesPerChannel := by
        rw [ProcessorState.inCall, calling, Option.elim_some, Call.frame]
      refine ⟨hcursors, ?_, ?_⟩
      · rw [hemits.inputCursor, hemits.enhanced]
        exact h.within.discardBefore _
      · have hcount := hemits.outputCursor
        rw [outputSamples_eq, RemoteFastEnhancer.due] at hcount
        rw [hemits.inputCursor]
        omega
  | stuck frame error calling emit =>
      obtain ⟨p, output, hok⟩ := h.cursors.emitFrame_ok config frame
      rw [hok] at emit
      cases emit
  | raised event =>
      subst event
      cases hordinary
  | toggled value event flips processor =>
      unfold RemoteFastEnhancer.setEnabled at processor flips
      split at flips
      · cases flips
      · next hclosed =>
          split at flips
          · cases flips
          · next hvalue =>
              rw [if_neg hclosed, if_neg hvalue] at processor
              refine ⟨hcursors, ?_, ?_⟩
              · rw [processor]
                exact s.processor.enhanced.within_clear _ _
              · rw [processor]
                dsimp only
                omega
  | closing event =>
      subst event
      cases hordinary
  | cleared event =>
      subst event
      cases hordinary

theorem spans_init (config : RemoteFastEnhancerConfig) : Spans config (.init config) where
  cursors := .new config
  within := EnhancedSegments.within_clear .new 0 0
  lag := Nat.zero_le _

theorem reachable_spans (h : (openSystem config).Reachable s) : Spans config s :=
  Lts.System.Reachable.invariant (spans_init config) (fun _ _ _ h hs => Spans.step h hs) h

theorem Spans.bounded (h : Spans config s) (hidle : s.call = none)
    (hlag : config.lag ≤ config.maxBufferMs * 16) : Bounded config s.processor := by
  have hbehind := h.lag
  rw [ProcessorState.inCall, hidle, Option.elim_none] at hbehind
  refine ⟨?_, ?_, ?_⟩
  · cases henabled : s.processor.enabled with
    | true =>
        obtain ⟨hstart, hend⟩ := h.cursors.enabled henabled
        omega
    | false =>
        rw [ContiguousPCM.endSample, (h.cursors.disabled henabled).2, List.length_nil]
        omega
  · have hsamples := h.within.samples_le
    omega
  · intro segment hmem
    obtain ⟨hlow, -, hhigh⟩ := h.within.bounds segment hmem
    exact ⟨hlow, hhigh⟩

theorem reachable_step (h : (openSystem config).Reachable s) (hs : s.step config e = some s')
    (he : e.ordinary = true) : (openSystem config).Reachable s' := h.step ⟨⟨trivial, he⟩, hs⟩

/-- A call for which nothing is due returns an empty frame. -/
theorem call_reachable (h : (openSystem config).Reachable s) (hidle : s.call = none)
    (hclosed : s.processor.closed = false) (henabled : s.processor.enabled = true)
    {frame : AudioFrame} (hcheck : RemoteFastEnhancer.checkFrame config frame = .ok ())
    (hdue : s.processor.inputCursor + frame.samplesPerChannel ≤
      s.processor.outputCursor + config.lag) :
    ∃ s', (openSystem config).Reachable s' ∧ s'.call = none ∧ s'.processor.closed = false ∧
      s'.processor.enabled = true ∧
      s'.processor.inputCursor = s.processor.inputCursor + frame.samplesPerChannel ∧
      s'.processor.outputCursor = s.processor.outputCursor := by
  have hcursors := (reachable_spans h).cursors
  obtain ⟨p, happends, hprocess⟩ := process_appends hcursors hclosed henabled hcheck
  have hp : Cursors p := hcursors.appends happends henabled (checkFrame_ok hcheck)
  obtain ⟨p', output, hemit⟩ := hp.emitFrame_ok config frame
  have hemits := emitFrame_emits hemit
  have hstep₁ : s.step config (.process frame) = some (s.process config frame) := by
    rw [ProcessorState.step, hidle, Option.isNone_none, if_pos rfl]
  obtain ⟨s₁, hs₁, hcall₁, hp₁⟩ : ∃ s₁, s.step config (.process frame) = some s₁ ∧
      s₁.call = some (.sending frame s.processor.inputCursor) ∧ s₁.processor = p :=
    ⟨_, hprocess ▸ hstep₁, rfl, rfl⟩
  have hs₂ : s₁.step config (.trySend true) =
      some { s₁ with call := some (.emitting frame) } := by
    simp only [ProcessorState.step, hcall₁, if_true]
  have hs₃ : ProcessorState.step config { s₁ with call := some (.emitting frame) } .emit =
      some (ProcessorState.emit config frame { s₁ with call := some (.emitting frame) }) := rfl
  have hreach := reachable_step (reachable_step (reachable_step h hs₁ rfl) hs₂ rfl) hs₃ rfl
  refine ⟨_, hreach, ?_⟩
  simp only [ProcessorState.emit, hp₁, hemit]
  refine ⟨trivial, hemits.closed.trans happends.closed,
    hemits.enabled.trans happends.enabled, hemits.inputCursor.trans happends.inputCursor, ?_⟩
  rw [hemits.outputCursor, outputSamples_eq, RemoteFastEnhancer.due, happends.inputCursor,
    happends.outputCursor]
  omega

theorem maxBufferSamples_eq (config : RemoteFastEnhancerConfig) :
    config.maxBufferSamples = config.maxBufferMs * 16 := by
  rw [RemoteFastEnhancerConfig.maxBufferSamples, sampleRateHz]
  omega

/-- `__post_init__` refuses a buffer of less than two hops. -/
theorem maxBufferMs_le (config : RemoteFastEnhancerConfig) : 32 ≤ config.maxBufferMs := by
  have haccepted := config.accepted
  unfold ConfigFields.postInit at haccepted
  split at haccepted
  · cases haccepted
  · split at haccepted
    · cases haccepted
    · split at haccepted
      · cases haccepted
      · next hbounds =>
          rw [not_or, Nat.not_lt] at hbounds
          exact hbounds.1

theorem checkFrame_testFrame {n : Nat} (h : n ≤ config.maxBufferSamples) :
    RemoteFastEnhancer.checkFrame config (testFrame n 0) = .ok () := by
  have hlen : (testFrame n 0).data.length = (testFrame n 0).samplesPerChannel * 2 :=
    List.length_replicate
  have hfits : ¬ config.maxBufferSamples < (testFrame n 0).samplesPerChannel := Nat.not_lt.mpr h
  have hmono : ¬ ((testFrame n 0).sampleRate ≠ sampleRateHz ∨ (testFrame n 0).numChannels ≠ 1) :=
    not_or.mpr ⟨not_not.mpr rfl, not_not.mpr rfl⟩
  rw [RemoteFastEnhancer.checkFrame, if_neg hmono, if_neg (not_not.mpr hlen), if_neg hfits]

/-- Between two calls the buffers of a processor that is not closed hold no more than
`max_buffer_ms`, whatever happens, exactly when the lag is no longer than that. -/
theorem buffers_bounded_iff (config : RemoteFastEnhancerConfig) :
    (∀ s, (openSystem config).Reachable s → s.call = none → Bounded config s.processor) ↔
      256 + config.responseWaitSamples ≤ config.maxBufferMs * 16 := by
  constructor
  · intro hbounded
    by_contra hlag
    rw [Nat.not_le, ← maxBufferSamples_eq] at hlag
    change config.maxBufferSamples < config.lag at hlag
    -- a frame that fills the buffer, and one more sample
    obtain ⟨s, hs, hidle, hclosed, henabled, hinput, houtput⟩ :=
      call_reachable (.init : (openSystem config).Reachable _) rfl rfl rfl
        (checkFrame_testFrame le_rfl) (by
          change 0 + config.maxBufferSamples ≤ 0 + config.lag
          omega)
    have hone : 1 ≤ config.maxBufferSamples := by
      have hle := maxBufferMs_le config
      rw [maxBufferSamples_eq]
      omega
    change s.processor.inputCursor = 0 + config.maxBufferSamples at hinput
    change s.processor.outputCursor = 0 at houtput
    obtain ⟨s', hs', hidle', -, henabled', hinput', houtput'⟩ :=
      call_reachable hs hidle hclosed henabled (checkFrame_testFrame hone) (by
        change s.processor.inputCursor + 1 ≤ s.processor.outputCursor + config.lag
        omega)
    have hraw := (hbounded s' hs' hidle').raw
    obtain ⟨hstart, hend⟩ := (reachable_spans hs').cursors.enabled henabled'
    change s'.processor.inputCursor = s.processor.inputCursor + 1 at hinput'
    rw [← maxBufferSamples_eq] at hraw
    omega
  · intro hlag s hreach hidle
    exact (reachable_spans hreach).bounded hidle hlag

/-- The lag of the response budget is longer than the buffer. -/
def slowConfig : RemoteFastEnhancerConfig where
  toConfigFields := { testConfig.toConfigFields with maxBufferMs := 32, outputDelayMs := 40 }
  accepted := by decide +kernel

/-- The raw buffer holds 800 samples, and `max_buffer_ms` stands for 512. -/
theorem raw_beyond_max_buffer :
    ¬ ∀ s, (openSystem slowConfig).Reachable s → s.call = none →
      Bounded slowConfig s.processor := by
  intro hbounded
  obtain ⟨s, _, hreach, hp⟩ := Lts.System.Reachable.of_run (openSystem slowConfig)
    [.process (testFrame 400 1), .trySend true, .emit, .process (testFrame 400 2), .trySend true,
      .emit]
    (fun (s : ProcessorState) => decide (s.call = none ∧ s.processor.raw.startSample = 0 ∧
      s.processor.raw.endSample = 800))
    (by decide +kernel) (by decide +kernel)
  obtain ⟨hidle, hstart, hend⟩ := of_decide_eq_true hp
  have hraw := (hbounded s hreach hidle).raw
  rw [hstart, hend] at hraw
  exact absurd hraw (by decide)

end Spans

end VoxLattice.Plugin
