import VoxLattice.Plugin.System

/-!
# The plugin probe of the load generator

`plugin_probe` of `benchmarks/load.py`.  It makes a `RemoteFastEnhancer`, calls `_process` for one
hop after the other, reads the metrics, calls `_close`, and asks whether so many samples were
returned as it expects of the timeline.  It is one more thread beside those of the plugin, and
nothing else sets `enabled`, calls `_process` or calls `_close`.

The probe waits before every call until the hop is due.  The other threads may take any steps in
between, with or without that wait, and it is left out.  `duration_s` and `output_delay_ms` are
floats in the source and rationals here, and what `sine_hop` computes with floats is a parameter.
-/

namespace VoxLattice.Benchmarks

open Server (Bytes PyError int16Bytes roundHalfEven)
open Plugin (AudioFrame ConfigFields GRPCWorker PluginEvent PluginMetrics PluginState
  RemoteFastEnhancerConfig)

/-- `HOP_SAMPLES` of the load generator. -/
def hopSamples : Nat := 256

/-- `HOP_SECONDS`. -/
def hopSeconds : ℚ := hopSamples / 16000

/-! ## The audio -/

/-- The rounded value of the sine of a frequency at a sample, with the amplitude of `sine_hop`. -/
abbrev Sine := Nat → Nat → Int

/-- `sine_hop`. -/
def sineHop (sine : Sine) (streamIndex hopIndex : Nat) : Bytes :=
  let frequency := 220 + streamIndex * 7
  let base := hopIndex * hopSamples
  (List.range hopSamples).flatMap fun index => int16Bytes (sine frequency (base + index))

/-- The frame of a hop. -/
def probeFrame (sine : Sine) (index : Nat) : AudioFrame :=
  ⟨sineHop sine 997 index, 16000, 1, hopSamples, []⟩

/-! ## The arguments -/

/-- The configuration of the processor of the probe, before `__post_init__`. -/
def probeFields (endpoint : String) (outputDelayMs : ℚ) : ConfigFields where
  endpoint := endpoint
  tls := false
  clientCertificateChain := none
  clientPrivateKey := none
  connectTimeoutS := 2
  outputDelayMs := outputDelayMs
  maxBufferMs := 500
  maxRequestQueueMs := 500
  reconnectMinDelayS := 1 / 10
  reconnectMaxDelayS := 2
  streamMetadata := []
  expectedModelRevision := "49ab55a57e3a064d94c6412cd0f0a383a55ca0f8"
  expectedModelSha256 := "980ec00d9c3cb0497893c815c718a2fe44970329ae8477d22596d0a1373f2382"

/-- The arguments of `plugin_probe`, but for the token. -/
structure ProbeArguments where
  endpoint : String
  durationS : ℚ
  outputDelayMs : ℚ
  /-- Otherwise the processor is not made. -/
  accepted : (probeFields endpoint outputDelayMs).postInit = .ok ()

namespace ProbeArguments

def config (args : ProbeArguments) : RemoteFastEnhancerConfig :=
  ⟨probeFields args.endpoint args.outputDelayMs, args.accepted⟩

/-- `hop_count`.  The source divides floats, and its quotient can round the other way: that of the
float 0.088 lies below 5.5, and the source rounds it to 5.5 and makes 6 hops, not 5. -/
def hopCount (args : ProbeArguments) : Nat :=
  (max 4 (roundHalfEven (args.durationS / hopSeconds))).toNat

end ProbeArguments

/-! ## The check -/

/-- `eligible`, for a number of hops. -/
def eligible (hopCount : Nat) : Nat := hopCount * hopSamples - 256

/-- What `plugin_probe` returns. -/
structure PluginProbe where
  inputSamples : Nat
  outputSamples : Nat
  eligibleSamples : Nat
  fallbackRatio : ℚ
  outputDelayMs : ℚ
  metrics : PluginMetrics
deriving DecidableEq

/-- The exception of `plugin_probe` itself. -/
def mismatch : PyError := .runtime "plugin probe output does not match the delayed timeline"

/-- What follows `_close`. -/
def check (args : ProbeArguments) (outputSamples : Nat) (metrics : PluginMetrics) :
    Except PyError PluginProbe :=
  if outputSamples ≠ eligible args.hopCount then .error mismatch
  else
    .ok {
      inputSamples := args.hopCount * hopSamples
      outputSamples
      eligibleSamples := eligible args.hopCount
      fallbackRatio :=
        if eligible args.hopCount ≠ 0 then metrics.rawFallbackSamples / eligible args.hopCount
        else 0
      outputDelayMs := args.outputDelayMs
      metrics }

/-! ## The thread -/

/-- How `plugin_probe` ends. -/
inductive ProbeEnd where
  /-- An exception of the plugin passes through. -/
  | escaped
  | checked (result : Except PyError PluginProbe)

/-- Where `plugin_probe` is. -/
inductive ProbePlace where
  /-- At the top of the loop, with this index or with none left. -/
  | looping (index : Nat)
  /-- In the call of `_process` with this index. -/
  | processing (index : Nat)
  /-- Before `_close`, with the metrics or with an exception of `_process`. -/
  | leaving (metrics : Option PluginMetrics)
  /-- In `_close`. -/
  | closing (metrics : Option PluginMetrics)
  | over (result : ProbeEnd)

structure ProbeState where
  plugin : PluginState
  outputSamples : Nat
  place : ProbePlace

inductive ProbeEvent where
  /-- `_process` is called. -/
  | call
  /-- `_process` has returned or raised. -/
  | returns
  /-- The loop is over, and the metrics are read. -/
  | metrics
  /-- `_close` is called. -/
  | close
  /-- `_close` runs its last block and returns. -/
  | closed
  /-- A step inside `_process` or `_close`, or of another thread. -/
  | plugin (event : PluginEvent)
deriving DecidableEq

/-- The step is one that a caller of the processor decides on, or the last one of `_close`. -/
def ofCaller : PluginEvent → Bool
  | .process _ | .setEnabled _ | .beginClose | .endClose | .streamInfoUpdated _ _ _
  | .streamInfoCleared => true
  | _ => false

/-- The next step of `close` is a put that raises. -/
def closeRaises (w : GRPCWorker) : Bool :=
  match w.closing with
  | .puttingEnd => (w.putNowait (.endStream true)).isNone
  | .puttingStop => (w.putNowait (.stop true)).isNone
  | _ => false

namespace ProbeState

def init (args : ProbeArguments) : ProbeState where
  plugin := .init args.config
  outputSamples := 0
  place := .looping 0

/-- How the probe ends once the processor is closed. -/
def finish (args : ProbeArguments) (s : ProbeState) : Option PluginMetrics → ProbeEnd
  | some metrics => .checked (check args s.outputSamples metrics)
  | none => .escaped

/-- The effect of an event. -/
def step (sine : Sine) (args : ProbeArguments) (s : ProbeState) : ProbeEvent → Option ProbeState
  | .call =>
    match s.place with
    | .looping index =>
      if index < args.hopCount then
        (s.plugin.step args.config (.process (probeFrame sine index))).map fun plugin =>
          { s with plugin, place := .processing index }
      else none
    | _ => none
  | .returns =>
    match s.place with
    | .processing index =>
      if s.plugin.track.call.isSome then none
      else
        match s.plugin.track.returned[index]? with
        | some returned =>
          some { s with
            outputSamples := s.outputSamples + returned.frame.samplesPerChannel
            place := .looping (index + 1) }
        | none => some { s with place := .leaving none }
    | _ => none
  | .metrics =>
    match s.place with
    | .looping index =>
      if index < args.hopCount then none
      else some { s with place := .leaving (some s.plugin.track.processor.metrics) }
    | _ => none
  | .close =>
    match s.place with
    | .leaving metrics =>
      (s.plugin.step args.config .beginClose).map fun plugin =>
        { s with plugin, place := .closing metrics }
    | _ => none
  | .closed =>
    match s.place with
    | .closing metrics =>
      (s.plugin.step args.config .endClose).map fun plugin =>
        { s with plugin, place := .over (s.finish args metrics) }
    | _ => none
  | .plugin event =>
    if ofCaller event then none
    else
      (s.plugin.step args.config event).map fun plugin =>
        { s with
          plugin
          place := if event = .worker .closeStep ∧ closeRaises s.plugin.worker = true then
              .over .escaped
            else s.place }

def allows (s : ProbeState) : ProbeEvent → Prop
  | .plugin event => s.plugin.allows event
  | _ => True

end ProbeState

/-- `plugin_probe` and its processor as a transition system. -/
def probeSystem (sine : Sine) (args : ProbeArguments) : Lts.System ProbeState ProbeEvent where
  init := .init args
  step := ProbeState.step sine args
  allows := ProbeState.allows

end VoxLattice.Benchmarks
