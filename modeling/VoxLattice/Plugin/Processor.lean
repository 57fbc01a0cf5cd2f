import VoxLattice.Plugin.Metadata
import VoxLattice.Plugin.Timeline

/-!
# The frame processor

`RemoteFastEnhancer` without its worker.  Several threads enter it: the thread that calls
`_process`, a thread that sets `enabled` or calls `_close`, and the worker with its callbacks.
Its lock makes each block under `with self._condition` one step, and every such block is a
function of the state here, under the name of its method.  `_process` has three of them, with
calls of the worker in between.

An exception of Python leaves the state a block has reached behind, so a block that may raise
returns the state together with its result.

The durations of the configuration are floats in the source and rationals here; `round` is the
rounding to even of `Server.roundHalfEven`.  The keys and certificates matter to gRPC alone, and
of them only what `__post_init__` asks is kept.
-/

namespace VoxLattice.Plugin

open Server (Bytes PyError roundHalfEven)

/-- `ALGORITHMIC_DELAY_SAMPLES` of the plugin. -/
def algorithmicDelaySamples : Nat := 256

/-- `SAMPLE_RATE_HZ` of the plugin. -/
def sampleRateHz : Nat := 16000

/-! ## Configuration -/

/-- `RemoteFastEnhancerConfig`, before `__post_init__`. -/
structure ConfigFields where
  endpoint : String
  tls : Bool
  clientCertificateChain : Option Bytes
  clientPrivateKey : Option Bytes
  connectTimeoutS : ℚ
  outputDelayMs : ℚ
  maxBufferMs : Nat
  maxRequestQueueMs : Nat
  reconnectMinDelayS : ℚ
  reconnectMaxDelayS : ℚ
  streamMetadata : Metadata
  expectedModelRevision : String
  expectedModelSha256 : String

/-- `bool` of an optional `bytes`. -/
def hasBytes (value : Option Bytes) : Bool := value.any fun bytes => !bytes.isEmpty

/-- The checks of `__post_init__`, in their order. -/
def ConfigFields.postInit (c : ConfigFields) : Except PyError Unit :=
  if c.endpoint.isEmpty then .error (.value "endpoint must not be empty")
  else if c.connectTimeoutS ≤ 0 ∨ c.outputDelayMs < 0 then
    .error (.value "timeouts must be positive")
  else if c.maxBufferMs < 32 ∨ c.maxRequestQueueMs < 16 then
    .error (.value "buffer bounds are too small for the model contract")
  else if ¬ (0 < c.reconnectMinDelayS ∧ c.reconnectMinDelayS ≤ c.reconnectMaxDelayS) then
    .error (.value "invalid reconnect delay range")
  else if hasBytes c.clientCertificateChain ≠ hasBytes c.clientPrivateKey then
    .error (.value "client certificate chain and private key must be configured together")
  else if (hasBytes c.clientCertificateChain || hasBytes c.clientPrivateKey) && !c.tls then
    .error (.value "client certificates require TLS")
  else if c.expectedModelRevision.length ≠ 40 then
    .error (.value "expected_model_revision must be a full commit hash")
  else if c.expectedModelSha256.length ≠ 64 then
    .error (.value "expected_model_sha256 must be a full SHA-256")
  else if 16 < c.streamMetadata.length then
    .error (.value "stream_metadata has more than 16 entries")
  else if c.streamMetadata.any fun item =>
      item.1.isEmpty || decide (64 < item.1.utf8ByteSize) || decide (256 < item.2.utf8ByteSize) then
    .error (.value "stream_metadata entry exceeds protocol limits")
  else .ok ()

/-- A configuration that `__post_init__` accepts. -/
structure RemoteFastEnhancerConfig extends ConfigFields where
  accepted : toConfigFields.postInit = .ok ()

namespace RemoteFastEnhancerConfig

/-- `_response_wait_samples`. -/
def responseWaitSamples (c : RemoteFastEnhancerConfig) : Nat :=
  (roundHalfEven (c.outputDelayMs * sampleRateHz / 1000)).toNat

/-- The samples `max_buffer_ms` stands for. -/
def maxBufferSamples (c : RemoteFastEnhancerConfig) : Nat := c.maxBufferMs * sampleRateHz / 1000

/-- `max_request_queue_samples` of the transport. -/
def maxRequestQueueSamples (c : RemoteFastEnhancerConfig) : Nat :=
  c.maxRequestQueueMs * sampleRateHz / 1000

end RemoteFastEnhancerConfig

/-! ## The state -/

/-- `rtc.AudioFrame`. -/
structure AudioFrame where
  data : Bytes
  sampleRate : Nat
  numChannels : Nat
  samplesPerChannel : Nat
  userdata : List (String × String)
deriving DecidableEq

/-- `TransportState`. -/
inductive TransportState where
  | disconnected
  | connecting
  | active
  | backoff
  | closed
deriving DecidableEq

/-- `PluginMetrics`. -/
structure PluginMetrics where
  framesIn : Nat := 0
  samplesIn : Nat := 0
  framesOut : Nat := 0
  samplesOut : Nat := 0
  enhancedSamples : Nat := 0
  rawFallbackSamples : Nat := 0
  lateResponseSamples : Nat := 0
  reconnects : Nat := 0
  protocolMismatches : Nat := 0
  queueOverflows : Nat := 0
deriving DecidableEq

/-- `RemoteFastEnhancer`, but for its configuration and its worker. -/
structure RemoteFastEnhancer where
  enabled : Bool
  closed : Bool
  inputCursor : Nat
  outputCursor : Nat
  raw : ContiguousPCM
  enhanced : EnhancedSegments
  remoteGeneration : Nat
  transportState : TransportState
  metadata : Metadata
  metrics : PluginMetrics

namespace RemoteFastEnhancer

/-- `RemoteFastEnhancer.__init__`. -/
def new (config : RemoteFastEnhancerConfig) : RemoteFastEnhancer where
  enabled := true
  closed := false
  inputCursor := 0
  outputCursor := 0
  raw := ⟨0, []⟩
  enhanced := .new
  remoteGeneration := 0
  transportState := .disconnected
  metadata := config.streamMetadata
  metrics := {}

/-! ## The setter of `enabled`, the stream info and `_close` -/

/-- The block of the setter of `enabled`.  The flag says that `force_reset` follows. -/
def setEnabled (value : Bool) (p : RemoteFastEnhancer) : RemoteFastEnhancer × Bool :=
  if p.closed then (p, false)
  else if value = p.enabled then (p, false)
  else
    ({ p with
      enabled := value
      enhanced := p.enhanced.clear
      raw := p.raw.clearAt p.inputCursor
      outputCursor := p.inputCursor }, true)

/-- `_on_stream_info_updated`. -/
def onStreamInfoUpdated (roomName participantIdentity publicationSid : String)
    (p : RemoteFastEnhancer) : RemoteFastEnhancer :=
  { p with
    metadata := p.metadata.streamInfoUpdated roomName participantIdentity publicationSid }

/-- `_on_stream_info_cleared`. -/
def onStreamInfoCleared (p : RemoteFastEnhancer) : RemoteFastEnhancer :=
  { p with metadata := p.metadata.streamInfoCleared }

/-- The first block of `_close`.  The flag says that the call goes on. -/
def beginClose (p : RemoteFastEnhancer) : RemoteFastEnhancer × Bool :=
  if p.closed then (p, false) else ({ p with closed := true }, true)

/-- The last block of `_close`. -/
def endClose (p : RemoteFastEnhancer) : RemoteFastEnhancer :=
  { p with enhanced := p.enhanced.clear, raw := p.raw.clearAt p.inputCursor }

/-! ## The callbacks of the worker -/

/-- `_generation_changed`. -/
def generationChanged (generation : Nat) (state : TransportState) (p : RemoteFastEnhancer) :
    RemoteFastEnhancer :=
  let p :=
    if p.remoteGeneration < generation then
      { p with
        metrics :=
          if p.remoteGeneration ≠ 0 then { p.metrics with reconnects := p.metrics.reconnects + 1 }
          else p.metrics
        remoteGeneration := generation
        enhanced := p.enhanced.clear }
    else p
  { p with transportState := state }

/-- One more protocol mismatch. -/
def countMismatch (p : RemoteFastEnhancer) : RemoteFastEnhancer :=
  { p with metrics := { p.metrics with
      protocolMismatches := p.metrics.protocolMismatches + 1 } }

/-- More samples that came too late. -/
def countLate (samples : Nat) (p : RemoteFastEnhancer) : RemoteFastEnhancer :=
  { p with metrics := { p.metrics with
      lateResponseSamples := p.metrics.lateResponseSamples + samples } }

/-- `_protocol_error`. -/
def protocolError (generation : Nat) (p : RemoteFastEnhancer) : RemoteFastEnhancer :=
  if p.remoteGeneration ≤ generation then
    { p.countMismatch with enhanced := p.enhanced.clear }
  else p

/-- How `_receive_audio` deals with a response. -/
inductive Received where
  /-- It belongs to another generation or is behind the output. -/
  | late
  /-- It reaches beyond the input. -/
  | beyond
  /-- `EnhancedSegments.insert` took it. -/
  | stored
  /-- `EnhancedSegments.insert` raised. -/
  | overlapping
deriving DecidableEq

/-- `_receive_audio` refuses what it got, and `force_reset` follows. -/
def Received.resets : Received → Bool
  | .beyond | .overlapping => true
  | _ => false

/-- The block of `_receive_audio`. -/
def receiveAudio (generation startSample : Nat) (pcmS16le : Bytes) (p : RemoteFastEnhancer) :
    RemoteFastEnhancer × Received :=
  let samples := pcmS16le.length / 2
  if generation ≠ p.remoteGeneration then (p.countLate samples, .late)
  else if startSample + samples ≤ p.outputCursor then (p.countLate samples, .late)
  else
    let trim := p.outputCursor - startSample
    -- nothing is cut, and nothing counted, of a response that starts at the output or later
    let p := p.countLate trim
    let pcmS16le := pcmS16le.drop (trim * 2)
    let startSample := max startSample p.outputCursor
    let endSample := startSample + pcmS16le.length / 2
    if p.inputCursor < endSample then (p.countMismatch, .beyond)
    else
      match p.enhanced.insert startSample pcmS16le with
      | .ok enhanced => ({ p with enhanced }, .stored)
      | .error _ => ({ p.countMismatch with enhanced := p.enhanced.clear }, .overlapping)

/-! ## `_process` -/

/-- The checks of `_process` before it takes the lock. -/
def checkFrame (config : RemoteFastEnhancerConfig) (frame : AudioFrame) : Except PyError Unit :=
  if frame.sampleRate ≠ sampleRateHz ∨ frame.numChannels ≠ 1 then
    .error (.value "RemoteFastEnhancer accepts only 16000 Hz mono AudioFrame input")
  else if frame.data.length ≠ frame.samplesPerChannel * 2 then
    .error (.value "AudioFrame PCM length does not match samples_per_channel")
  else if config.maxBufferSamples < frame.samplesPerChannel then
    .error (.value "AudioFrame exceeds configured bounded timeline capacity")
  else .ok ()

/-- How the first block of `_process` ends. -/
inductive Taken where
  /-- The processor is disabled: the frame itself is returned. -/
  | passthrough
  /-- The frame is in the raw buffer, from this sample on. -/
  | appended (startSample : Nat)
  /-- An exception is raised. -/
  | raised (error : PyError)
deriving DecidableEq

/-- The first block of `_process`. -/
def takeFrame (frame : AudioFrame) (p : RemoteFastEnhancer) : RemoteFastEnhancer × Taken :=
  let sampleCount := frame.samplesPerChannel
  if p.closed then (p, .raised (.runtime "RemoteFastEnhancer is closed"))
  else
    let startSample := p.inputCursor
    let p := { p with
      metrics := { p.metrics with
        framesIn := p.metrics.framesIn + 1
        samplesIn := p.metrics.samplesIn + sampleCount }
      inputCursor := p.inputCursor + sampleCount }
    if !p.enabled then
      ({ p with
        outputCursor := p.inputCursor
        metrics := { p.metrics with
          framesOut := p.metrics.framesOut + 1
          samplesOut := p.metrics.samplesOut + sampleCount
          rawFallbackSamples := p.metrics.rawFallbackSamples + sampleCount } }, .passthrough)
    else
      match p.raw.append startSample frame.data with
      | .error error => (p, .raised error)
      | .ok raw => ({ p with raw }, .appended startSample)

/-- The block of `_process` for a request the worker did not take; `force_reset` follows. -/
def overflow (p : RemoteFastEnhancer) : RemoteFastEnhancer :=
  { p with
    metrics := { p.metrics with queueOverflows := p.metrics.queueOverflows + 1 }
    enhanced := p.enhanced.clear }

/-- `output_samples` of the last block of `_process`. -/
def outputSamples (config : RemoteFastEnhancerConfig) (sampleCount : Nat)
    (p : RemoteFastEnhancer) : Nat :=
  let eligibleUntil := p.inputCursor - algorithmicDelaySamples - config.responseWaitSamples
  min sampleCount (eligibleUntil - p.outputCursor)

/-- What the last block of `_process` reads, and whether it is enhanced. -/
def readOutput (outputSamples : Nat) (p : RemoteFastEnhancer) : Except PyError (Bytes × Bool) :=
  match if outputSamples = 0 then some [] else p.enhanced.read p.outputCursor outputSamples with
  | some output => .ok (output, true)
  | none => (p.raw.read p.outputCursor outputSamples).map fun output => (output, false)

/-- The last block of `_process`. -/
def emitFrame (config : RemoteFastEnhancerConfig) (frame : AudioFrame) (p : RemoteFastEnhancer) :
    RemoteFastEnhancer × Except PyError AudioFrame :=
  let count := outputSamples config frame.samplesPerChannel p
  match p.readOutput count with
  | .error error => (p, .error error)
  | .ok (output, enhanced) =>
    let outputCursor := p.outputCursor + count
    ({ p with
      outputCursor
      raw := p.raw.discardBefore outputCursor
      enhanced := p.enhanced.discardBefore outputCursor
      metrics := { p.metrics with
        enhancedSamples := p.metrics.enhancedSamples + if enhanced then count else 0
        rawFallbackSamples := p.metrics.rawFallbackSamples + if enhanced then 0 else count
        framesOut := p.metrics.framesOut + 1
        samplesOut := p.metrics.samplesOut + count } },
      .ok ⟨output, sampleRateHz, 1, count, frame.userdata⟩)

end RemoteFastEnhancer

/-! ## A configuration and frames for tests -/

/-- The defaults, for an endpoint without TLS. -/
def testConfig : RemoteFastEnhancerConfig where
  endpoint := "127.0.0.1:50051"
  tls := false
  clientCertificateChain := none
  clientPrivateKey := none
  connectTimeoutS := 2
  outputDelayMs := 12
  maxBufferMs := 500
  maxRequestQueueMs := 500
  reconnectMinDelayS := 1 / 10
  reconnectMaxDelayS := 2
  streamMetadata := []
  expectedModelRevision := "49ab55a57e3a064d94c6412cd0f0a383a55ca0f8"
  expectedModelSha256 := "980ec00d9c3cb0497893c815c718a2fe44970329ae8477d22596d0a1373f2382"
  accepted := by decide +kernel

/-- A frame whose bytes are all the same. -/
def testFrame (samples : Nat) (byte : UInt8) : AudioFrame :=
  ⟨List.replicate (samples * 2) byte, sampleRateHz, 1, samples, []⟩

end VoxLattice.Plugin
