import Mathlib.Data.Int.Basic

/-!
# Server settings

The integer limits of `ServerSettings` and the part of `from_environment` that reads them.  An
environment variable is taken after `int(...)` has parsed it.  `_positive_int` refuses a value
that is not positive, so every setting carries the proof that it is.

The other fields (addresses, paths, the token, the TLS files and the two durations) are read
by no modelled function and are left out.
-/

namespace VoxLattice.Server

/-- `SAMPLE_RATE_HZ`. -/
def sampleRateHz : Nat := 16000

/-- `HOP_SAMPLES`. -/
def hopSamples : Nat := 256

@[simp] theorem sampleRateHz_eq : sampleRateHz = 16000 := rfl

@[simp] theorem hopSamples_eq : hopSamples = 256 := rfl

/-- The Python exceptions, each with its text. -/
inductive PyError where
  /-- `ValueError`. -/
  | value (detail : String)
  /-- `BufferError`. -/
  | buffer (detail : String)
  /-- `IndexError`. -/
  | index
  /-- `KeyError`. -/
  | key (detail : String)
  /-- `RuntimeError`. -/
  | runtime (detail : String)
deriving DecidableEq, Repr

/-- `_positive_int`. -/
def positiveInt (env : String → Option Int) (name : String) (default : Nat) :
    Except PyError { n : Nat // 0 < n } :=
  let value := (env name).getD default
  if h : value ≤ 0 then .error (.value (name ++ " must be positive"))
  else .ok ⟨value.toNat, by omega⟩

/-- The limits the server runs with. -/
structure ServerSettings where
  maxActiveStreams : Nat
  maxBatchSize : Nat
  maxPendingAudioMsPerStream : Nat
  maxOutputAudioMsPerStream : Nat
  maxAudioChunkSamples : Nat
  maxActiveStreams_pos : 0 < maxActiveStreams
  maxBatchSize_pos : 0 < maxBatchSize
  maxPendingAudioMsPerStream_pos : 0 < maxPendingAudioMsPerStream
  maxOutputAudioMsPerStream_pos : 0 < maxOutputAudioMsPerStream
  maxAudioChunkSamples_pos : 0 < maxAudioChunkSamples

namespace ServerSettings

/-- `ServerSettings.from_environment`, for the integer limits. -/
def fromEnvironment (env : String → Option Int) : Except PyError ServerSettings := do
  let maxActiveStreams ← positiveInt env "MAX_ACTIVE_STREAMS" 128
  let maxBatchSize ← positiveInt env "MAX_BATCH_SIZE" 32
  let maxPending ← positiveInt env "MAX_PENDING_AUDIO_MS_PER_STREAM" 500
  let maxOutput ← positiveInt env "MAX_OUTPUT_AUDIO_MS_PER_STREAM" 500
  let maxChunk ← positiveInt env "MAX_AUDIO_CHUNK_SAMPLES" 16000
  return {
    maxActiveStreams := maxActiveStreams.1
    maxBatchSize := maxBatchSize.1
    maxPendingAudioMsPerStream := maxPending.1
    maxOutputAudioMsPerStream := maxOutput.1
    maxAudioChunkSamples := maxChunk.1
    maxActiveStreams_pos := maxActiveStreams.2
    maxBatchSize_pos := maxBatchSize.2
    maxPendingAudioMsPerStream_pos := maxPending.2
    maxOutputAudioMsPerStream_pos := maxOutput.2
    maxAudioChunkSamples_pos := maxChunk.2
  }

/-- The settings of an empty environment. -/
def defaults : ServerSettings where
  maxActiveStreams := 128
  maxBatchSize := 32
  maxPendingAudioMsPerStream := 500
  maxOutputAudioMsPerStream := 500
  maxAudioChunkSamples := 16000
  maxActiveStreams_pos := by decide
  maxBatchSize_pos := by decide
  maxPendingAudioMsPerStream_pos := by decide
  maxOutputAudioMsPerStream_pos := by decide
  maxAudioChunkSamples_pos := by decide

/-- An empty environment is accepted and gives the defaults. -/
theorem fromEnvironment_none : fromEnvironment (fun _ => none) = .ok defaults := rfl

/-- The environment that sets every limit to what the settings say. -/
def environment (s : ServerSettings) : String → Option Int
  | "MAX_ACTIVE_STREAMS" => some s.maxActiveStreams
  | "MAX_BATCH_SIZE" => some s.maxBatchSize
  | "MAX_PENDING_AUDIO_MS_PER_STREAM" => some s.maxPendingAudioMsPerStream
  | "MAX_OUTPUT_AUDIO_MS_PER_STREAM" => some s.maxOutputAudioMsPerStream
  | "MAX_AUDIO_CHUNK_SAMPLES" => some s.maxAudioChunkSamples
  | _ => none

theorem positiveInt_some {env : String → Option Int} {name : String} {default n : Nat}
    (hpos : 0 < n) (h : env name = some (n : Int)) :
    positiveInt env name default = .ok ⟨n, hpos⟩ := by
  have hn : n ≠ 0 := by omega
  simp [positiveInt, h, hn]

/-- Every value of the type is one some environment gives: the type has no settings that
`from_environment` refuses. -/
theorem fromEnvironment_environment (s : ServerSettings) :
    fromEnvironment s.environment = .ok s := by
  unfold fromEnvironment
  rw [positiveInt_some s.maxActiveStreams_pos rfl, positiveInt_some s.maxBatchSize_pos rfl,
    positiveInt_some s.maxPendingAudioMsPerStream_pos rfl,
    positiveInt_some s.maxOutputAudioMsPerStream_pos rfl,
    positiveInt_some s.maxAudioChunkSamples_pos rfl]
  rfl

/-- `queue_hops` of `Enhance`: the hops the input queue of a stream holds. -/
def queueHops (s : ServerSettings) : Nat :=
  max 1 (s.maxPendingAudioMsPerStream * sampleRateHz / 1000 / hopSamples)

/-- `output_hops` of `Enhance`: the events the output queue of a stream holds. -/
def outputHops (s : ServerSettings) : Nat :=
  max 1 (s.maxOutputAudioMsPerStream * sampleRateHz / 1000 / hopSamples)

theorem queueHops_pos (s : ServerSettings) : 0 < s.queueHops := by
  unfold queueHops
  omega

theorem outputHops_pos (s : ServerSettings) : 0 < s.outputHops := by
  unfold outputHops
  omega

/-- The output queue holds two events exactly from 32 ms on. -/
theorem two_le_outputHops_iff (s : ServerSettings) :
    2 ≤ s.outputHops ↔ 32 ≤ s.maxOutputAudioMsPerStream := by
  unfold outputHops
  simp only [sampleRateHz_eq, hopSamples_eq]
  omega

end ServerSettings

end VoxLattice.Server
