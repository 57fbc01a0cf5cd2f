import VoxLattice.Server.Audio

/-!
# The messages of the protocol

`proto/fastenhancer/v1/enhancement.proto`, with the wire types of its fields.  Python integers
are unbounded; `toUInt64?` and `toUInt32?` are the check protobuf makes when a message is
built.  An enumeration is open in proto3, so an unknown number is a value of its own.

`StreamError` is in the schema and no code builds or reads one: only its place among the
bodies is kept.
-/

namespace VoxLattice.Server

/-- `SampleFormat`. -/
inductive SampleFormat where
  | unspecified
  | pcmS16le
  /-- A number the schema does not name. -/
  | unrecognized (n : Nat)
deriving DecidableEq, Repr

/-- `StartStream`. -/
structure StartStream where
  protocolVersion : String
  streamId : String
  inputStartSample : UInt64
  sampleRateHz : UInt32
  channels : UInt32
  sampleFormat : SampleFormat
  metadata : List (String × String)
deriving DecidableEq

/-- `AudioChunk`. -/
structure AudioChunk where
  sequence : UInt64
  inputStartSample : UInt64
  pcmS16le : Bytes
deriving DecidableEq

/-- The body of a `ClientMessage`. -/
inductive ClientMessage where
  | start (start : StartStream)
  | audio (chunk : AudioChunk)
  /-- `EndStream`. -/
  | endStream (flush : Bool)
  /-- A message without a body. -/
  | empty
deriving DecidableEq

/-- `StreamAccepted`. -/
structure StreamAccepted where
  protocolVersion : String
  modelName : String
  modelRevision : String
  modelSha256 : String
  sampleRateHz : Nat
  channels : Nat
  sampleFormat : SampleFormat
  hopSamples : Nat
  algorithmicDelaySamples : Nat
  cudaDevice : String
  maxAudioChunkSamples : Nat
deriving DecidableEq

/-- `EnhancedAudio`. -/
structure EnhancedAudio where
  outputSequence : UInt64
  outputStartSample : UInt64
  pcmS16le : Bytes
  validSamples : UInt32
deriving DecidableEq

/-- `StreamEnded`. -/
structure StreamEnded where
  inputSamples : UInt64
  outputSamples : UInt64
  flushed : Bool
deriving DecidableEq

/-- The body of a `ServerMessage`. -/
inductive ServerMessage where
  | accepted (accepted : StreamAccepted)
  | audio (audio : EnhancedAudio)
  | ended (ended : StreamEnded)
  /-- `StreamError`. -/
  | error
  /-- A message without a body. -/
  | empty
deriving DecidableEq

/-- The `grpc.StatusCode` values the server ends a stream with. -/
inductive StatusCode where
  | invalidArgument
  | failedPrecondition
  | resourceExhausted
  | alreadyExists
  | deadlineExceeded
  | internal
deriving DecidableEq, Repr

/-- `ProtocolViolation`. -/
structure ProtocolViolation where
  status : StatusCode
  detail : String
deriving DecidableEq, Repr

/-- The samples of a chunk. -/
def AudioChunk.samples (chunk : AudioChunk) : Nat := chunk.pcmS16le.length / 2

/-- Protobuf's range check of a `uint64` field. -/
def toUInt64? (n : Nat) : Option UInt64 := if n < 2 ^ 64 then some (UInt64.ofNat n) else none

/-- Protobuf's range check of a `uint32` field. -/
def toUInt32? (n : Nat) : Option UInt32 := if n < 2 ^ 32 then some (UInt32.ofNat n) else none

theorem toUInt64?_eq_some {n : Nat} {u : UInt64} (h : toUInt64? n = some u) :
    u.toNat = n := by
  unfold toUInt64? at h
  split at h
  · next hn =>
      cases h
      rw [UInt64.toNat_ofNat']
      exact Nat.mod_eq_of_lt hn
  · cases h

theorem toUInt32?_eq_some {n : Nat} {u : UInt32} (h : toUInt32? n = some u) :
    u.toNat = n := by
  unfold toUInt32? at h
  split at h
  · next hn =>
      cases h
      rw [UInt32.toNat_ofNat']
      exact Nat.mod_eq_of_lt hn
  · cases h

end VoxLattice.Server
