import VoxLattice.Lib.Lts
import VoxLattice.Server.Scheduler

/-!
# The server

The state of the process is the streams in the order their sessions were built, the registry,
the ready queue, the suspended state of `BatchScheduler._run`, and the metrics.  A stream is
named by its number, which stands for the identity of the session object.

*Steps.*  asyncio runs one task at a time and switches at an `await` that suspends.  An event
is what one task does between two such points.  Where the source may pass an `await` without
suspending (a put into a queue with room, a generator with an event at hand), the model lets
other tasks run as well, so every run of the source is a run of the model.  The time limits of
the source (the batch window, the idle timeout) may strike at any moment.

*Uncontended locks.*  The registry's lock is never held across an `await`, so `add` and
`remove` do not suspend and the `finally` block of `Enhance` is one step up to the moment its
reader is cancelled.  A cancelled reader does nothing more: `asyncio.Queue.put` and `anext`
only raise.

*Calls without a session.*  A call that ends before its session is built (no token, no first
message, an invalid `StartStream`) changes nothing the model keeps.
-/

namespace VoxLattice.Server

/-! ## Configuration -/

/-- `PROTOCOL_VERSION`. -/
def protocolVersion : String := "1"
/-- `MAX_STREAM_ID_BYTES`. -/
def maxStreamIdBytes : Nat := 128
/-- `MAX_METADATA_ENTRIES`. -/
def maxMetadataEntries : Nat := 16
/-- `MAX_METADATA_KEY_BYTES`. -/
def maxMetadataKeyBytes : Nat := 64
/-- `MAX_METADATA_VALUE_BYTES`. -/
def maxMetadataValueBytes : Nat := 256
/-- `ALGORITHMIC_DELAY_SAMPLES`. -/
def algorithmicDelaySamples : Nat := 256

/-- `StreamingModel`.  The network is not modelled: `returns` relates the arguments of
`infer_batch` to the results it may return, and it may always raise instead. -/
structure StreamingModel (κ : Type*) where
  modelName : String
  modelRevision : String
  checkpointSha256 : String
  cudaDeviceName : String
  initializeStream : κ
  returns : List Tensor → List κ → List Tensor → List κ → Prop

/-- `IdentityDelayModel` of the tests: the caches are the last hop, and the row of a hop is the
hop before it. -/
def identityDelayModel : StreamingModel Tensor where
  modelName := "FastEnhancer-B"
  modelRevision := "49ab55a57e3a064d94c6412cd0f0a383a55ca0f8"
  checkpointSha256 := "980ec00d9c3cb0497893c815c718a2fe44970329ae8477d22596d0a1373f2382"
  cudaDeviceName := "test-double"
  initializeStream := List.replicate hopSamples 0
  returns hops caches wav updated := wav = caches ∧ updated = hops

instance (hops caches wav updated : List Tensor) :
    Decidable (identityDelayModel.returns hops caches wav updated) :=
  inferInstanceAs (Decidable (wav = caches ∧ updated = hops))

/-- The fields of `_capabilities`. -/
def capabilities {κ : Type*} (settings : ServerSettings) (model : StreamingModel κ) :
    StreamAccepted where
  protocolVersion := protocolVersion
  modelName := model.modelName
  modelRevision := model.modelRevision
  modelSha256 := model.checkpointSha256
  sampleRateHz := sampleRateHz
  channels := 1
  sampleFormat := .pcmS16le
  hopSamples := hopSamples
  algorithmicDelaySamples := algorithmicDelaySamples
  cudaDevice := model.cudaDeviceName
  maxAudioChunkSamples := settings.maxAudioChunkSamples

/-- `_capabilities`.  `none` is the `ValueError` of protobuf. -/
def capabilities? {κ : Type*} (settings : ServerSettings) (model : StreamingModel κ) :
    Option StreamAccepted :=
  (toUInt32? settings.maxAudioChunkSamples).map fun _ => capabilities settings model

/-- The loop of `_validate_start` over the metadata. -/
def checkMetadata : List (String × String) → Except ProtocolViolation Unit
  | [] => .ok ()
  | (key, value) :: rest =>
    if key.isEmpty || decide (maxMetadataKeyBytes < key.utf8ByteSize) then
      .error ⟨.invalidArgument, "invalid metadata key"⟩
    else if maxMetadataValueBytes < value.utf8ByteSize then
      .error ⟨.invalidArgument, "metadata value too long"⟩
    else checkMetadata rest

/-- `_validate_start`. -/
def validateStart : ClientMessage → Except ProtocolViolation StartStream
  | .start start =>
    if start.protocolVersion ≠ protocolVersion then
      .error ⟨.failedPrecondition, "unsupported protocol version"⟩
    else if start.streamId.utf8ByteSize = 0 ∨ maxStreamIdBytes < start.streamId.utf8ByteSize then
      .error ⟨.invalidArgument, "invalid stream ID length"⟩
    else if start.sampleRateHz.toNat ≠ sampleRateHz ∨ start.channels ≠ 1 then
      .error ⟨.invalidArgument, "audio must be 16000 Hz mono"⟩
    else if start.sampleFormat ≠ .pcmS16le then
      .error ⟨.invalidArgument, "audio must be PCM-S16LE"⟩
    else if maxMetadataEntries < start.metadata.length then
      .error ⟨.invalidArgument, "too many metadata entries"⟩
    else (checkMetadata start.metadata).map fun _ => start
  | _ => .error ⟨.failedPrecondition, "StartStream must be first"⟩

/-! ## The state -/

/-- A work item in inference, with the number of its stream and the caches it was sent with. -/
structure Flight (κ : Type*) where
  stream : Nat
  work : ModelWork
  caches : κ

/-- Where `BatchScheduler._run` is suspended. -/
inductive Loop (κ : Type*) where
  /-- In `self._ready.get()`, with no session gathered. -/
  | idle
  /-- In the timed `self._ready.get()`, with the sessions gathered so far. -/
  | gathering (sessions : List Nat)
  /-- In `run_in_executor`. -/
  | inference (active : List (Flight κ))
  /-- The task has ended.  `lost` is the part of the batch whose results were never applied. -/
  | stopped (lost : List (Flight κ))

section

variable {κ : Type*}

/-- The sessions gathered for the batch being formed. -/
def Loop.gathered : Loop κ → List Nat
  | .gathering sessions => sessions
  | _ => []

/-- The work items taken and not yet answered. -/
def Loop.flights : Loop κ → List (Flight κ)
  | .inference active => active
  | .stopped lost => lost
  | _ => []

/-- The task is suspended at an `await`: it has not ended. -/
def Loop.suspended : Loop κ → Bool
  | .stopped _ => false
  | _ => true

end

/-- The state of the server process. -/
structure ServerState (κ : Type*) where
  /-- The streams, by number. -/
  streams : List (Stream κ)
  /-- `StreamRegistry._sessions`. -/
  registry : List (String × Nat)
  /-- `BatchScheduler._ready`. -/
  ready : BoundedQueue Nat
  /-- The scheduler task. -/
  loop : Loop κ
  /-- `BatchScheduler._closing`. -/
  closing : Bool
  metrics : Metrics
  /-- Some `put_nowait` on `_ready` has raised `QueueFull`.  Only kept as history. -/
  readyOverflow : Bool

/-- What one task does between two suspensions. -/
inductive Event (κ : Type*) where
  /-- A new call whose first message has arrived. -/
  | enhance (first : ClientMessage)
  /-- `anext` of a reader returns a message. -/
  | deliver (stream : Nat) (message : ClientMessage)
  /-- `anext` of a reader raises `StopAsyncIteration`. -/
  | closeInput (stream : Nat)
  /-- `anext` of a reader times out. -/
  | idleTimeout (stream : Nat)
  /-- `anext` of a reader raises anything else. -/
  | requestError (stream : Nat)
  /-- A suspended put of a reader returns. -/
  | put (stream : Nat)
  /-- The generator of a stream runs to its next suspension. -/
  | resume (stream : Nat)
  /-- The call is cancelled, or its generator is closed. -/
  | cancelCall (stream : Nat)
  /-- The scheduler takes a session from the ready queue. -/
  | gather
  /-- The batch is full or its window is over: the scheduler takes the work items. -/
  | dispatch
  /-- `infer_batch` returned and the results are encoded. -/
  | inferenceReturned (wav : List Tensor) (updated : List κ)
  /-- `infer_batch` raised. -/
  | inferenceRaised
  /-- `BatchScheduler.close`. -/
  | closeScheduler

variable {κ : Type*}

/-- The process after start-up. -/
def ServerState.init (settings : ServerSettings) : ServerState κ where
  streams := []
  registry := []
  ready := .new settings.maxActiveStreams
  loop := .idle
  closing := false
  metrics := ⟨0, 0, 0, 0, 0⟩
  readyOverflow := false

/-- Run a function of one stream and the metrics. -/
def ServerState.onStream (s : ServerState κ) (i : Nat)
    (f : Stream κ → Metrics → Stream κ × Metrics) : ServerState κ :=
  match s.streams[i]? with
  | none => s
  | some st =>
    let (st, metrics) := f st s.metrics
    { s with streams := s.streams.set i st, metrics }

/-! ## Registry and ready queue -/

/-- `StreamRegistry.add`. -/
def registryAdd (settings : ServerSettings) (registry : List (String × Nat)) (streamId : String)
    (i : Nat) : Except ProtocolViolation (List (String × Nat)) :=
  if (registry.lookup streamId).isSome then
    .error ⟨.alreadyExists, "stream ID is active"⟩
  else if settings.maxActiveStreams ≤ registry.length then
    .error ⟨.resourceExhausted, "maximum active streams reached"⟩
  else .ok (registry ++ [(streamId, i)])

/-- `StreamRegistry.remove`: the entry goes only if it is this session's. -/
def registryRemove (registry : List (String × Nat)) (streamId : String) (i : Nat) :
    List (String × Nat) :=
  if registry.lookup streamId = some i then registry.filter fun entry => entry.1 != streamId
  else registry

/-- Set the `scheduled` flag of a stream. -/
def schedule (st : Stream κ) (m : Metrics) : Stream κ × Metrics :=
  ({ st with session := { st.session with scheduled := true } }, m)

/-- `BatchScheduler.notify`.  The second component says that `put_nowait` raised. -/
def notify (s : ServerState κ) (i : Nat) : ServerState κ × Bool :=
  match s.streams[i]? with
  | none => (s, false)
  | some st =>
    if s.closing || st.session.cancelled || st.session.scheduled || st.session.inputQueue.empty then
      (s, false)
    else
      let s := s.onStream i schedule
      match s.ready.putNowait i with
      | some ready => ({ s with ready }, false)
      | none => ({ s with readyOverflow := true }, true)

/-! ## The tasks -/

/-- The session `Enhance` builds for a valid `StartStream`. -/
def startSession (settings : ServerSettings) (model : StreamingModel κ) (start : StartStream) :
    Session κ :=
  .new start.streamId start.inputStartSample.toNat model.initializeStream settings.queueHops
    settings.outputHops

/-- The stream of a session the registry took: its reader is created, and the generator comes to
its first `yield`. -/
def Stream.opened (settings : ServerSettings) (model : StreamingModel κ) (start : StartStream) :
    Stream κ where
  session := startSession settings model start
  reader := .reading false
  enhance := .accepted
  registered := true
  history := ⟨[], [], [], [], []⟩

/-- The stream of a session the registry took, when its generator has yielded the
`StreamAccepted`. -/
def Stream.admitted (settings : ServerSettings) (model : StreamingModel κ) (start : StartStream) :
    Stream κ where
  session := startSession settings model start
  reader := .reading false
  enhance := .accepted
  registered := true
  history := ⟨[], [], [], [], [.accepted (capabilities settings model)]⟩

/-- The stream of a session the registry took, when protobuf refused its `StreamAccepted` and its
call is over. -/
def Stream.unannounced (settings : ServerSettings) (model : StreamingModel κ)
    (start : StartStream) : Stream κ :=
  let st := Stream.opened settings model start
  { st.cancel with reader := .done, enhance := .finished }

/-- The stream of a session the registry refused. -/
def Stream.refused (settings : ServerSettings) (model : StreamingModel κ) (start : StartStream)
    (violation : ProtocolViolation) : Stream κ where
  session := startSession settings model start
  reader := .done
  enhance := .aborting violation
  registered := false
  history := ⟨[], [], [], [], []⟩

/-- The call of a stream ends: the `finally` block of `Enhance`. -/
def finish (i : Nat) (s : ServerState κ) : ServerState κ :=
  match s.streams[i]? with
  | none => s
  | some st =>
    let s := s.onStream i finallyBlock
    if st.registered then { s with registry := registryRemove s.registry st.session.streamId i }
    else s

/-- `Enhance` from its first message to its first suspension. -/
def enhance (settings : ServerSettings) (model : StreamingModel κ) (first : ClientMessage)
    (s : ServerState κ) : ServerState κ :=
  match validateStart first with
  | .error _ => s
  | .ok start =>
    match registryAdd settings s.registry start.streamId s.streams.length with
    | .error violation =>
      { s with streams := s.streams ++ [.refused settings model start violation] }
    | .ok registry =>
      let st := Stream.opened settings model start
      let s := { s with
        registry, metrics := { s.metrics with activeStreams := s.metrics.activeStreams + 1 } }
      match capabilities? settings model with
      | some accepted =>
        { s with streams := s.streams ++ [st.yields (.accepted accepted) .accepted] }
      -- protobuf refused a field: the exception leaves the generator
      | none => finish s.streams.length { s with streams := s.streams ++ [st] }

/-- The generator of a stream runs to its next suspension, if it is not blocked. -/
def resume (i : Nat) (s : ServerState κ) : Option (ServerState κ) :=
  match s.streams[i]? with
  | none => none
  | some st =>
    match st.enhance with
    | .accepted => some (s.onStream i afterAccepted)
    | .audio => some (s.onStream i afterAudio)
    | .waiting =>
      match st.session.outputQueue.getNowait with
      | none => none
      | some (event, outputQueue) =>
        let st := { st with session := { st.session with outputQueue } }
        match handleEvent event st s.metrics with
        | (some st, metrics) => some { s with streams := s.streams.set i st, metrics }
        -- protobuf refused a field: the exception leaves the generator
        | (none, metrics) => some (finish i { s with streams := s.streams.set i st, metrics })
    | .ended => some (finish i s)
    | .aborting _ => some (finish i s)
    | .finished => none

/-- The suspended put of a reader returns, if there is room, and the reader notifies. -/
def put (i : Nat) (s : ServerState κ) : Option (ServerState κ) :=
  match s.streams[i]? with
  | none => none
  | some st =>
    match st.reader.work? with
    | none => none
    | some work =>
      match st.session.inputQueue.putNowait work with
      | none => none
      | some inputQueue =>
        match notify (s.onStream i (enqueue work inputQueue)) i with
        | (s, false) => some (s.onStream i afterPut)
        | (s, true) =>
          some (s.onStream i (failReader ⟨.internal, "request processing failed"⟩))

/-- The sessions of a batch give up their next work item, one after the other. -/
def takeBatch : List Nat → ServerState κ → ServerState κ × List (Flight κ)
  | [], s => (s, [])
  | i :: rest, s =>
    match s.streams[i]? with
    | none => takeBatch rest s
    | some st =>
      let ((st, metrics), work) := takeWork st s.metrics
      let (s, active) := takeBatch rest { s with streams := s.streams.set i st, metrics }
      match work with
      | none => (s, active)
      -- `caches` is read after the loop, which changes no session's caches
      | some work => (s, ⟨i, work, st.session.caches⟩ :: active)

/-- The results reach the sessions of the batch, one after the other, from `index` on. -/
def applyBatch (pcmHops : List Bytes) (updated : List κ) :
    Nat → List (Flight κ) → ServerState κ → ServerState κ
  | _, [], s => { s with loop := .idle }
  | index, flight :: rest, s =>
    match s.streams[flight.stream]? with
    | none => applyBatch pcmHops updated (index + 1) rest s
    | some st =>
      let ((st, metrics), outcome) :=
        applyResult flight.work pcmHops[index]? updated[index]? st s.metrics
      let s := { s with streams := s.streams.set flight.stream st, metrics }
      match outcome with
      | .settled => applyBatch pcmHops updated (index + 1) rest s
      | .raised => { s with loop := .stopped (flight :: rest) }
      | .renotify =>
        match notify s flight.stream with
        | (s, false) => applyBatch pcmHops updated (index + 1) rest s
        | (s, true) => { s with loop := .stopped rest }

/-- Every session of a batch fails, one after the other. -/
def failBatch : List (Flight κ) → ServerState κ → ServerState κ
  | [], s => { s with loop := .idle }
  | flight :: rest, s => failBatch rest (s.onStream flight.stream failInference)

/-- The reader of a stream, if it waits for a message, runs `f` with its `saw_end`. -/
def onReading (i : Nat) (f : Bool → Stream κ → Metrics → Stream κ × Metrics) (s : ServerState κ) :
    Option (ServerState κ) :=
  match s.streams[i]? with
  | some ⟨_, .reading sawEnd, _, _, _⟩ => some (s.onStream i (f sawEnd))
  | _ => none

/-- The effect of an event. -/
def step (settings : ServerSettings) (model : StreamingModel κ) (s : ServerState κ) :
    Event κ → Option (ServerState κ)
  | .enhance first => some (enhance settings model first s)
  | .deliver i message => onReading i (fun sawEnd => readMessage settings sawEnd message) s
  | .closeInput i => onReading i readEof s
  | .idleTimeout i =>
    onReading i (fun _ => failReader ⟨.deadlineExceeded, "stream idle timeout"⟩) s
  | .requestError i =>
    onReading i (fun _ => failReader ⟨.internal, "request processing failed"⟩) s
  | .put i => put i s
  | .resume i => resume i s
  | .cancelCall i =>
    match s.streams[i]? with
    | none => none
    | some st => if st.enhance = .finished then none else some (finish i s)
  | .gather =>
    match s.loop, s.ready.getNowait with
    | .idle, some (i, ready) => some { s with ready, loop := .gathering [i] }
    | .gathering sessions, some (i, ready) =>
      if sessions.length < settings.maxBatchSize then
        some { s with ready, loop := .gathering (sessions ++ [i]) }
      else none
    | _, _ => none
  | .dispatch =>
    match s.loop with
    | .gathering sessions =>
      let (s, active) := takeBatch sessions s
      some { s with loop := if active.isEmpty then .idle else .inference active }
    | _ => none
  | .inferenceReturned wav updated =>
    match s.loop with
    | .inference active => some (applyBatch (wav.map float32ToPcm16le) updated 0 active s)
    | _ => none
  | .inferenceRaised =>
    match s.loop with
    | .inference active => some (failBatch active s)
    | _ => none
  | .closeScheduler =>
    match s.loop with
    | .inference active => some { s with closing := true, loop := .stopped active }
    | .stopped lost => some { s with closing := true, loop := .stopped lost }
    | _ => some { s with closing := true, loop := .stopped [] }

/-- What the environment may do: the model returns only what `infer_batch` may return for the
batch in inference. -/
def allows (model : StreamingModel κ) (s : ServerState κ) : Event κ → Prop
  | .inferenceReturned wav updated =>
    model.returns (s.loop.flights.map fun f => f.work.samples)
      (s.loop.flights.map fun f => f.caches) wav updated
  | _ => True

instance (model : StreamingModel κ) [∀ hops caches wav updated,
    Decidable (model.returns hops caches wav updated)] (s : ServerState κ) (e : Event κ) :
    Decidable (allows model s e) := by
  cases e <;> unfold allows <;> infer_instance

/-- The server as a transition system. -/
def system (settings : ServerSettings) (model : StreamingModel κ) :
    Lts.System (ServerState κ) (Event κ) where
  init := .init settings
  step := step settings model
  allows := allows model

instance (settings : ServerSettings) (model : StreamingModel κ) [∀ hops caches wav updated,
    Decidable (model.returns hops caches wav updated)] (s : ServerState κ) (e : Event κ) :
    Decidable ((system settings model).allows s e) :=
  inferInstanceAs (Decidable (allows model s e))

/-! ## Messages of the tests -/

/-- `start` of the tests. -/
def testStart (streamId : String) (offset : UInt64) : ClientMessage :=
  .start ⟨protocolVersion, streamId, offset, 16000, 1, .pcmS16le, []⟩

/-- A chunk of silence. -/
def testAudio (sequence inputStartSample : UInt64) (samples : Nat) : ClientMessage :=
  .audio ⟨sequence, inputStartSample, List.replicate (2 * samples) 0⟩

end VoxLattice.Server
