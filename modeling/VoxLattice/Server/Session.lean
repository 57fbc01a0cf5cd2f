import VoxLattice.Lib.Queue
import VoxLattice.Server.Messages

/-!
# Sessions and streams

`Session` is `StreamSession`.  `Stream` is one `Enhance` call with everything that lives as
long as it does: the session, the suspended state of the `_read_requests` task, the suspended
state of the `Enhance` generator, and the flag `registered`.  A coroutine is modelled by the
`await` or `yield` it is suspended at, with the local variables that are still read.

`History` records what happened to the stream.  No modelled function reads it.

A function that changes a session and the metrics takes both and returns both.  The float
times of a session (`last_activity`, the `enqueued_at` fields) feed histograms only and are
left out.
-/

namespace VoxLattice.Server

/-- `ModelWork`. -/
structure ModelWork where
  samples : Tensor
  source : Option SourceHop
  terminalFlush : Bool
  terminalNoFlush : Bool
deriving DecidableEq

/-- `OutputAudio`. -/
structure OutputAudio where
  startSample : Nat
  pcmS16le : Bytes
  validSamples : Nat
deriving DecidableEq

/-- `StreamCompletion`. -/
structure StreamCompletion where
  inputSamples : Nat
  outputSamples : Nat
  flushed : Bool
deriving DecidableEq

/-- `OutputEvent`. -/
inductive OutputEvent where
  | audio (audio : OutputAudio)
  | completion (completion : StreamCompletion)
  /-- `RPCFailure`. -/
  | failure (failure : ProtocolViolation)
deriving DecidableEq

/-- The work item `enqueue_source` puts. -/
def ModelWork.ofSource (source : SourceHop) : ModelWork :=
  ⟨source.samples, some source, false, false⟩

/-- The work item `enqueue_flush` puts: one hop of zeros. -/
def ModelWork.flush : ModelWork := ⟨List.replicate hopSamples 0, none, true, false⟩

/-- The work item `enqueue_no_flush` puts.  Its samples are uninitialised memory in the source
and are never read. -/
def ModelWork.noFlush : ModelWork := ⟨List.replicate hopSamples 0, none, false, true⟩

/-- `StreamSession`, over the type `κ` of model caches. -/
structure Session (κ : Type*) where
  streamId : String
  inputStartSample : Nat
  expectedInputSample : Nat
  expectedSequence : Nat
  inputSamples : Nat
  outputSamples : Nat
  outputSequence : Nat
  caches : κ
  rechunker : PCMRechunker
  inputQueue : BoundedQueue ModelWork
  outputQueue : BoundedQueue OutputEvent
  pendingSource : Option SourceHop
  scheduled : Bool
  ended : Bool
  cancelled : Bool

/-- Where `_read_requests` is suspended. -/
inductive Reader where
  /-- In `anext(request_iterator)`; the flag is `saw_end`. -/
  | reading (sawEnd : Bool)
  /-- In `_accept_audio`, putting the first of the remaining hops. -/
  | accepting (hops : List SourceHop)
  /-- In `_finish_input`, putting the partial hop. -/
  | finishingPartial (hop : SourceHop)
  /-- In `_finish_input`, in `enqueue_flush`. -/
  | finishingFlush
  /-- In `_finish_input`, in `enqueue_no_flush`. -/
  | finishingNoFlush
  /-- Returned, raised or cancelled, or never created. -/
  | done
deriving DecidableEq

/-- Where the `Enhance` generator is suspended. -/
inductive Generator where
  /-- At `yield` of `StreamAccepted`. -/
  | accepted
  /-- In `session.output_queue.get()`. -/
  | waiting
  /-- At `yield` of `EnhancedAudio`. -/
  | audio
  /-- At `yield` of `StreamEnded`. -/
  | ended
  /-- In `context.abort`. -/
  | aborting (failure : ProtocolViolation)
  /-- The `finally` block has run. -/
  | finished
deriving DecidableEq

/-- What happened to a stream so far. -/
structure History where
  /-- The chunks `_accept_audio` took without raising. -/
  accepted : List AudioChunk
  /-- The hops the rechunker returned. -/
  hops : List SourceHop
  /-- The work items whose inference result was applied to the session. -/
  applied : List ModelWork
  /-- The `OutputAudio` events the scheduler put into the output queue. -/
  emitted : List OutputAudio
  /-- The messages the generator yielded. -/
  yielded : List ServerMessage

/-- One `Enhance` call from the construction of its session on. -/
structure Stream (κ : Type*) where
  session : Session κ
  reader : Reader
  enhance : Generator
  registered : Bool
  history : History

/-- The gauges and the two sample counters of `ServerMetrics`.  The other counters and the
histograms are read by no modelled function. -/
structure Metrics where
  activeStreams : Int
  inputQueueSamples : Int
  outputQueueSamples : Int
  inputSamples : Nat
  outputSamples : Nat
deriving DecidableEq

/-- `StreamSession.__init__`. -/
def Session.new {κ : Type*} (streamId : String) (inputStartSample : Nat) (caches : κ)
    (inputQueueHops outputQueueHops : Nat) : Session κ where
  streamId
  inputStartSample
  expectedInputSample := inputStartSample
  expectedSequence := 0
  inputSamples := 0
  outputSamples := 0
  outputSequence := 0
  caches
  rechunker := ⟨[], 0, inputStartSample, max hopSamples (inputQueueHops * hopSamples)⟩
  inputQueue := .new inputQueueHops
  outputQueue := .new outputQueueHops
  pendingSource := none
  scheduled := false
  ended := false
  cancelled := false

/-- The rechunker of a new session is the one its constructor returns: the bound
`StreamSession` asks for is never refused. -/
theorem Session.new_rechunker {κ : Type*} (streamId : String) (start : Nat) (caches : κ)
    (inputQueueHops outputQueueHops : Nat) :
    PCMRechunker.new start (max hopSamples (inputQueueHops * hopSamples)) =
      .ok (Session.new streamId start caches inputQueueHops outputQueueHops).rechunker := by
  have h : ¬ max hopSamples (inputQueueHops * hopSamples) < hopSamples := by omega
  rw [PCMRechunker.new, if_neg h]
  rfl

/-- The samples of an output event, as the gauge counts them. -/
def OutputEvent.samples : OutputEvent → Nat
  | .audio a => a.validSamples
  | _ => 0

/-- The samples of a queued work item, as the gauge counts them. -/
def ModelWork.queuedSamples (work : ModelWork) : Nat :=
  if work.source.isSome then hopSamples else 0

section Stream

variable {κ : Type*}

/-- The audio samples in the output queue. -/
def Session.queuedOutputSamples (session : Session κ) : Nat :=
  (session.outputQueue.items.map OutputEvent.samples).sum

/-- The audio samples in the input queue, a hop per item with a source. -/
def Session.queuedInputSamples (session : Session κ) : Nat :=
  (session.inputQueue.items.map ModelWork.queuedSamples).sum

/-! ## Ending a stream -/

/-- `EnhancementService._emit_failure`: drain the output queue and put the failure. -/
def emitFailure (failure : ProtocolViolation) (st : Stream κ) (m : Metrics) :
    Stream κ × Metrics :=
  ({ st with session := { st.session with
      outputQueue := st.session.outputQueue.only (.failure failure) } },
    { m with outputQueueSamples := m.outputQueueSamples - st.session.queuedOutputSamples })

/-- `StreamSession.cancel`. -/
def Stream.cancel (st : Stream κ) : Stream κ :=
  { st with session := { st.session with cancelled := true } }

/-- `BatchScheduler._fail`. -/
def fail (status : StatusCode) (detail : String) (st : Stream κ) (m : Metrics) :
    Stream κ × Metrics :=
  ({ st.cancel with session := { st.cancel.session with
      outputQueue := st.session.outputQueue.only (.failure ⟨status, detail⟩) } },
    { m with outputQueueSamples := m.outputQueueSamples - st.session.queuedOutputSamples })

/-- `BatchScheduler._complete`. -/
def complete (flushed : Bool) (st : Stream κ) (m : Metrics) : Stream κ × Metrics :=
  if st.session.ended then (st, m)
  else
    let session := { st.session with ended := true }
    let event := .completion ⟨session.inputSamples, session.outputSamples, flushed⟩
    match session.outputQueue.putNowait event with
    | some outputQueue => ({ st with session := { session with outputQueue } }, m)
    | none => fail .resourceExhausted "per-stream output queue is full" { st with session } m

/-- `BatchScheduler.complete_without_flush`. -/
def completeWithoutFlush (st : Stream κ) (m : Metrics) : Stream κ × Metrics :=
  complete false { st with session := { st.session with pendingSource := none } } m

/-- `BatchScheduler.complete_empty_flush`. -/
def completeEmptyFlush (st : Stream κ) (m : Metrics) : Stream κ × Metrics := complete true st m

/-! ## The reader -/

/-- An exception leaves the loop of `_read_requests`: the session is cancelled and the failure
replaces what is queued for the client. -/
def failReader (failure : ProtocolViolation) (st : Stream κ) (m : Metrics) : Stream κ × Metrics :=
  let (st, m) := emitFailure failure st.cancel m
  ({ st with reader := .done }, m)

/-- Where `_accept_audio` goes with hops to put: on to the next message if there are none. -/
def Reader.ofHops : List SourceHop → Reader
  | [] => .reading false
  | hops => .accepting hops

/-- The text of `_accept_audio` for an exception of the rechunker: only `BufferError` is caught
there, anything else reaches the last handler of `_read_requests`. -/
def ofRechunkerError : PyError → ProtocolViolation
  | .buffer detail => ⟨.resourceExhausted, detail⟩
  | _ => ⟨.internal, "request processing failed"⟩

/-- The checks of `_accept_audio` before it touches the session. -/
def checkChunk (settings : ServerSettings) (session : Session κ) (chunk : AudioChunk) :
    Except ProtocolViolation Unit :=
  let size := chunk.pcmS16le.length
  if size = 0 ∨ size % 2 ≠ 0 then
    .error ⟨.invalidArgument, "audio payload must have positive even length"⟩
  else if settings.maxAudioChunkSamples < size / 2 then
    .error ⟨.resourceExhausted, "audio chunk too large"⟩
  else if chunk.sequence.toNat ≠ session.expectedSequence then
    .error ⟨.invalidArgument, "audio sequence is not contiguous"⟩
  else if chunk.inputStartSample.toNat ≠ session.expectedInputSample then
    .error ⟨.invalidArgument, "audio offset is not contiguous"⟩
  else .ok ()

/-- The session after the counters of `_accept_audio` moved. -/
def Session.count (session : Session κ) (chunk : AudioChunk) : Session κ :=
  { session with
    expectedSequence := session.expectedSequence + 1
    expectedInputSample := session.expectedInputSample + chunk.samples
    inputSamples := session.inputSamples + chunk.samples }

/-- `_accept_audio` up to the puts.  The exception, if any, comes with the state it leaves
behind: the counters have moved when the rechunker raises. -/
def acceptAudio (settings : ServerSettings) (chunk : AudioChunk) (st : Stream κ) (m : Metrics) :
    (Stream κ × Metrics) × Except ProtocolViolation Unit :=
  match checkChunk settings st.session chunk with
  | .error violation => ((st, m), .error violation)
  | .ok () =>
    let session := st.session.count chunk
    let m := { m with inputSamples := m.inputSamples + chunk.samples }
    match session.rechunker.append chunk.pcmS16le with
    | .error e => (({ st with session }, m), .error (ofRechunkerError e))
    | .ok (hops, rechunker) =>
      (({ st with
          session := { session with rechunker }
          reader := .ofHops hops
          history := { st.history with
            accepted := st.history.accepted ++ [chunk]
            hops := st.history.hops ++ hops } }, m), .ok ())

/-- `_finish_input` up to its first put. -/
def finishInput (flush : Bool) (st : Stream κ) (m : Metrics) : Stream κ × Metrics :=
  if !flush then ({ st with reader := .finishingNoFlush }, m)
  else
    match st.session.rechunker.flushPartial with
    | .error _ => failReader ⟨.internal, "request processing failed"⟩ st m
    | .ok (some hop, rechunker) =>
      ({ st with
          session := { st.session with rechunker }
          reader := .finishingPartial hop
          history := { st.history with hops := st.history.hops ++ [hop] } }, m)
    | .ok (none, rechunker) =>
      let st := { st with session := { st.session with rechunker } }
      if st.session.inputSamples = 0 then
        completeEmptyFlush { st with reader := .reading true } m
      else ({ st with reader := .finishingFlush }, m)

/-- One message reaches the loop of `_read_requests`. -/
def readMessage (settings : ServerSettings) (sawEnd : Bool) (message : ClientMessage)
    (st : Stream κ) (m : Metrics) : Stream κ × Metrics :=
  if sawEnd then
    failReader ⟨.failedPrecondition, "message received after EndStream"⟩ st m
  else
    match message with
    | .start _ => failReader ⟨.failedPrecondition, "duplicate StartStream"⟩ st m
    | .audio chunk =>
      match acceptAudio settings chunk st m with
      | ((st, m), .ok ()) => (st, m)
      | ((st, m), .error violation) => failReader violation st m
    | .empty => failReader ⟨.invalidArgument, "empty client message"⟩ st m
    | .endStream flush => finishInput flush st m

/-- The request stream of the client ended. -/
def readEof (sawEnd : Bool) (st : Stream κ) (m : Metrics) : Stream κ × Metrics :=
  if sawEnd then ({ st with reader := .done }, m)
  else failReader ⟨.failedPrecondition, "EndStream is required"⟩ st m

/-- The work item a suspended reader is putting. -/
def Reader.work? : Reader → Option ModelWork
  | .accepting (hop :: _) => some (.ofSource hop)
  | .finishingPartial hop => some (.ofSource hop)
  | .finishingFlush => some .flush
  | .finishingNoFlush => some .noFlush
  | _ => none

/-- The put of a reader returns, and the gauge follows. -/
def enqueue (work : ModelWork) (inputQueue : BoundedQueue ModelWork) (st : Stream κ)
    (m : Metrics) : Stream κ × Metrics :=
  ({ st with session := { st.session with inputQueue } },
    { m with inputQueueSamples := m.inputQueueSamples + work.queuedSamples })

/-- The reader goes on after a put and the notification that follows it. -/
def afterPut (st : Stream κ) (m : Metrics) : Stream κ × Metrics :=
  match st.reader with
  | .accepting (_ :: hops) => ({ st with reader := .ofHops hops }, m)
  | .finishingPartial _ =>
    if st.session.inputSamples = 0 then completeEmptyFlush { st with reader := .reading true } m
    else ({ st with reader := .finishingFlush }, m)
  | .finishingFlush => ({ st with reader := .reading true }, m)
  | .finishingNoFlush => ({ st with reader := .reading true }, m)
  | _ => (st, m)

/-! ## The generator -/

/-- Append a message to what the generator yielded. -/
def Stream.yields (st : Stream κ) (message : ServerMessage) (enhance : Generator) : Stream κ :=
  { st with enhance, history := { st.history with yielded := st.history.yielded ++ [message] } }

/-- The generator goes on after the `yield` of `StreamAccepted`. -/
def afterAccepted (st : Stream κ) (m : Metrics) : Stream κ × Metrics :=
  ({ st with enhance := .waiting }, m)

/-- The generator goes on after the `yield` of `EnhancedAudio`. -/
def afterAudio (st : Stream κ) (m : Metrics) : Stream κ × Metrics :=
  ({ st with
    enhance := .waiting
    session := { st.session with outputSequence := st.session.outputSequence + 1 } }, m)

/-- The `EnhancedAudio` of an event, where its fields fit the wire types. -/
def enhancedAudio? (outputSequence : Nat) (event : OutputAudio) : Option EnhancedAudio := do
  let outputSequence ← toUInt64? outputSequence
  let outputStartSample ← toUInt64? event.startSample
  let validSamples ← toUInt32? event.validSamples
  return { outputSequence, outputStartSample, pcmS16le := event.pcmS16le, validSamples }

/-- The `StreamEnded` of a completion, where its fields fit the wire types. -/
def streamEnded? (event : StreamCompletion) : Option StreamEnded := do
  let inputSamples ← toUInt64? event.inputSamples
  let outputSamples ← toUInt64? event.outputSamples
  return { inputSamples, outputSamples, flushed := event.flushed }

/-- `output_queue.get()` returned an event.  `none` is the `ValueError` of protobuf. -/
def handleEvent (event : OutputEvent) (st : Stream κ) (m : Metrics) :
    Option (Stream κ) × Metrics :=
  match event with
  | .audio audio =>
    let m := { m with outputQueueSamples := m.outputQueueSamples - audio.validSamples }
    ((enhancedAudio? st.session.outputSequence audio).map fun message =>
      st.yields (.audio message) .audio, m)
  | .completion completion =>
    ((streamEnded? completion).map fun message => st.yields (.ended message) .ended, m)
  | .failure failure => (some { st with enhance := .aborting failure }, m)

/-- The `finally` block of `Enhance`, but for the registry: the session is cancelled, both
queues are drained and the reader task is cancelled. -/
def finallyBlock (st : Stream κ) (m : Metrics) : Stream κ × Metrics :=
  ({ st with
      session := { st.session with
        cancelled := true
        inputQueue := st.session.inputQueue.clear
        outputQueue := st.session.outputQueue.clear }
      reader := .done
      enhance := .finished },
    { m with
      inputQueueSamples := m.inputQueueSamples - st.session.queuedInputSamples
      outputQueueSamples := m.outputQueueSamples - st.session.queuedOutputSamples
      activeStreams := if st.registered then m.activeStreams - 1 else m.activeStreams })

end Stream

end VoxLattice.Server
