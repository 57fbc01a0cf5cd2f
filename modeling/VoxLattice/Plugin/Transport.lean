import VoxLattice.Lib.Lts
import VoxLattice.Lib.Queue
import VoxLattice.Plugin.Processor

/-!
# The transport of the plugin

`GRPCWorker` of `transport.py`.  Its queue of requests is shared by the threads that call
`try_send`, `force_reset` and `close`, by the worker thread that runs `_run`, and by one thread
of gRPC for each generation, which pulls the request iterator of the generation's call.  Every
operation on the queue, the events and `_call`, and every block under `_pending_lock`, is one
step, and each thread has a place in the state, between two of its steps.

*gRPC.*  Its thread resumes a request iterator only while the call is active.  An iterator it has
resumed runs on until it yields or returns, whether or not the call has ended by then.  A call
may end at any time, and its responses may be anything.

*The callbacks.*  A step returns the callback it makes, if any.  `on_audio` may call
`force_reset` in the worker thread, which is the step `callbackReset`.

*The history.*  A queued request carries the number of generations that were over when it was
put, and the state keeps the requests that were taken, with who took them.  Generation `g` is
over once `_run_generation(first, g)` has returned or raised.
-/

namespace VoxLattice.Plugin

open Server (Bytes ClientMessage ServerMessage StreamAccepted SampleFormat toUInt64?)

/-! ## Requests -/

/-- `AudioRequest`. -/
structure AudioRequest where
  startSample : Nat
  pcmS16le : Bytes
deriving DecidableEq

/-- The samples of a request. -/
def AudioRequest.samples (request : AudioRequest) : Nat := request.pcmS16le.length / 2

/-- `Request`. -/
inductive Request where
  | audio (request : AudioRequest)
  /-- `EndRequest`. -/
  | endStream (flush : Bool)
  /-- `StopRequest`. -/
  | stop (final : Bool)
  /-- `ResetRequest`. -/
  | reset (reconnect : Bool)
deriving DecidableEq

/-- The request is a `ResetRequest`. -/
def Request.isReset : Request → Bool
  | .reset _ => true
  | _ => false

/-- The request is an `AudioRequest`. -/
def Request.isAudio : Request → Bool
  | .audio _ => true
  | _ => false

/-- What `TransportConfig` has besides the address and the credentials. -/
structure TransportConfig where
  reconnectMinDelayS : ℚ
  reconnectMaxDelayS : ℚ
  maxRequestQueueSamples : Nat
  expectedModelRevision : String
  expectedModelSha256 : String

/-- `transport_config` of `RemoteFastEnhancer.__init__`. -/
def RemoteFastEnhancerConfig.transportConfig (c : RemoteFastEnhancerConfig) :
    TransportConfig where
  reconnectMinDelayS := c.reconnectMinDelayS
  reconnectMaxDelayS := c.reconnectMaxDelayS
  maxRequestQueueSamples := c.maxRequestQueueSamples
  expectedModelRevision := c.expectedModelRevision
  expectedModelSha256 := c.expectedModelSha256

/-- A request in the queue. -/
structure Queued where
  request : Request
  /-- The generations that were over when it was put. -/
  ended : Nat
deriving DecidableEq

/-- Who takes a request from the queue. -/
inductive Taker where
  /-- `_next_audio_or_stop`. -/
  | worker
  /-- The request iterator of a generation. -/
  | iterator (generation : Nat)
  /-- `_drain_requests`. -/
  | drain
deriving DecidableEq

/-- A request that was taken. -/
structure Taken where
  queued : Queued
  taker : Taker
  /-- The generations that were over by then. -/
  ended : Nat
deriving DecidableEq

/-! ## Request iterators -/

/-- The call a request iterator belongs to. -/
inductive CallStatus where
  | unopened
  | active
  | ended
deriving DecidableEq

/-- Where a request iterator is. -/
inductive IteratorPlace where
  /-- Nothing has resumed it. -/
  | created
  /-- Before the metadata is read. -/
  | begun
  /-- At the `yield` of the `StartStream`. -/
  | yieldedStart
  /-- At the condition of the loop, with this request. -/
  | looping (request : Request)
  /-- At the `yield` of an `AudioChunk` of so many samples. -/
  | yieldedAudio (samples : Nat)
  /-- Resumed, before the block under `_pending_lock`. -/
  | accounting (samples : Nat)
  /-- In `_requests.get()`. -/
  | getting
  /-- At the `yield` of the `EndStream`. -/
  | yieldedEnd
  /-- It returned or raised. -/
  | finished
deriving DecidableEq

/-- A run of `_request_iterator`, with what it has yielded. -/
structure RequestIterator where
  first : AudioRequest
  place : IteratorPlace
  status : CallStatus
  sequence : Nat
  expectedSample : Nat
  yielded : List ClientMessage

namespace RequestIterator

/-- `_request_iterator(first, generation)`. -/
def new (first : AudioRequest) : RequestIterator where
  first := first
  place := .created
  status := .unopened
  sequence := 0
  expectedSample := first.startSample
  yielded := []

/-- The call ends. -/
def endCall (it : RequestIterator) : RequestIterator :=
  if it.status = .active then { it with status := .ended } else it

/-- The code between a `next` of gRPC and the first thing the iterator does outside itself. -/
def pull (it : RequestIterator) : Option RequestIterator :=
  if it.status = .active then
    match it.place with
    | .created => some { it with place := .begun }
    | .yieldedStart => some { it with place := .looping (.audio it.first) }
    | .yieldedAudio samples => some { it with place := .accounting samples }
    | .yieldedEnd => some { it with place := .finished }
    | _ => none
  else none

/-- The iterator raises, and gRPC ends the call. -/
def raise (it : RequestIterator) : RequestIterator := { it with place := .finished }.endCall

/-- The message is yielded. -/
def yieldMessage (message : ClientMessage) (place : IteratorPlace) (it : RequestIterator) :
    RequestIterator :=
  { it with place, yielded := it.yielded ++ [message] }

/-- The `StartStream` is built from the metadata and the digits of a UUID, and yielded. -/
def begin (metadata : Metadata) (uuid : String) (it : RequestIterator) : RequestIterator :=
  match toUInt64? it.first.startSample with
  | none => it.raise
  | some start =>
    it.yieldMessage (.start ⟨"1", "lk-" ++ uuid, start, 16000, 1, .pcmS16le, metadata.request⟩)
      .yieldedStart

/-- A round of the loop up to its `yield`, or what follows the loop. -/
def loop (reset : Bool) (request : Request) (it : RequestIterator) : RequestIterator :=
  match request with
  | .audio request =>
    if request.startSample ≠ it.expectedSample ∨ reset then { it with place := .finished }
    else
      match toUInt64? it.sequence, toUInt64? request.startSample with
      | some sequence, some start =>
        it.yieldMessage (.audio ⟨sequence, start, request.pcmS16le⟩)
          (.yieldedAudio request.samples)
      | _, _ => it.raise
  | .endStream flush =>
    if reset then { it with place := .finished }
    else it.yieldMessage (.endStream flush) .yieldedEnd
  | _ => { it with place := .finished }

/-- The counters after a chunk. -/
def account (samples : Nat) (it : RequestIterator) : RequestIterator :=
  { it with
    place := .getting
    sequence := it.sequence + 1
    expectedSample := it.expectedSample + samples }

end RequestIterator

/-! ## The threads -/

/-- What `_call` refers to. -/
inductive CallRef where
  | capabilities
  /-- The call with this request iterator. -/
  | enhance (k : Nat)
deriving DecidableEq

/-- Where a call of `force_reset` is. -/
inductive ResetPlace where
  /-- Before `_reset.set()`. -/
  | setting
  /-- Before `_call` is read. -/
  | reading
  | cancelling (call : Option CallRef)
  | draining
  /-- Before `_pending_samples` is zeroed. -/
  | unpending
  | putting
  | returned
  /-- `put_nowait` raised. -/
  | raised
deriving DecidableEq

/-- Where the call of `close` that holds `_close_lock` is. -/
inductive ClosePlace where
  | stopping
  | puttingEnd
  | checkingAlive
  | joining
  /-- Before `_call` is read. -/
  | reading
  | cancelling (call : Option CallRef)
  /-- Before the channel is closed, with or without a `StopRequest` to follow. -/
  | closingChannel (thenStop : Bool)
  | puttingStop
  /-- It returned or raised. -/
  | over
deriving DecidableEq

/-- The local variables of the loop of `_run_generation`. -/
structure Streaming where
  accepted : Bool
  outputSequence : Nat
  expectedOutput : Nat
deriving DecidableEq

/-- Where `_run` is. -/
inductive RunPlace where
  /-- At the top of the loop. -/
  | top
  /-- Before the call of `GetCapabilities`. -/
  | connecting
  /-- In `future.result()`. -/
  | waiting
  /-- Before `_on_protocol_error` of a failed `_wait_until_ready`. -/
  | reporting (detail : String)
  /-- In `_next_audio_or_stop`. -/
  | receiving
  /-- Before `_reset.clear()`. -/
  | clearing
  /-- Before `_on_generation` of `_run_generation`. -/
  | announcing
  /-- Before the call of `Enhance`. -/
  | calling
  /-- Before the call is stored in `_call`. -/
  | storing
  /-- In the loop over the responses. -/
  | streaming (streaming : Streaming)
  /-- In a `force_reset` that `_on_audio` called. -/
  | resetting (k : Nat) (streaming : Streaming)
  /-- Before `_on_protocol_error` of a failed generation. -/
  | mismatched (detail : String)
  | draining
  /-- Before `_pending_samples` is zeroed. -/
  | unpending
  /-- Before `_call` is forgotten. -/
  | finalizing
  /-- Before `_stop` is asked whether the loop goes on. -/
  | deciding
  /-- Waiting for the delay or for `_stop`. -/
  | resting
  /-- Before the last `_on_generation`. -/
  | closing
  /-- An exception that nobody catches is on its way. -/
  | dying
  | stopped
deriving DecidableEq

/-- The place is inside the iteration of a generation that is not over. -/
def RunPlace.inGeneration : RunPlace → Bool
  | .clearing | .announcing | .calling | .storing | .streaming _ | .resetting _ _ => true
  | _ => false

/-- A generation has begun, and its call is not made yet. -/
def RunPlace.unopened : RunPlace → Bool
  | .clearing | .announcing | .calling => true
  | _ => false

/-! ## The state -/

/-- `GRPCWorker` with its threads. -/
structure GRPCWorker where
  requests : BoundedQueue Queued
  pendingSamples : Nat
  stop : Bool
  reset : Bool
  channelOpen : Bool
  call : Option CallRef
  /-- The calls of `try_send` before their put. -/
  sends : List AudioRequest
  resets : List ResetPlace
  closing : ClosePlace
  run : RunPlace
  backoff : ℚ
  /-- The request iterators, of generation 1 on. -/
  iterators : List RequestIterator
  taken : List Taken

/-- A callback of the worker. -/
inductive Callback where
  | onGeneration (generation : Nat) (state : TransportState)
  | onAudio (generation startSample : Nat) (pcmS16le : Bytes)
  | onProtocolError (generation : Nat) (detail : String)
deriving DecidableEq

/-- How `future.result()` ends. -/
inductive Readiness where
  | capabilities (accepted : StreamAccepted)
  /-- It raises `RpcError`, `FutureTimeoutError` or `FutureCancelledError`. -/
  | unavailable
deriving DecidableEq

inductive WorkerEvent where
  /-- The block of `try_send`. -/
  | trySend (request : AudioRequest)
  /-- The put of `try_send`. -/
  | put (k : Nat)
  /-- `force_reset` is called. -/
  | forceReset
  | resetStep (k : Nat)
  /-- `close` is called. -/
  | close
  | closeStep
  /-- A step of the worker thread that nothing outside decides. -/
  | work
  | ready (readiness : Readiness)
  /-- gRPC refuses to make a call on a closed channel. -/
  | channelError (detail : String)
  | response (message : ServerMessage)
  /-- The iteration over the responses stops. -/
  | responsesEnd
  /-- The iteration over the responses raises `RpcError`. -/
  | rpcError
  /-- `_on_audio` calls `force_reset`. -/
  | callbackReset
  /-- The wait for the next attempt is over. -/
  | backoffOver
  /-- The call of an iterator ends. -/
  | callEnds (k : Nat)
  /-- gRPC resumes an iterator. -/
  | pull (k : Nat)
  | begin (k : Nat) (metadata : Metadata) (uuid : String)
  /-- An iterator moves on. -/
  | iterate (k : Nat)
deriving DecidableEq

namespace GRPCWorker

/-- `GRPCWorker.__init__`. -/
def new (config : TransportConfig) : GRPCWorker where
  requests := .new (config.maxRequestQueueSamples + 4)
  pendingSamples := 0
  stop := false
  reset := false
  channelOpen := true
  call := none
  sends := []
  resets := []
  closing := .over
  run := .top
  backoff := config.reconnectMinDelayS
  iterators := []
  taken := []

/-- `_generation`. -/
def generation (w : GRPCWorker) : Nat := w.iterators.length

/-- The generations that are over. -/
def ended (w : GRPCWorker) : Nat := w.generation - if w.run.inGeneration then 1 else 0

/-- A request is put, or `none` when the queue is full. -/
def putNowait (request : Request) (w : GRPCWorker) : Option GRPCWorker :=
  (w.requests.putNowait ⟨request, w.ended⟩).map fun requests => { w with requests }

/-- The head of the queue is taken, or `none` when the queue is empty. -/
def take (taker : Taker) (w : GRPCWorker) : Option (Request × GRPCWorker) :=
  w.requests.getNowait.map fun (queued, requests) =>
    (queued.request, { w with requests, taken := w.taken ++ [⟨queued, taker, w.ended⟩] })

/-- An iterator changes. -/
def setIterator (k : Nat) (it : RequestIterator) (w : GRPCWorker) : GRPCWorker :=
  { w with iterators := w.iterators.set k it }

/-- The call of an iterator ends. -/
def endCall (k : Nat) (w : GRPCWorker) : GRPCWorker :=
  { w with iterators := w.iterators.modify k RequestIterator.endCall }

/-- `call.cancel()`, unless the reference is `None`. -/
def cancel (call : Option CallRef) (w : GRPCWorker) : GRPCWorker :=
  match call with
  | some (.enhance k) => w.endCall k
  | _ => w

/-- `_channel.close()`. -/
def closeChannel (w : GRPCWorker) : GRPCWorker :=
  { w with channelOpen := false, iterators := w.iterators.map RequestIterator.endCall }

/-! ## `try_send`, `force_reset` and `close` -/

/-- The block of `try_send`.  The flag says that the put follows. -/
def trySend (config : TransportConfig) (request : AudioRequest) (w : GRPCWorker) :
    GRPCWorker × Bool :=
  if w.stop ∨ config.maxRequestQueueSamples < w.pendingSamples + request.samples then (w, false)
  else
    ({ w with
      pendingSamples := w.pendingSamples + request.samples
      sends := w.sends ++ [request] }, true)

/-- The put of `try_send`, which waits for room. -/
def put (k : Nat) (w : GRPCWorker) : Option GRPCWorker :=
  match w.sends[k]? with
  | some request => { w with sends := w.sends.eraseIdx k }.putNowait (.audio request)
  | none => none

/-- `force_reset` is called. -/
def forceReset (w : GRPCWorker) : GRPCWorker := { w with resets := w.resets ++ [.setting] }

/-- A call of `force_reset` is at another place. -/
def setReset (k : Nat) (place : ResetPlace) (w : GRPCWorker) : GRPCWorker :=
  { w with resets := w.resets.set k place }

/-- The next step of a call of `force_reset`. -/
def resetStep (k : Nat) (w : GRPCWorker) : Option GRPCWorker :=
  match w.resets[k]? with
  | some .setting => some ({ w with reset := true }.setReset k .reading)
  | some .reading => some (w.setReset k (.cancelling w.call))
  | some (.cancelling call) => some ((w.cancel call).setReset k .draining)
  | some .draining =>
    match w.take .drain with
    | some (_, w) => some w
    | none => some (w.setReset k .unpending)
  | some .unpending => some ({ w with pendingSamples := 0 }.setReset k .putting)
  | some .putting =>
    match w.putNowait (.reset true) with
    | some w => some (w.setReset k .returned)
    | none => some (w.setReset k .raised)
  | _ => none

/-- `close` is called and gets its lock. -/
def close (w : GRPCWorker) : Option GRPCWorker :=
  if w.closing = .over then some { w with closing := .stopping } else none

/-- The next step of `_close_locked`. -/
def closeStep (w : GRPCWorker) : Option GRPCWorker :=
  match w.closing with
  | .stopping =>
    if w.stop then some { w with closing := .checkingAlive }
    else some { w with stop := true, closing := .puttingEnd }
  | .puttingEnd =>
    match w.putNowait (.endStream true) with
    | some w => some { w with closing := .checkingAlive }
    | none => some { w with closing := .over }
  | .checkingAlive =>
    some { w with closing := if w.run = .stopped then .closingChannel false else .joining }
  -- the thread has ended or the time is up
  | .joining =>
    some { w with closing := if w.run = .stopped then .closingChannel false else .reading }
  | .reading => some { w with closing := .cancelling w.call }
  | .cancelling call => some { w.cancel call with closing := .closingChannel true }
  | .closingChannel thenStop =>
    some { w.closeChannel with closing := if thenStop then .puttingStop else .over }
  | .puttingStop =>
    match w.putNowait (.stop true) with
    | some w => some { w with closing := .over }
    | none => some { w with closing := .over }
  | .over => none

end GRPCWorker

/-! ## The worker thread -/

/-- `_validate_accepted`. -/
def validateAccepted (config : TransportConfig) (accepted : StreamAccepted) :
    Except String Unit :=
  if accepted.protocolVersion = "1"
      ∧ accepted.modelName = "FastEnhancer-B"
      ∧ accepted.modelRevision = config.expectedModelRevision
      ∧ accepted.modelSha256 = config.expectedModelSha256
      ∧ accepted.sampleRateHz = 16000
      ∧ accepted.channels = 1
      ∧ accepted.sampleFormat = .pcmS16le
      ∧ accepted.hopSamples = 256
      ∧ accepted.algorithmicDelaySamples = 256 then .ok ()
  else .error "server capabilities do not match the locked FastEnhancer contract"

/-- How the loop of `_run_generation` deals with a response. -/
inductive Handled where
  /-- The loop goes on. -/
  | accepted (streaming : Streaming)
  /-- The loop goes on after `_on_audio`. -/
  | audio (streaming : Streaming) (startSample : Nat) (pcmS16le : Bytes)
  | returned
  /-- `ValueError` is raised. -/
  | raised (detail : String)
deriving DecidableEq

/-- A round of the loop of `_run_generation`. -/
def Streaming.handle (config : TransportConfig) (message : ServerMessage) (s : Streaming) :
    Handled :=
  if !s.accepted then
    match message with
    | .accepted accepted =>
      match validateAccepted config accepted with
      | .ok () => .accepted { s with accepted := true }
      | .error detail => .raised detail
    | _ => .raised "StreamAccepted must be the first server message"
  else
    match message with
    | .audio audio =>
      if audio.outputSequence.toNat ≠ s.outputSequence then
        .raised "server output sequence is not contiguous"
      else if audio.outputStartSample.toNat ≠ s.expectedOutput then
        .raised "server output offset has a gap or overlap"
      else if audio.validSamples = 0 ∨ audio.pcmS16le.length ≠ audio.validSamples.toNat * 2 then
        .raised "server output byte count is invalid"
      else
        .audio { s with
            outputSequence := s.outputSequence + 1
            expectedOutput := s.expectedOutput + audio.validSamples.toNat }
          audio.outputStartSample.toNat audio.pcmS16le
    | .ended _ => .returned
    | _ => .raised "unexpected server response"

namespace GRPCWorker

/-- The status of the call of the current generation. -/
def callEnded (w : GRPCWorker) : Bool := w.iterators.getLast?.any fun it => it.status = .ended

/-- `first.start_sample` of the current generation. -/
def firstSample (w : GRPCWorker) : Nat := w.iterators.getLast?.elim 0 (·.first.startSample)

/-- The call of the current generation is made. -/
def openCall (w : GRPCWorker) : GRPCWorker :=
  { w with
    iterators := w.iterators.modify (w.generation - 1) fun it => { it with status := .active } }

/-- What the worker does with a request in `_next_audio_or_stop`. -/
def receive (request : Request) (w : GRPCWorker) : GRPCWorker :=
  match request with
  | .audio first => { w with run := .clearing, iterators := w.iterators ++ [.new first] }
  | .reset _ => w
  | _ => { w with run := .closing }

/-- A step of `_run` that nothing outside decides. -/
def work (w : GRPCWorker) : Option (GRPCWorker × Option Callback) :=
  match w.run with
  | .top => some ({ w with run := .connecting }, some (.onGeneration w.generation .connecting))
  | .connecting =>
    if w.channelOpen then some ({ w with run := .waiting, call := some .capabilities }, none)
    else none
  | .reporting detail =>
    some ({ w with run := .deciding }, some (.onProtocolError w.generation detail))
  | .receiving => (w.take .worker).map fun (request, w) => (w.receive request, none)
  | .clearing => some ({ w with run := .announcing, reset := false }, none)
  | .announcing => some ({ w with run := .calling }, some (.onGeneration w.generation .connecting))
  | .calling =>
    if w.channelOpen then some ({ w.openCall with run := .storing }, none) else none
  | .storing =>
    some ({ w with
      call := some (.enhance (w.generation - 1))
      run := .streaming ⟨false, 0, w.firstSample⟩ }, none)
  | .resetting k streaming =>
    match w.resets[k]? with
    | some .returned => some ({ w with run := .streaming streaming }, none)
    | some .raised => some ({ w with run := .dying }, none)
    | _ => none
  | .mismatched detail =>
    some ({ w with run := .draining }, some (.onProtocolError w.generation detail))
  | .draining =>
    match w.take .drain with
    | some (_, w) => some (w, none)
    | none => some ({ w with run := .unpending }, none)
  | .unpending => some ({ w with run := .finalizing, pendingSamples := 0 }, none)
  | .finalizing => some ({ w with run := .deciding, call := none }, none)
  | .deciding =>
    if w.stop then some ({ w with run := .closing }, none)
    else some ({ w with run := .resting }, some (.onGeneration w.generation .backoff))
  | .closing => some ({ w with run := .stopped }, some (.onGeneration w.generation .closed))
  | .dying => some ({ w with run := .stopped, call := none }, none)
  | .waiting | .streaming _ | .resting | .stopped => none

/-- `future.result()` returns or raises. -/
def ready (config : TransportConfig) (readiness : Readiness) (w : GRPCWorker) :
    Option GRPCWorker :=
  match w.run with
  | .waiting =>
    let w := { w with call := none }
    match readiness with
    | .capabilities accepted =>
      match validateAccepted config accepted with
      | .ok () => some { w with run := .receiving }
      | .error detail => some { w with run := .reporting detail }
    | .unavailable => some { w with run := .deciding }
  | _ => none

/-- The `ValueError` of gRPC for a call on a closed channel. -/
def channelError (detail : String) (w : GRPCWorker) : Option GRPCWorker :=
  if w.channelOpen then none
  else
    match w.run with
    | .connecting => some { w with run := .reporting detail }
    | .calling => some { w with run := .mismatched detail }
    | _ => none

/-- The generation returns. -/
def returned (config : TransportConfig) (w : GRPCWorker) : GRPCWorker :=
  { w with run := .finalizing, backoff := config.reconnectMinDelayS }

/-- A response reaches the loop of `_run_generation`. -/
def response (config : TransportConfig) (message : ServerMessage) (w : GRPCWorker) :
    Option (GRPCWorker × Option Callback) :=
  match w.run with
  | .streaming streaming =>
    match streaming.handle config message with
    | .accepted streaming =>
      some ({ w with run := .streaming streaming }, some (.onGeneration w.generation .active))
    | .audio streaming startSample pcmS16le =>
      some ({ w with run := .streaming streaming },
        some (.onAudio w.generation startSample pcmS16le))
    | .returned => some (w.returned config, none)
    | .raised detail => some ({ w with run := .mismatched detail }, none)
  | _ => none

/-- The responses stop without a `StreamEnded`. -/
def responsesEnd (config : TransportConfig) (w : GRPCWorker) : Option GRPCWorker :=
  match w.run with
  | .streaming _ =>
    if !w.callEnded then none
    else if w.stop then some (w.returned config)
    -- `ConnectionError`
    else some { w with run := .draining }
  | _ => none

/-- The responses stop with an `RpcError`. -/
def rpcError (w : GRPCWorker) : Option GRPCWorker :=
  match w.run with
  | .streaming _ => if w.callEnded then some { w with run := .draining } else none
  | _ => none

/-- `_on_audio` calls `force_reset`. -/
def callbackReset (w : GRPCWorker) : Option GRPCWorker :=
  match w.run with
  | .streaming streaming => some { w.forceReset with run := .resetting w.resets.length streaming }
  | _ => none

/-- The wait for the next attempt is over, and the delay doubles. -/
def backoffOver (config : TransportConfig) (w : GRPCWorker) : Option GRPCWorker :=
  match w.run with
  | .resting =>
    some { w with run := .top, backoff := min (w.backoff * 2) config.reconnectMaxDelayS }
  | _ => none

/-! ## The threads of gRPC -/

/-- gRPC resumes an iterator. -/
def pull (k : Nat) (w : GRPCWorker) : Option GRPCWorker :=
  match w.iterators[k]? with
  | some it => it.pull.map fun it => w.setIterator k it
  | none => none

/-- An iterator reads the metadata. -/
def begin (k : Nat) (metadata : Metadata) (uuid : String) (w : GRPCWorker) : Option GRPCWorker :=
  match w.iterators[k]? with
  | some it => if it.place = .begun then some (w.setIterator k (it.begin metadata uuid)) else none
  | none => none

/-- An iterator moves on. -/
def iterate (k : Nat) (w : GRPCWorker) : Option GRPCWorker :=
  match w.iterators[k]? with
  | some it =>
    match it.place with
    | .looping request => some (w.setIterator k (it.loop w.reset request))
    | .accounting samples =>
      some ({ w with pendingSamples := w.pendingSamples - samples }.setIterator k
        (it.account samples))
    | .getting =>
      (w.take (.iterator (k + 1))).map fun (request, w) =>
        w.setIterator k { it with place := .looping request }
    | _ => none
  | none => none

/-! ## The system -/

/-- The effect of an event, and the callback it makes. -/
def step (config : TransportConfig) (w : GRPCWorker) :
    WorkerEvent → Option (GRPCWorker × Option Callback)
  | .trySend request => some ((w.trySend config request).1, none)
  | .put k => (w.put k).map (·, none)
  | .forceReset => some (w.forceReset, none)
  | .resetStep k => (w.resetStep k).map (·, none)
  | .close => w.close.map (·, none)
  | .closeStep => w.closeStep.map (·, none)
  | .work => w.work
  | .ready readiness => (w.ready config readiness).map (·, none)
  | .channelError detail => (w.channelError detail).map (·, none)
  | .response message => w.response config message
  | .responsesEnd => (w.responsesEnd config).map (·, none)
  | .rpcError => w.rpcError.map (·, none)
  | .callbackReset => w.callbackReset.map (·, none)
  | .backoffOver => (w.backoffOver config).map (·, none)
  | .callEnds k => some (w.endCall k, none)
  | .pull k => (w.pull k).map (·, none)
  | .begin k metadata uuid => (w.begin k metadata uuid).map (·, none)
  | .iterate k => (w.iterate k).map (·, none)

end GRPCWorker

/-- The worker as a transition system.  Nothing is asked of the events. -/
def workerSystem (config : TransportConfig) : Lts.System GRPCWorker WorkerEvent where
  init := .new config
  step w e := (w.step config e).map Prod.fst
  allows _ _ := True

instance (config : TransportConfig) (w : GRPCWorker) (e : WorkerEvent) :
    Decidable ((workerSystem config).allows w e) :=
  inferInstanceAs (Decidable True)

/-! ## Events for tests -/

/-- What a server with the locked model says of itself. -/
def testAccepted : StreamAccepted :=
  ⟨"1", "FastEnhancer-B", "49ab55a57e3a064d94c6412cd0f0a383a55ca0f8",
    "980ec00d9c3cb0497893c815c718a2fe44970329ae8477d22596d0a1373f2382", 16000, 1, .pcmS16le, 256,
    256, "cuda:0", 16000⟩

/-- The worker finds the server ready. -/
def testConnects : List WorkerEvent := [.work, .work, .ready (.capabilities testAccepted)]

/-- A request of silence is sent. -/
def testSends (startSample samples : Nat) : List WorkerEvent :=
  [.trySend ⟨startSample, List.replicate (samples * 2) 0⟩, .put 0]

/-- The worker takes a request and makes a call. -/
def testCalls : List WorkerEvent := [.work, .work, .work, .work, .work]

/-- An iterator yields its first two messages and waits for a request. -/
def testYields (k : Nat) : List WorkerEvent :=
  [.pull k, .begin k [] "c0ffee", .pull k, .iterate k, .pull k, .iterate k]

/-- The call fails, the worker drains an empty queue and waits for its next attempt. -/
def testFails (k : Nat) : List WorkerEvent := [.callEnds k, .rpcError, .work, .work, .work, .work]

end VoxLattice.Plugin
