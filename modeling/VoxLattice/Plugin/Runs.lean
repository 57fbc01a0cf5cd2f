import VoxLattice.Lib.Lts
import VoxLattice.Plugin.Processor

/-!
# Runs of the frame processor

The steps of a processor are its blocks under the lock, in any order the threads choose: one
thread is inside `_process` at a time, and the setter of `enabled`, the two blocks of `_close`,
the stream info and the callbacks of the worker may come between any two of its blocks.

The worker is not part of this system.  Its callbacks may have any arguments, `try_send` may
return either way, and `force_reset`, which touches nothing here, is a step that only lets the
call go on or ends it.

The state has the history of the run: the frames put in, the responses that were stored, and the
frames returned.
-/

namespace VoxLattice.Plugin

open Server (Bytes)

/-- Where a call of `_process` is, between two of its blocks. -/
inductive Call where
  /-- Before `try_send`. -/
  | sending (frame : AudioFrame) (startSample : Nat)
  /-- Before the block for a request the worker did not take. -/
  | overflowing (frame : AudioFrame)
  /-- Before `force_reset`. -/
  | resetting (frame : AudioFrame)
  /-- Before the last block. -/
  | emitting (frame : AudioFrame)
deriving DecidableEq

/-- The arguments of a `_receive_audio` whose audio was stored. -/
structure ReceivedAudio where
  generation : Nat
  startSample : Nat
  pcmS16le : Bytes
deriving DecidableEq

/-- A frame `_process` returned. -/
structure Returned where
  /-- The frame is the one that was passed in. -/
  passthrough : Bool
  /-- `_output_cursor` before the block that returned it. -/
  start : Nat
  /-- `_remote_generation` at that time. -/
  generation : Nat
  /-- The responses stored by then. -/
  stored : List ReceivedAudio
  frame : AudioFrame
deriving DecidableEq

structure ProcessorState where
  processor : RemoteFastEnhancer
  /-- The call of `_process` in progress. -/
  call : Option Call
  /-- The audio of all frames put in, from sample 0 on. -/
  input : Bytes
  /-- The responses that were stored. -/
  stored : List ReceivedAudio
  /-- The frames `_process` returned. -/
  returned : List Returned

inductive ProcessorEvent where
  /-- `_process` is called and runs its first block. -/
  | process (frame : AudioFrame)
  /-- `try_send` returns. -/
  | trySend (sent : Bool)
  | overflow
  | forceReset
  /-- `force_reset` raises, and so does `_process`. -/
  | resetRaised
  | emit
  | setEnabled (value : Bool)
  | beginClose
  | endClose
  | streamInfoUpdated (roomName participantIdentity publicationSid : String)
  | streamInfoCleared
  | generationChanged (generation : Nat) (state : TransportState)
  | protocolError (generation : Nat)
  | receiveAudio (generation startSample : Nat) (pcmS16le : Bytes)
deriving DecidableEq

/-- The event is a callback of the worker. -/
def ProcessorEvent.callback : ProcessorEvent → Bool
  | .generationChanged _ _ | .protocolError _ | .receiveAudio _ _ _ => true
  | _ => false

namespace ProcessorState

def init (config : RemoteFastEnhancerConfig) : ProcessorState where
  processor := .new config
  call := none
  input := []
  stored := []
  returned := []

/-- `_process` is called with a frame and runs its first block. -/
def process (config : RemoteFastEnhancerConfig) (frame : AudioFrame) (s : ProcessorState) :
    ProcessorState :=
  match RemoteFastEnhancer.checkFrame config frame with
  | .error _ => s
  | .ok () =>
    -- the input cursor moves unless the processor is closed
    let input := if s.processor.closed then s.input else s.input ++ frame.data
    match s.processor.takeFrame frame with
    | (processor, .appended startSample) =>
      { s with processor, input, call := some (.sending frame startSample) }
    | (processor, .passthrough) =>
      { s with
        processor
        input
        returned := s.returned ++
          [⟨true, s.processor.outputCursor, s.processor.remoteGeneration, s.stored, frame⟩] }
    | (processor, .raised _) => { s with processor, input }

/-- The last block of `_process` returns a frame or raises. -/
def emit (config : RemoteFastEnhancerConfig) (frame : AudioFrame) (s : ProcessorState) :
    ProcessorState :=
  match s.processor.emitFrame config frame with
  | (processor, .ok output) =>
    { s with
      processor
      call := none
      returned := s.returned ++
        [⟨false, s.processor.outputCursor, s.processor.remoteGeneration, s.stored, output⟩] }
  | (processor, .error _) => { s with processor, call := none }

/-- A response reaches the processor. -/
def receiveAudio (generation startSample : Nat) (pcmS16le : Bytes) (s : ProcessorState) :
    ProcessorState :=
  let (processor, received) := s.processor.receiveAudio generation startSample pcmS16le
  { s with
    processor
    stored :=
      if received = .stored then s.stored ++ [⟨generation, startSample, pcmS16le⟩] else s.stored }

/-- The effect of an event. -/
def step (config : RemoteFastEnhancerConfig) (s : ProcessorState) :
    ProcessorEvent → Option ProcessorState
  | .process frame => if s.call.isNone then some (s.process config frame) else none
  | .trySend sent =>
    match s.call with
    | some (.sending frame _) =>
      some { s with call := some (if sent then .emitting frame else .overflowing frame) }
    | _ => none
  | .overflow =>
    match s.call with
    | some (.overflowing frame) =>
      some { s with processor := s.processor.overflow, call := some (.resetting frame) }
    | _ => none
  | .forceReset =>
    match s.call with
    | some (.resetting frame) => some { s with call := some (.emitting frame) }
    | _ => none
  | .resetRaised =>
    match s.call with
    | some (.resetting _) => some { s with call := none }
    | _ => none
  | .emit =>
    match s.call with
    | some (.emitting frame) => some (s.emit config frame)
    | _ => none
  | .setEnabled value => some { s with processor := (s.processor.setEnabled value).1 }
  | .beginClose => some { s with processor := s.processor.beginClose.1 }
  | .endClose => if s.processor.closed then some { s with processor := s.processor.endClose }
    else none
  | .streamInfoUpdated room participant publication =>
    some { s with processor := s.processor.onStreamInfoUpdated room participant publication }
  | .streamInfoCleared => some { s with processor := s.processor.onStreamInfoCleared }
  | .generationChanged generation state =>
    some { s with processor := s.processor.generationChanged generation state }
  | .protocolError generation =>
    some { s with processor := s.processor.protocolError generation }
  | .receiveAudio generation startSample pcmS16le =>
    some (s.receiveAudio generation startSample pcmS16le)

/-- What the events do, and where they may happen. -/
inductive Stepped (config : RemoteFastEnhancerConfig) (s : ProcessorState) :
    ProcessorEvent → ProcessorState → Prop where
  | process (frame) (idle : s.call = none) : Stepped config s (.process frame)
      (s.process config frame)
  | trySend (sent) {frame start} (call : s.call = some (.sending frame start)) :
      Stepped config s (.trySend sent)
        { s with call := some (if sent then .emitting frame else .overflowing frame) }
  | overflow {frame} (call : s.call = some (.overflowing frame)) : Stepped config s .overflow
      { s with processor := s.processor.overflow, call := some (.resetting frame) }
  | forceReset {frame} (call : s.call = some (.resetting frame)) : Stepped config s .forceReset
      { s with call := some (.emitting frame) }
  | resetRaised {frame} (call : s.call = some (.resetting frame)) : Stepped config s .resetRaised
      { s with call := none }
  | emit {frame} (call : s.call = some (.emitting frame)) : Stepped config s .emit
      (s.emit config frame)
  | setEnabled (value) : Stepped config s (.setEnabled value)
      { s with processor := (s.processor.setEnabled value).1 }
  | beginClose : Stepped config s .beginClose
      { s with processor := s.processor.beginClose.1 }
  | endClose (closed : s.processor.closed = true) : Stepped config s .endClose
      { s with processor := s.processor.endClose }
  | streamInfoUpdated (room participant publication) :
      Stepped config s (.streamInfoUpdated room participant publication)
        { s with processor := s.processor.onStreamInfoUpdated room participant publication }
  | streamInfoCleared : Stepped config s .streamInfoCleared
      { s with processor := s.processor.onStreamInfoCleared }
  | generationChanged (generation state) :
      Stepped config s (.generationChanged generation state)
        { s with processor := s.processor.generationChanged generation state }
  | protocolError (generation) : Stepped config s (.protocolError generation)
      { s with processor := s.processor.protocolError generation }
  | receiveAudio (generation start pcm) : Stepped config s (.receiveAudio generation start pcm)
      (s.receiveAudio generation start pcm)

theorem step_stepped {config : RemoteFastEnhancerConfig} {s s' : ProcessorState}
    {e : ProcessorEvent} (h : s.step config e = some s') : Stepped config s e s' := by
  cases e with
  | process frame =>
      simp only [step] at h
      split at h
      · next hidle =>
          cases h
          exact .process frame (Option.isNone_iff_eq_none.mp hidle)
      · cases h
  | trySend sent =>
      simp only [step] at h
      split at h
      · next hcall =>
          cases h
          exact .trySend sent hcall
      · cases h
  | overflow =>
      simp only [step] at h
      split at h
      · next hcall =>
          cases h
          exact .overflow hcall
      · cases h
  | forceReset =>
      simp only [step] at h
      split at h
      · next hcall =>
          cases h
          exact .forceReset hcall
      · cases h
  | resetRaised =>
      simp only [step] at h
      split at h
      · next hcall =>
          cases h
          exact .resetRaised hcall
      · cases h
  | emit =>
      simp only [step] at h
      split at h
      · next hcall =>
          cases h
          exact .emit hcall
      · cases h
  | endClose =>
      simp only [step] at h
      split at h
      · next hclosed =>
          cases h
          exact .endClose hclosed
      · cases h
  | setEnabled value =>
      cases h
      exact .setEnabled value
  | beginClose =>
      cases h
      exact .beginClose
  | streamInfoUpdated room participant publication =>
      cases h
      exact .streamInfoUpdated room participant publication
  | streamInfoCleared =>
      cases h
      exact .streamInfoCleared
  | generationChanged generation state =>
      cases h
      exact .generationChanged generation state
  | protocolError generation =>
      cases h
      exact .protocolError generation
  | receiveAudio generation start pcm =>
      cases h
      exact .receiveAudio generation start pcm

end ProcessorState

/-- The processor as a transition system.  Nothing is asked of the events. -/
def processorSystem (config : RemoteFastEnhancerConfig) :
    Lts.System ProcessorState ProcessorEvent where
  init := .init config
  step := ProcessorState.step config
  allows _ _ := True

instance (config : RemoteFastEnhancerConfig) (s : ProcessorState) (e : ProcessorEvent) :
    Decidable ((processorSystem config).allows s e) :=
  inferInstanceAs (Decidable True)

/-- The data of a frame that passed the checks is whole samples. -/
theorem checkFrame_ok {config : RemoteFastEnhancerConfig} {frame : AudioFrame}
    (h : RemoteFastEnhancer.checkFrame config frame = .ok ()) :
    frame.data.length = frame.samplesPerChannel * 2 := by
  unfold RemoteFastEnhancer.checkFrame at h
  split at h
  · cases h
  · split at h
    · cases h
    · next hlen => exact Decidable.not_not.mp hlen

end VoxLattice.Plugin
