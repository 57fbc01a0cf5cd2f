import VoxLattice.Server.Session

/-!
# The work of the scheduler on one session

`BatchScheduler._run` treats the sessions of a batch one after the other, twice: before the
inference it takes their next work item, after it it applies their row of the result.  The two
bodies are functions of the session and the metrics.  What they do to the ready queue is the
business of the loop around them: `takeWork` returns the work item that joins the batch,
`applyResult` says whether the loop notifies the session again.
-/

namespace VoxLattice.Server

/-- How one round of the loop over the results ends. -/
inductive Outcome where
  /-- On to the next session. -/
  | settled
  /-- `self.notify(session)` first. -/
  | renotify
  /-- `IndexError`: the model returned fewer rows or caches than the batch has sessions. -/
  | raised
deriving DecidableEq

variable {κ : Type*}

/-- The round of one gathered session before the inference, and the work item it adds to the
batch. -/
def takeWork (st : Stream κ) (m : Metrics) : (Stream κ × Metrics) × Option ModelWork :=
  let st := { st with session := { st.session with scheduled := false } }
  if st.session.cancelled || st.session.ended then ((st, m), none)
  else
    match st.session.inputQueue.getNowait with
    | none => ((st, m), none)
    | some (work, inputQueue) =>
      let st := { st with session := { st.session with inputQueue } }
      if work.terminalNoFlush then (completeWithoutFlush st m, none)
      else
        ((st, { m with inputQueueSamples := m.inputQueueSamples - work.queuedSamples }), some work)

/-- The session after the inference result of a work item reached it. -/
def Session.advance (session : Session κ) (work : ModelWork) (caches : κ) : Session κ :=
  { session with
    caches
    pendingSource := if work.terminalFlush then none else work.source }

/-- The round ends: a terminal flush completes the stream, anything else looks for more
input. -/
def finishHop (work : ModelWork) (st : Stream κ) (m : Metrics) : (Stream κ × Metrics) × Outcome :=
  if work.terminalFlush then (complete true st m, .settled)
  else ((st, m), if st.session.inputQueue.empty then .settled else .renotify)

/-- The event the delayed source hop gives with a row of the result. -/
def OutputAudio.ofRow (previous : SourceHop) (row : Bytes) : OutputAudio :=
  ⟨previous.startSample, row.take (previous.validSamples * 2), previous.validSamples⟩

/-- The stream after an event was put into its output queue. -/
def Stream.emits (st : Stream κ) (audio : OutputAudio) (outputQueue : BoundedQueue OutputEvent) :
    Stream κ :=
  { st with
    session := { st.session with
      outputQueue
      outputSamples := st.session.outputSamples + audio.validSamples }
    history := { st.history with emitted := st.history.emitted ++ [audio] } }

/-- The round of one session of the batch after the inference.  `row` and `updated` are
`pcm_hops[index]` and `updated[index]`, where the lists are long enough. -/
def applyResult (work : ModelWork) (row : Option Bytes) (updated : Option κ) (st : Stream κ)
    (m : Metrics) : (Stream κ × Metrics) × Outcome :=
  if st.session.cancelled || st.session.ended then ((st, m), .settled)
  else
    match updated with
    | none => ((st, m), .raised)
    | some caches =>
      let previous := st.session.pendingSource
      let st := { st with
        session := st.session.advance work caches
        history := { st.history with applied := st.history.applied ++ [work] } }
      match previous with
      | none => finishHop work st m
      | some previous =>
        match row with
        | none => ((st, m), .raised)
        | some row =>
          let audio := OutputAudio.ofRow previous row
          match st.session.outputQueue.putNowait (.audio audio) with
          | none =>
            (fail .resourceExhausted "per-stream output queue is full" st m, .settled)
          | some outputQueue =>
            finishHop work (st.emits audio outputQueue) { m with
              outputQueueSamples := m.outputQueueSamples + audio.validSamples
              outputSamples := m.outputSamples + audio.validSamples }

/-- The round of one session when the inference raised. -/
def failInference (st : Stream κ) (m : Metrics) : Stream κ × Metrics :=
  fail .internal "CUDA inference failed" st m

end VoxLattice.Server
