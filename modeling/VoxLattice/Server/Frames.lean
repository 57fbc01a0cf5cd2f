import VoxLattice.Server.Scheduler

/-!
# Who writes what

The reader, the scheduler and the generator of a stream share the flags `ended` and
`cancelled` and the output queue.  The rest of the state has one writer each, but for the input
queue, where a put of the reader meets the scheduler.  A frame lemma for each function says
which sides it leaves alone; the invariants of one side are carried past the steps of the
others by these lemmas.
-/

namespace VoxLattice.Server

variable {κ : Type*}

/-- What the reader writes. -/
structure ReaderSide where
  reader : Reader
  inputStartSample : Nat
  inputSamples : Nat
  expectedSequence : Nat
  expectedInputSample : Nat
  rechunker : PCMRechunker
  accepted : List AudioChunk
  hops : List SourceHop

/-- What the scheduler writes. -/
structure SchedulerSide (κ : Type*) where
  inputQueue : BoundedQueue ModelWork
  caches : κ
  pendingSource : Option SourceHop
  outputSamples : Nat
  applied : List ModelWork
  emitted : List OutputAudio

/-- What the generator writes. -/
structure GeneratorSide where
  enhance : Generator
  outputSequence : Nat
  yielded : List ServerMessage

namespace Stream

/-- The stream with another flag. -/
def flagged (st : Stream κ) (scheduled : Bool) : Stream κ :=
  { st with session := { st.session with scheduled } }

/-- The stream with another input queue. -/
def queued (st : Stream κ) (inputQueue : BoundedQueue ModelWork) : Stream κ :=
  { st with session := { st.session with inputQueue } }

/-- The stream with another output queue. -/
def withOutput (st : Stream κ) (outputQueue : BoundedQueue OutputEvent) : Stream κ :=
  { st with session := { st.session with outputQueue } }

/-- The stream after the caches of a work item's result reached it. -/
def advances (st : Stream κ) (work : ModelWork) (caches : κ) : Stream κ :=
  { st with
    session := st.session.advance work caches
    history := { st.history with applied := st.history.applied ++ [work] } }

/-- The stream after a chunk was accepted. -/
def accepts (st : Stream κ) (chunk : AudioChunk) (hops : List SourceHop)
    (rechunker : PCMRechunker) : Stream κ :=
  { st with
    session := { st.session.count chunk with rechunker }
    reader := .ofHops hops
    history := { st.history with
      accepted := st.history.accepted ++ [chunk]
      hops := st.history.hops ++ hops } }

/-- The stream after the rechunker was flushed. -/
def flushes (st : Stream κ) (rechunker : PCMRechunker) (reader : Reader) : Stream κ :=
  { st with session := { st.session with rechunker }, reader }

/-- The stream after the rechunker was flushed and returned a partial hop. -/
def flushesHop (st : Stream κ) (rechunker : PCMRechunker) (hop : SourceHop) : Stream κ :=
  { st with
    session := { st.session with rechunker }
    reader := .finishingPartial hop
    history := { st.history with hops := st.history.hops ++ [hop] } }

def readerSide (st : Stream κ) : ReaderSide where
  reader := st.reader
  inputStartSample := st.session.inputStartSample
  inputSamples := st.session.inputSamples
  expectedSequence := st.session.expectedSequence
  expectedInputSample := st.session.expectedInputSample
  rechunker := st.session.rechunker
  accepted := st.history.accepted
  hops := st.history.hops

def schedulerSide (st : Stream κ) : SchedulerSide κ where
  inputQueue := st.session.inputQueue
  caches := st.session.caches
  pendingSource := st.session.pendingSource
  outputSamples := st.session.outputSamples
  applied := st.history.applied
  emitted := st.history.emitted

def generatorSide (st : Stream κ) : GeneratorSide where
  enhance := st.enhance
  outputSequence := st.session.outputSequence
  yielded := st.history.yielded

end Stream

/-- A change that the reader's side does not see, nor the generator's. -/
structure OffScheduler (st st' : Stream κ) : Prop where
  readerSide : st'.readerSide = st.readerSide
  generatorSide : st'.generatorSide = st.generatorSide

/-- A change that the scheduler's side does not see, nor the generator's. -/
structure OffReader (st st' : Stream κ) : Prop where
  schedulerSide : st'.schedulerSide = st.schedulerSide
  generatorSide : st'.generatorSide = st.generatorSide

/-- A change that the reader's side does not see, nor the scheduler's. -/
structure OffGenerator (st st' : Stream κ) : Prop where
  readerSide : st'.readerSide = st.readerSide
  schedulerSide : st'.schedulerSide = st.schedulerSide
  cancelled : st'.session.cancelled = st.session.cancelled
  ended : st'.session.ended = st.session.ended

theorem OffScheduler.trans {st st' st'' : Stream κ} (h' : OffScheduler st' st'')
    (h : OffScheduler st st') : OffScheduler st st'' :=
  ⟨h'.readerSide.trans h.readerSide, h'.generatorSide.trans h.generatorSide⟩

theorem OffReader.trans {st st' st'' : Stream κ} (h' : OffReader st' st'')
    (h : OffReader st st') : OffReader st st'' :=
  ⟨h'.schedulerSide.trans h.schedulerSide, h'.generatorSide.trans h.generatorSide⟩

theorem OffScheduler.reader {st st' : Stream κ} (h : OffScheduler st st') :
    st'.reader = st.reader := congrArg ReaderSide.reader h.readerSide

theorem OffGenerator.reader {st st' : Stream κ} (h : OffGenerator st st') :
    st'.reader = st.reader := congrArg ReaderSide.reader h.readerSide

theorem OffReader.inputQueue {st st' : Stream κ} (h : OffReader st st') :
    st'.session.inputQueue = st.session.inputQueue :=
  congrArg SchedulerSide.inputQueue h.schedulerSide

theorem OffReader.enhance {st st' : Stream κ} (h : OffReader st st') :
    st'.enhance = st.enhance := congrArg GeneratorSide.enhance h.generatorSide

theorem OffScheduler.enhance {st st' : Stream κ} (h : OffScheduler st st') :
    st'.enhance = st.enhance := congrArg GeneratorSide.enhance h.generatorSide

theorem OffGenerator.inputQueue {st st' : Stream κ} (h : OffGenerator st st') :
    st'.session.inputQueue = st.session.inputQueue :=
  congrArg SchedulerSide.inputQueue h.schedulerSide

/-! ## Ending a stream -/

/-- What completing a stream does to it. -/
inductive Completes (flushed : Bool) (st : Stream κ) (m : Metrics) : Stream κ × Metrics → Prop where
  /-- The stream has ended. -/
  | already (h : st.session.ended = true) : Completes flushed st m (st, m)
  | queued (q) (h : st.session.ended = false)
      (hput : st.session.outputQueue.putNowait (.completion
        ⟨st.session.inputSamples, st.session.outputSamples, flushed⟩) = some q) :
      Completes flushed st m
        ({ st with session := { st.session with ended := true, outputQueue := q } }, m)
  /-- The output queue has no room for the completion. -/
  | full (h : st.session.ended = false)
      (hput : st.session.outputQueue.putNowait (.completion
        ⟨st.session.inputSamples, st.session.outputSamples, flushed⟩) = none) :
      Completes flushed st m (fail .resourceExhausted "per-stream output queue is full"
        { st with session := { st.session with ended := true } } m)

theorem complete_completes (flushed : Bool) (st : Stream κ) (m : Metrics) :
    Completes flushed st m (complete flushed st m) := by
  unfold complete
  split
  · next h => exact .already h
  · next h =>
      have hopen : st.session.ended = false := by simpa using h
      dsimp only
      split
      · next q hput => exact .queued q hopen hput
      · next hput => exact .full hopen hput

/-- A stream that completes has ended, or fails. -/
theorem complete_stops (flushed : Bool) (st : Stream κ) (m : Metrics) :
    ((complete flushed st m).1.session.cancelled || (complete flushed st m).1.session.ended) =
      true := by
  have hcompletes := complete_completes flushed st m
  generalize complete flushed st m = next at hcompletes ⊢
  cases hcompletes with
  | already h => rw [h, Bool.or_true]
  | queued _ _ _ => exact Bool.or_true _
  | full _ _ => rfl

theorem complete_readerSide (flushed : Bool) (st : Stream κ) (m : Metrics) :
    (complete flushed st m).1.readerSide = st.readerSide := by
  unfold complete
  split
  · rfl
  · dsimp only
    split <;> rfl

theorem complete_schedulerSide (flushed : Bool) (st : Stream κ) (m : Metrics) :
    (complete flushed st m).1.schedulerSide = st.schedulerSide := by
  unfold complete
  split
  · rfl
  · dsimp only
    split <;> rfl

theorem complete_generatorSide (flushed : Bool) (st : Stream κ) (m : Metrics) :
    (complete flushed st m).1.generatorSide = st.generatorSide := by
  unfold complete
  split
  · rfl
  · dsimp only
    split <;> rfl

theorem complete_offScheduler (flushed : Bool) (st : Stream κ) (m : Metrics) :
    OffScheduler st (complete flushed st m).1 :=
  ⟨complete_readerSide flushed st m, complete_generatorSide flushed st m⟩

theorem complete_offReader (flushed : Bool) (st : Stream κ) (m : Metrics) :
    OffReader st (complete flushed st m).1 :=
  ⟨complete_schedulerSide flushed st m, complete_generatorSide flushed st m⟩

theorem completeWithoutFlush_inputQueue (st : Stream κ) (m : Metrics) :
    (completeWithoutFlush st m).1.session.inputQueue = st.session.inputQueue :=
  congrArg SchedulerSide.inputQueue (complete_schedulerSide false _ m)

/-! ## The scheduler -/

/-- What the scheduler does with a gathered session: the stream after it and the work item that
joins the batch. -/
inductive Taken (st : Stream κ) : Stream κ → Option ModelWork → Prop where
  /-- The session is cancelled or has ended. -/
  | dead (h : (st.session.cancelled || st.session.ended) = true) : Taken st (st.flagged false) none
  /-- The input queue is empty. -/
  | idle (h : (st.session.cancelled || st.session.ended) = false)
      (hq : st.session.inputQueue.items = []) : Taken st (st.flagged false) none
  /-- The work item ends the stream without a flush. -/
  | ends (work inputQueue m) (h : (st.session.cancelled || st.session.ended) = false)
      (hget : st.session.inputQueue.getNowait = some (work, inputQueue))
      (hend : work.terminalNoFlush = true) :
      Taken st (completeWithoutFlush ((st.flagged false).queued inputQueue) m).1 none
  /-- The work item joins the batch. -/
  | joins (work inputQueue) (h : (st.session.cancelled || st.session.ended) = false)
      (hget : st.session.inputQueue.getNowait = some (work, inputQueue))
      (hend : work.terminalNoFlush = false) :
      Taken st ((st.flagged false).queued inputQueue) (some work)

theorem takeWork_taken (st : Stream κ) (m : Metrics) :
    Taken st (takeWork st m).1.1 (takeWork st m).2 := by
  unfold takeWork
  dsimp only
  split
  · next h => exact .dead h
  · next h =>
      have halive : (st.session.cancelled || st.session.ended) = false := by simpa using h
      split
      · next hget => exact .idle halive (BoundedQueue.getNowait_eq_none.mp hget)
      · next work inputQueue hget =>
          split
          · next hend => exact .ends work inputQueue m halive hget hend
          · next hend => exact .joins work inputQueue halive hget (by simpa using hend)

/-- What the result of a work item does to its stream. -/
inductive Landed (work : ModelWork) (row : Option Bytes) (updated : Option κ) (st : Stream κ) :
    Stream κ → Prop where
  /-- The session is cancelled or has ended. -/
  | dead (h : (st.session.cancelled || st.session.ended) = true) : Landed work row updated st st
  /-- There is no delayed hop to emit. -/
  | silent (caches m) (h : (st.session.cancelled || st.session.ended) = false)
      (hu : updated = some caches) (hp : st.session.pendingSource = none) :
      Landed work row updated st (finishHop work (st.advances work caches) m).1.1
  /-- The output queue has no room for the delayed hop. -/
  | full (caches previous bytes m) (h : (st.session.cancelled || st.session.ended) = false)
      (hu : updated = some caches) (hp : st.session.pendingSource = some previous)
      (hrow : row = some bytes)
      (hput : st.session.outputQueue.putNowait (.audio (.ofRow previous bytes)) = none) :
      Landed work row updated st (fail .resourceExhausted "per-stream output queue is full"
        (st.advances work caches) m).1
  /-- The delayed hop is emitted. -/
  | emitted (caches previous bytes outputQueue m)
      (h : (st.session.cancelled || st.session.ended) = false)
      (hu : updated = some caches) (hp : st.session.pendingSource = some previous)
      (hrow : row = some bytes)
      (hput : st.session.outputQueue.putNowait (.audio (.ofRow previous bytes)) =
        some outputQueue) :
      Landed work row updated st (finishHop work ((st.advances work caches).emits
        (.ofRow previous bytes) outputQueue) m).1.1

theorem applyResult_landed {work : ModelWork} {row : Option Bytes} {updated : Option κ}
    {st : Stream κ} {m : Metrics} (ho : (applyResult work row updated st m).2 ≠ .raised) :
    Landed work row updated st (applyResult work row updated st m).1.1 := by
  unfold applyResult at ho ⊢
  split
  · next h => exact .dead h
  · next h =>
      rw [if_neg h] at ho
      have halive : (st.session.cancelled || st.session.ended) = false := by simpa using h
      split
      · simp at ho
      · next caches =>
          dsimp only at ho ⊢
          split
          · next hp => exact .silent caches m halive rfl hp
          · next previous hp =>
              rw [hp] at ho
              dsimp only at ho
              split
              · simp at ho
              · next bytes =>
                  split
                  · next hput => exact .full caches previous bytes m halive rfl hp rfl hput
                  · next outputQueue hput =>
                      exact .emitted caches previous bytes outputQueue _ halive rfl hp rfl hput

/-- When the loop raises, the session keeps all but its caches and its delayed hop. -/
theorem applyResult_raised {work : ModelWork} {row : Option Bytes} {updated : Option κ}
    {st : Stream κ} {m : Metrics} (ho : (applyResult work row updated st m).2 = .raised) :
    (st.session.cancelled || st.session.ended) = false ∧
      ((applyResult work row updated st m).1.1 = st ∨
        ∃ caches, (applyResult work row updated st m).1.1 = st.advances work caches) := by
  have hfinish : ∀ (st : Stream κ) m, (finishHop work st m).2 ≠ .raised := by
    intro st m
    unfold finishHop
    split
    · nofun
    · dsimp only
      split <;> nofun
  unfold applyResult at ho ⊢
  split
  · next h =>
      rw [if_pos h] at ho
      cases ho
  · next h =>
      rw [if_neg h] at ho
      refine ⟨by simpa using h, ?_⟩
      split
      · exact .inl rfl
      · next caches =>
          dsimp only at ho ⊢
          split
          · next hp =>
              rw [hp] at ho
              exact absurd ho (hfinish _ m)
          · next previous hp =>
              rw [hp] at ho
              dsimp only at ho
              split
              · exact .inr ⟨caches, rfl⟩
              · next bytes =>
                  dsimp only at ho
                  split at ho
                  · cases ho
                  · exact absurd ho (hfinish _ _)

theorem takeWork_offScheduler (st : Stream κ) (m : Metrics) :
    OffScheduler st (takeWork st m).1.1 := by
  unfold takeWork
  dsimp only
  split
  · exact ⟨rfl, rfl⟩
  · split
    · exact ⟨rfl, rfl⟩
    · split
      · exact .trans (complete_offScheduler false _ m) ⟨rfl, rfl⟩
      · exact ⟨rfl, rfl⟩

theorem finishHop_offScheduler (work : ModelWork) (st : Stream κ) (m : Metrics) :
    OffScheduler st (finishHop work st m).1.1 := by
  unfold finishHop
  split
  · exact complete_offScheduler true st m
  · exact ⟨rfl, rfl⟩

theorem applyResult_offScheduler (work : ModelWork) (row : Option Bytes) (updated : Option κ)
    (st : Stream κ) (m : Metrics) : OffScheduler st (applyResult work row updated st m).1.1 := by
  unfold applyResult
  split
  · exact ⟨rfl, rfl⟩
  · split
    · exact ⟨rfl, rfl⟩
    · dsimp only
      split
      · exact .trans (finishHop_offScheduler work _ m) ⟨rfl, rfl⟩
      · split
        · exact ⟨rfl, rfl⟩
        · split
          · exact ⟨rfl, rfl⟩
          · exact .trans (finishHop_offScheduler work _ _) ⟨rfl, rfl⟩

theorem applyResult_inputQueue (work : ModelWork) (row : Option Bytes) (updated : Option κ)
    (st : Stream κ) (m : Metrics) :
    (applyResult work row updated st m).1.1.session.inputQueue = st.session.inputQueue := by
  have hfinish : ∀ (st : Stream κ) m,
      (finishHop work st m).1.1.session.inputQueue = st.session.inputQueue := by
    intro st m
    unfold finishHop
    split
    · exact congrArg SchedulerSide.inputQueue (complete_schedulerSide true st m)
    · rfl
  unfold applyResult
  split
  · rfl
  · split
    · rfl
    · dsimp only
      split
      · exact hfinish _ m
      · split
        · rfl
        · split
          · rfl
          · exact hfinish _ _

/-- With a row and caches for every session of the batch, the loop never raises. -/
theorem applyResult_ne_raised {work : ModelWork} {row : Option Bytes} {updated : Option κ}
    (hrow : row.isSome = true) (hu : updated.isSome = true) (st : Stream κ) (m : Metrics) :
    (applyResult work row updated st m).2 ≠ .raised := by
  obtain ⟨bytes, rfl⟩ := Option.isSome_iff_exists.mp hrow
  obtain ⟨caches, rfl⟩ := Option.isSome_iff_exists.mp hu
  have hfinish : ∀ st m, (finishHop work (st : Stream κ) m).2 ≠ .raised := by
    intro st m
    unfold finishHop
    split
    · nofun
    · dsimp only
      split <;> nofun
  unfold applyResult
  split
  · nofun
  · dsimp only
    split
    · exact hfinish _ m
    · split
      · nofun
      · exact hfinish _ _

/-! ## The reader -/

/-- A chunk that is accepted. -/
theorem acceptAudio_accepts {settings : ServerSettings} {st st' : Stream κ} {chunk : AudioChunk}
    {m m' : Metrics} (h : acceptAudio settings chunk st m = ((st', m'), .ok ())) :
    ∃ hops rechunker, st' = st.accepts chunk hops rechunker := by
  unfold acceptAudio at h
  split at h
  · cases h
  · dsimp only at h
    split at h
    · cases h
    · next hops rechunker _ =>
        cases h
        exact ⟨hops, rechunker, rfl⟩

/-- A chunk that is refused may have moved the counters. -/
theorem acceptAudio_error {settings : ServerSettings} {st st' : Stream κ} {chunk : AudioChunk}
    {m m' : Metrics} {violation : ProtocolViolation}
    (h : acceptAudio settings chunk st m = ((st', m'), .error violation)) :
    st'.history = st.history ∧ st'.session.inputStartSample = st.session.inputStartSample ∧
      st'.session.ended = st.session.ended ∧ st'.session.outputQueue = st.session.outputQueue := by
  unfold acceptAudio at h
  split at h
  · cases h
    exact ⟨rfl, rfl, rfl, rfl⟩
  · dsimp only at h
    split at h
    · cases h
      exact ⟨rfl, rfl, rfl, rfl⟩
    · cases h

/-- What `_finish_input` does before its first put. -/
inductive InputFinished (flush : Bool) (st : Stream κ) : Stream κ → Prop where
  | noFlush (hf : flush = false) : InputFinished flush st { st with reader := .finishingNoFlush }
  | failed (failure m) : InputFinished flush st (failReader failure st m).1
  | hop (hop rechunker) (hf : flush = true)
      (hp : st.session.rechunker.flushPartial = .ok (some hop, rechunker)) :
      InputFinished flush st (st.flushesHop rechunker hop)
  | nothing (rechunker m) (hf : flush = true)
      (hp : st.session.rechunker.flushPartial = .ok (none, rechunker))
      (hzero : st.session.inputSamples = 0) :
      InputFinished flush st (completeEmptyFlush (st.flushes rechunker (.reading true)) m).1
  | flush (rechunker) (hf : flush = true)
      (hp : st.session.rechunker.flushPartial = .ok (none, rechunker))
      (hzero : st.session.inputSamples ≠ 0) :
      InputFinished flush st (st.flushes rechunker .finishingFlush)

theorem finishInput_finished (flush : Bool) (st : Stream κ) (m : Metrics) :
    InputFinished flush st (finishInput flush st m).1 := by
  unfold finishInput
  split
  · next hf => exact .noFlush (by simpa using hf)
  · next hf =>
      have hflush : flush = true := by simpa using hf
      split
      · exact .failed _ m
      · next hop rechunker hp => exact .hop hop rechunker hflush hp
      · next rechunker hp =>
          dsimp only
          split
          · next hzero => exact .nothing rechunker m hflush hp hzero
          · next hzero => exact .flush rechunker hflush hp hzero

theorem failReader_offReader (failure : ProtocolViolation) (st : Stream κ) (m : Metrics) :
    OffReader st (failReader failure st m).1 := ⟨rfl, rfl⟩

theorem acceptAudio_offReader (settings : ServerSettings) (chunk : AudioChunk) (st : Stream κ)
    (m : Metrics) : OffReader st (acceptAudio settings chunk st m).1.1 := by
  unfold acceptAudio
  split
  · exact ⟨rfl, rfl⟩
  · dsimp only
    split <;> exact ⟨rfl, rfl⟩

theorem finishInput_offReader (flush : Bool) (st : Stream κ) (m : Metrics) :
    OffReader st (finishInput flush st m).1 := by
  have hfinished := finishInput_finished flush st m
  generalize (finishInput flush st m).1 = st' at hfinished ⊢
  cases hfinished with
  | noFlush _ => exact ⟨rfl, rfl⟩
  | failed failure m' => exact failReader_offReader failure st m'
  | hop hop rechunker _ _ => exact ⟨rfl, rfl⟩
  | nothing rechunker m' _ _ _ => exact .trans (complete_offReader true _ m') ⟨rfl, rfl⟩
  | flush rechunker _ _ _ => exact ⟨rfl, rfl⟩

/-- What `_read_requests` does with a message, by the message and whether the input has ended. -/
inductive MessageRead (settings : ServerSettings) (st : Stream κ) (m : Metrics) :
    Bool → ClientMessage → Stream κ × Metrics → Prop where
  | afterEnd (message) : MessageRead settings st m true message
      (failReader ⟨.failedPrecondition, "message received after EndStream"⟩ st m)
  | duplicateStart (start) : MessageRead settings st m false (.start start)
      (failReader ⟨.failedPrecondition, "duplicate StartStream"⟩ st m)
  | empty : MessageRead settings st m false .empty
      (failReader ⟨.invalidArgument, "empty client message"⟩ st m)
  | accepted (chunk st' m') (haccept : acceptAudio settings chunk st m = ((st', m'), .ok ())) :
      MessageRead settings st m false (.audio chunk) (st', m')
  | refused (chunk st' m' violation)
      (haccept : acceptAudio settings chunk st m = ((st', m'), .error violation)) :
      MessageRead settings st m false (.audio chunk) (failReader violation st' m')
  | ended (flush) : MessageRead settings st m false (.endStream flush) (finishInput flush st m)

theorem readMessage_read (settings : ServerSettings) (sawEnd : Bool) (message : ClientMessage)
    (st : Stream κ) (m : Metrics) :
    MessageRead settings st m sawEnd message (readMessage settings sawEnd message st m) := by
  cases sawEnd with
  | true => exact .afterEnd message
  | false =>
      cases message with
      | start start => exact .duplicateStart start
      | empty => exact .empty
      | endStream flush => exact .ended flush
      | audio chunk =>
          simp only [readMessage, Bool.false_eq_true, if_false]
          split
          · next st' m' haccept => exact .accepted chunk st' m' haccept
          · next st' m' violation haccept => exact .refused chunk st' m' violation haccept

theorem readMessage_offReader (settings : ServerSettings) (sawEnd : Bool)
    (message : ClientMessage) (st : Stream κ) (m : Metrics) :
    OffReader st (readMessage settings sawEnd message st m).1 := by
  have hread := readMessage_read settings sawEnd message st m
  generalize readMessage settings sawEnd message st m = next at hread ⊢
  cases hread with
  | afterEnd _ => exact failReader_offReader _ st m
  | duplicateStart _ => exact failReader_offReader _ st m
  | empty => exact failReader_offReader _ st m
  | accepted chunk st' m' h =>
      have haccept := acceptAudio_offReader settings chunk st m
      rw [h] at haccept
      exact haccept
  | refused chunk st' m' violation h =>
      have haccept := acceptAudio_offReader settings chunk st m
      rw [h] at haccept
      exact (failReader_offReader violation st' m').trans haccept
  | ended flush => exact finishInput_offReader flush st m

theorem readEof_offReader (sawEnd : Bool) (st : Stream κ) (m : Metrics) :
    OffReader st (readEof sawEnd st m).1 := by
  unfold readEof
  split
  · exact ⟨rfl, rfl⟩
  · exact failReader_offReader _ st m

theorem Reader.ne_done_of_work {reader : Reader} {work : ModelWork}
    (h : reader.work? = some work) : reader ≠ .done := by
  rintro rfl
  cases h

/-- How a reader goes on when the put of its work item has returned, if it put one. -/
inductive PutReturned (st : Stream κ) (m : Metrics) :
    Option ModelWork → Stream κ × Metrics → Prop where
  | hop (hop hops) (hr : st.reader = .accepting (hop :: hops)) :
      PutReturned st m (some (.ofSource hop)) ({ st with reader := .ofHops hops }, m)
  | nothing (hop) (hr : st.reader = .finishingPartial hop) (hzero : st.session.inputSamples = 0) :
      PutReturned st m (some (.ofSource hop))
        (completeEmptyFlush { st with reader := .reading true } m)
  | remainder (hop) (hr : st.reader = .finishingPartial hop)
      (hpos : st.session.inputSamples ≠ 0) :
      PutReturned st m (some (.ofSource hop)) ({ st with reader := .finishingFlush }, m)
  | flush (hr : st.reader = .finishingFlush) :
      PutReturned st m (some .flush) ({ st with reader := .reading true }, m)
  | noFlush (hr : st.reader = .finishingNoFlush) :
      PutReturned st m (some .noFlush) ({ st with reader := .reading true }, m)
  | idle : PutReturned st m none (st, m)

theorem afterPut_returned (st : Stream κ) (m : Metrics) :
    PutReturned st m st.reader.work? (afterPut st m) := by
  unfold afterPut
  cases hr : st.reader with
  | accepting hops =>
      cases hops with
      | nil => exact .idle
      | cons hop rest => exact .hop hop rest hr
  | finishingPartial hop =>
      dsimp only
      split
      · next hzero => exact .nothing hop hr hzero
      · next hpos => exact .remainder hop hr hpos
  | finishingFlush => exact .flush hr
  | finishingNoFlush => exact .noFlush hr
  | reading sawEnd => exact .idle
  | done => exact .idle

/-- The put of a work item returns, and the session may be scheduled. -/
theorem afterPut_put {st : Stream κ} {work : ModelWork} (hw : st.reader.work? = some work)
    (q : BoundedQueue ModelWork) (scheduled : Bool) (m : Metrics) :
    PutReturned ((st.queued q).flagged scheduled) m (some work)
      (afterPut ((st.queued q).flagged scheduled) m) := by
  have hreturned := afterPut_returned ((st.queued q).flagged scheduled) m
  rwa [show ((st.queued q).flagged scheduled).reader.work? = some work from hw] at hreturned

/-- The reader goes on, and nothing else moves unless an empty stream completes. -/
theorem afterPut_cases (st : Stream κ) (m : Metrics) :
    (∃ reader, afterPut st m = ({ st with reader }, m)) ∨
      afterPut st m = completeEmptyFlush { st with reader := .reading true } m := by
  have hreturned := afterPut_returned st m
  generalize st.reader.work? = work at hreturned
  generalize afterPut st m = next at hreturned ⊢
  cases hreturned with
  | hop hop hops _ => exact .inl ⟨.ofHops hops, rfl⟩
  | nothing hop _ _ => exact .inr rfl
  | remainder hop _ _ => exact .inl ⟨.finishingFlush, rfl⟩
  | flush _ => exact .inl ⟨.reading true, rfl⟩
  | noFlush _ => exact .inl ⟨.reading true, rfl⟩
  | idle => exact .inl ⟨st.reader, rfl⟩

theorem afterPut_offReader (st : Stream κ) (m : Metrics) : OffReader st (afterPut st m).1 := by
  rcases afterPut_cases st m with ⟨reader, h⟩ | h
  · rw [h]
    exact ⟨rfl, rfl⟩
  · rw [h]
    exact .trans (complete_offReader true _ m) ⟨rfl, rfl⟩

/-! ## The generator -/

theorem handleEvent_offGenerator {event : OutputEvent} {st st' : Stream κ} {m m' : Metrics}
    (h : handleEvent event st m = (some st', m')) : OffGenerator st st' := by
  cases event with
  | audio audio =>
      simp only [handleEvent, Prod.mk.injEq, Option.map_eq_some_iff] at h
      obtain ⟨⟨message, -, rfl⟩, -⟩ := h
      exact ⟨rfl, rfl, rfl, rfl⟩
  | completion completion =>
      simp only [handleEvent, Prod.mk.injEq, Option.map_eq_some_iff] at h
      obtain ⟨⟨message, -, rfl⟩, -⟩ := h
      exact ⟨rfl, rfl, rfl, rfl⟩
  | failure failure =>
      simp only [handleEvent, Prod.mk.injEq, Option.some.injEq] at h
      obtain ⟨rfl, -⟩ := h
      exact ⟨rfl, rfl, rfl, rfl⟩

/-- The event was taken before it is handled. -/
theorem handleEvent_outputQueue {event : OutputEvent} {st st' : Stream κ} {m m' : Metrics}
    (h : handleEvent event st m = (some st', m')) :
    st'.session.outputQueue = st.session.outputQueue := by
  cases event with
  | audio audio =>
      simp only [handleEvent, Prod.mk.injEq, Option.map_eq_some_iff] at h
      obtain ⟨⟨message, -, rfl⟩, -⟩ := h
      rfl
  | completion completion =>
      simp only [handleEvent, Prod.mk.injEq, Option.map_eq_some_iff] at h
      obtain ⟨⟨message, -, rfl⟩, -⟩ := h
      rfl
  | failure failure =>
      simp only [handleEvent, Prod.mk.injEq, Option.some.injEq] at h
      obtain ⟨rfl, -⟩ := h
      rfl

end VoxLattice.Server
