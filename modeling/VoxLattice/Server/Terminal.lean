import VoxLattice.Server.Effects

/-!
# The first terminal event

A `StreamCompletion` or an `RPCFailure` in the output queue is the outcome of the stream: the
generator will tell the client of it once the audio before it is sent.  `Sealed` is why the
scheduler leaves an outcome alone.  A session whose outcome is queued is cancelled or has ended,
so the loop over the results passes it, no work item of it is taken, and a reader that has put
the last work item has no outcome of its own.

Two paths do not look at the flags.  A reader that fails replaces whatever is queued, and so
does the loop over a batch whose inference raised.  `KeepsOutcome` is the condition that neither
happens to a stream whose outcome is queued.
-/

namespace VoxLattice.Server

open Intervals

variable {κ : Type*}

/-- The events that end a stream: `StreamCompletion` and `RPCFailure`. -/
def OutputEvent.terminal : OutputEvent → Bool
  | .audio _ => false
  | .completion _ => true
  | .failure _ => true

/-- The outcome that waits for the client: the first terminal event in the output queue. -/
def Stream.outcome? (st : Stream κ) : Option OutputEvent :=
  st.session.outputQueue.items.find? OutputEvent.terminal

/-- The generator told the client of an outcome: it yielded `StreamEnded`, or it aborts the
call. -/
def Stream.Tells (st : Stream κ) : OutputEvent → Prop
  | .audio _ => False
  | .completion completion => st.enhance = .ended ∧ ∃ message,
      streamEnded? completion = some message ∧ st.history.yielded.getLast? = some (.ended message)
  | .failure failure => st.enhance = .aborting failure

/-! ## The invariant -/

/-- What holds of a stream whose outcome is decided, and of one without input. -/
structure Sealed (st : Stream κ) (fl : Option (Flight κ)) : Prop where
  settled : ∀ event ∈ st.session.outputQueue.items, event.terminal = true →
    (st.session.cancelled || st.session.ended) = true
  ended : st.session.ended = true → st.reader.pastEnd = true
  last : ∀ work ∈ st.waiting fl, (work.terminalFlush || work.terminalNoFlush) = true →
    st.reader.pastEnd = true
  fresh : st.reader.pastEnd = false → st.session.inputSamples = 0 →
    st.session.cancelled = false ∧ st.waiting fl = [] ∧ st.reader.hops = []

section Sealed

variable {settings : ServerSettings} {st st' : Stream κ} {fl fl' : Option (Flight κ)}

/-- The reader is past the end. -/
theorem Sealed.closed (hsettled : ∀ event ∈ st.session.outputQueue.items, event.terminal = true →
    (st.session.cancelled || st.session.ended) = true) (hpast : st.reader.pastEnd = true) :
    Sealed st fl :=
  ⟨hsettled, fun _ => hpast, fun _ _ _ => hpast,
    fun hp => absurd (hp.symm.trans hpast) Bool.false_ne_true⟩

/-- The session is cancelled and the reader is past the end. -/
theorem Sealed.stopped (hc : st.session.cancelled = true) (hpast : st.reader.pastEnd = true) :
    Sealed st fl :=
  .closed (fun _ _ _ => by simp [hc]) hpast

/-- A change that leaves the reader and the flags alone and adds neither an outcome nor work. -/
theorem Sealed.frame (h : Sealed st fl)
    (hqueue : ∀ event ∈ st'.session.outputQueue.items, event.terminal = true →
      event ∈ st.session.outputQueue.items)
    (hc : st'.session.cancelled = st.session.cancelled)
    (he : st'.session.ended = st.session.ended) (hside : st'.readerSide = st.readerSide)
    (hwaiting : st'.waiting fl' ⊆ st.waiting fl) : Sealed st' fl' := by
  have hreader : st'.reader = st.reader := congrArg ReaderSide.reader hside
  have hinput : st'.session.inputSamples = st.session.inputSamples :=
    congrArg ReaderSide.inputSamples hside
  refine ⟨fun event hmem hterminal => ?_, fun hended => ?_, fun work hmem hend => ?_, ?_⟩
  · rw [hc, he]
    exact h.settled event (hqueue event hmem hterminal) hterminal
  · rw [hreader]
    exact h.ended (he.symm.trans hended)
  · rw [hreader]
    exact h.last work (hwaiting hmem) hend
  · rw [hreader, hinput, hc]
    intro hpast hzero
    obtain ⟨hcan, hnil, hhops⟩ := h.fresh hpast hzero
    exact ⟨hcan, List.subset_nil.mp (hnil ▸ hwaiting), hhops⟩

/-- The scheduler fails a stream with a work item. -/
theorem Sealed.fail (h : Sealed st fl) (hwork : st.waiting fl ≠ [])
    (hwaiting : st.waiting fl' ⊆ st.waiting fl) (status : StatusCode) (detail : String)
    (m : Metrics) : Sealed (fail status detail st m).1 fl' :=
  ⟨fun _ _ _ => rfl, h.ended, fun work hmem => h.last work (hwaiting hmem),
    fun hpast hzero => absurd (h.fresh hpast hzero).2.1 hwork⟩

/-- A stream completes. -/
theorem Sealed.complete (hpast : st.reader.pastEnd = true) (flushed : Bool) (m : Metrics) :
    Sealed (complete flushed st m).1 fl := by
  have hreader : (Server.complete flushed st m).1.reader = st.reader :=
    congrArg ReaderSide.reader (complete_readerSide flushed st m)
  exact .closed (fun _ _ _ => complete_stops flushed st m) (hreader ▸ hpast)

/-! ### The reader -/

theorem Sealed.finishInput (h : Sealed st fl) (hintake : Intake settings st)
    (hr : st.reader = .reading false) (flush : Bool) (m : Metrics) :
    Sealed (finishInput flush st m).1 fl := by
  have hopen : st.reader.pastEnd = false := by rw [hr]; rfl
  have hnotEnded : st.session.ended = false := by
    by_contra hended
    exact absurd (hopen.symm.trans (h.ended (by simpa using hended))) Bool.false_ne_true
  have hnotLast : ∀ work ∈ st.waiting fl, (work.terminalFlush || work.terminalNoFlush) ≠ true :=
    fun work hmem hend => absurd (hopen.symm.trans (h.last work hmem hend)) Bool.false_ne_true
  have hrec := hintake.received (.inl (by simp [hr]))
  have hsettled : st.session.rechunker.Settled := hrec.settled
  have hpending : total SourceHop.validSamples st.history.hops +
      st.session.rechunker.pendingSamples = st.session.inputSamples := hrec.pending
  have hfinished := finishInput_finished flush st m
  generalize (Server.finishInput flush st m).1 = st' at hfinished ⊢
  cases hfinished with
  | noFlush _ =>
      refine ⟨h.settled, fun hended => absurd (hnotEnded.symm.trans hended) Bool.false_ne_true,
        fun work hmem hend => absurd hend (hnotLast work hmem), fun _ hzero => ?_⟩
      obtain ⟨hcan, hnil, -⟩ := h.fresh hopen hzero
      exact ⟨hcan, hnil, rfl⟩
  | failed failure m' => exact .stopped rfl rfl
  | hop hop rechunker _ hp =>
      refine ⟨h.settled, fun hended => absurd (hnotEnded.symm.trans hended) Bool.false_ne_true,
        fun work hmem hend => absurd hend (hnotLast work hmem), fun _ hzero => ?_⟩
      rcases PCMRechunker.flushPartial_ok hsettled with ⟨-, heq⟩ | ⟨hop', r', hpos, -⟩
      · rw [hp] at heq
        cases heq
      · change st.session.inputSamples = 0 at hzero
        omega
  | nothing rechunker m' _ _ _ => exact .complete rfl true m'
  | flush rechunker _ _ hzero =>
      exact ⟨h.settled, fun hended => absurd (hnotEnded.symm.trans hended) Bool.false_ne_true,
        fun work hmem hend => absurd hend (hnotLast work hmem),
        fun _ hinput => absurd hinput hzero⟩

theorem Sealed.readMessage (h : Sealed st fl) (hintake : Intake settings st) {sawEnd : Bool}
    (hr : st.reader = .reading sawEnd) (message : ClientMessage) (m : Metrics) :
    Sealed (readMessage settings sawEnd message st m).1 fl := by
  have hread := readMessage_read settings sawEnd message st m
  generalize Server.readMessage settings sawEnd message st m = next at hread ⊢
  cases hread with
  | afterEnd _ => exact .stopped rfl rfl
  | duplicateStart _ => exact .stopped rfl rfl
  | empty => exact .stopped rfl rfl
  | accepted chunk st' m' ha =>
      have hopen : st.reader.pastEnd = false := by rw [hr]; rfl
      have hcounted : st.session.rechunker.Counted :=
        (hintake.received (.inl (by simp [hr]))).settled.counted
      obtain ⟨hfits, hops, rechunker, rfl, -⟩ := acceptAudio_ok_cases hcounted ha
      have hsize := hfits.size
      refine ⟨h.settled, fun hended => ?_, fun work hmem hend => ?_, fun _ hzero => ?_⟩
      · exact absurd (hopen.symm.trans (h.ended hended)) Bool.false_ne_true
      · exact absurd (hopen.symm.trans (h.last work hmem hend)) Bool.false_ne_true
      · simp only [Stream.accepts, Session.count, AudioChunk.samples] at hzero
        omega
  | refused chunk st' m' violation _ => exact .stopped rfl rfl
  | ended flush => exact h.finishInput hintake hr flush m

theorem Sealed.put (h : Sealed st fl) {work : ModelWork} {q : BoundedQueue ModelWork}
    (hw : st.reader.work? = some work) (hq : st.session.inputQueue.putNowait work = some q)
    (scheduled : Bool) (m : Metrics) :
    Sealed (afterPut ((st.queued q).flagged scheduled) m).1 fl := by
  obtain ⟨-, hitems, -⟩ := BoundedQueue.putNowait_eq_some hq
  have hopen := Reader.pastEnd_of_work hw
  have hnotEnded : st.session.ended ≠ true := fun hended =>
    absurd (hopen.symm.trans (h.ended hended)) Bool.false_ne_true
  -- a hop was put: there is input, and more of it may follow
  have hhop : ∀ hop reader, work = .ofSource hop → st.session.inputSamples ≠ 0 →
      Sealed (st.puts q scheduled reader) fl := by
    intro hop reader hwork hinput
    refine ⟨h.settled, fun hended => absurd hended hnotEnded, fun w hmem hend => ?_,
      fun _ hzero => absurd hzero hinput⟩
    rcases mem_waiting_puts hitems scheduled reader hmem with hmem | rfl
    · exact absurd (hopen.symm.trans (h.last w hmem hend)) Bool.false_ne_true
    · rw [hwork] at hend
      cases hend
  have hinput : st.reader.hops ≠ [] → st.session.inputSamples ≠ 0 := fun hne hzero =>
    hne (h.fresh hopen hzero).2.2
  have hreturned := afterPut_put hw q scheduled m
  generalize afterPut ((st.queued q).flagged scheduled) m = next at hreturned ⊢
  cases hreturned with
  | hop hop rest hr =>
      have hreader : st.reader = .accepting (hop :: rest) := hr
      exact hhop hop (.ofHops rest) rfl (hinput (by simp [hreader, Reader.hops]))
  | nothing hop hr hzero =>
      have hreader : st.reader = .finishingPartial hop := hr
      exact absurd hzero (hinput (by simp [hreader, Reader.hops]))
  | remainder hop _ hpos => exact hhop hop .finishingFlush rfl hpos
  | flush _ => exact .closed h.settled rfl
  | noFlush _ => exact .closed h.settled rfl

/-! ### The scheduler -/

theorem Sealed.flagged (h : Sealed st fl) (scheduled : Bool) : Sealed (st.flagged scheduled) fl :=
  h.frame (fun _ hmem _ => hmem) rfl rfl rfl (List.Subset.refl _)

theorem Sealed.take (h : Sealed st none) {work : Option ModelWork} (ht : Taken st st' work)
    (i : Nat) : Sealed st' (work.map fun work => ⟨i, work, st'.session.caches⟩) := by
  cases ht with
  | dead _ => exact h.flagged false
  | idle _ _ => exact h.flagged false
  | ends work inputQueue m _ hget hend =>
      obtain ⟨hitems, -⟩ := BoundedQueue.getNowait_eq_some hget
      have hmem : work ∈ st.waiting none := by
        change work ∈ st.session.inputQueue.items
        rw [hitems]
        exact List.mem_cons_self
      have hpast := h.last work hmem (by simp [hend])
      exact .complete (by exact hpast) false m
  | joins work inputQueue _ hget _ =>
      obtain ⟨hitems, -⟩ := BoundedQueue.getNowait_eq_some hget
      refine h.frame (fun _ hmem _ => hmem) rfl rfl rfl ?_
      change work :: inputQueue.items ⊆ st.session.inputQueue.items
      rw [hitems]
      exact List.Subset.refl _

/-- The work item in inference is one of those that wait. -/
theorem mem_waiting_flight (st : Stream κ) (flight : Flight κ) :
    flight.work ∈ st.waiting (some flight) := List.mem_cons_self

theorem waiting_land (st : Stream κ) (flight : Flight κ) :
    st.waiting none ⊆ st.waiting (some flight) := List.subset_cons_self _ _

theorem Sealed.finishHop {flight : Flight κ} (h : Sealed st (some flight)) (st' : Stream κ)
    (hqueue : ∀ event ∈ st'.session.outputQueue.items, event.terminal = true →
      event ∈ st.session.outputQueue.items)
    (hc : st'.session.cancelled = st.session.cancelled)
    (he : st'.session.ended = st.session.ended) (hside : st'.readerSide = st.readerSide)
    (hinput : st'.session.inputQueue = st.session.inputQueue) (m : Metrics) :
    Sealed (finishHop flight.work st' m).1.1 none := by
  unfold Server.finishHop
  split
  · next hflush =>
      have hpast := h.last flight.work (mem_waiting_flight st flight) (by simp [hflush])
      have hreader : st'.reader = st.reader := congrArg ReaderSide.reader hside
      exact .complete (hreader ▸ hpast) true m
  · refine h.frame hqueue hc he hside ?_
    change st'.session.inputQueue.items ⊆ _
    rw [hinput]
    exact waiting_land st flight

theorem Sealed.land {flight : Flight κ} (h : Sealed st (some flight)) {row : Option Bytes}
    {updated : Option κ} (hl : Landed flight.work row updated st st') : Sealed st' none := by
  cases hl with
  | dead _ => exact h.frame (fun _ hmem _ => hmem) rfl rfl rfl (waiting_land st flight)
  | silent caches m _ _ _ =>
      exact h.finishHop (st.advances flight.work caches) (fun _ hmem _ => hmem) rfl rfl rfl rfl m
  | full caches previous bytes m _ _ _ _ _ =>
      have hadvance : Sealed (st.advances flight.work caches) (some flight) :=
        h.frame (fun _ hmem _ => hmem) rfl rfl rfl (List.Subset.refl _)
      exact hadvance.fail (List.ne_nil_of_mem (mem_waiting_flight _ flight)) (waiting_land _ flight)
        _ _ m
  | emitted caches previous bytes outputQueue m _ _ _ _ hput =>
      obtain ⟨-, hitems, -⟩ := BoundedQueue.putNowait_eq_some hput
      refine h.finishHop ((st.advances flight.work caches).emits (.ofRow previous bytes)
        outputQueue) (fun event hmem hterminal => ?_) rfl rfl rfl rfl m
      change event ∈ outputQueue.items at hmem
      rw [hitems, List.mem_append, List.mem_singleton] at hmem
      rcases hmem with hmem | rfl
      · exact hmem
      · cases hterminal

theorem sealed_new (settings : ServerSettings) (model : StreamingModel κ) (start : StartStream) :
    Sealed (Stream.admitted settings model start) none :=
  ⟨fun _ hmem => absurd hmem List.not_mem_nil, nofun, fun _ hmem => absurd hmem List.not_mem_nil,
    fun _ _ => ⟨rfl, rfl, rfl⟩⟩

theorem sealed_invariant (settings : ServerSettings) (model : StreamingModel κ) (env : Env κ) :
    LocalInvariant settings model env fun st fl => Intake settings st ∧ Sealed st fl :=
  (intake_invariant settings model env).and (sealed_new settings model)
    (fun _ => .closed (fun _ hmem => absurd hmem List.not_mem_nil) rfl)
    (fun _ _ => .closed (fun _ hmem => absurd hmem List.not_mem_nil) rfl)
    fun st fl st' fl' hintake h hr => by
      cases hr with
      | read message m hr => exact h.readMessage hintake hr message m
      | eof m hr =>
          unfold Server.readEof
          split
          · exact .closed h.settled rfl
          · exact .stopped rfl rfl
      | readFail failure m _ => exact .stopped rfl rfl
      | put scheduled m hw hq => exact h.put hw hq scheduled m
      | putOverflow scheduled m _ _ => exact .stopped rfl rfl
      | afterAccepted m _ => exact h.frame (fun _ hmem _ => hmem) rfl rfl rfl (List.Subset.refl _)
      | afterAudio m _ => exact h.frame (fun _ hmem _ => hmem) rfl rfl rfl (List.Subset.refl _)
      | handle m m' _ hget hh =>
          obtain ⟨hitems, -⟩ := BoundedQueue.getNowait_eq_some hget
          have hoff := handleEvent_offGenerator hh
          refine h.frame (fun event hmem _ => ?_) hoff.cancelled hoff.ended hoff.readerSide ?_
          · rw [handleEvent_outputQueue hh] at hmem
            rw [hitems]
            exact List.mem_cons_of_mem _ hmem
          · rw [Stream.waiting, hoff.inputQueue]
            exact List.Subset.refl _
      | handleRaise m m' _ _ _ => exact .stopped rfl rfl
      | finish m _ => exact .stopped rfl rfl
      | take m => exact h.take (takeWork_taken st m) _
      | apply m _ ho scheduled => exact (h.land (applyResult_landed ho)).flagged scheduled
      | @applyRaised flight _ _ m _ ho =>
          rcases (applyResult_raised ho).2 with heq | ⟨caches, heq⟩
          · rw [heq]
            exact h
          · rw [heq]
            exact h.frame (fun _ hmem _ => hmem) rfl rfl rfl (List.Subset.refl _)
      | @fail flight m =>
          exact h.fail (List.ne_nil_of_mem (mem_waiting_flight st flight)) (waiting_land st flight)
            _ _ m

end Sealed

theorem reachable_sealed {settings : ServerSettings} {model : StreamingModel κ}
    {s : ServerState κ} (h : (system settings model).Reachable s) {i : Nat} {st : Stream κ}
    (hst : s.streams[i]? = some st) :
    Intake settings st ∧ Sealed st (flightOf i s.loop.flights) :=
  reachable_stream model.delivers_any (fun _ _ => trivial)
    (sealed_invariant settings model Env.any) h hst

/-! ## The condition -/

instance (settings : ServerSettings) (session : Session κ) (chunk : AudioChunk) :
    Decidable (ChunkFits settings session chunk) :=
  decidable_of_iff (¬ (chunk.pcmS16le.length = 0 ∨ chunk.pcmS16le.length % 2 ≠ 0) ∧
      chunk.samples ≤ settings.maxAudioChunkSamples ∧
      chunk.sequence.toNat = session.expectedSequence ∧
      chunk.inputStartSample.toNat = session.expectedInputSample)
    ⟨fun h => ⟨h.1, h.2.1, h.2.2.1, h.2.2.2⟩, fun h => ⟨h.size, h.limit, h.sequence, h.offset⟩⟩

/-- A message that does not fail its stream: the end, or a chunk in order that fits. -/
def Fits (settings : ServerSettings) (session : Session κ) : ClientMessage → Prop
  | .audio chunk => ChunkFits settings session chunk ∧
      session.rechunker.pendingSamples + chunk.samples ≤ session.rechunker.maxPendingSamples
  | .endStream _ => True
  | .start _ => False
  | .empty => False

/-- Protobuf takes the message the generator is about to build. -/
def Stream.Encodes (st : Stream κ) (m : Metrics) : Prop :=
  st.enhance = .waiting → ∀ next ∈ st.session.outputQueue.getNowait,
    (handleEvent next.1 (st.withOutput next.2) m).1.isSome = true

/-- No reader fails while an outcome of its stream is queued, no inference raises while one of
a session of its batch is, and the generator can encode the events before an outcome. -/
def KeepsOutcome (settings : ServerSettings) (s : ServerState κ) : Event κ → Prop
  | .deliver i message => ∀ st ∈ s.streams[i]?, st.outcome?.isSome = true →
      st.reader = .reading false ∧ Fits settings st.session message
  | .closeInput i => ∀ st ∈ s.streams[i]?, st.outcome?.isSome = true → st.reader ≠ .reading false
  | .idleTimeout i | .requestError i => ∀ st ∈ s.streams[i]?, ¬ st.outcome?.isSome = true
  | .resume i => ∀ st ∈ s.streams[i]?, st.outcome?.isSome = true → st.Encodes s.metrics
  | .inferenceRaised => ∀ flight ∈ s.loop.flights, ∀ st ∈ s.streams[flight.stream]?,
      ¬ st.outcome?.isSome = true
  | _ => True

instance (settings : ServerSettings) (session : Session κ) (message : ClientMessage) :
    Decidable (Fits settings session message) :=
  match message with
  | .audio _ => inferInstanceAs (Decidable (_ ∧ _))
  | .endStream _ => .isTrue trivial
  | .start _ | .empty => .isFalse id

instance (st : Stream κ) (m : Metrics) : Decidable (st.Encodes m) := by
  unfold Stream.Encodes
  infer_instance

instance (settings : ServerSettings) (s : ServerState κ) (e : Event κ) :
    Decidable (KeepsOutcome settings s e) :=
  match e with
  | .deliver i _ | .closeInput i | .idleTimeout i | .requestError i | .resume i =>
      inferInstanceAs (Decidable (∀ st ∈ s.streams[i]?, _))
  | .inferenceRaised => inferInstanceAs (Decidable (∀ flight ∈ s.loop.flights, _))
  | .enhance _ | .put _ | .cancelCall _ | .gather | .dispatch | .inferenceReturned ..
  | .closeScheduler => .isTrue trivial

/-! ## The steps of a stream whose outcome is queued -/

section Steps

variable {settings : ServerSettings} {model : StreamingModel κ} {env : Env κ}
  {st st' : Stream κ} {fl fl' : Option (Flight κ)} {e : Event κ} {i : Nat} {t : OutputEvent}

/-- The stream is cancelled or has ended. -/
theorem Sealed.dead (h : Sealed st fl) (ho : st.outcome? = some t) :
    (st.session.cancelled || st.session.ended) = true :=
  h.settled t (List.mem_of_find?_eq_some ho) (List.find?_some ho)

/-- A reader that has not put the last work item is not the one that decided the outcome. -/
theorem Sealed.hasInput (h : Sealed st fl) (ho : st.outcome? = some t)
    (hopen : st.reader.pastEnd = false) : st.session.inputSamples ≠ 0 := by
  intro hzero
  obtain ⟨hcan, -, -⟩ := h.fresh hopen hzero
  have hended : st.session.ended = true := by
    have hdead := h.dead ho
    rwa [hcan, Bool.false_or] at hdead
  exact absurd (hopen.symm.trans (h.ended hended)) Bool.false_ne_true

/-- A message that fits leaves the output queue alone. -/
theorem Sealed.readMessage_outputQueue (h : Sealed st fl) (hintake : Intake settings st)
    (ho : st.outcome? = some t) (hr : st.reader = .reading false) {message : ClientMessage}
    (hfits : Fits settings st.session message) (m : Metrics) :
    (Server.readMessage settings false message st m).1.session.outputQueue =
      st.session.outputQueue := by
  have hrec := hintake.received (.inl (by simp [hr]))
  have hsettled : st.session.rechunker.Settled := hrec.settled
  have hread := readMessage_read settings false message st m
  generalize Server.readMessage settings false message st m = next at hread ⊢
  cases hread with
  | duplicateStart _ => exact hfits.elim
  | empty => exact hfits.elim
  | accepted chunk st' m' ha =>
      obtain ⟨hops, rechunker, rfl⟩ := acceptAudio_accepts ha
      rfl
  | refused chunk st' m' violation ha =>
      have hok := (acceptAudio_ok_iff hsettled.counted m).mpr hfits
      rw [ha] at hok
      cases hok
  | ended flush =>
      have hinput := h.hasInput ho (by rw [hr]; rfl)
      unfold Server.finishInput
      split
      · rfl
      · rcases PCMRechunker.flushPartial_ok hsettled with ⟨-, heq⟩ | ⟨hop, r', -, heq, -⟩
        · rw [heq]
          dsimp only
          rw [if_neg hinput]
        · rw [heq]

/-- A put of the reader leaves the output queue alone. -/
theorem Sealed.afterPut_outputQueue (h : Sealed st fl) (ho : st.outcome? = some t)
    (q : BoundedQueue ModelWork) (scheduled : Bool) (m : Metrics) :
    (afterPut ((st.queued q).flagged scheduled) m).1.session.outputQueue =
      st.session.outputQueue := by
  have hreturned := afterPut_returned ((st.queued q).flagged scheduled) m
  generalize ((st.queued q).flagged scheduled).reader.work? = work at hreturned
  generalize afterPut ((st.queued q).flagged scheduled) m = next at hreturned ⊢
  cases hreturned with
  | hop _ _ _ => rfl
  | nothing hop hr hzero =>
      have hreader : st.reader = .finishingPartial hop := hr
      exact absurd hzero (h.hasInput ho (by rw [hreader]; rfl))
  | remainder _ _ _ => rfl
  | flush _ => rfl
  | noFlush _ => rfl
  | idle => rfl

/-- The reader and the scheduler leave a queued outcome alone. -/
theorem Sealed.kept {s : ServerState κ} (hst : s.streams[i]? = some st)
    (h : Sealed st (flightOf i s.loop.flights)) (hintake : Intake settings st)
    (hkeep : KeepsOutcome settings s e) (ho : st.outcome? = some t)
    (heff : StreamStep settings env i e st (flightOf i s.loop.flights) st' fl')
    (hresume : e ≠ .resume i) (hcancel : e ≠ .cancelCall i) :
    st'.outcome? = some t ∧ st'.enhance = st.enhance := by
  have hsome : st.outcome?.isSome = true := by rw [ho]; rfl
  have hdead := h.dead ho
  have hsame : st'.session.outputQueue = st.session.outputQueue → st'.outcome? = some t :=
    fun hq => by rw [Stream.outcome?, hq]; exact ho
  generalize hfl : flightOf i s.loop.flights = fl at h heff
  cases heff with
  | elsewhere => exact ⟨ho, rfl⟩
  | read message m hr =>
      obtain ⟨hopen, hfits⟩ := hkeep st hst hsome
      obtain rfl := Reader.reading.inj (hr.symm.trans hopen)
      exact ⟨hsame (h.readMessage_outputQueue hintake ho hr hfits m),
        (readMessage_offReader settings false message st m).enhance⟩
  | @eof _ _ sawEnd m hr =>
      cases sawEnd with
      | true => exact ⟨ho, rfl⟩
      | false => exact absurd hr (hkeep st hst hsome)
  | idleTimeout m _ => exact absurd hsome (hkeep st hst)
  | requestError m _ => exact absurd hsome (hkeep st hst)
  | put scheduled m _ _ =>
      exact ⟨hsame (h.afterPut_outputQueue ho _ scheduled m), (afterPut_offReader _ m).enhance⟩
  | putOverflow m hw _ hcan =>
      rw [hcan, Bool.false_or] at hdead
      rw [Reader.work?_of_pastEnd (h.ended hdead)] at hw
      cases hw
  | afterAccepted m _ => exact absurd rfl hresume
  | afterAudio m _ => exact absurd rfl hresume
  | handle m m' _ _ _ => exact absurd rfl hresume
  | handleRaise m m' _ _ _ => exact absurd rfl hresume
  | ends m _ => exact absurd rfl hresume
  | cancelCall m _ => exact absurd rfl hcancel
  | take m =>
      refine ⟨hsame ?_, (takeWork_offScheduler st m).enhance⟩
      have htaken := takeWork_taken st m
      generalize (takeWork st m).1.1 = st' at htaken ⊢
      generalize (takeWork st m).2 = work at htaken
      cases htaken with
      | dead _ => rfl
      | idle halive _ => exact absurd (halive.symm.trans hdead) Bool.false_ne_true
      | ends work inputQueue m halive _ _ =>
          exact absurd (halive.symm.trans hdead) Bool.false_ne_true
      | joins work inputQueue halive _ _ =>
          exact absurd (halive.symm.trans hdead) Bool.false_ne_true
  | apply m _ _ scheduled =>
      refine ⟨hsame ?_, (applyResult_offScheduler _ _ _ st m).enhance⟩
      simp only [applyResult, hdead, if_true]
      rfl
  | applyRaised m _ hraised =>
      exact absurd ((applyResult_raised hraised).1.symm.trans hdead) Bool.false_ne_true
  | @fail _ flight m =>
      have hmem : flight ∈ s.loop.flights := List.mem_of_find?_eq_some hfl
      have hstream : flight.stream = i := by
        have hfound := List.find?_some hfl
        simpa using hfound
      exact absurd hsome (hkeep flight hmem st (hstream ▸ hst))

/-- Whether protobuf takes a message does not depend on the metrics. -/
theorem handleEvent_fst (event : OutputEvent) (st : Stream κ) (m m' : Metrics) :
    (handleEvent event st m).1 = (handleEvent event st m').1 := by
  cases event <;> rfl

/-- The generator takes the events before the outcome, and then tells the client of it. -/
theorem outcome_resumed {m₀ : Metrics} (hencodes : st.Encodes m₀)
    (ho : st.outcome? = some t) (hrun : st.enhance.running = true)
    (heff : StreamStep settings env i (.resume i) st fl st' fl') :
    (st'.outcome? = some t ∧ st'.enhance.running = true) ∨ st'.Tells t := by
  generalize he : (Event.resume i : Event κ) = e at heff
  cases heff with
  | elsewhere => exact .inl ⟨ho, hrun⟩
  | afterAccepted m _ => exact .inl ⟨ho, rfl⟩
  | afterAudio m _ => exact .inl ⟨ho, rfl⟩
  | @handle _ _ event q _ m m' _ hget hh =>
      obtain ⟨hitems, -⟩ := BoundedQueue.getNowait_eq_some hget
      rw [Stream.outcome?, hitems] at ho
      cases event with
      | audio audio =>
          left
          have hq := handleEvent_outputQueue hh
          simp only [handleEvent, Prod.mk.injEq, Option.map_eq_some_iff] at hh
          obtain ⟨⟨message, -, rfl⟩, -⟩ := hh
          refine ⟨?_, rfl⟩
          rw [Stream.outcome?, hq]
          exact ho
      | completion completion =>
          right
          obtain rfl : OutputEvent.completion completion = t := Option.some.inj ho
          simp only [handleEvent, Prod.mk.injEq, Option.map_eq_some_iff] at hh
          obtain ⟨⟨message, hmessage, rfl⟩, -⟩ := hh
          exact ⟨rfl, message, hmessage, List.getLast?_concat⟩
      | failure failure =>
          right
          obtain rfl : OutputEvent.failure failure = t := Option.some.inj ho
          simp only [handleEvent, Prod.mk.injEq, Option.some.injEq] at hh
          obtain ⟨rfl, -⟩ := hh
          exact rfl
  | @handleRaise _ _ event q m m' hwaiting hget hh =>
      have hsome := hencodes hwaiting _ hget
      rw [handleEvent_fst _ _ m₀ m, hh] at hsome
      cases hsome
  | ends m hends =>
      rcases hends with hends | ⟨failure, hends⟩
      · rw [hends] at hrun
        cases hrun
      · rw [hends] at hrun
        cases hrun
  | read _ _ _ => cases he
  | eof _ _ => cases he
  | idleTimeout _ _ => cases he
  | requestError _ _ => cases he
  | put _ _ _ _ => cases he
  | putOverflow _ _ _ _ => cases he
  | cancelCall _ _ => cases he
  | take _ => cases he
  | apply _ _ _ _ => cases he
  | applyRaised _ _ _ => cases he
  | fail _ => cases he

/-- A generator that takes no more events sends nothing more. -/
theorem StreamStep.generatorSide (heff : StreamStep settings env i e st fl st' fl')
    (hrun : st.enhance.running = false) :
    st'.generatorSide = st.generatorSide ∨ st'.enhance = .finished := by
  cases heff with
  | elsewhere => exact .inl rfl
  | read message m _ => exact .inl (readMessage_offReader settings _ message st m).generatorSide
  | eof m _ => exact .inl (readEof_offReader _ st m).generatorSide
  | idleTimeout m _ => exact .inl rfl
  | requestError m _ => exact .inl rfl
  | put scheduled m _ _ => exact .inl (afterPut_offReader _ m).generatorSide
  | putOverflow m _ _ _ => exact .inl rfl
  | afterAccepted m he => simp [he, Generator.running] at hrun
  | afterAudio m he => simp [he, Generator.running] at hrun
  | handle m m' he _ _ => simp [he, Generator.running] at hrun
  | handleRaise m m' _ _ _ => exact .inr rfl
  | ends m _ => exact .inr rfl
  | cancelCall m _ => exact .inr rfl
  | take m => exact .inl (takeWork_offScheduler st m).generatorSide
  | apply m _ _ scheduled => exact .inl (applyResult_offScheduler _ _ _ st m).generatorSide
  | applyRaised m _ _ => exact .inl (applyResult_offScheduler _ _ _ st m).generatorSide
  | fail m => exact .inl rfl

theorem Stream.Tells.running (h : st.Tells t) : st.enhance.running = false := by
  cases t with
  | audio _ => exact h.elim
  | completion _ =>
      rw [h.1]
      rfl
  | failure _ =>
      rw [show st.enhance = _ from h]
      rfl

/-- The client is told of one outcome only. -/
theorem Stream.Tells.step (h : st.Tells t ∨ st.enhance = .finished)
    (heff : StreamStep settings env i e st fl st' fl') : st'.Tells t ∨ st'.enhance = .finished := by
  rcases h with h | h
  · rcases heff.generatorSide h.running with hgen | hfin
    · left
      have henhance : st'.enhance = st.enhance := congrArg GeneratorSide.enhance hgen
      have hyielded : st'.history.yielded = st.history.yielded :=
        congrArg GeneratorSide.yielded hgen
      cases t with
      | audio _ => exact h
      | completion _ =>
          obtain ⟨hended, message, hmessage, hlast⟩ := h
          exact ⟨henhance.trans hended, message, hmessage, by rw [hyielded, hlast]⟩
      | failure _ => exact henhance.trans h
    · exact .inr hfin
  · right
    rcases heff.generatorSide (by rw [h]; rfl) with hgen | hfin
    · exact (congrArg GeneratorSide.enhance hgen).trans h
    · exact hfin

end Steps

/-! ## Every run -/

/-- The reader and the scheduler neither remove nor replace the outcome `t` of stream `i`: the
events left out are the generator's. -/
def OutcomeStays (sys : Lts.System (ServerState κ) (Event κ)) (s : ServerState κ) (i : Nat)
    (t : OutputEvent) : Prop :=
  ∀ e s', sys.Step s e s' → e ≠ .resume i → e ≠ .cancelCall i →
    ∃ st', s'.streams[i]? = some st' ∧ st'.outcome? = some t

/-- What became of the outcome `t` of stream `i` on the way from `s` to `s'`. -/
inductive Fate (sys : Lts.System (ServerState κ) (Event κ)) (i : Nat) (t : OutputEvent)
    (s s' : ServerState κ) : Prop where
  /-- It waits for the client. -/
  | waits (st') (hst' : s'.streams[i]? = some st') (hrun : st'.enhance.running = true)
      (ho : st'.outcome? = some t)
  /-- The client was told of it, and of nothing else. -/
  | told (u st st') (hu : sys.Leads s u) (hs' : sys.Leads u s') (hst : u.streams[i]? = some st)
      (htold : st.Tells t) (hst' : s'.streams[i]? = some st')
      (hend : st'.Tells t ∨ st'.enhance = .finished)
  /-- The call was cancelled while it waited. -/
  | cancelled (u v st) (hu : sys.Leads s u) (hst : u.streams[i]? = some st)
      (ho : st.outcome? = some t) (hc : sys.Step u (.cancelCall i) v) (hs' : sys.Leads v s')

section Runs

variable {settings : ServerSettings} {model : StreamingModel κ} {s : ServerState κ} {i : Nat}
  {st : Stream κ} {t : OutputEvent}

/-- One step of a run that keeps outcomes. -/
theorem outcome_stays
    (h : ((system settings model).restrict (KeepsOutcome settings)).Reachable s)
    (hst : s.streams[i]? = some st) (ho : st.outcome? = some t) :
    ∀ e s', ((system settings model).restrict (KeepsOutcome settings)).Step s e s' →
      e ≠ .resume i → e ≠ .cancelCall i → ∃ st', s'.streams[i]? = some st' ∧
        st'.outcome? = some t ∧ st'.enhance = st.enhance := by
  intro e s' hs hresume hcancel
  obtain ⟨hintake, hsealed⟩ := reachable_sealed h.of_restrict hst
  obtain ⟨st', hst', heff⟩ := step_effect model.delivers_any
    (reachable_scheduling h.of_restrict) hs.of_restrict hst
  exact ⟨st', hst', hsealed.kept hst hintake hs.allowed.2 ho heff hresume hcancel⟩

/-- In a run that keeps outcomes, an outcome waits until the client is told of it or the call is
cancelled. -/
theorem outcome_fate
    (h : ((system settings model).restrict (KeepsOutcome settings)).Reachable s)
    (hst : s.streams[i]? = some st) (ho : st.outcome? = some t)
    (hrun : st.enhance.running = true) {s' : ServerState κ}
    (hl : ((system settings model).restrict (KeepsOutcome settings)).Leads s s') :
    Fate ((system settings model).restrict (KeepsOutcome settings)) i t s s' := by
  induction hl with
  | refl => exact .waits st hst hrun ho
  | @tail u v hl hs ih =>
      obtain ⟨e, hs⟩ := hs
      have hu := h.leads hl
      have heffect := fun st₁ (hst₁ : u.streams[i]? = some st₁) =>
        step_effect model.delivers_any (reachable_scheduling hu.of_restrict) hs.of_restrict hst₁
      cases ih with
      | waits st₁ hst₁ hrun₁ ho₁ =>
          by_cases hresume : e = .resume i
          · subst hresume
            obtain ⟨st', hst', heff⟩ := heffect st₁ hst₁
            have hencodes : st₁.Encodes u.metrics :=
              hs.allowed.2 st₁ hst₁ (by rw [ho₁]; rfl)
            rcases outcome_resumed hencodes ho₁ hrun₁ heff with ⟨ho', hrun'⟩ | htold
            · exact .waits st' hst' hrun' ho'
            · exact .told v st' st' (hl.tail ⟨_, hs⟩) .refl hst' htold hst' (.inl htold)
          · by_cases hcancel : e = .cancelCall i
            · subst hcancel
              exact .cancelled u v st₁ hl hst₁ ho₁ hs .refl
            · obtain ⟨st', hst', ho', henhance⟩ := outcome_stays hu hst₁ ho₁ e v hs hresume hcancel
              exact .waits st' hst' (henhance ▸ hrun₁) ho'
      | told u₁ st₁ st₂ hu₁ hu₂ hst₁ htold hst₂ hend =>
          obtain ⟨st', hst', heff⟩ := heffect st₂ hst₂
          exact .told u₁ st₁ st' hu₁ (hu₂.tail ⟨e, hs⟩) hst₁ htold hst'
            (Stream.Tells.step hend heff)
      | cancelled u₁ v₁ st₁ hu₁ hst₁ ho₁ hc hv =>
          exact .cancelled u₁ v₁ st₁ hu₁ hst₁ ho₁ hc (hv.tail ⟨e, hs⟩)

/-- In a run whose steps all keep outcomes, the first terminal event of a stream wins: no reader
or scheduler step removes or replaces it, and it is what the client is told unless the call is
cancelled. -/
theorem first_outcome_wins
    (h : ((system settings model).restrict (KeepsOutcome settings)).Reachable s)
    (hst : s.streams[i]? = some st) (ho : st.outcome? = some t) :
    OutcomeStays ((system settings model).restrict (KeepsOutcome settings)) s i t ∧
      (st.enhance.running = true → ∀ s',
        ((system settings model).restrict (KeepsOutcome settings)).Leads s s' →
          Fate ((system settings model).restrict (KeepsOutcome settings)) i t s s') := by
  refine ⟨fun e s' hs hresume hcancel => ?_, fun hrun s' hl => outcome_fate h hst ho hrun hl⟩
  obtain ⟨st', hst', ho', -⟩ := outcome_stays h hst ho e s' hs hresume hcancel
  exact ⟨st', hst', ho'⟩

end Runs

/-- A hop of the stream is in inference, and then the client sends a message without a body. -/
def emptyMessage : List (Event Tensor) :=
  [.enhance (testStart "a" 0), .deliver 0 (testAudio 0 0 256), .put 0, .gather, .dispatch,
    .deliver 0 .empty]

/-- The outcome of that stream. -/
def emptyMessageOutcome : OutputEvent := .failure ⟨.invalidArgument, "empty client message"⟩

/-- A message without a body, and the outcome stays. -/
theorem first_outcome_wins_empty_message :
    ∃ s st, (system .defaults identityDelayModel).run (.init .defaults) emptyMessage = some s ∧
      s.streams[0]? = some st ∧
      OutcomeStays ((system .defaults identityDelayModel).restrict (KeepsOutcome .defaults)) s 0
        emptyMessageOutcome ∧
      ∀ s', ((system .defaults identityDelayModel).restrict (KeepsOutcome .defaults)).Leads s s' →
        Fate ((system .defaults identityDelayModel).restrict (KeepsOutcome .defaults)) 0
          emptyMessageOutcome s s' := by
  obtain ⟨s, hrun, hr, hp⟩ := Lts.System.Reachable.of_run
    ((system .defaults identityDelayModel).restrict (KeepsOutcome .defaults)) emptyMessage
    (fun s => s.streams[0]?.any fun (st : Stream Tensor) =>
      decide (st.outcome? = some emptyMessageOutcome ∧ st.enhance.running = true))
    (by decide +kernel) (by decide +kernel)
  cases hst : s.streams[0]? with
  | none => simp [hst] at hp
  | some st =>
      rw [hst, Option.any_some, decide_eq_true_eq] at hp
      obtain ⟨hstays, hfate⟩ := first_outcome_wins hr hst hp.1
      exact ⟨s, st, hrun, hst, hstays, hfate hp.2⟩

/-- The inference of that hop raises: the failure of the batch replaces the outcome, and the
client is told of the former. -/
theorem outcome_replaced_by_batch :
    ∃ (s s' : ServerState Tensor) (st st' : Stream Tensor),
      (system .defaults identityDelayModel).Reachable s ∧ s.streams[0]? = some st ∧
      st.outcome? = some emptyMessageOutcome ∧ st.enhance.running = true ∧
      ¬ OutcomeStays (system .defaults identityDelayModel) s 0 emptyMessageOutcome ∧
      (system .defaults identityDelayModel).run s [.inferenceRaised, .resume 0, .resume 0] =
        some s' ∧
      s'.streams[0]? = some st' ∧
      st'.Tells (.failure ⟨.internal, "CUDA inference failed"⟩) := by
  obtain ⟨s, hrun, hr, hp⟩ := Lts.System.Reachable.of_run (system .defaults identityDelayModel)
    emptyMessage (fun s => (s.streams[0]?.any fun (st : Stream Tensor) =>
        decide (st.outcome? = some emptyMessageOutcome ∧ st.enhance.running = true)) &&
      (step .defaults identityDelayModel s .inferenceRaised).any (fun s' =>
        s'.streams[0]?.any fun (st : Stream Tensor) =>
          decide (st.outcome? ≠ some emptyMessageOutcome)) &&
      ((system .defaults identityDelayModel).run s [.inferenceRaised, .resume 0, .resume 0]).any
        fun s' => s'.streams[0]?.any fun (st : Stream Tensor) =>
          decide (st.enhance = .aborting ⟨.internal, "CUDA inference failed"⟩))
    (by decide +kernel) (by decide +kernel)
  simp only [Bool.and_eq_true] at hp
  obtain ⟨⟨hqueued, hreplaced⟩, htold⟩ := hp
  obtain ⟨st, hst, hqueued⟩ := (Option.any_eq_true _ _).mp hqueued
  obtain ⟨s₁, hs₁, hreplaced⟩ := (Option.any_eq_true _ _).mp hreplaced
  obtain ⟨st₁, hst₁, hreplaced⟩ := (Option.any_eq_true _ _).mp hreplaced
  obtain ⟨s', hs', htold⟩ := (Option.any_eq_true _ _).mp htold
  obtain ⟨st', hst', htold⟩ := (Option.any_eq_true _ _).mp htold
  rw [decide_eq_true_eq] at hqueued hreplaced htold
  refine ⟨s, s', st, st', hr, hst, hqueued.1, hqueued.2, fun hstays => ?_, hs', hst', htold⟩
  obtain ⟨st₂, hst₂, ho⟩ := hstays .inferenceRaised s₁ ⟨trivial, hs₁⟩ nofun nofun
  obtain rfl := Option.some.inj (hst₁.symm.trans hst₂)
  exact hreplaced ho

end VoxLattice.Server
