import VoxLattice.Server.Effects

/-!
# Where the emitted audio comes from

No emitted audio reaches beyond the end of some accepted chunk: the emitted intervals are those
of the first hops, and a hop ends where a chunk ends or before.  This outlives the stream: a
stream that fails keeps what it has accepted, cut into hops and emitted.

The histories of a stream only grow (`StreamStep.grows`), and only a message of the client adds
a chunk (`StreamStep.accepted`).
-/

namespace VoxLattice.Server

open Intervals

variable {κ : Type*}

/-- A hop ends within the accepted chunks, and so does the emitted audio. -/
structure Sourced (st : Stream κ) : Prop where
  hops : ∀ hop ∈ st.history.hops, ∃ chunk ∈ st.history.accepted,
    hop.startSample + hop.validSamples ≤ chunk.inputStartSample.toNat + chunk.samples
  emitted : st.history.emitted.map OutputAudio.interval <+:
    st.history.hops.map SourceHop.interval
  last : ∀ chunk ∈ st.history.accepted.getLast?, chunk.inputStartSample.toNat + chunk.samples =
    st.session.inputStartSample + total AudioChunk.samples st.history.accepted

section Sourced

variable {settings : ServerSettings} {st st' : Stream κ} {fl : Option (Flight κ)}

/-- The emitted audio ends within the accepted chunks. -/
theorem Sourced.emitted_end (h : Sourced st) {audio : OutputAudio}
    (hmem : audio ∈ st.history.emitted) : ∃ chunk ∈ st.history.accepted,
      audio.startSample + audio.validSamples ≤ chunk.inputStartSample.toNat + chunk.samples := by
  obtain ⟨hop, hhop, heq⟩ := List.mem_map.mp (h.emitted.subset (List.mem_map_of_mem hmem))
  obtain ⟨hstart, hvalid⟩ := Prod.mk.inj heq
  rw [← hstart, ← hvalid]
  exact h.hops hop hhop

/-- A change of the flags, the queues or the generator. -/
theorem Sourced.frame (h : Sourced st) (hhops : st'.history.hops = st.history.hops)
    (haccepted : st'.history.accepted = st.history.accepted)
    (hemitted : st'.history.emitted = st.history.emitted)
    (hstart : st'.session.inputStartSample = st.session.inputStartSample) : Sourced st' := by
  constructor
  · rw [hhops, haccepted]
    exact h.hops
  · rw [hemitted, hhops]
    exact h.emitted
  · rw [haccepted, hstart]
    exact h.last

/-- A change that neither the reader's side nor the scheduler's sees. -/
theorem Sourced.same (h : Sourced st) (hreader : st'.readerSide = st.readerSide)
    (hscheduler : st'.schedulerSide = st.schedulerSide) : Sourced st' :=
  h.frame (congrArg ReaderSide.hops hreader) (congrArg ReaderSide.accepted hreader)
    (congrArg SchedulerSide.emitted hscheduler) (congrArg ReaderSide.inputStartSample hreader)

/-! ## The reader -/

/-- A chunk is accepted, and its full hops are cut. -/
theorem Sourced.accepts (h : Sourced st) (hintake : Intake settings st)
    (hr : st.reader = .reading false) {chunk : AudioChunk} {hops : List SourceHop}
    {rechunker : PCMRechunker} (hfits : ChunkFits settings st.session chunk)
    (hd : PCMRechunker.Drained { st.session.rechunker with
      parts := st.session.rechunker.parts ++ [decodeSamples chunk.pcmS16le]
      pendingSamples := st.session.rechunker.pendingSamples + chunk.samples } hops rechunker) :
    Sourced (st.accepts chunk hops rechunker) := by
  have hrec := hintake.received (.inl (by simp [hr]))
  have hinput : st.session.inputSamples = total AudioChunk.samples st.history.accepted :=
    hrec.inputSamples
  have hnext : st.session.rechunker.nextSample =
    st.session.inputStartSample + total SourceHop.validSamples st.history.hops := hrec.next
  have hpending : total SourceHop.validSamples st.history.hops +
    st.session.rechunker.pendingSamples = st.session.inputSamples := hrec.pending
  have hoffset : chunk.inputStartSample.toNat =
      st.session.inputStartSample + st.session.inputSamples := hfits.offset.trans hrec.offset
  constructor
  · intro hop hmem
    rcases List.mem_append.mp hmem with hold | hnew
    · obtain ⟨source, hsource, hle⟩ := h.hops hop hold
      exact ⟨source, List.mem_append_left _ hsource, hle⟩
    · refine ⟨chunk, List.mem_append_right _ (List.mem_singleton_self chunk), ?_⟩
      obtain ⟨-, hend, -⟩ := Tiles.mem_bounds hd.tiles hnew
      have hcut := hd.pending
      dsimp only at hend hcut
      omega
  · refine h.emitted.trans ?_
    change _ <+: (st.history.hops ++ hops).map SourceHop.interval
    rw [List.map_append]
    exact List.prefix_append _ _
  · intro last hlast
    change last ∈ (st.history.accepted ++ [chunk]).getLast? at hlast
    rw [List.getLast?_concat, Option.mem_some_iff] at hlast
    subst hlast
    change _ = st.session.inputStartSample + total AudioChunk.samples (st.history.accepted ++ [_])
    rw [total_append, total_cons, total_nil]
    omega

/-- The partial hop ends where the last chunk does. -/
theorem Sourced.flushesHop (h : Sourced st) (hintake : Intake settings st)
    (hr : st.reader = .reading false) {hop : SourceHop} {rechunker : PCMRechunker}
    (hp : st.session.rechunker.flushPartial = .ok (some hop, rechunker)) :
    Sourced (st.flushesHop rechunker hop) := by
  have hrec := hintake.received (.inl (by simp [hr]))
  have hinput : st.session.inputSamples = total AudioChunk.samples st.history.accepted :=
    hrec.inputSamples
  have hnext : st.session.rechunker.nextSample =
    st.session.inputStartSample + total SourceHop.validSamples st.history.hops := hrec.next
  have hpending : total SourceHop.validSamples st.history.hops +
    st.session.rechunker.pendingSamples = st.session.inputSamples := hrec.pending
  have hsettled : st.session.rechunker.Settled := hrec.settled
  rcases PCMRechunker.flushPartial_ok hsettled with ⟨-, heq⟩ | ⟨hop', r', hpos, heq, hstart,
    hvalid, -⟩
  · rw [hp] at heq
    cases heq
  · rw [hp] at heq
    cases heq
    refine ⟨?_, ?_, h.last⟩
    · intro hop' hmem
      rcases List.mem_append.mp hmem with hold | hnew
      · exact h.hops hop' hold
      · obtain rfl := List.mem_singleton.mp hnew
        cases hlast : st.history.accepted.getLast? with
        | none =>
            rw [List.getLast?_eq_none_iff.mp hlast, total_nil] at hinput
            omega
        | some chunk =>
            have hend := h.last chunk hlast
            exact ⟨chunk, List.mem_of_getLast? hlast, by omega⟩
    · refine h.emitted.trans ?_
      change _ <+: (st.history.hops ++ [hop]).map SourceHop.interval
      rw [List.map_append]
      exact List.prefix_append _ _

theorem Sourced.complete (h : Sourced st) (flushed : Bool) (m : Metrics) :
    Sourced (complete flushed st m).1 :=
  h.same (complete_readerSide flushed st m) (complete_schedulerSide flushed st m)

theorem Sourced.finishInput (h : Sourced st) (hintake : Intake settings st)
    (hr : st.reader = .reading false) (flush : Bool) (m : Metrics) :
    Sourced (finishInput flush st m).1 := by
  have hfinished := finishInput_finished flush st m
  generalize (Server.finishInput flush st m).1 = st' at hfinished ⊢
  cases hfinished with
  | noFlush _ => exact h.frame rfl rfl rfl rfl
  | failed failure m' => exact h.frame rfl rfl rfl rfl
  | hop hop rechunker _ hp => exact h.flushesHop hintake hr hp
  | nothing rechunker m' _ _ _ =>
      have hflushed : Sourced (st.flushes rechunker (.reading true)) := h.frame rfl rfl rfl rfl
      exact hflushed.complete true m'
  | flush rechunker _ _ _ => exact h.frame rfl rfl rfl rfl

theorem Sourced.readMessage (h : Sourced st) (hintake : Intake settings st) {sawEnd : Bool}
    (hr : st.reader = .reading sawEnd) (message : ClientMessage) (m : Metrics) :
    Sourced (readMessage settings sawEnd message st m).1 := by
  have hread := readMessage_read settings sawEnd message st m
  generalize Server.readMessage settings sawEnd message st m = next at hread ⊢
  cases hread with
  | afterEnd _ => exact h.frame rfl rfl rfl rfl
  | duplicateStart _ => exact h.frame rfl rfl rfl rfl
  | empty => exact h.frame rfl rfl rfl rfl
  | accepted chunk st' m' ha =>
      have hcounted : st.session.rechunker.Counted :=
        (hintake.received (.inl (by simp [hr]))).settled.counted
      obtain ⟨hfits, hops, rechunker, rfl, hd⟩ := acceptAudio_ok_cases hcounted ha
      exact h.accepts hintake hr hfits hd
  | refused chunk st' m' violation ha =>
      obtain ⟨hhistory, hstart, -, -⟩ := acceptAudio_error ha
      exact h.frame (congrArg History.hops hhistory) (congrArg History.accepted hhistory)
        (congrArg History.emitted hhistory) hstart
  | ended flush => exact h.finishInput hintake hr flush m

theorem Sourced.afterPut (h : Sourced st) (m : Metrics) : Sourced (afterPut st m).1 := by
  rcases afterPut_cases st m with ⟨reader, heq⟩ | heq
  · rw [heq]
    exact h.frame rfl rfl rfl rfl
  · rw [heq]
    have hread : Sourced { st with reader := .reading true } := h.frame rfl rfl rfl rfl
    exact hread.complete true m

/-! ## The scheduler -/

theorem Sourced.finishHop (h : Sourced st) (work : ModelWork) (m : Metrics) :
    Sourced (finishHop work st m).1.1 := by
  unfold Server.finishHop
  split
  · exact h.complete true m
  · exact h

/-- The delayed hop is emitted: the emitted audio is that of all hops that were answered. -/
theorem Sourced.land {flight : Flight κ} (h : Sourced st) (hbacklog : Backlog st (some flight))
    (houtputs : Outputs st) {row : Option Bytes} {updated : Option κ}
    (hl : Landed flight.work row updated st st') : Sourced st' := by
  cases hl with
  | dead _ => exact h
  | silent caches m _ _ _ =>
      have hadvance : Sourced (st.advances flight.work caches) := h.frame rfl rfl rfl rfl
      exact hadvance.finishHop flight.work m
  | full caches previous bytes m _ _ _ _ _ => exact h.frame rfl rfl rfl rfl
  | emitted caches previous bytes outputQueue m halive _ hp _ _ =>
      rw [Bool.or_eq_false_iff] at halive
      obtain ⟨before, after, last, hw⟩ := hbacklog.working halive.1 halive.2
      have hintervals := hw.caughtUp_intervals houtputs ⟨halive.1, halive.2⟩ bytes
      have hcaught : st.caughtUp bytes = st.history.emitted ++ [.ofRow previous bytes] := by
        rw [Stream.caughtUp, hp]
        rfl
      have hemits : Sourced ((st.advances flight.work caches).emits (.ofRow previous bytes)
          outputQueue) := by
        refine ⟨h.hops, ?_, h.last⟩
        change (st.history.emitted ++ [OutputAudio.ofRow previous bytes]).map
          OutputAudio.interval <+: st.history.hops.map SourceHop.interval
        rw [← hcaught, hintervals, hw.hops, List.append_assoc, List.map_append]
        exact List.prefix_append _ _
      exact hemits.finishHop flight.work m

theorem sourced_new (settings : ServerSettings) (model : StreamingModel κ) (start : StartStream) :
    Sourced (Stream.admitted settings model start) :=
  ⟨fun _ hmem => absurd hmem List.not_mem_nil, List.nil_prefix, nofun⟩

theorem sourced_invariant (settings : ServerSettings) (model : StreamingModel κ) :
    LocalInvariant settings model Env.rows fun st fl =>
      ((Intake settings st ∧ Backlog st fl) ∧ Accounts (capabilities settings model) st fl) ∧
        Sourced st :=
  (ledger_invariant settings model).and (sourced_new settings model)
    (fun start => (sourced_new settings model start).frame rfl rfl rfl rfl)
    (fun start _ => (sourced_new settings model start).frame rfl rfl rfl rfl)
    fun st fl st' fl' hledger h hr => by
      obtain ⟨⟨hintake, hbacklog⟩, haccounts⟩ := hledger
      cases hr with
      | read message m hr => exact h.readMessage hintake hr message m
      | eof m _ =>
          unfold Server.readEof
          split <;> exact h.frame rfl rfl rfl rfl
      | readFail failure m _ => exact h.frame rfl rfl rfl rfl
      | put scheduled m _ _ =>
          refine Sourced.afterPut ?_ m
          exact h.frame rfl rfl rfl rfl
      | putOverflow scheduled m _ _ => exact h.frame rfl rfl rfl rfl
      | afterAccepted m _ => exact h.frame rfl rfl rfl rfl
      | afterAudio m _ => exact h.frame rfl rfl rfl rfl
      | handle m m' _ _ hh =>
          have hoff := handleEvent_offGenerator hh
          exact h.same hoff.readerSide hoff.schedulerSide
      | handleRaise m m' _ _ _ => exact h.frame rfl rfl rfl rfl
      | finish m _ => exact h.frame rfl rfl rfl rfl
      | take m =>
          have htaken := takeWork_taken st m
          generalize (takeWork st m).1.1 = st' at htaken ⊢
          generalize (takeWork st m).2 = work at htaken
          cases htaken with
          | dead _ => exact h.frame rfl rfl rfl rfl
          | idle _ _ => exact h.frame rfl rfl rfl rfl
          | ends work inputQueue m _ _ _ =>
              refine Sourced.complete ?_ false m
              exact h.frame rfl rfl rfl rfl
          | joins work inputQueue _ _ _ => exact h.frame rfl rfl rfl rfl
      | apply m _ ho scheduled =>
          exact (h.land hbacklog haccounts.outputs (applyResult_landed ho)).frame rfl rfl rfl rfl
      | applyRaised m hres ho =>
          exact absurd ho (applyResult_ne_raised (rows_answer hres).1 (rows_answer hres).2 st m)
      | fail m => exact h.frame rfl rfl rfl rfl

end Sourced

/-- In every reachable state, the emitted audio of a stream ends within the chunks it
accepted. -/
theorem reachable_sourced {settings : ServerSettings} {model : StreamingModel κ}
    (hmodel : model.RowPerStream) {s : ServerState κ} (h : (system settings model).Reachable s)
    {i : Nat} {st : Stream κ} (hst : s.streams[i]? = some st) : Sourced st :=
  (reachable_stream hmodel.delivers (fun _ _ => trivial) (sourced_invariant settings model)
    h hst).2

/-! ## Growing histories -/

/-- What a step adds to the history of stream `i`. -/
structure Adds (i : Nat) (e : Event κ) (st st' : Stream κ) : Prop where
  emitted : st.history.emitted <+: st'.history.emitted
  yielded : st.history.yielded <+: st'.history.yielded
  start : st'.session.inputStartSample = st.session.inputStartSample
  accepted : ∀ chunk ∈ st'.history.accepted,
    chunk ∈ st.history.accepted ∨ e = .deliver i (.audio chunk)

section Adds

variable {settings : ServerSettings} {env : Env κ} {st st' : Stream κ}
  {fl fl' : Option (Flight κ)} {e : Event κ} {i : Nat}

theorem Adds.same (hhistory : st'.history = st.history)
    (hstart : st'.session.inputStartSample = st.session.inputStartSample) : Adds i e st st' :=
  ⟨by rw [hhistory], by rw [hhistory], hstart, fun chunk hmem => .inl (hhistory ▸ hmem)⟩

theorem Adds.offScheduler (h : OffScheduler st st')
    (hemitted : st.history.emitted <+: st'.history.emitted) : Adds i e st st' where
  emitted := hemitted
  yielded := by
    rw [show st'.history.yielded = st.history.yielded from
      congrArg GeneratorSide.yielded h.generatorSide]
  start := congrArg ReaderSide.inputStartSample h.readerSide
  accepted chunk hmem := by
    rw [show st'.history.accepted = st.history.accepted from
      congrArg ReaderSide.accepted h.readerSide] at hmem
    exact .inl hmem

theorem complete_adds (flushed : Bool) (m : Metrics) : Adds i e st (complete flushed st m).1 := by
  have hcompletes := complete_completes flushed st m
  generalize complete flushed st m = next at hcompletes ⊢
  cases hcompletes with
  | already _ => exact .same rfl rfl
  | queued _ _ _ => exact .same rfl rfl
  | full _ _ => exact .same rfl rfl

theorem finishInput_adds (flush : Bool) (m : Metrics) :
    Adds i e st (finishInput flush st m).1 := by
  have hfinished := finishInput_finished flush st m
  generalize (finishInput flush st m).1 = st' at hfinished ⊢
  cases hfinished with
  | noFlush _ => exact .same rfl rfl
  | failed failure m' => exact .same rfl rfl
  | hop hop rechunker _ _ =>
      exact ⟨List.prefix_refl _, List.prefix_refl _, rfl, fun _ hmem => .inl hmem⟩
  | nothing rechunker m' _ _ _ =>
      have hadds : Adds i e (st.flushes rechunker (.reading true))
          (completeEmptyFlush (st.flushes rechunker (.reading true)) m').1 := complete_adds true m'
      exact ⟨hadds.emitted, hadds.yielded, hadds.start, hadds.accepted⟩
  | flush rechunker _ _ _ => exact .same rfl rfl

theorem readMessage_adds (sawEnd : Bool) (message : ClientMessage) (m : Metrics) :
    Adds i (.deliver i message) st (readMessage settings sawEnd message st m).1 := by
  have hread := readMessage_read settings sawEnd message st m
  generalize readMessage settings sawEnd message st m = next at hread ⊢
  cases hread with
  | afterEnd _ => exact .same rfl rfl
  | duplicateStart _ => exact .same rfl rfl
  | empty => exact .same rfl rfl
  | accepted chunk st' m' ha =>
      obtain ⟨hops, rechunker, rfl⟩ := acceptAudio_accepts ha
      refine ⟨List.prefix_refl _, List.prefix_refl _, rfl, fun chunk' hmem => ?_⟩
      rcases List.mem_append.mp hmem with hold | hnew
      · exact .inl hold
      · obtain rfl := List.mem_singleton.mp hnew
        exact .inr rfl
  | refused chunk st' m' violation ha =>
      obtain ⟨hhistory, hstart, -, -⟩ := acceptAudio_error ha
      exact .same hhistory hstart
  | ended flush => exact finishInput_adds flush m

theorem afterPut_adds (m : Metrics) : Adds i e st (afterPut st m).1 := by
  rcases afterPut_cases st m with ⟨reader, h⟩ | h
  · rw [h]
    exact .same rfl rfl
  · rw [h]
    have hadds : Adds i e { st with reader := .reading true }
        (completeEmptyFlush { st with reader := .reading true } m).1 := complete_adds true m
    exact ⟨hadds.emitted, hadds.yielded, hadds.start, hadds.accepted⟩

theorem handleEvent_adds {event : OutputEvent} {q : BoundedQueue OutputEvent} {m m' : Metrics}
    (hh : handleEvent event (st.withOutput q) m = (some st', m')) : Adds i e st st' := by
  cases event with
  | audio audio =>
      simp only [handleEvent, Prod.mk.injEq, Option.map_eq_some_iff] at hh
      obtain ⟨⟨message, -, rfl⟩, -⟩ := hh
      exact ⟨List.prefix_refl _, List.prefix_append _ _, rfl, fun _ hmem => .inl hmem⟩
  | completion completion =>
      simp only [handleEvent, Prod.mk.injEq, Option.map_eq_some_iff] at hh
      obtain ⟨⟨message, -, rfl⟩, -⟩ := hh
      exact ⟨List.prefix_refl _, List.prefix_append _ _, rfl, fun _ hmem => .inl hmem⟩
  | failure failure =>
      simp only [handleEvent, Prod.mk.injEq, Option.some.injEq] at hh
      obtain ⟨rfl, -⟩ := hh
      exact .same rfl rfl

theorem takeWork_emitted (st : Stream κ) (m : Metrics) :
    (takeWork st m).1.1.history.emitted = st.history.emitted := by
  have htaken := takeWork_taken st m
  generalize (takeWork st m).1.1 = st' at htaken ⊢
  generalize (takeWork st m).2 = work at htaken
  cases htaken with
  | dead _ => rfl
  | idle _ _ => rfl
  | ends work inputQueue m _ _ _ =>
      exact congrArg SchedulerSide.emitted (complete_schedulerSide false _ m)
  | joins work inputQueue _ _ _ => rfl

theorem Landed.emitted_grows {work : ModelWork} {row : Option Bytes} {updated : Option κ}
    (hl : Landed work row updated st st') : st.history.emitted <+: st'.history.emitted := by
  have hfinish : ∀ (st : Stream κ) m,
      (finishHop work st m).1.1.history.emitted = st.history.emitted := by
    intro st m
    unfold finishHop
    split
    · exact congrArg SchedulerSide.emitted (complete_schedulerSide true st m)
    · rfl
  cases hl with
  | dead _ => exact List.prefix_refl _
  | silent caches m _ _ _ =>
      rw [hfinish]
      exact List.prefix_refl _
  | full caches previous bytes m _ _ _ _ _ => exact List.prefix_refl _
  | emitted caches previous bytes outputQueue m _ _ _ _ _ =>
      rw [hfinish]
      exact List.prefix_append _ _

/-- The histories of a stream only grow. -/
theorem StreamStep.grows (heff : StreamStep settings env i e st fl st' fl') :
    Adds i e st st' := by
  cases heff with
  | elsewhere => exact .same rfl rfl
  | read message m _ => exact readMessage_adds _ message m
  | eof m _ =>
      unfold readEof
      split <;> exact .same rfl rfl
  | idleTimeout m _ => exact .same rfl rfl
  | requestError m _ => exact .same rfl rfl
  | @put _ _ work q scheduled m _ _ =>
      have hadds : Adds i (.put i) ((st.queued q).flagged scheduled)
          (afterPut ((st.queued q).flagged scheduled) m).1 := afterPut_adds m
      exact ⟨hadds.emitted, hadds.yielded, hadds.start, hadds.accepted⟩
  | putOverflow m _ _ _ => exact .same rfl rfl
  | afterAccepted m _ => exact .same rfl rfl
  | afterAudio m _ => exact .same rfl rfl
  | handle m m' _ _ hh => exact handleEvent_adds hh
  | handleRaise m m' _ _ _ => exact .same rfl rfl
  | ends m _ => exact .same rfl rfl
  | cancelCall m _ => exact .same rfl rfl
  | take m =>
      exact .offScheduler (takeWork_offScheduler st m)
        (takeWork_emitted st m ▸ List.prefix_refl _)
  | @apply wav updated st flight row caches m _ ho scheduled =>
      have hadds : Adds i (.inferenceReturned wav updated) st
          (applyResult flight.work row caches st m).1.1 :=
        .offScheduler (applyResult_offScheduler _ _ _ st m) (applyResult_landed ho).emitted_grows
      exact ⟨hadds.emitted, hadds.yielded, hadds.start, hadds.accepted⟩
  | @applyRaised wav updated st flight row caches m _ ho =>
      refine .offScheduler (applyResult_offScheduler _ _ _ st m) ?_
      have hemitted : (applyResult flight.work row caches st m).1.1.history.emitted =
          st.history.emitted := by
        rcases (applyResult_raised ho).2 with heq | ⟨caches, heq⟩
        · rw [heq]
        · rw [heq]
          rfl
      exact hemitted ▸ List.prefix_refl _
  | fail m => exact .same rfl rfl

end Adds

end VoxLattice.Server
