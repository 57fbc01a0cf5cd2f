import VoxLattice.Server.Effects
import VoxLattice.Server.Refinement

/-!
# Failures of a batch

`infer_batch` raises for the whole batch: the check that its output is finite is over the batch,
and the exception does not say which row is at fault.  The loop then fails every session of the
batch.  So a bad row of one stream ends the streams that share its batch, and these only.

`bad` tells from a hop and the caches it is sent with whether the row is bad.  `RaisesOnBadRow`
is the assumption that `infer_batch` raises exactly when some row of its batch is.
-/

namespace VoxLattice.Server

variable {κ : Type*}

/-- The failure of a batch. -/
def batchFailure : ProtocolViolation := ⟨.internal, "CUDA inference failed"⟩

/-- The stream was failed with its batch. -/
def Stream.FailedByBatch (st : Stream κ) : Prop :=
  .failure batchFailure ∈ st.session.outputQueue.items ∨ st.enhance = .aborting batchFailure

/-! ## No other step gives this failure -/

section Steps

variable {settings : ServerSettings} {env : Env κ} {st st' : Stream κ} {fl fl' : Option (Flight κ)}
  {e : Event κ} {i : Nat}

/-- A change that queues no failure of a batch and leaves the generator where it is. -/
theorem not_failedByBatch (h : ¬ st.FailedByBatch)
    (hqueue : ∀ event ∈ st'.session.outputQueue.items,
      event ∈ st.session.outputQueue.items ∨ event ≠ .failure batchFailure)
    (henhance : st'.enhance = st.enhance) : ¬ st'.FailedByBatch := by
  rintro (hmem | habort)
  · rcases hqueue _ hmem with hold | hne
    · exact h (.inl hold)
    · exact hne rfl
  · exact h (.inr (henhance.symm.trans habort))

theorem fail_not_failedByBatch (h : ¬ st.FailedByBatch) {status : StatusCode} {detail : String}
    (hne : (⟨status, detail⟩ : ProtocolViolation) ≠ batchFailure) (m : Metrics) :
    ¬ (fail status detail st m).1.FailedByBatch := by
  refine not_failedByBatch h (fun event hmem => .inr ?_) rfl
  obtain rfl := List.mem_singleton.mp hmem
  simpa using hne

theorem failReader_not_failedByBatch (h : ¬ st.FailedByBatch) {failure : ProtocolViolation}
    (hne : failure ≠ batchFailure) (m : Metrics) :
    ¬ (failReader failure st m).1.FailedByBatch := by
  refine not_failedByBatch h (fun event hmem => .inr ?_) rfl
  obtain rfl := List.mem_singleton.mp hmem
  simpa using hne

theorem complete_not_failedByBatch (h : ¬ st.FailedByBatch) (flushed : Bool) (m : Metrics) :
    ¬ (complete flushed st m).1.FailedByBatch := by
  have hcompletes := complete_completes flushed st m
  generalize complete flushed st m = next at hcompletes ⊢
  cases hcompletes with
  | already _ => exact h
  | queued q _ hput =>
      obtain ⟨-, hitems, -⟩ := BoundedQueue.putNowait_eq_some hput
      refine not_failedByBatch h (fun event hmem => ?_) rfl
      change event ∈ q.items at hmem
      rw [hitems, List.mem_append, List.mem_singleton] at hmem
      rcases hmem with hmem | rfl
      · exact .inl hmem
      · exact .inr nofun
  | full _ _ => exact fail_not_failedByBatch (fun hf => h hf) (by decide) m

/-- The exceptions of `_accept_audio`. -/
theorem acceptAudio_violation {chunk : AudioChunk} {m : Metrics} {violation : ProtocolViolation}
    (h : (acceptAudio settings chunk st m).2 = .error violation) : violation ≠ batchFailure := by
  unfold acceptAudio checkChunk at h
  dsimp only at h
  split at h
  · next violation' hcheck =>
      cases h
      split at hcheck
      · cases hcheck
        nofun
      · split at hcheck
        · cases hcheck
          nofun
        · split at hcheck
          · cases hcheck
            nofun
          · split at hcheck
            · cases hcheck
              nofun
            · cases hcheck
  · split at h
    · next error _ =>
        cases h
        unfold ofRechunkerError
        split
        · nofun
        · decide
    · cases h

theorem finishInput_not_failedByBatch (h : ¬ st.FailedByBatch) (flush : Bool) (m : Metrics) :
    ¬ (finishInput flush st m).1.FailedByBatch := by
  unfold finishInput
  split
  · exact h
  · split
    · exact failReader_not_failedByBatch h (by decide) m
    · exact h
    · dsimp only
      split
      · refine complete_not_failedByBatch ?_ true m
        exact h
      · exact h

theorem readMessage_not_failedByBatch (h : ¬ st.FailedByBatch) (sawEnd : Bool)
    (message : ClientMessage) (m : Metrics) :
    ¬ (readMessage settings sawEnd message st m).1.FailedByBatch := by
  have hread := readMessage_read settings sawEnd message st m
  generalize readMessage settings sawEnd message st m = next at hread ⊢
  cases hread with
  | afterEnd _ => exact failReader_not_failedByBatch h (by decide) m
  | duplicateStart _ => exact failReader_not_failedByBatch h (by decide) m
  | empty => exact failReader_not_failedByBatch h (by decide) m
  | accepted chunk st' m' ha =>
      obtain ⟨hops, rechunker, rfl⟩ := acceptAudio_accepts ha
      exact h
  | refused chunk st' m' violation ha =>
      have hviolation := acceptAudio_violation (congrArg Prod.snd ha)
      have hqueue := (acceptAudio_error ha).2.2.2
      have henhance := (acceptAudio_offReader settings chunk st m).enhance
      rw [ha] at henhance
      refine failReader_not_failedByBatch ?_ hviolation m'
      exact not_failedByBatch h (fun event hmem => .inl (hqueue ▸ hmem)) henhance
  | ended flush => exact finishInput_not_failedByBatch h flush m

theorem afterPut_not_failedByBatch (h : ¬ st.FailedByBatch) (m : Metrics) :
    ¬ (afterPut st m).1.FailedByBatch := by
  rcases afterPut_cases st m with ⟨reader, heq⟩ | heq
  · rw [heq]
    exact h
  · rw [heq]
    refine complete_not_failedByBatch ?_ true m
    exact h

theorem taken_not_failedByBatch (h : ¬ st.FailedByBatch) {work : Option ModelWork}
    (ht : Taken st st' work) : ¬ st'.FailedByBatch := by
  cases ht with
  | dead _ => exact h
  | idle _ _ => exact h
  | ends work inputQueue m _ _ _ =>
      refine complete_not_failedByBatch ?_ false m
      exact h
  | joins work inputQueue _ _ _ => exact h

theorem finishHop_not_failedByBatch (h : ¬ st.FailedByBatch) (work : ModelWork) (m : Metrics) :
    ¬ (finishHop work st m).1.1.FailedByBatch := by
  unfold finishHop
  split
  · exact complete_not_failedByBatch h true m
  · exact h

theorem landed_not_failedByBatch (h : ¬ st.FailedByBatch) {work : ModelWork}
    {row : Option Bytes} {updated : Option κ} (hl : Landed work row updated st st') :
    ¬ st'.FailedByBatch := by
  cases hl with
  | dead _ => exact h
  | silent caches m _ _ _ =>
      refine finishHop_not_failedByBatch ?_ work m
      exact h
  | full caches previous bytes m _ _ _ _ _ =>
      exact fail_not_failedByBatch (fun hf => h hf) (by decide) m
  | emitted caches previous bytes outputQueue m _ _ _ _ hput =>
      obtain ⟨-, hitems, -⟩ := BoundedQueue.putNowait_eq_some hput
      refine finishHop_not_failedByBatch ?_ work m
      refine not_failedByBatch h (fun event hmem => ?_) rfl
      change event ∈ outputQueue.items at hmem
      rw [hitems, List.mem_append, List.mem_singleton] at hmem
      rcases hmem with hmem | rfl
      · exact .inl hmem
      · exact .inr nofun

theorem handled_not_failedByBatch (h : ¬ st.FailedByBatch) {event : OutputEvent}
    {q : BoundedQueue OutputEvent} {m m' : Metrics}
    (hget : st.session.outputQueue.getNowait = some (event, q))
    (hh : handleEvent event (st.withOutput q) m = (some st', m')) : ¬ st'.FailedByBatch := by
  obtain ⟨hitems, -⟩ := BoundedQueue.getNowait_eq_some hget
  have hq := handleEvent_outputQueue hh
  rintro (hmem | habort)
  · rw [hq] at hmem
    exact h (.inl (hitems ▸ List.mem_cons_of_mem _ hmem))
  · cases event with
    | audio audio =>
        simp only [handleEvent, Prod.mk.injEq, Option.map_eq_some_iff] at hh
        obtain ⟨⟨message, -, rfl⟩, -⟩ := hh
        cases habort
    | completion completion =>
        simp only [handleEvent, Prod.mk.injEq, Option.map_eq_some_iff] at hh
        obtain ⟨⟨message, -, rfl⟩, -⟩ := hh
        cases habort
    | failure failure =>
        simp only [handleEvent, Prod.mk.injEq, Option.some.injEq] at hh
        obtain ⟨rfl, -⟩ := hh
        cases habort
        exact h (.inl (hitems ▸ List.mem_cons_self))

/-- Only an inference that raises fails a stream with its batch. -/
theorem StreamStep.not_failedByBatch (h : ¬ st.FailedByBatch)
    (heff : StreamStep settings env i e st fl st' fl') (he : e ≠ .inferenceRaised ∨ fl = none) :
    ¬ st'.FailedByBatch := by
  have hfinished : ∀ (st : Stream κ) m, ¬ (finallyBlock st m).1.FailedByBatch := by
    rintro st m (hmem | habort)
    · cases hmem
    · cases habort
  cases heff with
  | elsewhere => exact h
  | read message m _ => exact readMessage_not_failedByBatch h _ message m
  | eof m _ =>
      unfold readEof
      split
      · exact h
      · exact failReader_not_failedByBatch h (by decide) m
  | idleTimeout m _ => exact failReader_not_failedByBatch h (by decide) m
  | requestError m _ => exact failReader_not_failedByBatch h (by decide) m
  | put scheduled m _ _ =>
      refine afterPut_not_failedByBatch ?_ m
      exact h
  | putOverflow m _ _ _ => exact failReader_not_failedByBatch (fun hf => h hf) (by decide) m
  | afterAccepted m _ => exact fun hf => hf.elim (fun hmem => h (.inl hmem)) nofun
  | afterAudio m _ => exact fun hf => hf.elim (fun hmem => h (.inl hmem)) nofun
  | handle m m' _ hget hh => exact handled_not_failedByBatch h hget hh
  | handleRaise m m' _ _ _ => exact hfinished _ m'
  | ends m _ => exact hfinished _ m
  | cancelCall m _ => exact hfinished _ m
  | take m => exact taken_not_failedByBatch h (takeWork_taken st m)
  | apply m _ ho scheduled =>
      have hlanded := landed_not_failedByBatch h (applyResult_landed ho)
      exact hlanded
  | applyRaised m _ ho =>
      rcases (applyResult_raised ho).2 with heq | ⟨caches, heq⟩
      · rw [heq]
        exact h
      · rw [heq]
        exact h
  | fail m => exact absurd rfl (he.resolve_right nofun)

end Steps

/-! ## Batches with a bad row -/

/-- Some row of the batch in inference is bad. -/
def BadBatch (bad : Tensor → κ → Bool) (s : ServerState κ) : Prop :=
  ∃ flight ∈ s.loop.flights, bad flight.work.samples flight.caches = true

/-- `infer_batch` raises exactly when some row of its batch is bad. -/
def RaisesOnBadRow (bad : Tensor → κ → Bool) (s : ServerState κ) : Event κ → Prop
  | .inferenceRaised => BadBatch bad s
  | .inferenceReturned _ _ => ¬ BadBatch bad s
  | _ => True

/-- Stream `i` has a work item in inference. -/
def InBatch (i : Nat) (s : ServerState κ) : Prop := i ∈ s.loop.flights.map Flight.stream

/-- No row of stream `i` is bad. -/
def OwnRowsGood (bad : Tensor → κ → Bool) (i : Nat) (s : ServerState κ) : Prop :=
  ∀ flight ∈ s.loop.flights, flight.stream = i → bad flight.work.samples flight.caches = false

instance (bad : Tensor → κ → Bool) (s : ServerState κ) : Decidable (BadBatch bad s) :=
  inferInstanceAs (Decidable (∃ flight ∈ s.loop.flights, _))

instance (bad : Tensor → κ → Bool) (s : ServerState κ) (e : Event κ) :
    Decidable (RaisesOnBadRow bad s e) :=
  match e with
  | .inferenceRaised => inferInstanceAs (Decidable (BadBatch bad s))
  | .inferenceReturned .. => inferInstanceAs (Decidable (¬ BadBatch bad s))
  | .enhance _ | .deliver .. | .closeInput _ | .idleTimeout _ | .requestError _ | .put _
  | .resume _ | .cancelCall _ | .gather | .dispatch | .closeScheduler => .isTrue trivial

instance (i : Nat) (s : ServerState κ) : Decidable (InBatch i s) :=
  inferInstanceAs (Decidable (i ∈ _))

instance (bad : Tensor → κ → Bool) (i : Nat) (s : ServerState κ) :
    Decidable (OwnRowsGood bad i s) :=
  inferInstanceAs (Decidable (∀ flight ∈ s.loop.flights, _))

/-- `infer_batch` raises exactly on a bad row, and no batch with a work item of stream `i` has
one. -/
def Spared (bad : Tensor → κ → Bool) (i : Nat) (s : ServerState κ) (e : Event κ) : Prop :=
  RaisesOnBadRow bad s e ∧ (InBatch i s → ¬ BadBatch bad s)

instance (bad : Tensor → κ → Bool) (i : Nat) (s : ServerState κ) (e : Event κ) :
    Decidable (Spared bad i s e) := inferInstanceAs (Decidable (_ ∧ _))

section Runs

variable {settings : ServerSettings} {model : StreamingModel κ} {s s' : ServerState κ} {i : Nat}
  {st : Stream κ} {e : Event κ} {bad : Tensor → κ → Bool}

/-- The refusals of the registry. -/
theorem registryAdd_violation {registry : List (String × Nat)} {streamId : String}
    {violation : ProtocolViolation}
    (h : registryAdd settings registry streamId i = .error violation) :
    violation ≠ batchFailure := by
  unfold registryAdd at h
  split at h
  · cases h
    nofun
  · split at h
    · cases h
      nofun
    · cases h

/-- A stream none of whose batches has a bad row is not failed with a batch. -/
theorem spared_not_failedByBatch
    (h : ((system settings model).restrict (Spared bad i)).Reachable s)
    (hst : s.streams[i]? = some st) : ¬ st.FailedByBatch := by
  have hall := restricted_stream (P := fun j st _ => j = i → ¬ st.FailedByBatch)
    model.delivers_any ?_ ?_ ?_ ?_ h hst
  · exact hall rfl
  · rintro j start - (hmem | habort)
    · cases hmem
    · cases habort
  · rintro j start - (hmem | habort)
    · cases hmem
    · cases habort
  · rintro j start violation registry hadd - (hmem | habort)
    · cases hmem
    · exact registryAdd_violation hadd (Generator.aborting.inj habort)
  · rintro s e j st st' fl' - ⟨hraises, hspared⟩ - hP heff rfl
    refine heff.not_failedByBatch (hP rfl) ?_
    -- an inference raises on a bad row, and then the stream is not in the batch
    by_cases he : e = .inferenceRaised
    · right
      subst he
      refine flightOf_eq_none.mpr fun hin => hspared hin hraises
    · exact .inl he

/-- A batch with a bad row fails every stream that has a work item in it. -/
theorem batch_fails_streams
    (h : ((system settings model).restrict (RaisesOnBadRow bad)).Reachable s)
    (hin : InBatch i s) (hbad : BadBatch bad s) (hst : s.streams[i]? = some st)
    (hs : ((system settings model).restrict (RaisesOnBadRow bad)).Step s e s')
    (he : e = .inferenceRaised ∨ ∃ wav updated, e = .inferenceReturned wav updated) :
    ∃ st', s'.streams[i]? = some st' ∧
      st'.session.outputQueue.items = [.failure batchFailure] := by
  rcases he with rfl | ⟨wav, updated, rfl⟩
  · have hstep : step settings model s .inferenceRaised = some s' := hs.eq
    cases step_cases hstep with
    | @inferenceRaised active hloop =>
        have hnodup := (reachable_scheduling h.of_restrict).flights_nodup
        rw [InBatch, hloop] at hin
        rw [hloop] at hnodup
        obtain ⟨m, hst'⟩ := get?_failBatch_mem hnodup hin hst
        exact ⟨_, hst', rfl⟩
  · exact absurd hbad hs.allowed.2

/-- A stream is failed with a batch only if one of its own batches has a bad row, and such a
batch fails all its live streams. -/
theorem batch_failure_isolated (settings : ServerSettings) (model : StreamingModel κ)
    (bad : Tensor → κ → Bool) (i : Nat) :
    (∀ s st, ((system settings model).restrict (Spared bad i)).Reachable s →
      s.streams[i]? = some st → ¬ st.FailedByBatch) ∧
    ∀ s e s' st, ((system settings model).restrict (RaisesOnBadRow bad)).Reachable s →
      InBatch i s → BadBatch bad s → s.streams[i]? = some st → st.Alive →
      ((system settings model).restrict (RaisesOnBadRow bad)).Step s e s' →
      (e = .inferenceRaised ∨ ∃ wav updated, e = .inferenceReturned wav updated) →
      ∃ st', s'.streams[i]? = some st' ∧
        st'.session.outputQueue.items = [.failure batchFailure] :=
  ⟨fun _ _ h hst => spared_not_failedByBatch h hst,
    fun _ _ _ _ h hin hbad hst _ hs he => batch_fails_streams h hin hbad hst hs he⟩

end Runs

/-! ## Two runs that differ in a batch -/

/-- A row is bad if its hop is not silent. -/
def loud (samples : Tensor) (_ : Tensor) : Bool := samples.any fun x => decide (x ≠ 0)

/-- The messages of the client of stream `i` in a run. -/
def clientMessages (i : Nat) (es : List (Event κ)) : List ClientMessage :=
  es.filterMap fun e => match e with
    | .deliver j message => if j = i then some message else none
    | _ => none

/-- Streams 0 and 1 each put a hop, silent and loud, and stream 0 is flushed. -/
def silentAndLoud : List (Event Tensor) :=
  [.enhance (testStart "a" 0), .enhance (testStart "b" 0), .resume 0,
    .deliver 0 (testAudio 0 0 256), .put 0, .deliver 0 (.endStream true), .put 0,
    .deliver 1 (.audio ⟨0, 0, List.replicate 512 1⟩), .put 1]

/-- The two hops share a batch. -/
def sharedBatch : List (Event Tensor) :=
  silentAndLoud ++ [.gather, .gather, .dispatch, .inferenceRaised, .resume 0]

/-- Each hop has a batch of its own. -/
def separateBatches : List (Event Tensor) :=
  let zeros : Tensor := List.replicate hopSamples 0
  silentAndLoud ++ [.gather, .dispatch, .inferenceReturned [zeros] [zeros],
    .gather, .dispatch, .inferenceRaised, .gather, .dispatch, .inferenceReturned [zeros] [zeros],
    .resume 0, .resume 0, .resume 0]

/-- The runs in which `infer_batch` raises exactly on a loud row, and stream 0 has none. -/
def quietStream : Lts.System (ServerState Tensor) (Event Tensor) :=
  (system .defaults identityDelayModel).restrict fun s e =>
    RaisesOnBadRow loud s e ∧ OwnRowsGood loud 0 s

instance (s : ServerState Tensor) (e : Event Tensor) : Decidable (quietStream.allows s e) :=
  inferInstanceAs (Decidable (_ ∧ _ ∧ _))

/-- The same messages of both clients, and a model that works row by row: stream 0 has no bad
row, but it fails in the run in which it shares the batch of a bad row, and completes in the
other. -/
theorem shared_batch_fails_quiet_stream :
    identityDelayModel.Rowwise (fun hop cache => (cache, hop)) ∧
    clientMessages 0 sharedBatch = clientMessages 0 separateBatches ∧
    ∃ (s s' : ServerState Tensor) (st st' : Stream Tensor),
      quietStream.run (.init .defaults) sharedBatch = some s ∧ quietStream.Reachable s ∧
      quietStream.run (.init .defaults) separateBatches = some s' ∧ quietStream.Reachable s' ∧
      s.streams[0]? = some st ∧ s'.streams[0]? = some st' ∧
      st.enhance = .aborting batchFailure ∧ st'.enhance = .ended := by
  refine ⟨identityDelayModel_rowwise, rfl, ?_⟩
  obtain ⟨s, hrun, hr, hp⟩ := Lts.System.Reachable.of_run quietStream sharedBatch
    (fun s => s.streams[0]?.any fun (st : Stream Tensor) =>
      decide (st.enhance = .aborting batchFailure)) (by decide +kernel) (by decide +kernel)
  obtain ⟨s', hrun', hr', hp'⟩ := Lts.System.Reachable.of_run quietStream separateBatches
    (fun s => s.streams[0]?.any fun (st : Stream Tensor) => decide (st.enhance = .ended))
    (by decide +kernel) (by decide +kernel)
  obtain ⟨st, hst, hfailed⟩ := (Option.any_eq_true _ _).mp hp
  obtain ⟨st', hst', hended⟩ := (Option.any_eq_true _ _).mp hp'
  exact ⟨s, s', st, st', hrun, hr, hrun', hr', hst, hst', of_decide_eq_true hfailed,
    of_decide_eq_true hended⟩

/-- The run with separate batches spares stream 0, and the shared batch fails it. -/
theorem batch_failure_isolated_separate :
    (∃ (s : ServerState Tensor) (st : Stream Tensor),
      (system .defaults identityDelayModel).run (.init .defaults) separateBatches = some s ∧
      s.streams[0]? = some st ∧ ¬ st.FailedByBatch) ∧
    ∃ (s s' : ServerState Tensor) (st' : Stream Tensor),
      (system .defaults identityDelayModel).run (.init .defaults)
        (silentAndLoud ++ [.gather, .gather, .dispatch]) = some s ∧
      step .defaults identityDelayModel s .inferenceRaised = some s' ∧
      s'.streams[0]? = some st' ∧
      st'.session.outputQueue.items = [.failure batchFailure] := by
  constructor
  · obtain ⟨s, hrun, hr, hp⟩ := Lts.System.Reachable.of_run
      ((system .defaults identityDelayModel).restrict (Spared loud 0)) separateBatches
      (fun s => s.streams[0]?.isSome) (by decide +kernel) (by decide +kernel)
    obtain ⟨st, hst⟩ := Option.isSome_iff_exists.mp hp
    exact ⟨s, st, hrun, hst,
      (batch_failure_isolated .defaults identityDelayModel loud 0).1 s st hr hst⟩
  · obtain ⟨s, hrun, hr, hp⟩ := Lts.System.Reachable.of_run
      ((system .defaults identityDelayModel).restrict (RaisesOnBadRow loud))
      (silentAndLoud ++ [.gather, .gather, .dispatch])
      (fun s => decide (InBatch 0 s ∧ BadBatch loud s) && (s.streams[0]?.any
          (fun (st : Stream Tensor) => !st.session.cancelled && !st.session.ended) &&
        (step .defaults identityDelayModel s .inferenceRaised).isSome))
      (by decide +kernel) (by decide +kernel)
    simp only [Bool.and_eq_true, decide_eq_true_eq] at hp
    obtain ⟨⟨hin, hbad⟩, hlive, hstep⟩ := hp
    obtain ⟨st, hst, hlive⟩ := (Option.any_eq_true _ _).mp hlive
    rw [Bool.and_eq_true, Bool.not_eq_true', Bool.not_eq_true'] at hlive
    obtain ⟨s', hs'⟩ := Option.isSome_iff_exists.mp hstep
    obtain ⟨st', hst', hqueue⟩ := (batch_failure_isolated .defaults identityDelayModel loud 0).2
      s .inferenceRaised s' st hr hin hbad hst ⟨hlive.1, hlive.2⟩ ⟨⟨trivial, hbad⟩, hs'⟩ (.inl rfl)
    exact ⟨s, s', st', hrun, hs', hst', hqueue⟩

end VoxLattice.Server
