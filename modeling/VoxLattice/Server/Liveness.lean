import VoxLattice.Server.Flush
import VoxLattice.Server.Offsets

/-!
# A promptly read stream ends

In a fair trace of prompt steps a stream whose client sends `EndStream` reaches its end.
What is left to do never grows, and some event that makes it less is always bound to come: the
inference of the stream's hop returns, or the scheduler forms the batch the stream is gathered
for, or the stream moves up in the ready queue, or its reader puts the next item.

How it ends depends on the settings and on what the client sends (`flushes_iff`).  An output
queue with room for two events lets the stream complete, and one with room for one fails it,
unless it had no audio.  A chunk limit that does not fit its field ends the call before the
first message, and so does, later, the offset of a hop other than the last.
-/

namespace VoxLattice.Server

open Intervals

variable {κ : Type*}

/-- The runs in which the scheduler must not fail stream `i`. -/
abbrev promptSystem (settings : ServerSettings) (model : StreamingModel κ) (i : Nat) :
    Lts.System (ServerState κ) (Event κ) :=
  (system settings model).restrict (Prompt settings model i)

/-- The inference of a batch returned. -/
def Event.isReturn : Event κ → Bool
  | .inferenceReturned _ _ => true
  | _ => false

def Event.isGather : Event κ → Bool
  | .gather => true
  | _ => false

def Event.isDispatch : Event κ → Bool
  | .dispatch => true
  | _ => false

def Event.isPut (i : Nat) : Event κ → Bool
  | .put j => j == i
  | _ => false

/-- The reader of stream `i` has an item to put and room for it. -/
def ServerState.putEnabled (s : ServerState κ) (i : Nat) : Bool :=
  s.streams[i]?.any fun st => st.reader.work?.isSome && !st.session.inputQueue.full

/-- No task is held up for ever, and the client of stream `i` goes on to the `EndStream` unless
the call is over before. -/
structure Fair {settings : ServerSettings} {model : StreamingModel κ} {i : Nat}
    (tr : (promptSystem settings model i).Trace) : Prop where
  gathers : tr.LeadsTo (fun s => s.loop.isIdle = true ∧ s.ready.items ≠ []) (·.isGather = true)
  dispatches : tr.LeadsTo (fun s => s.loop.isGathering = true) (·.isDispatch = true)
  returns : tr.LeadsTo (fun s => s.loop.isInference = true) (·.isReturn = true)
  puts : tr.LeadsTo (fun s => s.putEnabled i = true) (·.isPut i = true)
  ends : ∃ t st, (tr.state t).streams[i]? = some st ∧ st.registered = true ∧
    (st.reader = .done ∨ tr.event t = some (.deliver i (.endStream true)))

/-! ## What a prompt step leaves alone -/

/-- The number of streams, and whether the scheduler is closing. -/
def ServerState.shape (s : ServerState κ) : Nat × Bool := (s.streams.length, s.closing)

@[simp] theorem onStream_shape (s : ServerState κ) (j : Nat)
    (f : Stream κ → Metrics → Stream κ × Metrics) : (s.onStream j f).shape = s.shape := by
  unfold ServerState.onStream
  split
  · rfl
  · simp only [ServerState.shape, List.length_set]

@[simp] theorem withStream_shape (s : ServerState κ) (j : Nat) (st : Stream κ) (m : Metrics) :
    (s.withStream j st m).shape = s.shape := by
  simp only [ServerState.shape, ServerState.withStream, List.length_set]

@[simp] theorem notify_shape (s : ServerState κ) (j : Nat) : (notify s j).1.shape = s.shape := by
  have hspec := notify_spec s j
  generalize notify s j = result at hspec
  obtain ⟨s', raised⟩ := result
  cases hspec with
  | dropped _ => rfl
  | queued st _ _ => exact withStream_shape s j _ s.metrics
  | overflowed st _ => exact withStream_shape s j _ s.metrics

@[simp] theorem finish_shape (s : ServerState κ) (j : Nat) : (finish j s).shape = s.shape := by
  cases hj : s.streams[j]? with
  | none => simp only [finish, hj]
  | some st =>
      simp only [finish, hj]
      split
      · exact onStream_shape s j finallyBlock
      · exact onStream_shape s j finallyBlock

@[simp] theorem takeBatch_shape (g : List Nat) (s : ServerState κ) :
    (takeBatch g s).1.shape = s.shape :=
  takeBatch_keeps (I := fun s' => s'.shape = s.shape)
    (fun s₁ j st m h => (withStream_shape s₁ j st m).trans h) g s rfl

theorem put_shape {s s' : ServerState κ} {j : Nat} (h : put j s = some s') :
    s'.shape = s.shape := by
  have hnotified (work : ModelWork) (q : BoundedQueue ModelWork) :
      (notify (s.onStream j (enqueue work q)) j).1.shape = s.shape := by
    rw [notify_shape, onStream_shape]
  cases put_step h with
  | @notified _ work q s₁ _ _ _ hn =>
      have hbefore := hnotified work q
      rw [hn] at hbefore
      exact (onStream_shape s₁ j _).trans hbefore
  | @overflowed _ work q s₁ _ _ _ hn =>
      have hbefore := hnotified work q
      rw [hn] at hbefore
      exact (onStream_shape s₁ j _).trans hbefore

theorem resume_shape {s s' : ServerState κ} {j : Nat} (h : resume j s = some s') :
    s'.shape = s.shape := by
  cases resume_step h with
  | afterAccepted _ _ => exact onStream_shape s j _
  | afterAudio _ _ => exact onStream_shape s j _
  | handle _ _ _ _ => exact withStream_shape s j _ _
  | handleRaise _ _ _ _ => exact (finish_shape _ j).trans (withStream_shape s j _ _)
  | ends _ _ => exact finish_shape s j

section Steps

variable {settings : ServerSettings} {model : StreamingModel κ} {s s' : ServerState κ}
  {e : Event κ} {i : Nat}

theorem applyBatch_shape {pcmHops : List Bytes} {updated : List κ} {f : List (Flight κ)}
    {index : Nat} (hanswered : Answered pcmHops updated index f.length)
    (hroom : (applyBatch pcmHops updated index f s).readyOverflow = false) :
    (applyBatch pcmHops updated index f s).shape = s.shape := by
  induction f generalizing index s with
  | nil => rfl
  | cons flight rest ih =>
      cases hj : s.streams[flight.stream]? with
      | none =>
          rw [applyBatch] at hroom ⊢
          simp only [hj] at hroom ⊢
          exact ih hanswered.tail hroom
      | some st =>
          obtain ⟨st', m', s₁, s₂, -, rfl, hs₂, heq⟩ := applyBatch_cons hj hanswered hroom
          rw [heq] at hroom ⊢
          rw [ih hanswered.tail hroom]
          cases hs₂ with
          | inl h => rw [h, withStream_shape]
          | inr h => rw [h, notify_shape, withStream_shape]

/-- Only a new call adds a stream, and no prompt step closes the scheduler. -/
theorem prompt_shape (hmodel : model.RowPerStream)
    (h : (promptSystem settings model i).Step s e s') :
    (∃ first, e = .enhance first) ∨ s'.shape = s.shape := by
  obtain ⟨⟨hallowed, hprompt, hover⟩, hstep⟩ := h
  change step settings model s e = some s' at hstep
  have hroom : s'.readyOverflow = false := hover s' hstep
  cases step_cases hstep with
  | inferenceRaised _ => exact hprompt.elim
  | closeScheduler => exact hprompt.elim
  | enhance first => exact .inl ⟨first, rfl⟩
  | @deliver j _ _ _ _ _ => exact .inr (onStream_shape s j _)
  | @closeInput j _ _ _ _ => exact .inr (onStream_shape s j _)
  | @idleTimeout j _ _ _ _ => exact .inr (onStream_shape s j _)
  | @requestError j _ _ _ _ => exact .inr (onStream_shape s j _)
  | put h => exact .inr (put_shape h)
  | resume h => exact .inr (resume_shape h)
  | @cancelCall j _ _ _ => exact .inr (finish_shape s j)
  | gatherFirst _ _ => exact .inr rfl
  | gatherNext _ _ _ => exact .inr rfl
  | @dispatch sessions _ => exact .inr (takeBatch_shape sessions s)
  | inferenceReturned wav updated hloop =>
      simp only [system, allows, hloop, Loop.flights] at hallowed
      exact .inr (applyBatch_shape (hmodel.answered hallowed) hroom)

theorem enhance_closing (first : ClientMessage) (s : ServerState κ) :
    (enhance settings model first s).closing = s.closing := by
  have hspec := enhance_spec settings model first s
  generalize enhance settings model first s = s' at hspec
  cases hspec with
  | invalid _ _ => rfl
  | refused _ _ _ _ => rfl
  | unannounced _ _ _ _ _ => rfl
  | admitted _ _ _ _ _ => rfl

theorem registryAdd_error {settings : ServerSettings} {registry : List (String × Nat)}
    {streamId : String} {j : Nat} {violation : ProtocolViolation}
    (h : registryAdd settings registry streamId j = .error violation) :
    violation ≠ fullOutputQueue := by
  unfold registryAdd at h
  split at h
  · cases h
    decide
  · split at h
    · cases h
      decide
    · cases h

/-- A stream that comes into being is admitted or refused, or its acceptance is. -/
theorem prompt_new (hmodel : model.RowPerStream)
    (h : (promptSystem settings model i).Step s e s') (hnone : s.streams[i]? = none)
    {st : Stream κ} (hst : s'.streams[i]? = some st) : s'.loop = s.loop ∧
      ((∃ start, settings.maxAudioChunkSamples < 2 ^ 32 ∧ st = .admitted settings model start) ∨
        (∃ start, 2 ^ 32 ≤ settings.maxAudioChunkSamples ∧
          st = .unannounced settings model start) ∨
        ∃ start violation, violation ≠ fullOutputQueue ∧
          st = .refused settings model start violation) := by
  obtain ⟨first, rfl⟩ | hshape := prompt_shape hmodel h
  · obtain rfl : enhance settings model first s = s' := Option.some.inj h.eq
    refine ⟨enhance_loop first s, ?_⟩
    have hspec := enhance_spec settings model first s
    generalize enhance settings model first s = s' at hspec hst
    cases hspec with
    | invalid _ _ => exact absurd (hnone.symm.trans hst) nofun
    | refused start violation _ hadd =>
        obtain hold | ⟨-, hnew⟩ := get?_append_new hst
        · exact absurd (hnone.symm.trans hold) nofun
        · exact .inr (.inr ⟨start, violation, registryAdd_error hadd, hnew⟩)
    | unannounced start _ _ _ hlimit =>
        obtain hold | ⟨-, hnew⟩ := get?_append_new hst
        · exact absurd (hnone.symm.trans hold) nofun
        · exact .inr (.inl ⟨start, hlimit, hnew⟩)
    | admitted start _ _ _ hlimit =>
        obtain hold | ⟨-, hnew⟩ := get?_append_new hst
        · exact absurd (hnone.symm.trans hold) nofun
        · exact .inl ⟨start, hlimit, hnew⟩
  · have hlen : s'.streams.length = s.streams.length := congrArg Prod.fst hshape
    have hlt := (List.getElem?_eq_some_iff.mp hst).1
    rw [List.getElem?_eq_none_iff] at hnone
    omega

end Steps

/-! ## The phases of the stream -/

section Trace

variable {settings : ServerSettings} {model : StreamingModel κ} {i : Nat}
  {tr : (promptSystem settings model i).Trace}

/-- Stream `i` and its work item in inference at an instant. -/
def At (tr : (promptSystem settings model i).Trace) (t : Nat) (st : Stream κ)
    (fl : Option (Flight κ)) : Prop :=
  (tr.state t).streams[i]? = some st ∧ flightOf i (tr.state t).loop.flights = fl

theorem At.unique {t : Nat} {st st' : Stream κ} {fl fl' : Option (Flight κ)} (h : At tr t st fl)
    (h' : At tr t st' fl') : st = st' ∧ fl = fl' :=
  ⟨Option.some.inj (h.1.symm.trans h'.1), h.2.symm.trans h'.2⟩

/-- The stream stands still or takes a step. -/
theorem At.next (hmodel : model.RowPerStream) {t : Nat} {st : Stream κ} {fl : Option (Flight κ)}
    (h : At tr t st fl) : ∃ st' fl', At tr (t + 1) st' fl' ∧
      ((tr.event t = none ∧ st' = st ∧ fl' = fl) ∨ ∃ e, tr.event t = some e ∧
        PromptRound settings i (tr.state t).loop.gathered e st fl st' fl') := by
  obtain ⟨hst, rfl⟩ := h
  cases he : tr.event t with
  | none =>
      refine ⟨st, _, ⟨?_, rfl⟩, .inl ⟨rfl, rfl, ?_⟩⟩
      · rw [tr.stays t he]
        exact hst
      · rw [tr.stays t he]
  | some e =>
      obtain ⟨st', hst', hround⟩ := prompt_round hmodel
        (reachable_scheduling (tr.reachable t).of_restrict) (tr.moves t e he) hst
      exact ⟨st', _, ⟨hst', rfl⟩, .inr ⟨e, rfl, hround⟩⟩

/-- What a step preserves holds from then on. -/
theorem At.later (hmodel : model.RowPerStream) {P : Stream κ → Option (Flight κ) → Prop}
    (hround : ∀ g e st fl st' fl', P st fl → PromptRound settings i g e st fl st' fl' →
      P st' fl') {t u : Nat} {st st' : Stream κ} {fl fl' : Option (Flight κ)} (h : At tr t st fl)
    (hP : P st fl) (htu : t ≤ u) (h' : At tr u st' fl') : P st' fl' := by
  suffices hlater : ∃ st' fl', At tr u st' fl' ∧ P st' fl' by
    obtain ⟨st₁, fl₁, hat₁, hP₁⟩ := hlater
    obtain ⟨rfl, rfl⟩ := h'.unique hat₁
    exact hP₁
  clear h'
  induction u, htu using Nat.le_induction with
  | base => exact ⟨st, fl, h, hP⟩
  | succ u _ ih =>
      obtain ⟨st₁, fl₁, hat₁, hP₁⟩ := ih
      obtain ⟨st₂, fl₂, hat₂, ⟨-, rfl, rfl⟩ | ⟨e, -, hr⟩⟩ := hat₁.next hmodel
      · exact ⟨_, _, hat₂, hP₁⟩
      · exact ⟨_, _, hat₂, hround _ e _ _ _ _ hP₁ hr⟩

theorem At.log (hmodel : model.RowPerStream) {t : Nat} {st : Stream κ} {fl : Option (Flight κ)}
    (h : At tr t st fl) : Log (capabilities settings model) st :=
  (reachable_stream hmodel.delivers (fun _ _ => trivial) (ledger_invariant settings model)
    (tr.reachable t).of_restrict h.1).2.log

theorem At.invariants (hmodel : model.RowPerStream) {t : Nat} {st : Stream κ}
    {fl : Option (Flight κ)} (h : At tr t st fl) : Intake settings st ∧ Backlog st fl := by
  obtain ⟨hst, rfl⟩ := h
  exact (reachable_stream hmodel.delivers (fun _ _ => trivial) (ledger_invariant settings model)
    (tr.reachable t).of_restrict hst).1

/-- Before stream `i` exists nothing of it is in inference. -/
theorem flightOf_none_of_streams {t : Nat} (h : (tr.state t).streams[i]? = none) :
    flightOf i (tr.state t).loop.flights = none := by
  have htrivial : LocalInvariant settings model Env.any fun _ _ => True :=
    ⟨fun _ => trivial, fun _ => trivial, fun _ _ => trivial, fun _ _ _ _ _ _ => trivial⟩
  have hknown := (reachable_streams model.delivers_any (fun _ _ => trivial) htrivial
    (tr.reachable t).of_restrict).known
  rw [flightOf_eq_none]
  intro hmem
  obtain ⟨flight, hflight, rfl⟩ := List.mem_map.mp hmem
  exact absurd (hknown flight hflight) (Nat.not_lt.mpr (List.getElem?_eq_none_iff.mp h))

/-- What holds of a new stream and is preserved by the steps of the trace holds throughout. -/
theorem At.invariant (hmodel : model.RowPerStream)
    {P : Stream κ → Option (Flight κ) → Prop}
    (hadmitted : ∀ start, settings.maxAudioChunkSamples < 2 ^ 32 →
      P (.admitted settings model start) none)
    (hunannounced : ∀ start, 2 ^ 32 ≤ settings.maxAudioChunkSamples →
      P (.unannounced settings model start) none)
    (hrefused : ∀ start violation, violation ≠ fullOutputQueue →
      P (.refused settings model start violation) none)
    (hround : ∀ t st fl e st' fl', At tr t st fl → At tr (t + 1) st' fl' → P st fl →
      tr.event t = some e →
      PromptRound settings i (tr.state t).loop.gathered e st fl st' fl' → P st' fl')
    {t : Nat} {st : Stream κ} {fl : Option (Flight κ)} (h : At tr t st fl) : P st fl := by
  induction t generalizing st fl with
  | zero =>
      obtain ⟨hst, -⟩ := h
      rw [tr.init] at hst
      exact absurd hst (by simp [promptSystem, Lts.System.restrict, system, ServerState.init])
  | succ t ih =>
      cases hold : (tr.state t).streams[i]? with
      | some st₀ =>
          have hat : At tr t st₀ _ := ⟨hold, rfl⟩
          obtain ⟨st', fl', hat', hnext⟩ := hat.next hmodel
          obtain ⟨rfl, rfl⟩ := hat'.unique h
          obtain ⟨-, rfl, rfl⟩ | ⟨e, he, hr⟩ := hnext
          · exact ih hat
          · exact hround t _ _ e _ _ hat hat' (ih hat) he hr
      | none =>
          cases he : tr.event t with
          | none =>
              rw [At, tr.stays t he] at h
              cases hold.symm.trans h.1
          | some e =>
              obtain ⟨hst, hfl⟩ := h
              obtain ⟨hloop, hnew⟩ := prompt_new hmodel (tr.moves t e he) hold hst
              rw [hloop, flightOf_none_of_streams hold] at hfl
              subst hfl
              obtain ⟨start, hlimit, rfl⟩ | ⟨start, hlimit, rfl⟩ | ⟨start, violation, hne, rfl⟩ :=
                hnew
              · exact hadmitted start hlimit
              · exact hunannounced start hlimit
              · exact hrefused start violation hne

theorem live_new (start : StartStream) : Live settings (.admitted settings model start) none where
  alive := ⟨rfl, rfl⟩
  running := rfl
  outputBound := rfl
  inputBound := rfl
  audio _ hmem := absurd hmem List.not_mem_nil
  fresh _ := rfl
  counted hne := absurd rfl hne
  ending := ⟨⟨nofun, fun _ hmem => absurd hmem List.not_mem_nil⟩,
    fun hend => hend.elim nofun fun ⟨_, hmem, _⟩ => absurd hmem List.not_mem_nil, nofun⟩

theorem shut_refused (start : StartStream) (violation : ProtocolViolation)
    (hne : violation ≠ fullOutputQueue) :
    Shut (.refused settings model start violation) none where
  pastEnd := rfl
  idle := .inr ⟨rfl, rfl⟩
  noFailure _ hmem := absurd hmem List.not_mem_nil
  running hfull := hne (Generator.aborting.inj hfull)
  stopped := .inr ⟨violation, rfl⟩
  drained := rfl
  unended := rfl

theorem shut_unannounced (start : StartStream) :
    Shut (.unannounced settings model start) none where
  pastEnd := rfl
  idle := .inl rfl
  noFailure _ hmem := absurd hmem List.not_mem_nil
  running := by rintro ⟨⟩
  stopped := .inl rfl
  drained := rfl
  unended := rfl

/-! ### The accepted chunks -/

theorem acceptAudio_accepted {chunk : AudioChunk} {st : Stream κ} {m : Metrics}
    (h : (acceptAudio settings chunk st m).2 = .ok ()) :
    (acceptAudio settings chunk st m).1.1.history.accepted = st.history.accepted ++ [chunk] := by
  unfold acceptAudio at h ⊢
  split at h
  · cases h
  · dsimp only at h ⊢
    split at h
    · cases h
    · rfl

theorem finishInput_accepted (st : Stream κ) (m : Metrics) :
    (finishInput true st m).1.history.accepted = st.history.accepted := by
  unfold finishInput
  split
  · rfl
  · split
    · rfl
    · rfl
    · dsimp only
      split
      · exact congrArg ReaderSide.accepted (complete_readerSide true _ m)
      · rfl

theorem afterPut_accepted (st : Stream κ) (m : Metrics) :
    (afterPut st m).1.history.accepted = st.history.accepted := by
  rcases afterPut_cases st m with ⟨reader, h⟩ | h
  · rw [h]
  · rw [h]
    exact congrArg ReaderSide.accepted (complete_readerSide true _ m)

/-- A chunk is accepted when it is delivered, and no other step changes the list. -/
theorem PromptRound.accepted {g : List Nat} {e : Event κ} {st st' : Stream κ}
    {fl fl' : Option (Flight κ)} (hr : PromptRound settings i g e st fl st' fl') :
    st'.history.accepted = st.history.accepted ∨ ∃ chunk, e = .deliver i (.audio chunk) ∧
      st'.history.accepted = st.history.accepted ++ [chunk] := by
  cases hr with
  | elsewhere _ => exact .inl rfl
  | audio m _ hok => exact .inr ⟨_, rfl, acceptAudio_accepted hok⟩
  | endStream m _ => exact .inl (finishInput_accepted st m)
  | eof _ => exact .inl rfl
  | put scheduled m _ _ => exact .inl (afterPut_accepted _ m)
  | afterAccepted m _ => exact .inl rfl
  | afterAudio m _ => exact .inl rfl
  | handle m m' _ _ hh =>
      exact .inl (congrArg ReaderSide.accepted (handleEvent_offGenerator hh).readerSide)
  | handleRaise _ _ _ _ _ => exact .inl rfl
  | finish m _ => exact .inl rfl
  | take m _ => exact .inl (congrArg ReaderSide.accepted (takeWork_offScheduler st m).readerSide)
  | @apply _ _ _ flight row caches m _ =>
      exact .inl (congrArg ReaderSide.accepted
        (applyResult_offScheduler flight.work row caches st m).readerSide)

/-- The client sends an audio chunk. -/
def SendsAudio (tr : (promptSystem settings model i).Trace) : Prop :=
  ∃ t chunk, tr.event t = some (.deliver i (.audio chunk))

theorem At.sendsAudio (hmodel : model.RowPerStream) {t : Nat} {st : Stream κ}
    {fl : Option (Flight κ)} (h : At tr t st fl) (hne : st.history.accepted ≠ []) :
    SendsAudio tr := by
  refine At.invariant (P := fun st _ => st.history.accepted ≠ [] → SendsAudio tr) hmodel
    (fun _ _ hne => absurd rfl hne) (fun _ _ hne => absurd rfl hne)
    (fun _ _ _ hne => absurd rfl hne) ?_ h hne
  intro t st fl e st' fl' _ _ ih he hr hne
  obtain hsame | ⟨chunk, rfl, -⟩ := hr.accepted
  · exact ih (hsame ▸ hne)
  · exact ⟨t, chunk, he⟩

/-! ### Before and after the end -/

theorem At.live_or_over (hmodel : model.RowPerStream) {t : Nat} {st : Stream κ}
    {fl : Option (Flight κ)} (h : At tr t st fl) : Live settings st fl ∨ Over st fl := by
  refine At.invariant (P := fun st fl => Live settings st fl ∨ Over st fl) hmodel
    (fun start _ => .inl (live_new start))
    (fun start _ => .inr (shut_unannounced start).toOver)
    (fun start violation hne => .inr (shut_refused start violation hne).toOver) ?_ h
  intro t st fl e st' fl' hat _ hphase _ hr
  cases hphase with
  | inl hlive =>
      obtain ⟨hintake, hbacklog⟩ := hat.invariants hmodel
      obtain hlive' | hleft | hraised := hlive.round hintake hbacklog hr
      · exact .inl hlive'
      · exact .inr hleft.over
      · exact .inr (hraised.shut hlive.alive.ended).toOver
  | inr hover => exact .inr (hover.round hr)

/-- What is live was live before. -/
theorem At.live_before (hmodel : model.RowPerStream) {t u : Nat} {st st' : Stream κ}
    {fl fl' : Option (Flight κ)} (h : At tr t st fl) (hlive : Live settings st fl)
    (h' : At tr u st' fl') (hut : u ≤ t) : Live settings st' fl' := by
  refine (h'.live_or_over hmodel).resolve_right fun hover => hlive.not_over ?_
  exact h'.later hmodel (P := Over) (fun _ _ _ _ _ _ h hr => h.round hr) hover hut h

/-! ## The end is reached -/

theorem Loop.of_isIdle {loop : Loop κ} (h : loop.isIdle = true) :
    loop.suspended = true ∧ loop.isInference = false ∧ loop.isGathering = false := by
  cases loop with
  | idle => exact ⟨rfl, rfl, rfl⟩
  | gathering _ => cases h
  | inference _ => cases h
  | stopped _ => cases h

theorem Loop.of_isGathering {loop : Loop κ} (h : loop.isGathering = true) :
    loop.suspended = true ∧ loop.isInference = false := by
  cases loop with
  | gathering _ => exact ⟨rfl, rfl⟩
  | idle => cases h
  | inference _ => cases h
  | stopped _ => cases h

theorem Loop.of_isInference {loop : Loop κ} (h : loop.isInference = true) :
    loop.suspended = true ∧ loop.isGathering = false := by
  cases loop with
  | inference _ => exact ⟨rfl, rfl⟩
  | idle => cases h
  | gathering _ => cases h
  | stopped _ => cases h

theorem Loop.isGathering_of_mem {loop : Loop κ} (h : i ∈ loop.gathered) :
    loop.isGathering = true := by
  cases loop with
  | gathering _ => rfl
  | idle => cases h
  | inference _ => cases h
  | stopped _ => cases h

/-- The scheduler is at an `await`, no put on the ready queue has failed, and the scheduler is
not closing. -/
theorem running (tr : (promptSystem settings model i).Trace) (hmodel : model.RowPerStream)
    (t : Nat) : (tr.state t).loop.suspended = true ∧
    (tr.state t).readyOverflow = false ∧ (tr.state t).closing = false := by
  induction t with
  | zero =>
      rw [tr.init]
      exact ⟨rfl, rfl, rfl⟩
  | succ t ih =>
      cases he : tr.event t with
      | none =>
          rw [tr.stays t he]
          exact ih
      | some e =>
          have hstep := tr.moves t e he
          obtain ⟨hloop, -, hclosing⟩ := ih
          refine ⟨?_, hstep.allowed.2.2 _ hstep.eq, ?_⟩
          · cases prompt_loop hmodel hstep with
            | stays _ _ _ hsame _ =>
                rw [hsame]
                exact hloop
            | gather _ _ _ hnext => exact (Loop.of_isGathering hnext).1
            | dispatch _ _ hnext =>
                exact hnext.elim (fun h => (Loop.of_isIdle h).1) fun h => (Loop.of_isInference h).1
            | returned _ hidle _ =>
                rw [hidle]
                rfl
          · obtain ⟨first, rfl⟩ | hshape := prompt_shape hmodel hstep
            · obtain hs : enhance settings model first (tr.state t) = tr.state (t + 1) :=
                Option.some.inj hstep.eq
              rw [← hs, enhance_closing, hclosing]
            · exact (congrArg Prod.snd hshape).trans hclosing

/-- An event that brings stream `i` closer to its end happens at an instant. -/
def AdvancesAt (tr : (promptSystem settings model i).Trace) (u : Nat) : Prop :=
  ∃ st fl e, At tr u st fl ∧ tr.event u = some e ∧
    e.Advances i (tr.state u).loop.gathered st fl

/-- Some event to come brings the stream closer to its end. -/
def Comes (tr : (promptSystem settings model i).Trace) (t : Nat) : Prop :=
  ∃ u, t ≤ u ∧ AdvancesAt tr u

theorem Comes.mono {t u : Nat} (htu : t ≤ u) (h : Comes tr u) : Comes tr t :=
  let ⟨v, huv, hv⟩ := h
  ⟨v, htu.trans huv, hv⟩

/-- From `t₀` on the stream is live and its client has ended it. -/
def Draining (tr : (promptSystem settings model i).Trace) (t₀ : Nat) : Prop :=
  ∀ t, t₀ ≤ t → ∃ st fl, At tr t st fl ∧ Live settings st fl ∧ st.reader.finishing = true

/-- There is work for the stream in its queue. -/
def HasWork (tr : (promptSystem settings model i).Trace) (t : Nat) : Prop :=
  ∃ st fl, At tr t st fl ∧ st.session.inputQueue.items ≠ []

section Draining

variable {t₀ : Nat}

/-- One instant while the stream drains. -/
theorem Draining.next (h : Draining tr t₀) (hmodel : model.RowPerStream) {t : Nat}
    (ht : t₀ ≤ t) {st : Stream κ} {fl : Option (Flight κ)} (hat : At tr t st fl) :
    ∃ st' fl', At tr (t + 1) st' fl' ∧ ((tr.event t = none ∧ st' = st ∧ fl' = fl) ∨
      ∃ e, tr.event t = some e ∧ st'.remaining fl' ≤ st.remaining fl ∧
        (e.Advances i (tr.state t).loop.gathered st fl → st'.remaining fl' < st.remaining fl) ∧
        ((e = .dispatch → i ∉ (tr.state t).loop.gathered) →
          st.session.inputQueue.items ≠ [] → st'.session.inputQueue.items ≠ [])) := by
  obtain ⟨st₁, fl₁, hat₁, hlive, hfinishing⟩ := h t ht
  obtain ⟨rfl, rfl⟩ := hat.unique hat₁
  obtain ⟨st', fl', hat', hlive', -⟩ := h (t + 1) (ht.trans t.le_succ)
  obtain ⟨st₂, fl₂, hat₂, hnext⟩ := hat.next hmodel
  obtain ⟨rfl, rfl⟩ := hat'.unique hat₂
  refine ⟨_, _, hat', hnext.imp_right fun ⟨e, he, hr⟩ => ?_⟩
  exact ⟨e, he, (hlive.remaining hr hlive' hfinishing).2⟩

/-- An instant while the stream drains: work in its queue stays there until it is taken. -/
theorem Draining.hasWork (h : Draining tr t₀) (hmodel : model.RowPerStream) {t : Nat}
    (ht : t₀ ≤ t) (hwork : HasWork tr t)
    (hnot : tr.event t = some .dispatch → i ∉ (tr.state t).loop.gathered) :
    HasWork tr (t + 1) := by
  obtain ⟨st, fl, hat, hne⟩ := hwork
  obtain ⟨st', fl', hat', hnext⟩ := h.next hmodel ht hat
  refine ⟨st', fl', hat', ?_⟩
  obtain ⟨-, rfl, -⟩ | ⟨e, he, -, -, hkeeps⟩ := hnext
  · exact hne
  · exact hkeeps (fun hdispatch => hnot (hdispatch ▸ he)) hne

/-- A dispatch of a batch the stream was gathered for brings it closer to its end. -/
theorem Draining.gathered (h : Draining tr t₀) (hmodel : model.RowPerStream) (hfair : Fair tr)
    {t : Nat} (ht : t₀ ≤ t) (hi : i ∈ (tr.state t).loop.gathered) (hwork : HasWork tr t) :
    Comes tr t := by
  obtain ⟨u, htu, ⟨hmem, st, fl, hat, hne⟩, e, he, hdispatch⟩ :=
    hfair.dispatches.until tr (Loop.isGathering_of_mem hi)
      (Q := fun u => i ∈ (tr.state u).loop.gathered ∧ HasWork tr u) ⟨hi, hwork⟩ (by
        intro u htu hQ hnot
        have hkeep := h.hasWork hmodel (ht.trans htu) hQ.2
          (fun hd => absurd rfl (hnot _ hd))
        refine ⟨?_, hkeep⟩
        cases he : tr.event u with
        | none =>
            rw [tr.stays u he]
            exact hQ.1
        | some e =>
            cases prompt_loop hmodel (tr.moves u e he) with
            | stays _ _ _ hsame _ =>
                rw [hsame]
                exact hQ.1
            | gather _ hloop _ _ =>
                rw [hloop]
                exact List.mem_append_left _ hQ.1
            | dispatch _ _ _ => exact absurd rfl (hnot _ he)
            | returned hprev _ _ =>
                have hgathering := Loop.isGathering_of_mem hQ.1
                exact nomatch hgathering.symm.trans (Loop.of_isInference hprev).2)
  refine ⟨u, htu, st, fl, e, hat, he, ?_⟩
  cases e with
  | dispatch => exact ⟨hmem, hne⟩
  | _ => cases hdispatch

/-- The result of the stream's work item brings it closer to its end. -/
theorem At.inFlight (hmodel : model.RowPerStream) (hfair : Fair tr) {t : Nat} {st : Stream κ}
    {flight : Flight κ} (hat : At tr t st (some flight)) : Comes tr t := by
  have hinference : (tr.state t).loop.isInference = true := by
    have hsuspended := (running tr hmodel t).1
    have hfl := hat.2
    cases hl : (tr.state t).loop with
    | inference _ => rfl
    | idle =>
        rw [hl] at hfl
        cases hfl
    | gathering _ =>
        rw [hl] at hfl
        cases hfl
    | stopped _ =>
        rw [hl] at hsuspended
        cases hsuspended
  obtain ⟨u, htu, ⟨-, st', flight', hat'⟩, e, he, hreturn⟩ :=
    hfair.returns.until tr hinference
      (Q := fun u => (tr.state u).loop.isInference = true ∧ ∃ st flight, At tr u st (some flight))
      ⟨hinference, st, flight, hat⟩ (by
        rintro u - ⟨hinf, st, flight, hat⟩ hnot
        obtain ⟨st', fl', hat', hnext⟩ := hat.next hmodel
        cases he : tr.event u with
        | none =>
            simp only [At, tr.stays u he]
            exact ⟨hinf, st, flight, hat⟩
        | some e =>
            cases prompt_loop hmodel (tr.moves u e he) with
            | stays _ _ _ hsame _ =>
                refine ⟨by rw [hsame, hinf], st', flight, hat'.1, ?_⟩
                rw [hsame, hat.2]
            | gather hprev _ _ _ => exact nomatch hinf.symm.trans hprev
            | dispatch hprev _ _ =>
                exact nomatch hprev.symm.trans (Loop.of_isInference hinf).2
            | returned _ _ _ => exact absurd rfl (hnot _ he))
  refine ⟨u, htu, st', some flight', e, hat', he, ?_⟩
  cases e with
  | inferenceReturned _ _ => rfl
  | _ => cases hreturn

/-! ### The ready queue -/

/-- The stream has work, and at most `k` sessions are before it in the ready queue. -/
structure Waits (tr : (promptSystem settings model i).Trace) (k t : Nat) : Prop where
  mem : i ∈ (tr.state t).ready.items
  place : (tr.state t).ready.items.idxOf i ≤ k
  work : HasWork tr t

theorem Draining.waits_next (h : Draining tr t₀) (hmodel : model.RowPerStream) {k t : Nat}
    (ht : t₀ ≤ t) (hw : Waits tr k t)
    (hdispatch : tr.event t = some .dispatch → i ∉ (tr.state t).loop.gathered)
    (hgather : tr.event t ≠ some .gather) : Waits tr k (t + 1) := by
  have hwork := h.hasWork hmodel ht hw.work hdispatch
  have hgrows : ∀ {ready : List Nat}, (tr.state t).ready.items <+: ready → i ∈ ready ∧
      ready.idxOf i ≤ k := by
    rintro _ ⟨rest, rfl⟩
    rw [List.idxOf_append_of_mem hw.mem]
    exact ⟨List.mem_append_left _ hw.mem, hw.place⟩
  suffices hready : (tr.state t).ready.items <+: (tr.state (t + 1)).ready.items from
    ⟨(hgrows hready).1, (hgrows hready).2, hwork⟩
  cases he : tr.event t with
  | none => rw [tr.stays t he]
  | some e =>
      cases prompt_loop hmodel (tr.moves t e he) with
      | stays _ _ _ _ hready => exact hready
      | gather _ _ _ _ => exact absurd he hgather
      | dispatch _ hready _ => rw [hready]
      | returned _ _ hready => exact hready

/-- The scheduler takes the stream or one before it. -/
theorem Draining.waits_gather (h : Draining tr t₀) (hmodel : model.RowPerStream) {k t : Nat}
    (ht : t₀ ≤ t) (hw : Waits tr k t) (he : tr.event t = some .gather) :
    HasWork tr (t + 1) ∧ (tr.state (t + 1)).loop.isGathering = true ∧
      (i ∈ (tr.state (t + 1)).loop.gathered ∨ ∃ k', k' < k ∧ Waits tr k' (t + 1)) := by
  have hwork := h.hasWork hmodel ht hw.work (fun hd => nomatch he.symm.trans hd)
  have hloop := prompt_loop hmodel (tr.moves t _ he)
  cases hloop with
  | stays hg _ _ _ _ => exact absurd rfl hg
  | @gather j _ hloop hready hnext =>
      refine ⟨hwork, hnext, ?_⟩
      obtain ⟨hmem, hplace, -⟩ := hw
      rw [hready] at hmem hplace
      by_cases hj : j = i
      · left
        rw [hloop, hj]
        exact List.mem_append_right _ List.mem_cons_self
      · right
        rw [List.idxOf_cons_ne _ hj] at hplace
        have hmem' := (List.mem_cons.mp hmem).resolve_left (Ne.symm hj)
        exact ⟨_, Nat.lt_of_succ_le hplace, hmem', le_refl _, hwork⟩

theorem Draining.waits_idle (h : Draining tr t₀) (hmodel : model.RowPerStream) (hfair : Fair tr)
    {k t : Nat} (hnext : ∀ k' < k, ∀ t, t₀ ≤ t → Waits tr k' t → Comes tr t) (ht : t₀ ≤ t)
    (hw : Waits tr k t) (hl : (tr.state t).loop.isIdle = true) : Comes tr t := by
  obtain ⟨u, htu, ⟨-, hwu⟩, e, he, hgather⟩ := hfair.gathers.until tr
    ⟨hl, List.ne_nil_of_mem hw.mem⟩
    (Q := fun u => (tr.state u).loop.isIdle = true ∧ Waits tr k u) ⟨hl, hw⟩ (by
      rintro u htu ⟨hlu, hwu⟩ hnot
      obtain ⟨-, hinference, hgathering⟩ := Loop.of_isIdle hlu
      have hstays : (tr.state (u + 1)).loop = (tr.state u).loop ∧
          tr.event u ≠ some .dispatch := by
        cases he : tr.event u with
        | none => exact ⟨by rw [tr.stays u he], nofun⟩
        | some e =>
            cases prompt_loop hmodel (tr.moves u e he) with
            | stays _ hd _ hsame _ => exact ⟨hsame, fun h => hd (Option.some.inj h)⟩
            | gather _ _ _ _ => exact absurd rfl (hnot _ he)
            | dispatch hprev _ _ => exact nomatch hprev.symm.trans hgathering
            | returned hprev _ _ => exact nomatch hprev.symm.trans hinference
      refine ⟨by rw [hstays.1, hlu], h.waits_next hmodel (ht.trans htu) hwu
        (fun hd => absurd hd hstays.2) fun hg => ?_⟩
      exact absurd rfl (hnot _ hg))
  obtain rfl : e = .gather := by
    cases e with
    | gather => rfl
    | _ => cases hgather
  obtain ⟨hwork, -, hmem | ⟨k', hk', hw'⟩⟩ := h.waits_gather hmodel (ht.trans htu) hwu he
  · exact Comes.mono (htu.trans u.le_succ)
      (h.gathered hmodel hfair ((ht.trans htu).trans u.le_succ) hmem hwork)
  · exact Comes.mono (htu.trans u.le_succ) (hnext k' hk' _ ((ht.trans htu).trans u.le_succ) hw')

theorem Draining.waits_inference (h : Draining tr t₀) (hmodel : model.RowPerStream)
    (hfair : Fair tr) {k t : Nat}
    (hidle : ∀ t, t₀ ≤ t → Waits tr k t → (tr.state t).loop.isIdle = true → Comes tr t)
    (ht : t₀ ≤ t) (hw : Waits tr k t) (hl : (tr.state t).loop.isInference = true) :
    Comes tr t := by
  -- in inference nothing is gathered and no batch is formed
  have hstep : ∀ u, t₀ ≤ u → (tr.state u).loop.isInference = true → Waits tr k u →
      Waits tr k (u + 1) ∧ ((tr.state (u + 1)).loop = (tr.state u).loop ∨
        (tr.state (u + 1)).loop = .idle ∧ ∃ e, tr.event u = some e ∧ e.isReturn = true) := by
    intro u hu hlu hwu
    have hgathering := (Loop.of_isInference hlu).2
    cases he : tr.event u with
    | none =>
        have hwaits := h.waits_next hmodel hu hwu (by rw [he]; nofun) (by rw [he]; nofun)
        exact ⟨hwaits, .inl (by rw [tr.stays u he])⟩
    | some e =>
        cases prompt_loop hmodel (tr.moves u e he) with
        | stays hg hd _ hsame _ =>
            have hwaits := h.waits_next hmodel hu hwu
              (fun h => absurd (Option.some.inj (he.symm.trans h)) hd)
              (fun h => hg (Option.some.inj (he.symm.trans h)))
            exact ⟨hwaits, .inl hsame⟩
        | gather hprev _ _ _ => exact nomatch hlu.symm.trans hprev
        | dispatch hprev _ _ => exact nomatch hprev.symm.trans hgathering
        | returned _ hloop _ =>
            have hwaits := h.waits_next hmodel hu hwu (by rw [he]; nofun) (by rw [he]; nofun)
            exact ⟨hwaits, .inr ⟨hloop, _, rfl, rfl⟩⟩
  obtain ⟨u, htu, ⟨hlu, hwu⟩, e, he, hreturn⟩ := hfair.returns.until tr hl
    (Q := fun u => (tr.state u).loop.isInference = true ∧ Waits tr k u) ⟨hl, hw⟩ (by
      rintro u htu ⟨hlu, hwu⟩ hnot
      obtain ⟨hwaits, hsame | ⟨-, e, he, hreturn⟩⟩ := hstep u (ht.trans htu) hlu hwu
      · exact ⟨by rw [hsame, hlu], hwaits⟩
      · exact absurd hreturn (hnot e he))
  have hu := ht.trans htu
  obtain ⟨hwaits, -⟩ := hstep u hu hlu hwu
  refine Comes.mono (htu.trans u.le_succ) (hidle (u + 1) (hu.trans u.le_succ) hwaits ?_)
  cases prompt_loop hmodel (tr.moves u e he) with
  | stays _ _ hi _ _ =>
      cases e with
      | inferenceReturned wav updated => exact absurd rfl (hi wav updated)
      | _ => cases hreturn
  | gather _ _ _ _ => cases hreturn
  | dispatch _ _ _ => cases hreturn
  | returned _ hloop _ =>
      rw [hloop]
      rfl

theorem Draining.waits_gathering (h : Draining tr t₀) (hmodel : model.RowPerStream)
    (hfair : Fair tr) {k t : Nat}
    (hnext : ∀ t, t₀ ≤ t → Waits tr k t → (tr.state t).loop.isGathering = false → Comes tr t)
    (ht : t₀ ≤ t) (hw : Waits tr k t) (hl : (tr.state t).loop.isGathering = true) :
    Comes tr t := by
  obtain ⟨u, htu, ⟨hlu, hwork, hplace⟩, e, he, hdispatch⟩ := hfair.dispatches.until tr hl
    (Q := fun u => (tr.state u).loop.isGathering = true ∧ HasWork tr u ∧
      (i ∈ (tr.state u).loop.gathered ∨ Waits tr k u)) ⟨hl, hw.work, .inr hw⟩ (by
      rintro u htu ⟨hlu, hwork, hplace⟩ hnot
      have hu := ht.trans htu
      have hwork' := h.hasWork hmodel hu hwork (fun hd => absurd rfl (hnot _ hd))
      by_cases hg : tr.event u = some .gather
      · have hloop := prompt_loop hmodel (tr.moves u _ hg)
        cases hloop with
        | stays hne _ _ _ _ => exact absurd rfl hne
        | gather _ hgathered _ hlu' =>
            refine ⟨hlu', hwork', ?_⟩
            cases hplace with
            | inl hmem =>
                rw [hgathered]
                exact .inl (List.mem_append_left _ hmem)
            | inr hwu =>
                obtain ⟨-, -, hmem | ⟨k', hk', hw'⟩⟩ := h.waits_gather hmodel hu hwu hg
                · exact .inl hmem
                · exact .inr ⟨hw'.mem, hw'.place.trans hk'.le, hwork'⟩
      · have hsame : (tr.state (u + 1)).loop = (tr.state u).loop := by
          cases he : tr.event u with
          | none => rw [tr.stays u he]
          | some e =>
              cases prompt_loop hmodel (tr.moves u e he) with
              | stays _ _ _ hsame _ => exact hsame
              | gather _ _ _ _ => exact absurd he hg
              | dispatch _ _ _ => exact absurd rfl (hnot _ he)
              | returned hprev _ _ => exact nomatch hlu.symm.trans (Loop.of_isInference hprev).2
        rw [hsame]
        exact ⟨hlu, hwork', hplace.imp_right fun hwu =>
          h.waits_next hmodel hu hwu (fun hd => absurd rfl (hnot _ hd)) hg⟩)
  have hu := ht.trans htu
  obtain rfl : e = .dispatch := by
    cases e with
    | dispatch => rfl
    | _ => cases hdispatch
  by_cases hmem : i ∈ (tr.state u).loop.gathered
  · obtain ⟨st, fl, hat, hne⟩ := hwork
    exact ⟨u, htu, st, fl, _, hat, he, hmem, hne⟩
  · have hwu := hplace.resolve_left hmem
    have hwaits := h.waits_next hmodel hu hwu (fun _ => hmem) (by rw [he]; nofun)
    refine Comes.mono (htu.trans u.le_succ) (hnext (u + 1) (hu.trans u.le_succ) hwaits ?_)
    have hloop := prompt_loop hmodel (tr.moves u _ he)
    cases hloop with
    | stays _ hne _ _ _ => exact absurd rfl hne
    | dispatch _ _ hnext =>
        exact hnext.elim (fun h => (Loop.of_isIdle h).2.2) fun h => (Loop.of_isInference h).2

/-- A stream that waits in the ready queue with work is brought closer to its end. -/
theorem Draining.waits (h : Draining tr t₀) (hmodel : model.RowPerStream) (hfair : Fair tr)
    {k t : Nat} (ht : t₀ ≤ t) (hw : Waits tr k t) : Comes tr t := by
  induction k using Nat.strong_induction_on generalizing t with
  | h k ih =>
      have hidle : ∀ t, t₀ ≤ t → Waits tr k t → (tr.state t).loop.isIdle = true → Comes tr t :=
        fun t ht hw hl => h.waits_idle hmodel hfair (fun k' hk' t ht hw => ih k' hk' ht hw) ht hw hl
      have hother : ∀ t, t₀ ≤ t → Waits tr k t → (tr.state t).loop.isGathering = false →
          Comes tr t := by
        intro t ht hw hl
        have hsuspended := (running tr hmodel t).1
        cases hloop : (tr.state t).loop with
        | idle => exact hidle t ht hw (by rw [hloop]; rfl)
        | inference _ => exact h.waits_inference hmodel hfair hidle ht hw (by rw [hloop]; rfl)
        | gathering _ =>
            rw [hloop] at hl
            cases hl
        | stopped _ =>
            rw [hloop] at hsuspended
            cases hsuspended
      cases hl : (tr.state t).loop.isGathering with
      | false => exact hother t ht hw hl
      | true => exact h.waits_gathering hmodel hfair hother ht hw hl

/-- Something brings a draining stream closer to its end. -/
theorem Draining.comes (h : Draining tr t₀) (hmodel : model.RowPerStream) (hfair : Fair tr)
    {t : Nat} (ht : t₀ ≤ t) : Comes tr t := by
  obtain ⟨st, fl, hat, hlive, hfinishing⟩ := h t ht
  cases fl with
  | some flight => exact hat.inFlight hmodel hfair
  | none =>
      by_cases hqueue : st.session.inputQueue.items = []
      · -- the reader has still a put to make
        have hopen : st.reader.pastEnd ≠ true := by
          intro hpast
          obtain ⟨work, hmem, -⟩ := hlive.ending.flush hpast
          change work ∈ st.session.inputQueue.items at hmem
          rw [hqueue] at hmem
          cases hmem
        have hflushing : st.reader.flushing = true := by
          rw [Reader.finishing, Bool.or_eq_true] at hfinishing
          exact hfinishing.resolve_right hopen
        have henabled : (tr.state t).putEnabled i = true := by
          have hroom : st.session.inputQueue.full = false := by
            rw [← Bool.not_eq_true, BoundedQueue.full_iff, hqueue, hlive.inputBound]
            have hpos := settings.queueHops_pos
            rintro ⟨-, hle⟩
            exact absurd hle (Nat.not_le.mpr hpos)
          simp only [ServerState.putEnabled, hat.1, Option.any_some, hroom, Bool.not_false,
            Bool.and_true]
          cases hr : st.reader <;> simp_all [Reader.flushing, Reader.work?]
        obtain ⟨u, htu, e, he, hput⟩ := hfair.puts t henabled
        obtain ⟨st', fl', hat', -⟩ := h u (ht.trans htu)
        refine ⟨u, htu, st', fl', e, hat', he, ?_⟩
        cases e with
        | put j => exact beq_iff_eq.mp hput
        | _ => cases hput
      · -- no wakeup is lost
        have hwork : HasWork tr t := ⟨st, none, hat, hqueue⟩
        obtain ⟨hsuspended, hoverflow, hclosing⟩ := running tr hmodel t
        have hwoken := (reachable_scheduling (tr.reachable t).of_restrict).woken hoverflow hclosing
        have hserved := hwoken.served i st hat.1 ⟨hlive.alive.cancelled, hlive.alive.ended, hqueue⟩
        obtain hskip | hscheduled | hflight := hserved
        · cases hskip
        · obtain hready | hgathered := List.mem_append.mp (hwoken.waits i st hat.1 hscheduled)
          · exact h.waits hmodel hfair ht ⟨hready, le_refl _, hwork⟩
          · exact h.gathered hmodel hfair ht hgathered hwork
        · exact absurd hflight (flightOf_eq_none.mp hat.2)

/-- What is left to do for the stream at an instant. -/
def remainingAt (tr : (promptSystem settings model i).Trace) (t : Nat) : Nat :=
  (tr.state t).streams[i]?.elim 0 fun st => st.remaining (flightOf i (tr.state t).loop.flights)

theorem At.remainingAt {t : Nat} {st : Stream κ} {fl : Option (Flight κ)} (h : At tr t st fl) :
    remainingAt tr t = st.remaining fl := by
  obtain ⟨hst, rfl⟩ := h
  rw [Server.remainingAt, hst]
  rfl

theorem Draining.remaining_next (h : Draining tr t₀) (hmodel : model.RowPerStream) {t : Nat}
    (ht : t₀ ≤ t) : remainingAt tr (t + 1) ≤ remainingAt tr t ∧
      (AdvancesAt tr t → remainingAt tr (t + 1) < remainingAt tr t) := by
  obtain ⟨st, fl, hat, -, -⟩ := h t ht
  obtain ⟨st', fl', hat', hnext⟩ := h.next hmodel ht hat
  rw [hat.remainingAt, hat'.remainingAt]
  obtain ⟨hnone, rfl, rfl⟩ | ⟨e, he, hle, hlt, -⟩ := hnext
  · exact ⟨le_refl _, fun ⟨_, _, e, _, he, _⟩ => nomatch hnone.symm.trans he⟩
  · refine ⟨hle, fun ⟨st₁, fl₁, e₁, hat₁, he₁, hadv⟩ => hlt ?_⟩
    obtain ⟨rfl, rfl⟩ := hat.unique hat₁
    obtain rfl := Option.some.inj (he.symm.trans he₁)
    exact hadv

/-- No stream drains for ever. -/
theorem not_draining (hmodel : model.RowPerStream) (hfair : Fair tr) : ¬ Draining tr t₀ := by
  intro h
  have hmono : ∀ t u, t₀ ≤ t → t ≤ u → remainingAt tr u ≤ remainingAt tr t := by
    intro t u ht htu
    induction u, htu using Nat.le_induction with
    | base => exact le_refl _
    | succ u htu ih => exact (h.remaining_next hmodel (ht.trans htu)).1.trans ih
  have hprogress : ∀ t, t₀ ≤ t → ¬ False →
      ∃ u, t ≤ u ∧ (False ∨ remainingAt tr u < remainingAt tr t) := by
    intro t ht _
    obtain ⟨u, htu, hadv⟩ := h.comes hmodel hfair ht
    have hless := (h.remaining_next hmodel (ht.trans htu)).2 hadv
    exact ⟨u + 1, htu.trans u.le_succ, .inr (hless.trans_le (hmono t u ht htu))⟩
  obtain ⟨_, -, hfalse⟩ := Lts.System.Trace.eventually_of_measure wellFounded_lt
    (remainingAt tr) (fun _ => False) hprogress t₀ (le_refl t₀)
  exact hfalse

end Draining

theorem finishInput_finishing (st : Stream κ) (m : Metrics) :
    (finishInput true st m).1.reader.finishing = true := by
  unfold finishInput
  rw [if_neg (by simp)]
  split
  · rfl
  · rfl
  · dsimp only
    split
    · exact congrArg Reader.finishing (congrArg ReaderSide.reader (complete_readerSide true _ m))
    · rfl

/-- No step changes the standing of a stream with the registry. -/
theorem PromptRound.registered {g : List Nat} {e : Event κ} {st st' : Stream κ}
    {fl fl' : Option (Flight κ)} (hr : PromptRound settings i g e st fl st' fl') :
    st'.registered = st.registered := by
  cases hr with
  | elsewhere _ => rfl
  | audio m _ _ => exact (acceptAudio_calm settings _ st m).registered
  | endStream m _ => exact (finishInput_calm true st m).registered
  | eof _ => rfl
  | put scheduled m _ _ => exact (afterPut_calm _ m).registered
  | afterAccepted _ _ => rfl
  | afterAudio _ _ => rfl
  | handle m m' _ _ hh => exact (handleEvent_calm hh).registered
  | handleRaise _ _ _ _ _ => rfl
  | finish _ _ => rfl
  | take m _ => exact (takeWork_calm st m).registered
  | @apply _ _ _ flight row caches m _ _ _ _ =>
      exact (applyResult_calm flight.work row caches st m).registered

/-- The stream comes to its end. -/
theorem leaves (hmodel : model.RowPerStream) (hfair : Fair tr)
    (hlimit : settings.maxAudioChunkSamples < 2 ^ 32) :
    ∃ t st fl st' fl', At tr t st fl ∧ Live settings st fl ∧ At tr (t + 1) st' fl' ∧
      (Left settings st st' ∨ Raised st st') := by
  by_contra hnone
  -- a step of a live stream keeps it live
  have hlive : ∀ t st fl e st' fl', At tr t st fl → At tr (t + 1) st' fl' → Live settings st fl →
      PromptRound settings i (tr.state t).loop.gathered e st fl st' fl' →
      Live settings st' fl' := by
    intro t st fl e st' fl' hat hat' hl hr
    obtain ⟨hintake, hbacklog⟩ := hat.invariants hmodel
    exact (hl.round hintake hbacklog hr).resolve_right
      fun hleft => hnone ⟨t, st, fl, st', fl', hat, hl, hat', hleft⟩
  -- and the registry took only live streams
  have hphase : ∀ t st fl, At tr t st fl → Live settings st fl ∨ st.registered = false := by
    intro t st fl hat
    refine At.invariant (P := fun st fl => Live settings st fl ∨ st.registered = false) hmodel
      (fun start _ => .inl (live_new start)) (fun _ hle => absurd hlimit (Nat.not_lt.mpr hle))
      (fun _ _ _ => .inr rfl) ?_ hat
    intro t st fl e st' fl' hat hat' hphase _ hr
    exact hphase.imp (fun hl => hlive t _ _ e _ _ hat hat' hl hr) hr.registered.trans
  suffices hends : ∃ t st fl, At tr t st fl ∧ Live settings st fl ∧
      st.reader.finishing = true by
    obtain ⟨t, st, fl, hat, hl, hfinishing⟩ := hends
    suffices hdraining : Draining tr t from not_draining hmodel hfair hdraining
    intro u hu
    induction u, hu using Nat.le_induction with
    | base => exact ⟨st, fl, hat, hl, hfinishing⟩
    | succ u _ ih =>
        obtain ⟨st₁, fl₁, hat₁, hl₁, hfinishing₁⟩ := ih
        obtain ⟨st₂, fl₂, hat₂, ⟨-, rfl, rfl⟩ | ⟨e₂, -, hround₂⟩⟩ := hat₁.next hmodel
        · exact ⟨_, _, hat₂, hl₁, hfinishing₁⟩
        · have hl₂ := hlive u _ _ e₂ _ _ hat₁ hat₂ hl₁ hround₂
          exact ⟨_, _, hat₂, hl₂, (hl₁.remaining hround₂ hl₂ hfinishing₁).1⟩
  obtain ⟨t, st, hst, hregistered, hend⟩ := hfair.ends
  have hat : At tr t st _ := ⟨hst, rfl⟩
  have hl := (hphase t st _ hat).resolve_right (by rw [hregistered]; rintro ⟨⟩)
  obtain hdone | he := hend
  · exact ⟨t, st, _, hat, hl, by rw [hdone]; rfl⟩
  · obtain ⟨st', fl', hat', hnext⟩ := hat.next hmodel
    obtain ⟨hidle, -, -⟩ | ⟨e, he', hround⟩ := hnext
    · cases hidle.symm.trans he
    · obtain rfl := Option.some.inj (he.symm.trans he')
      refine ⟨t + 1, st', fl', hat', hlive t st _ _ st' fl' hat hat' hl hround, ?_⟩
      cases hround with
      | elsewhere hnot => exact absurd rfl hnot
      | endStream m _ => exact finishInput_finishing st m

/-- Once the client has sent audio, a reader past the end has accepted some. -/
theorem At.accepted (hmodel : model.RowPerStream) (hsends : SendsAudio tr) {t : Nat}
    {st : Stream κ} {fl : Option (Flight κ)} (h : At tr t st fl)
    (hpast : st.reader.pastEnd = true) : st.history.accepted ≠ [] := by
  obtain ⟨u, chunk, he⟩ := hsends
  have hstep := tr.moves u _ he
  obtain ⟨st₁, sawEnd, hst₁, hr, -⟩ := onReading_eq_some hstep.eq
  have hat₁ : At tr u st₁ _ := ⟨hst₁, rfl⟩
  have hreading : st₁.reader = .reading false := (hstep.allowed.2.1 rfl st₁ hst₁).1
  by_cases htu : t ≤ u
  · -- the reader stays past the end
    have hpast₁ := h.later (P := fun st _ => st.reader.pastEnd = true) hmodel
      (fun _ _ _ _ _ _ hp hr => hr.pastEnd hp) hpast htu hat₁
    rw [hreading] at hpast₁
    cases hpast₁
  · obtain ⟨st₂, fl₂, hat₂, hnext⟩ := hat₁.next hmodel
    have haccepted : st₂.history.accepted ≠ [] := by
      obtain ⟨hidle, -, -⟩ | ⟨e, he', hround⟩ := hnext
      · exact nomatch hidle.symm.trans he
      · obtain rfl := Option.some.inj (he.symm.trans he')
        cases hround with
        | elsewhere hnot => exact absurd rfl hnot
        | audio m _ hok =>
            rw [acceptAudio_accepted hok]
            simp
    refine hat₂.later (P := fun st _ => st.history.accepted ≠ []) hmodel ?_ haccepted
      (Nat.lt_of_not_le htu) h
    intro g e st fl st' fl' hne hr
    obtain hsame | ⟨chunk, -, hsame⟩ := hr.accepted
    · rw [hsame]
      exact hne
    · rw [hsame]
      simp

theorem PromptRound.start {g : List Nat} {e : Event κ} {st st' : Stream κ}
    {fl fl' : Option (Flight κ)} (hr : PromptRound settings i g e st fl st' fl') :
    st'.session.inputStartSample = st.session.inputStartSample := by
  cases hr with
  | elsewhere _ => rfl
  | @audio chunk _ _ m _ hok =>
      cases ha : acceptAudio settings chunk st m with
      | mk stm result =>
          obtain ⟨st₁, m₁⟩ := stm
          rw [ha] at hok
          obtain rfl : result = .ok () := hok
          obtain ⟨hops, rechunker, rfl⟩ := acceptAudio_accepts ha
          rfl
  | endStream m _ => exact (finishInput_adds (i := i) (e := .put i) true m).start
  | eof _ => rfl
  | put scheduled m _ _ => exact (afterPut_adds (i := i) (e := .put i) m).start
  | afterAccepted _ _ => rfl
  | afterAudio _ _ => rfl
  | handle m m' _ _ hh => exact (handleEvent_adds (i := i) (e := .put i) hh).start
  | handleRaise _ _ _ _ _ => rfl
  | finish _ _ => rfl
  | take m _ =>
      exact congrArg ReaderSide.inputStartSample (takeWork_offScheduler st m).readerSide
  | @apply _ _ _ flight row caches m _ _ _ _ =>
      exact congrArg ReaderSide.inputStartSample
        (applyResult_offScheduler flight.work row caches st m).readerSide

/-- The reader takes no audio past the end. -/
theorem PromptRound.accepted_pastEnd {g : List Nat} {e : Event κ} {st st' : Stream κ}
    {fl fl' : Option (Flight κ)} (hr : PromptRound settings i g e st fl st' fl')
    (h : st.reader.pastEnd = true) : st'.history.accepted = st.history.accepted := by
  obtain hsame | ⟨chunk, rfl, -⟩ := hr.accepted
  · exact hsame
  · cases hr with
    | elsewhere hnot => exact absurd rfl hnot
    | audio m hr _ =>
        rw [hr] at h
        cases h

/-- While the offsets fit later, they fit. -/
theorem At.offsetsFit_before (hmodel : model.RowPerStream) {t u : Nat} {st st' : Stream κ}
    {fl fl' : Option (Flight κ)} (h : At tr t st fl) (h' : At tr u st' fl') (htu : t ≤ u)
    (hfit : st'.OffsetsFit) : st.OffsetsFit := by
  have hgrows := h.later (P := fun st' _ =>
    st'.session.inputStartSample = st.session.inputStartSample ∧
      total AudioChunk.samples st.history.accepted ≤
        total AudioChunk.samples st'.history.accepted) hmodel ?_ ⟨rfl, le_refl _⟩ htu h'
  · exact hfit.of_le hgrows.1 hgrows.2
  · rintro g e st₁ fl₁ st₂ fl₂ ⟨hstart, hle⟩ hr
    refine ⟨hr.start.trans hstart, hle.trans ?_⟩
    obtain hsame | ⟨chunk, -, hsame⟩ := hr.accepted
    · rw [hsame]
    · rw [hsame, total_append]
      exact Nat.le_add_right _ _

/-- Past the end nothing changes the offsets. -/
theorem At.offsetsFit_after (hmodel : model.RowPerStream) {t u : Nat} {st st' : Stream κ}
    {fl fl' : Option (Flight κ)} (h : At tr t st fl) (h' : At tr u st' fl') (htu : t ≤ u)
    (hpast : st.reader.pastEnd = true) (hfit : st.OffsetsFit) : st'.OffsetsFit := by
  have hsame := h.later (P := fun st' _ => st'.reader.pastEnd = true ∧
    st'.session.inputStartSample = st.session.inputStartSample ∧
      st'.history.accepted = st.history.accepted) hmodel ?_ ⟨hpast, rfl, rfl⟩ htu h'
  · exact hfit.of_le hsame.2.1.symm (by rw [hsame.2.2])
  · rintro g e st₁ fl₁ st₂ fl₂ ⟨hpast, hstart, haccepted⟩ hr
    exact ⟨hr.pastEnd hpast, hr.start.trans hstart, (hr.accepted_pastEnd hpast).trans haccepted⟩

/-- When a stream completes, its generator has sent all audio but the last, so the offsets fit. -/
theorem At.completed_fits (hmodel : model.RowPerStream) {t : Nat} {st st' : Stream κ}
    {fl fl' : Option (Flight κ)} (h : At tr t st fl) (hlive : Live settings st fl)
    (h' : At tr (t + 1) st' fl') (hc : Completed st')
    (hdrained : st.session.outputQueue.items = [])
    (hemitted : ∀ audio ∈ st'.history.emitted.dropLast, audio ∈ st.history.emitted) :
    st'.OffsetsFit :=
  offsetsFit_of_emitted hmodel (tr.reachable (t + 1)).of_restrict h'.1
    (flushed_total (h'.log hmodel) hc.running hc.noFailure hc.flushed) fun audio hmem =>
      drained_fits (h.log hmodel) hlive.running hdrained audio (hemitted audio hmem)

/-- Protobuf refuses an offset of a live stream only before the last hop. -/
theorem At.raised_not_fits (hmodel : model.RowPerStream) {t : Nat} {st st' : Stream κ}
    {fl : Option (Flight κ)} (h : At tr t st fl) (hlive : Live settings st fl)
    (hraised : Raised st st') : ¬ st.OffsetsFit := by
  intro hfit
  have hreachable := (tr.reachable t).of_restrict
  cases hraised with
  | intro audio q m he hget hrefused =>
      have hlarge := next_refused hmodel hreachable h.1 he hget hrefused
      obtain ⟨k, hk, hlt⟩ := emitted_behind hmodel hreachable h.1 hlive.alive
        (next_emitted hmodel hreachable h.1 he hget)
      have hsmall := hfit k hlt
      omega

/-- With a chunk limit that does not fit, no stream is announced to its client. -/
theorem At.shut (hmodel : model.RowPerStream) (hlimit : 2 ^ 32 ≤ settings.maxAudioChunkSamples)
    {t : Nat} {st : Stream κ} {fl : Option (Flight κ)} (h : At tr t st fl) : Shut st fl :=
  At.invariant (P := Shut) hmodel (fun _ hlt => absurd hlt (Nat.not_lt.mpr hlimit))
    (fun start _ => shut_unannounced start)
    (fun start violation hne => shut_refused start violation hne)
    (fun _ _ _ _ _ _ _ _ hshut _ hr => hshut.round hr) h

/-- A registered stream is sent an `EndStream`. -/
theorem ends_of_delivered {t : Nat}
    (hregistered : ((tr.state t).streams[i]?.any fun st => st.registered) = true)
    (he : tr.event t = some (.deliver i (.endStream true))) :
    ∃ t st, (tr.state t).streams[i]? = some st ∧ st.registered = true ∧
      (st.reader = .done ∨ tr.event t = some (.deliver i (.endStream true))) := by
  obtain ⟨st, hst, hst'⟩ := (Option.any_eq_true _ _).mp hregistered
  exact ⟨t, st, hst, hst', .inr he⟩

end Trace

/-! ## Exactly when the stream flushes -/

/-- In a fair run in which the scheduler must not fail it, a stream whose client sends
`EndStream` completes with a flush, and its output queue is never found full, exactly if that
queue holds two events or the client sends no audio, the chunk limit fits its field, and so do
the offsets of all hops but the last. -/
theorem flushes_iff {settings : ServerSettings} {model : StreamingModel κ} {i : Nat}
    (hmodel : model.RowPerStream) {tr : (promptSystem settings model i).Trace}
    (hfair : Fair tr) :
    ((∃ t st, (tr.state t).streams[i]? = some st ∧ st.Flushed) ∧
      ∀ t st, (tr.state t).streams[i]? = some st → ¬ st.Full) ↔
    (32 ≤ settings.maxOutputAudioMsPerStream ∨
      ∀ t chunk, tr.event t ≠ some (.deliver i (.audio chunk))) ∧
      settings.maxAudioChunkSamples < 2 ^ 32 ∧
      ∀ t st, (tr.state t).streams[i]? = some st → st.OffsetsFit := by
  rw [← settings.two_le_outputHops_iff]
  constructor
  · rintro ⟨⟨u, st₁, hst₁, hflushed⟩, hnever⟩
    have hat₁ : At tr u st₁ _ := ⟨hst₁, rfl⟩
    have hlimit : settings.maxAudioChunkSamples < 2 ^ 32 := by
      by_contra hle
      exact (hat₁.shut hmodel (Nat.not_lt.mp hle)).not_flushed (hat₁.log hmodel) hflushed
    obtain ⟨t, st, fl, st', fl', hat, hlive, hat', hleft | hraised⟩ := leaves hmodel hfair hlimit
    · cases hleft with
      | full hfull _ _ _ _ => exact absurd hfull (hnever _ st' hat'.1)
      | completed hc hwhen hdrained hemitted =>
          have hfit := hat.completed_fits hmodel hlive hat' hc hdrained hemitted
          refine ⟨hwhen.imp_right fun hnone u chunk he => ?_, hlimit, fun v st₂ hst₂ => ?_⟩
          · exact hat'.accepted hmodel ⟨u, chunk, he⟩ hc.pastEnd hnone
          · have hat₂ : At tr v st₂ _ := ⟨hst₂, rfl⟩
            rcases le_total v (t + 1) with hle | hle
            · exact hat₂.offsetsFit_before hmodel hat' hle hfit
            · exact hat'.offsetsFit_after hmodel hat₂ hle hc.pastEnd hfit
    · exfalso
      rcases Nat.lt_or_ge t u with hlt | hle
      · have hshut := hat'.later (P := Shut) hmodel (fun _ _ _ _ _ _ hs hr => hs.round hr)
          (hraised.shut hlive.alive.ended) hlt hat₁
        exact hshut.not_flushed (hat₁.log hmodel) hflushed
      · exact (hat.live_before hmodel hlive hat₁ hle).not_flushed (hat₁.log hmodel) hflushed
  · rintro ⟨hwhen, hlimit, hfits⟩
    obtain ⟨t, st, fl, st', fl', hat, hlive, hat', hleft | hraised⟩ := leaves hmodel hfair hlimit
    · cases hleft with
      | full _ _ _ hbound haudio =>
          exfalso
          obtain ⟨u, chunk, he⟩ := hat.sendsAudio hmodel haudio
          obtain htwo | hnone := hwhen
          · omega
          · exact hnone u chunk he
      | completed hc _ _ _ =>
          refine ⟨⟨t + 1, st', hat'.1, hc.flushed⟩, fun u st₁ hst₁ => ?_⟩
          have hat₁ : At tr u st₁ _ := ⟨hst₁, rfl⟩
          rcases Nat.lt_or_ge t u with hlt | hle
          · have hquiet := hat'.later (P := Quiet) hmodel (fun _ _ _ _ _ _ hq hr => hq.round hr)
              hc.quiet hlt hat₁
            exact hquiet.not_full
          · exact (hat.live_before hmodel hlive hat₁ hle).not_full
    · exact absurd (hfits t st hat.1) (hat.raised_not_fits hmodel hlive hraised)

/-- The run of one chunk, which then stands still. -/
def flushedTrace : (promptSystem .defaults silenceModel 0).Trace :=
  .ofRun _ flushedStream (by decide +kernel) (by decide +kernel)

theorem flushedTrace_fair : Fair flushedTrace where
  gathers := Lts.System.Trace.ofRun_leadsTo (by decide +kernel)
  dispatches := Lts.System.Trace.ofRun_leadsTo (by decide +kernel)
  returns := Lts.System.Trace.ofRun_leadsTo (by decide +kernel)
  puts := Lts.System.Trace.ofRun_leadsTo (by decide +kernel)
  ends := ends_of_delivered (t := 4) (by decide +kernel) rfl

theorem flushedTrace_fits {t : Nat} {st : Stream Unit}
    (hst : (flushedTrace.state t).streams[0]? = some st) : st.OffsetsFit := by
  have hlast : ((flushedTrace.state 21).streams[0]?.any fun st => decide
      (st.reader.pastEnd = true ∧ st.session.inputStartSample = 100 ∧
        total AudioChunk.samples st.history.accepted = 300)) = true := by
    decide +kernel
  obtain ⟨st', hst', hlast⟩ := (Option.any_eq_true _ _).mp hlast
  obtain ⟨hpast, hstart, htotal⟩ := of_decide_eq_true hlast
  have hfit : st'.OffsetsFit := by
    intro k hk
    rw [htotal, hopSamples] at hk
    rw [hstart, hopSamples]
    omega
  have hat : At flushedTrace t st _ := ⟨hst, rfl⟩
  have hat' : At flushedTrace 21 st' _ := ⟨hst', rfl⟩
  rcases le_total t 21 with hle | hle
  · exact hat.offsetsFit_before silenceModel_rowPerStream hat' hle hfit
  · exact hat'.offsetsFit_after silenceModel_rowPerStream hat hle hpast hfit

/-- With the default settings it flushes. -/
theorem flushes_iff_defaults :
    ∃ t st, (flushedTrace.state t).streams[0]? = some st ∧ st.Flushed :=
  ((flushes_iff silenceModel_rowPerStream flushedTrace_fair).mpr
    ⟨.inl (by decide), by decide, fun _ _ hst => flushedTrace_fits hst⟩).1

/-- Settings with `MAX_OUTPUT_AUDIO_MS_PER_STREAM=16`, the length of one hop. -/
def oneHopOutput : ServerSettings :=
  { ServerSettings.defaults with
    maxOutputAudioMsPerStream := 16
    maxOutputAudioMsPerStream_pos := by decide }

/-- The same run with these settings, up to the abort. -/
def oneHopTrace : (promptSystem oneHopOutput silenceModel 0).Trace :=
  .ofRun _ flushedStream.dropLast (by decide +kernel) (by decide +kernel)

/-- With room for one event the last audio leaves none for the completion: the stream fails
although it is read promptly. -/
theorem oneHopOutput_fails :
    Fair oneHopTrace ∧ ∃ t st, (oneHopTrace.state t).streams[0]? = some st ∧ st.Full := by
  refine ⟨⟨Lts.System.Trace.ofRun_leadsTo (by decide +kernel),
    Lts.System.Trace.ofRun_leadsTo (by decide +kernel),
    Lts.System.Trace.ofRun_leadsTo (by decide +kernel),
    Lts.System.Trace.ofRun_leadsTo (by decide +kernel),
    ends_of_delivered (t := 4) (by decide +kernel) rfl⟩, 18, ?_⟩
  have hfull : ((oneHopTrace.state 18).streams[0]?.any fun (st : Stream Unit) =>
      decide (st.session.outputQueue.items = [.failure fullOutputQueue])) = true := by
    decide +kernel
  cases hst : (oneHopTrace.state 18).streams[0]? with
  | none =>
      rw [hst] at hfull
      cases hfull
  | some st =>
      rw [hst, Option.any_some, decide_eq_true_eq] at hfull
      exact ⟨st, rfl, .inl (by rw [hfull]; exact List.mem_cons_self)⟩

end VoxLattice.Server
