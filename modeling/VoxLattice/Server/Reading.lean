import VoxLattice.Server.Effects
import VoxLattice.Server.Grammar

/-!
# What the reader makes of its inputs

`ReaderLog` is what can be seen of the reader of a stream: the inputs it took, the work items it
put, the failures it put in place of the output, and the completions it put without the
scheduler.  `Conforming` and `Broken` say what these are for a beginning of an accepted input,
and for one that was followed by an input that offends.  Every step of the reader takes the one
to the one or the other (`Conforming.step`).

A stream that has accepted no chunk is as it was admitted (`Untouched`), so its queue has room
for the completion of an empty flush.
-/

namespace VoxLattice.Server

open Intervals

variable {κ : Type*}

/-! ## What is put -/

/-- The work items of an input that has ended. -/
def finalWorks (start : Nat) (pcm : Tensor) : Bool → List ModelWork
  | false => (hopsOf start pcm).map .ofSource ++ [.noFlush]
  | true =>
      if pcm = [] then []
      else (hopsOf start pcm ++ (remainder? start pcm).toList).map .ofSource ++ [.flush]

/-- The work items of a beginning. -/
def worksOf (start : Nat) (pcm : Tensor) : Stage → List ModelWork
  | .audio => (hopsOf start pcm).map .ofSource
  | .ended flush | .closed flush => finalWorks start pcm flush

/-- The completions the scheduler has no part in: that of an empty flush. -/
def completionsOf (pcm : Tensor) : Stage → List StreamCompletion
  | .audio => []
  | .ended flush | .closed flush => if flush = true ∧ pcm = [] then [⟨0, 0, true⟩] else []

/-- The work items the reader has still to put before it takes another input. -/
def Reader.works : Reader → List ModelWork
  | .accepting hops => hops.map .ofSource
  | .finishingPartial hop => [.ofSource hop, .flush]
  | .finishingFlush => [.flush]
  | .finishingNoFlush => [.noFlush]
  | _ => []

@[simp] theorem Reader.works_reading (sawEnd : Bool) : (Reader.reading sawEnd).works = [] := rfl

theorem Reader.works_ofHops (hops : List SourceHop) :
    (Reader.ofHops hops).works = hops.map .ofSource := by
  cases hops <;> rfl

/-- Where the reader is when the client has come so far. -/
inductive Placed : Stage → Reader → Prop where
  | reading : Placed .audio (.reading false)
  | accepting (hop rest) : Placed .audio (.accepting (hop :: rest))
  | finishingPartial (hop) : Placed (.ended true) (.finishingPartial hop)
  | finishingFlush : Placed (.ended true) .finishingFlush
  | finishingNoFlush : Placed (.ended false) .finishingNoFlush
  | waiting (flush) : Placed (.ended flush) (.reading true)
  | done (flush) : Placed (.closed flush) .done

/-! ## The log -/

/-- What can be seen of a reader. -/
structure ReaderLog where
  inputs : List (Option ClientMessage)
  works : List ModelWork
  failures : List ProtocolViolation
  completions : List StreamCompletion
deriving DecidableEq

/-- What `anext` returns to a reader. -/
def Event.input? : Event κ → Option (Option ClientMessage)
  | .deliver _ message => some (some message)
  | .closeInput _ => some none
  | _ => none

def OutputEvent.failure? : OutputEvent → Option ProtocolViolation
  | .failure violation => some violation
  | _ => none

def OutputEvent.completion? : OutputEvent → Option StreamCompletion
  | .completion ended => some ended
  | _ => none

/-- The failures of a reader that ends in a step, unless it returns there. -/
def newFailures (e : Event κ) (st st' : Stream κ) : List ProtocolViolation :=
  if st'.reader = .done ∧ ¬ (st.reader = .reading true ∧ e.input? = some none) then
    st'.session.outputQueue.items.filterMap OutputEvent.failure?
  else []

/-- The completions of a session that ends in a step. -/
def newCompletions (st st' : Stream κ) : List StreamCompletion :=
  if st.session.ended = false ∧ st'.session.ended = true then
    st'.session.outputQueue.items.filterMap OutputEvent.completion?
  else []

/-- The log after a step. -/
def ReaderLog.add (i : Nat) (e : Event κ) (st st' : Stream κ) (log : ReaderLog) : ReaderLog :=
  if e.ofReader i then
    { inputs := log.inputs ++ e.input?.toList
      works := log.works ++ st.reader.work?.toList
      failures := log.failures ++ newFailures e st st'
      completions := log.completions ++ newCompletions st st' }
  else log

/-! ## The invariant -/

/-- The inputs so far are a beginning, and so is what the reader made of them. -/
structure Conforming (settings : ServerSettings) (st : Stream κ) (log : ReaderLog)
    (chunks : List AudioChunk) (stage : Stage) : Prop where
  place : Placed stage st.reader
  accepted : st.history.accepted = chunks
  conforms : Conforms settings st.session.inputStartSample log.inputs chunks stage
  works : log.works ++ st.reader.works =
    worksOf st.session.inputStartSample (pcmOf chunks) stage
  failures : log.failures = []
  completions : log.completions = completionsOf (pcmOf chunks) stage

/-- The last input offends, and the reader has failed. -/
structure Broken (settings : ServerSettings) (st : Stream κ) (log : ReaderLog)
    (inputs : List (Option ClientMessage)) (chunks : List AudioChunk) (stage : Stage)
    (x : Option ClientMessage) (violation : ProtocolViolation) : Prop where
  place : st.reader = .done
  conforms : Conforms settings st.session.inputStartSample inputs chunks stage
  offends : Offends settings st.session.inputStartSample chunks stage x violation
  inputs : log.inputs = inputs ++ [x]
  works : log.works = worksOf st.session.inputStartSample (pcmOf chunks) stage
  failures : log.failures = [violation]
  completions : log.completions = completionsOf (pcmOf chunks) stage

/-- What a reader makes of its inputs. -/
inductive Reads (settings : ServerSettings) (st : Stream κ) (log : ReaderLog) : Prop where
  | conforming (chunks stage) (h : Conforming settings st log chunks stage)
  | broken (inputs chunks stage x violation)
      (h : Broken settings st log inputs chunks stage x violation)

section Reads

variable {settings : ServerSettings} {st st' : Stream κ} {log : ReaderLog}
  {chunks : List AudioChunk} {stage : Stage} {i : Nat} {e : Event κ}

/-- The log depends on the reader's side alone. -/
theorem Reads.same (h : Reads settings st log) (hside : st'.readerSide = st.readerSide) :
    Reads settings st' log := by
  have hreader : st'.reader = st.reader := congrArg ReaderSide.reader hside
  have hstart : st'.session.inputStartSample = st.session.inputStartSample :=
    congrArg ReaderSide.inputStartSample hside
  have haccepted : st'.history.accepted = st.history.accepted :=
    congrArg ReaderSide.accepted hside
  cases h with
  | conforming chunks stage h =>
      refine .conforming chunks stage ⟨hreader ▸ h.place, haccepted.trans h.accepted,
        hstart ▸ h.conforms, ?_, h.failures, h.completions⟩
      rw [hreader, hstart]
      exact h.works
  | broken inputs chunks stage x violation h =>
      exact .broken inputs chunks stage x violation ⟨hreader.trans h.place, hstart ▸ h.conforms,
        hstart ▸ h.offends, h.inputs, hstart ▸ h.works, h.failures, h.completions⟩

/-- A step of another task, or of another reader. -/
theorem ReaderLog.add_other (he : e.ofReader i = false) : log.add i e st st' = log :=
  if_neg (by rw [he]; nofun)

theorem ReaderLog.add_reader (he : e.ofReader i = true) : log.add i e st st' =
    { inputs := log.inputs ++ e.input?.toList
      works := log.works ++ st.reader.work?.toList
      failures := log.failures ++ newFailures e st st'
      completions := log.completions ++ newCompletions st st' } := if_pos he

theorem newCompletions_of_ended (h : st'.session.ended = st.session.ended) :
    newCompletions st st' = [] := by
  refine if_neg fun hended => ?_
  rw [h] at hended
  exact absurd (hended.1.symm.trans hended.2) nofun

theorem newFailures_of_place (h : st'.reader ≠ .done) : newFailures e st st' = [] :=
  if_neg fun hdone => h hdone.1

/-- An input that offends: the reader fails. -/
theorem Conforming.breaks {x : Option ClientMessage} {violation : ProtocolViolation}
    (h : Conforming settings st log chunks stage) (he : e.ofReader i = true)
    (hinput : e.input? = some x) {sawEnd : Bool} (hr : st.reader = .reading sawEnd)
    (hoffends : Offends settings st.session.inputStartSample chunks stage x violation)
    {st₁ : Stream κ} (hstart : st₁.session.inputStartSample = st.session.inputStartSample)
    (hended : st₁.session.ended = st.session.ended) (m : Metrics) :
    Reads settings (failReader violation st₁ m).1
      (log.add i e st (failReader violation st₁ m).1) := by
  have hworks := h.works
  rw [hr, Reader.works_reading, List.append_nil] at hworks
  refine .broken log.inputs chunks stage x violation ⟨rfl, ?_, ?_, ?_, ?_, ?_, ?_⟩
  · exact hstart ▸ h.conforms
  · exact hstart ▸ hoffends
  · rw [ReaderLog.add_reader he, hinput]
    rfl
  · rw [ReaderLog.add_reader he, hr]
    exact (List.append_nil _).trans (hstart ▸ hworks)
  · rw [ReaderLog.add_reader he, h.failures, newFailures, if_pos]
    · rfl
    · refine ⟨rfl, fun hreturn => ?_⟩
      rw [hinput, Option.some_inj] at hreturn
      obtain ⟨htrue, rfl⟩ := hreturn
      have hplace := h.place
      rw [htrue] at hplace
      cases hplace
      cases hoffends
  · rw [ReaderLog.add_reader he, newCompletions_of_ended (by exact hended), List.append_nil]
    exact h.completions

/-- An input that continues the beginning: the reader goes on. -/
theorem Conforming.continues {x : Option ClientMessage} {chunks' : List AudioChunk}
    {stage' : Stage} (h : Conforming settings st log chunks stage) (he : e.ofReader i = true)
    (hinput : e.input? = some x) {sawEnd : Bool} (hr : st.reader = .reading sawEnd)
    (hnext : Continues settings st.session.inputStartSample chunks stage x chunks' stage')
    (hstart : st'.session.inputStartSample = st.session.inputStartSample)
    (haccepted : st'.history.accepted = chunks') (hplace : Placed stage' st'.reader)
    (hfailures : newFailures e st st' = [])
    (hworks : worksOf st.session.inputStartSample (pcmOf chunks) stage ++ st'.reader.works =
      worksOf st.session.inputStartSample (pcmOf chunks') stage')
    (hcompletions : completionsOf (pcmOf chunks) stage ++ newCompletions st st' =
      completionsOf (pcmOf chunks') stage') :
    Reads settings st' (log.add i e st st') := by
  have hbefore := h.works
  rw [hr, Reader.works_reading, List.append_nil] at hbefore
  refine .conforming chunks' stage' ⟨hplace, haccepted, ?_, ?_, ?_, ?_⟩
  · rw [ReaderLog.add_reader he, hinput, hstart]
    exact h.conforms.snoc hnext
  · rw [ReaderLog.add_reader he, hr, hstart, ← hworks, ← hbefore]
    exact congrArg (· ++ _) (List.append_nil _)
  · rw [ReaderLog.add_reader he, hfailures, h.failures]
    rfl
  · rw [ReaderLog.add_reader he, ← hcompletions, h.completions]

end Reads

/-! ## A stream without a chunk -/

/-- No task has done anything for the stream yet. -/
structure Fresh (settings : ServerSettings) (st : Stream κ) (fl : Option (Flight κ)) : Prop where
  flight : fl = none
  inputQueue : st.session.inputQueue.items = []
  outputQueue : st.session.outputQueue = .new settings.outputHops
  outputSamples : st.session.outputSamples = 0
  ended : st.session.ended = false

/-- While no chunk is accepted and the reader waits for one, the stream is fresh. -/
structure Untouched (settings : ServerSettings) (st : Stream κ) (fl : Option (Flight κ)) :
    Prop where
  idle : st.history.accepted = [] → ∀ hops, st.reader ≠ .accepting hops
  fresh : st.history.accepted = [] → st.reader = .reading false → Fresh settings st fl

section Untouched

variable {settings : ServerSettings} {st st' : Stream κ} {fl fl' : Option (Flight κ)}

theorem Fresh.keep (h : Fresh settings st fl)
    (hinput : st'.session.inputQueue = st.session.inputQueue)
    (houtput : st'.session.outputQueue = st.session.outputQueue)
    (hsamples : st'.session.outputSamples = st.session.outputSamples)
    (hended : st'.session.ended = st.session.ended) : Fresh settings st' fl :=
  ⟨h.flight, hinput ▸ h.inputQueue, houtput.trans h.outputQueue, hsamples.trans h.outputSamples,
    hended.trans h.ended⟩

/-- The reader has gone on. -/
theorem Untouched.of_reader (hidle : ∀ hops, st'.reader ≠ .accepting hops)
    (hr : st'.reader ≠ .reading false) : Untouched settings st' fl' :=
  ⟨fun _ => hidle, fun _ hreading => absurd hreading hr⟩

theorem Untouched.of_done (hr : st'.reader = .done) : Untouched settings st' fl' :=
  .of_reader (by rw [hr]; nofun) (by rw [hr]; nofun)

/-- Another task acts, and a fresh stream stays fresh. -/
theorem Untouched.same (h : Untouched settings st fl) (hside : st'.readerSide = st.readerSide)
    (hfresh : Fresh settings st fl → Fresh settings st' fl') : Untouched settings st' fl' := by
  have hreader : st'.reader = st.reader := congrArg ReaderSide.reader hside
  have haccepted : st'.history.accepted = st.history.accepted :=
    congrArg ReaderSide.accepted hside
  constructor
  · rw [haccepted, hreader]
    exact h.idle
  · rw [haccepted, hreader]
    exact fun hnone hr => hfresh (h.fresh hnone hr)

theorem Untouched.finishInput (flush : Bool) (m : Metrics) :
    Untouched settings (finishInput flush st m).1 fl := by
  have hfinished := finishInput_finished flush st m
  generalize (Server.finishInput flush st m).1 = st' at hfinished ⊢
  cases hfinished with
  | noFlush _ => exact .of_reader nofun nofun
  | failed failure m' => exact .of_done rfl
  | hop hop rechunker _ _ => exact .of_reader nofun nofun
  | nothing rechunker m' _ _ _ =>
      have hreader : (completeEmptyFlush (st.flushes rechunker (.reading true)) m').1.reader =
          .reading true := congrArg ReaderSide.reader (complete_readerSide true _ m')
      exact .of_reader (by rw [hreader]; nofun) (by rw [hreader]; nofun)
  | flush rechunker _ _ _ => exact .of_reader nofun nofun

theorem Untouched.readMessage (sawEnd : Bool) (message : ClientMessage) (m : Metrics) :
    Untouched settings (readMessage settings sawEnd message st m).1 fl := by
  have hread := readMessage_read settings sawEnd message st m
  generalize Server.readMessage settings sawEnd message st m = next at hread ⊢
  cases hread with
  | afterEnd _ => exact .of_done rfl
  | duplicateStart _ => exact .of_done rfl
  | empty => exact .of_done rfl
  | accepted chunk st' m' ha =>
      obtain ⟨hops, rechunker, rfl⟩ := acceptAudio_accepts ha
      have hsome : (st.accepts chunk hops rechunker).history.accepted ≠ [] :=
        List.append_ne_nil_of_right_ne_nil _ (List.cons_ne_nil chunk [])
      exact ⟨fun hnone => absurd hnone hsome, fun hnone => absurd hnone hsome⟩
  | refused chunk st' m' violation _ => exact .of_done rfl
  | ended flush => exact .finishInput flush m

theorem Untouched.put
    (hidle : st.history.accepted = [] → ∀ hops, st.reader ≠ .accepting hops) {work : ModelWork}
    (hw : st.reader.work? = some work) (q : BoundedQueue ModelWork) (scheduled : Bool)
    (m : Metrics) : Untouched settings (afterPut ((st.queued q).flagged scheduled) m).1 fl := by
  have hreturned := afterPut_put hw q scheduled m
  generalize afterPut ((st.queued q).flagged scheduled) m = next at hreturned ⊢
  cases hreturned with
  | hop hop rest hr =>
      exact ⟨fun hnone => absurd hr (hidle hnone _), fun hnone => absurd hr (hidle hnone _)⟩
  | nothing hop _ _ =>
      have hreader : (completeEmptyFlush
          { (st.queued q).flagged scheduled with reader := .reading true } m).1.reader =
            .reading true := congrArg ReaderSide.reader (complete_readerSide true _ m)
      exact .of_reader (by rw [hreader]; nofun) (by rw [hreader]; nofun)
  | remainder hop _ _ => exact .of_reader nofun nofun
  | flush _ => exact .of_reader nofun nofun
  | noFlush _ => exact .of_reader nofun nofun

theorem untouched_invariant (settings : ServerSettings) (model : StreamingModel κ) (env : Env κ) :
    LocalInvariant settings model env (Untouched settings) where
  admitted start := ⟨fun _ => nofun, fun _ _ => ⟨rfl, rfl, rfl, rfl, rfl⟩⟩
  unannounced start := .of_done rfl
  refused start violation := .of_done rfl
  round st fl st' fl' h hr := by
    have hflight {flight : Flight κ} (hfresh : Fresh settings st (some flight)) {P : Prop} : P :=
      absurd hfresh.flight nofun
    cases hr with
    | read message m _ => exact .readMessage _ message m
    | eof m _ =>
        unfold readEof
        split
        · exact .of_done rfl
        · exact .of_done rfl
    | readFail failure m _ => exact .of_done rfl
    | put scheduled m hw _ => exact .put h.idle hw _ scheduled m
    | putOverflow scheduled m _ _ => exact .of_done rfl
    | afterAccepted m _ => exact h.same rfl fun hfresh => hfresh.keep rfl rfl rfl rfl
    | afterAudio m _ => exact h.same rfl fun hfresh => hfresh.keep rfl rfl rfl rfl
    | handle m m' _ hget hh =>
        refine h.same (handleEvent_offGenerator hh).readerSide fun hfresh => ?_
        rw [hfresh.outputQueue] at hget
        cases hget
    | handleRaise m m' _ _ _ => exact .of_done rfl
    | finish m _ => exact .of_done rfl
    | take m =>
        have htaken := takeWork_taken st m
        refine h.same (takeWork_offScheduler st m).readerSide fun hfresh => ?_
        generalize (takeWork st m).1.1 = st' at htaken ⊢
        generalize (takeWork st m).2 = work at htaken
        have hempty (work : ModelWork) (q : BoundedQueue ModelWork) :
            ¬ st.session.inputQueue.getNowait = some (work, q) := by
          rw [BoundedQueue.getNowait_eq_none.mpr hfresh.inputQueue]
          nofun
        cases htaken with
        | dead _ => exact hfresh.keep rfl rfl rfl rfl
        | idle _ _ => exact hfresh.keep rfl rfl rfl rfl
        | ends work q m _ hget _ => exact absurd hget (hempty work q)
        | joins work q _ hget _ => exact absurd hget (hempty work q)
    | apply m _ _ scheduled =>
        exact h.same (applyResult_offScheduler _ _ _ st m).readerSide fun hfresh => hflight hfresh
    | applyRaised m _ _ =>
        exact h.same (applyResult_offScheduler _ _ _ st m).readerSide fun hfresh => hflight hfresh
    | fail m => exact h.same rfl fun hfresh => hflight hfresh

end Untouched

/-- The completion of a fresh stream finds room. -/
theorem Fresh.completes {settings : ServerSettings} {st : Stream κ} {fl : Option (Flight κ)}
    (h : Fresh settings st fl) (flushed : Bool) (m : Metrics) :
    (complete flushed st m).1.session.ended = true ∧
      (complete flushed st m).1.session.outputQueue.items =
        [.completion ⟨st.session.inputSamples, 0, flushed⟩] := by
  have hcompletes := complete_completes flushed st m
  generalize complete flushed st m = next at hcompletes ⊢
  cases hcompletes with
  | already hended => exact absurd (h.ended.symm.trans hended) nofun
  | queued q _ hput =>
      obtain ⟨-, hitems, -⟩ := BoundedQueue.putNowait_eq_some hput
      rw [h.outputQueue, h.outputSamples] at hitems
      exact ⟨rfl, hitems⟩
  | full _ hput =>
      rw [h.outputQueue, BoundedQueue.putNowait_eq_none, BoundedQueue.full_iff] at hput
      exact absurd hput.1 (Nat.not_lt.mpr hput.2)

/-! ## The steps of a reader -/

section Steps

variable {settings : ServerSettings} {st st' : Stream κ} {fl : Option (Flight κ)}
  {log : ReaderLog} {chunks : List AudioChunk} {stage : Stage} {i : Nat} {e : Event κ}

/-- `_accept_audio` takes the chunks that fit, and refuses the others with the failure of the
first check they fail. -/
theorem Intake.acceptAudio_cases (h : Intake settings st) (hr : st.reader = .reading false)
    (chunk : AudioChunk) (m : Metrics) :
    (FitsStream settings st.session.inputStartSample st.history.accepted chunk ∧
      ∃ hops rechunker m',
        acceptAudio settings chunk st m = ((st.accepts chunk hops rechunker, m'), .ok ()) ∧
        Intake settings (st.accepts chunk hops rechunker)) ∨
    ∃ st' m' violation, acceptAudio settings chunk st m = ((st', m'), .error violation) ∧
      Offends settings st.session.inputStartSample st.history.accepted .audio
        (some (.audio chunk)) violation := by
  have hrec := h.received (.inl (by simp [hr]))
  have hu : st.readerSide.reader.unflushed = true := by
    simp [Stream.readerSide, hr, Reader.unflushed]
  have hinput : st.session.inputSamples = total AudioChunk.samples st.history.accepted :=
    hrec.inputSamples
  have hexpected : st.session.expectedSequence = st.history.accepted.length := hrec.sequence
  have hend : st.session.expectedInputSample =
      st.session.inputStartSample + total AudioChunk.samples st.history.accepted :=
    hinput ▸ hrec.offset
  have hresidue : st.session.rechunker.pendingSamples =
      total AudioChunk.samples st.history.accepted % hopSamples :=
    hinput ▸ (hrec.residue hu).1
  have hbound : st.session.rechunker.maxPendingSamples = settings.queueHops * hopSamples :=
    hrec.bound
  have herror {violation : ProtocolViolation}
      (hcheck : checkChunk settings st.session chunk = .error violation)
      (hoffends : Offends settings st.session.inputStartSample st.history.accepted .audio
        (some (.audio chunk)) violation) :
      ∃ st' m' violation, acceptAudio settings chunk st m = ((st', m'), .error violation) ∧
        Offends settings st.session.inputStartSample st.history.accepted .audio
          (some (.audio chunk)) violation :=
    ⟨st, m, violation, by simp only [acceptAudio, hcheck], hoffends⟩
  have hsamples : chunk.samples = chunk.pcmS16le.length / 2 := rfl
  by_cases hsize : 0 < chunk.pcmS16le.length ∧ chunk.pcmS16le.length % 2 = 0
  · have hsize' : ¬ (chunk.pcmS16le.length = 0 ∨ chunk.pcmS16le.length % 2 ≠ 0) := by omega
    by_cases hlimit : chunk.samples ≤ settings.maxAudioChunkSamples
    · have hlimit' : ¬ settings.maxAudioChunkSamples < chunk.pcmS16le.length / 2 := by omega
      by_cases hsequence : chunk.sequence.toNat = st.history.accepted.length
      · by_cases hoffset : chunk.inputStartSample.toNat =
            st.session.inputStartSample + total AudioChunk.samples st.history.accepted
        · have hfits : ChunkFits settings st.session chunk :=
            ⟨hsize', hlimit, hsequence.trans hexpected.symm, hoffset.trans hend.symm⟩
          by_cases hroom : total AudioChunk.samples st.history.accepted % hopSamples +
              chunk.samples ≤ settings.queueHops * hopSamples
          · obtain ⟨hops, rechunker, m', haccept, hd⟩ := acceptAudio_ok hfits
              hrec.settled.counted (by rw [hresidue, hbound]; exact hroom) m
            exact .inl ⟨⟨hsize, hlimit, hsequence, hoffset, hroom⟩, hops, rechunker, m', haccept,
              h.accepts hr hd⟩
          · have hfull := acceptAudio_full hfits
              (by rw [hresidue, hbound]; exact Nat.not_le.mp hroom) m
            exact .inr ⟨_, _, _, hfull,
              .room chunk hsize hlimit hsequence hoffset (Nat.not_le.mp hroom)⟩
        · refine .inr (herror ?_ (.offset chunk hsize hlimit hsequence hoffset))
          rw [← hend] at hoffset
          rw [← hexpected] at hsequence
          simp only [checkChunk, if_neg hsize', if_neg hlimit', if_neg (not_not.mpr hsequence),
            if_pos hoffset]
      · refine .inr (herror ?_ (.sequence chunk hsize hlimit hsequence))
        rw [← hexpected] at hsequence
        simp only [checkChunk, if_neg hsize', if_neg hlimit', if_pos hsequence]
    · refine .inr (herror ?_ (.limit chunk hsize (Nat.not_le.mp hlimit)))
      have hlimit' : settings.maxAudioChunkSamples < chunk.pcmS16le.length / 2 := by omega
      simp only [checkChunk, if_neg hsize', if_pos hlimit']
  · refine .inr (herror ?_ (.size chunk hsize))
    have hsize' : chunk.pcmS16le.length = 0 ∨ chunk.pcmS16le.length % 2 ≠ 0 := by omega
    simp only [checkChunk, if_pos hsize']

theorem finishInput_hop {hop : SourceHop} {rechunker : PCMRechunker}
    (hflush : st.session.rechunker.flushPartial = .ok (some hop, rechunker)) (m : Metrics) :
    finishInput true st m = (st.flushesHop rechunker hop, m) := by
  simp only [finishInput, hflush]
  rfl

theorem finishInput_flush {rechunker : PCMRechunker}
    (hflush : st.session.rechunker.flushPartial = .ok (none, rechunker))
    (hsamples : st.session.inputSamples ≠ 0) (m : Metrics) :
    finishInput true st m = (st.flushes rechunker .finishingFlush, m) := by
  simp only [finishInput, hflush, Bool.not_true, Bool.false_eq_true, if_false]
  exact if_neg hsamples

theorem finishInput_empty {rechunker : PCMRechunker}
    (hflush : st.session.rechunker.flushPartial = .ok (none, rechunker))
    (hsamples : st.session.inputSamples = 0) (m : Metrics) :
    finishInput true st m = completeEmptyFlush (st.flushes rechunker (.reading true)) m := by
  simp only [finishInput, hflush, Bool.not_true, Bool.false_eq_true, if_false]
  exact if_pos hsamples

/-- The client ends an empty stream with a flush. -/
theorem Conforming.completes (h : Conforming settings st log chunks .audio)
    (hfresh : Fresh settings st fl) (hr : st.reader = .reading false) (he : e.ofReader i = true)
    (hinput : e.input? = some (some (.endStream true))) (hpcm : pcmOf chunks = [])
    (hsamples : st.session.inputSamples = 0) (rechunker : PCMRechunker) (m : Metrics) :
    Reads settings (completeEmptyFlush (st.flushes rechunker (.reading true)) m).1
      (log.add i e st (completeEmptyFlush (st.flushes rechunker (.reading true)) m).1) := by
  have hflushed : Fresh settings (st.flushes rechunker (.reading true)) fl :=
    hfresh.keep rfl rfl rfl rfl
  obtain ⟨hended, hitems⟩ := hflushed.completes true m
  have hside := complete_readerSide true (st.flushes rechunker (.reading true)) m
  unfold completeEmptyFlush
  generalize (complete true (st.flushes rechunker (.reading true)) m).1 = st' at *
  have hreader : st'.reader = .reading true := congrArg ReaderSide.reader hside
  refine h.continues he hinput hr (.ends true) (congrArg ReaderSide.inputStartSample hside)
    ((congrArg ReaderSide.accepted hside).trans h.accepted) (by rw [hreader]; exact .waiting true)
    (newFailures_of_place (by rw [hreader]; nofun)) ?_ ?_
  · rw [hpcm, hreader, worksOf, hopsOf_nil]
    rfl
  · rw [newCompletions, if_pos ⟨hfresh.ended, hended⟩, hitems, hpcm]
    change [StreamCompletion.mk st.session.inputSamples 0 true] = _
    rw [hsamples]
    rfl

/-- The client ends its audio. -/
theorem Conforming.finishes (h : Conforming settings st log chunks .audio)
    (hintake : Intake settings st) (huntouched : Untouched settings st fl)
    (hr : st.reader = .reading false) (he : e.ofReader i = true) {flush : Bool}
    (hinput : e.input? = some (some (.endStream flush))) (m : Metrics) :
    Reads settings (finishInput flush st m).1 (log.add i e st (finishInput flush st m).1) := by
  obtain rfl := h.accepted
  cases flush with
  | false =>
      exact h.continues he hinput hr (.ends false) rfl rfl .finishingNoFlush
        (newFailures_of_place nofun) rfl (by rw [newCompletions_of_ended (by rfl)]; rfl)
  | true =>
      obtain ⟨⟨rechunker, hflush⟩, hzero⟩ := hintake.flushPartial_eq hr
      cases hrem : remainder? st.session.inputStartSample (pcmOf st.history.accepted) with
      | some hop =>
          have hpcm : pcmOf st.history.accepted ≠ [] := by
            intro hnil
            rw [hnil] at hrem
            cases hrem
          rw [hrem] at hflush
          rw [finishInput_hop hflush]
          refine h.continues he hinput hr (.ends true) rfl rfl (.finishingPartial hop)
            (newFailures_of_place nofun) ?_ ?_
          · change _ ++ [ModelWork.ofSource hop, .flush] = finalWorks _ _ true
            rw [worksOf, finalWorks, if_neg hpcm, hrem, Option.toList_some, List.map_append,
              List.append_assoc]
            rfl
          · rw [newCompletions_of_ended (by rfl), completionsOf, completionsOf,
              if_neg fun hempty => hpcm hempty.2]
            rfl
      | none =>
          rw [hrem] at hflush
          by_cases hsamples : st.session.inputSamples = 0
          · have hpcm := hzero.mp hsamples
            have hnone := (conforms_iff.mp h.conforms).2.eq_nil hpcm
            rw [finishInput_empty hflush hsamples]
            exact h.completes (huntouched.fresh hnone hr) hr he hinput hpcm hsamples rechunker m
          · have hpcm : pcmOf st.history.accepted ≠ [] := fun hnil => hsamples (hzero.mpr hnil)
            rw [finishInput_flush hflush hsamples]
            refine h.continues he hinput hr (.ends true) rfl rfl .finishingFlush
              (newFailures_of_place nofun) ?_ ?_
            · change _ ++ [ModelWork.flush] = finalWorks _ _ true
              rw [worksOf, finalWorks, if_neg hpcm, hrem, Option.toList_none, List.append_nil]
            · rw [newCompletions_of_ended (by rfl), completionsOf, completionsOf,
                if_neg fun hempty => hpcm hempty.2]
              rfl

/-- A message arrives. -/
theorem Conforming.read (h : Conforming settings st log chunks stage)
    (hintake : Intake settings st) (huntouched : Untouched settings st fl) {sawEnd : Bool}
    (hr : st.reader = .reading sawEnd) (he : e.ofReader i = true) {message : ClientMessage}
    (hinput : e.input? = some (some message)) (m : Metrics) :
    Reads settings (readMessage settings sawEnd message st m).1
      (log.add i e st (readMessage settings sawEnd message st m).1) := by
  have hplace := h.place
  rw [hr] at hplace
  cases hplace with
  | waiting flush => exact h.breaks he hinput hr (.afterEnd flush message) rfl rfl m
  | reading =>
      cases message with
      | start start => exact h.breaks he hinput hr (.duplicateStart start) rfl rfl m
      | empty => exact h.breaks he hinput hr .empty rfl rfl m
      | endStream flush => exact h.finishes hintake huntouched hr he hinput m
      | audio chunk =>
          obtain rfl := h.accepted
          rcases hintake.acceptAudio_cases hr chunk m with
            ⟨hfits, hops, rechunker, m', haccept, hintake'⟩ |
            ⟨st', m', violation, haccept, hoffends⟩
          · have heq : (readMessage settings false (.audio chunk) st m).1 =
                st.accepts chunk hops rechunker := by
              simp only [readMessage, haccept, Bool.false_eq_true, if_false]
            have hplace : Placed .audio (st.accepts chunk hops rechunker).reader := by
              cases hops with
              | nil => exact .reading
              | cons hop rest => exact .accepting hop rest
            have hne : (st.accepts chunk hops rechunker).reader ≠ .done := by
              intro hdone
              rw [hdone] at hplace
              cases hplace
            have hu : (st.accepts chunk hops rechunker).reader.unflushed = true := by
              cases hops <;> rfl
            have hbefore := (hintake.hops_eq (by simp [hr]) (by rw [hr]; rfl)).1
            have hafter := (hintake'.hops_eq hne hu).1
            rw [heq]
            refine h.continues he hinput hr (.chunk hfits) rfl rfl hplace
              (newFailures_of_place hne) ?_ ?_
            · change st.history.hops ++ hops = hopsOf st.session.inputStartSample
                (pcmOf (st.history.accepted ++ [chunk])) at hafter
              rw [worksOf, worksOf, ← hafter, hbefore, List.map_append]
              exact congrArg (_ ++ ·) (Reader.works_ofHops hops)
            · rw [newCompletions_of_ended (by rfl)]
              rfl
          · have heq : (readMessage settings false (.audio chunk) st m).1 =
                (failReader violation st' m').1 := by
              simp only [readMessage, haccept, Bool.false_eq_true, if_false]
            obtain ⟨-, hstart, hended, -⟩ := acceptAudio_error haccept
            rw [heq]
            exact h.breaks he hinput hr hoffends hstart hended m'

/-- The request stream ends. -/
theorem Conforming.eof (h : Conforming settings st log chunks stage) {sawEnd : Bool}
    (hr : st.reader = .reading sawEnd) (he : e.ofReader i = true)
    (hinput : e.input? = some none) (m : Metrics) :
    Reads settings (readEof sawEnd st m).1 (log.add i e st (readEof sawEnd st m).1) := by
  have hplace := h.place
  rw [hr] at hplace
  cases hplace with
  | reading => exact h.breaks he hinput hr .noEnd rfl rfl m
  | waiting flush =>
      refine h.continues he hinput hr (.closes flush) rfl h.accepted (.done flush) ?_
        (List.append_nil _) ?_
      · exact if_neg fun hdone => hdone.2 ⟨hr, hinput⟩
      · rw [newCompletions_of_ended (by rfl)]
        exact List.append_nil _

/-- A put returns, and the reader has one item less to put. -/
theorem Conforming.puts (h : Conforming settings st log chunks stage) (he : e.ofReader i = true)
    (hinput : e.input? = none) {work : ModelWork} (hw : st.reader.work? = some work)
    (hworks : st.reader.works = work :: st'.reader.works) (hplace : Placed stage st'.reader)
    (hstart : st'.session.inputStartSample = st.session.inputStartSample)
    (haccepted : st'.history.accepted = st.history.accepted)
    (hended : st'.session.ended = st.session.ended) (hne : st'.reader ≠ .done) :
    Conforming settings st' (log.add i e st st') chunks stage := by
  rw [ReaderLog.add_reader he, hinput, hw, newFailures_of_place hne,
    newCompletions_of_ended hended]
  have hbefore := h.works
  rw [hworks] at hbefore
  refine ⟨hplace, haccepted.trans h.accepted, ?_, ?_, ?_, ?_⟩
  · rw [hstart]
    exact (List.append_nil log.inputs).symm ▸ h.conforms
  · rw [hstart, ← hbefore]
    exact List.append_assoc _ _ _
  · exact (List.append_nil _).trans h.failures
  · exact (List.append_nil _).trans h.completions

/-- A reader that puts the remainder has received samples. -/
theorem Conforming.samples_ne_zero (h : Conforming settings st log chunks (.ended true))
    (hintake : Intake settings st) {hop : SourceHop} (hr : st.reader = .finishingPartial hop) :
    st.session.inputSamples ≠ 0 := by
  have hworks := h.works
  have hpcm : pcmOf chunks ≠ [] := by
    intro hnil
    rw [hnil, hr] at hworks
    exact absurd hworks (List.append_ne_nil_of_right_ne_nil _ nofun)
  have hinput : st.session.inputSamples = total AudioChunk.samples st.history.accepted :=
    (hintake.received (.inl (by simp [hr]))).inputSamples
  intro hzero
  rw [h.accepted, ← pcmOf_length] at hinput
  exact hpcm (List.length_eq_zero_iff.mp (hinput.symm.trans hzero))

theorem Conforming.put (h : Conforming settings st log chunks stage)
    (hintake : Intake settings st) (he : e.ofReader i = true) (hinput : e.input? = none)
    {work : ModelWork} (hw : st.reader.work? = some work) (q : BoundedQueue ModelWork)
    (scheduled : Bool) (m : Metrics) :
    Conforming settings (afterPut ((st.queued q).flagged scheduled) m).1
      (log.add i e st (afterPut ((st.queued q).flagged scheduled) m).1) chunks stage := by
  have hplace := h.place
  have hreturned := afterPut_put hw q scheduled m
  generalize afterPut ((st.queued q).flagged scheduled) m = next at hreturned ⊢
  have hputs {reader : Reader} (hworks : st.reader.works = work :: reader.works)
      (hplace : Placed stage reader) (hne : reader ≠ .done) :
      Conforming settings { (st.queued q).flagged scheduled with reader }
        (log.add i e st { (st.queued q).flagged scheduled with reader }) chunks stage :=
    h.puts he hinput hw hworks hplace rfl rfl rfl hne
  cases hreturned with
  | hop hop rest hr =>
      have hreader : st.reader = .accepting (hop :: rest) := hr
      rw [hreader] at hplace
      cases hplace
      refine hputs ?_ ?_ ?_
      · rw [hreader]
        exact congrArg (ModelWork.ofSource hop :: ·) (Reader.works_ofHops rest).symm
      · cases rest with
        | nil => exact .reading
        | cons next later => exact .accepting next later
      · cases rest <;> nofun
  | nothing hop hr hzero =>
      have hreader : st.reader = .finishingPartial hop := hr
      rw [hreader] at hplace
      cases hplace
      exact absurd hzero (h.samples_ne_zero hintake hreader)
  | remainder hop hr _ =>
      have hreader : st.reader = .finishingPartial hop := hr
      rw [hreader] at hplace
      cases hplace
      exact hputs (by rw [hreader]; rfl) .finishingFlush nofun
  | flush hr =>
      have hreader : st.reader = .finishingFlush := hr
      rw [hreader] at hplace
      cases hplace
      exact hputs (by rw [hreader]; rfl) (.waiting true) nofun
  | noFlush hr =>
      have hreader : st.reader = .finishingNoFlush := hr
      rw [hreader] at hplace
      cases hplace
      exact hputs (by rw [hreader]; rfl) (.waiting false) nofun

/-- An event that breaks the reader off. -/
def Event.disturbs (i : Nat) : Event κ → Bool
  | .idleTimeout j | .requestError j => j = i
  | _ => false

/-- What the events of an undisturbed reader do. -/
inductive ReaderStep (settings : ServerSettings) (i : Nat) (st : Stream κ) :
    Event κ → Stream κ → Prop where
  | read {sawEnd} (message m) (hr : st.reader = .reading sawEnd) :
      ReaderStep settings i st (.deliver i message) (readMessage settings sawEnd message st m).1
  | eof {sawEnd} (m) (hr : st.reader = .reading sawEnd) :
      ReaderStep settings i st (.closeInput i) (readEof sawEnd st m).1
  | put {work q} (scheduled m) (hw : st.reader.work? = some work) :
      ReaderStep settings i st (.put i) (afterPut ((st.queued q).flagged scheduled) m).1

theorem reader_step {model : StreamingModel κ} {s s' : ServerState κ}
    (h : step settings model s e = some s') (he : e.ofReader i = true)
    (hdisturbs : e.disturbs i = false) (hroom : s'.readyOverflow = false)
    (hst : s.streams[i]? = some st) :
    ∃ st', s'.streams[i]? = some st' ∧ ReaderStep settings i st e st' := by
  cases step_cases h with
  | @deliver j _ _ message hst₁ hr =>
      obtain rfl : j = i := of_decide_eq_true he
      obtain rfl := Option.some.inj (hst.symm.trans hst₁)
      exact ⟨_, get?_onStream_self hst _, .read message _ hr⟩
  | @closeInput j _ _ hst₁ hr =>
      obtain rfl : j = i := of_decide_eq_true he
      obtain rfl := Option.some.inj (hst.symm.trans hst₁)
      exact ⟨_, get?_onStream_self hst _, .eof _ hr⟩
  | @put j _ h =>
      obtain rfl : j = i := of_decide_eq_true he
      obtain ⟨work, q, scheduled, m, hw, -, hst'⟩ := (put_round h hroom).2 st hst
      exact ⟨_, hst', .put scheduled m hw⟩
  | idleTimeout _ _ => exact absurd (he.symm.trans hdisturbs) nofun
  | requestError _ _ => exact absurd (he.symm.trans hdisturbs) nofun
  | _ => cases he

theorem ReaderStep.at_work (h : ReaderStep settings i st e st') : st.reader ≠ .done := by
  cases h with
  | read _ _ hr => exact hr ▸ nofun
  | eof _ hr => exact hr ▸ nofun
  | put _ _ hw => exact Reader.ne_done_of_work hw

/-- The reader makes of its inputs what it should. -/
theorem Reads.reader (h : Reads settings st log) (hintake : Intake settings st)
    (huntouched : Untouched settings st fl) (he : e.ofReader i = true)
    (hs : ReaderStep settings i st e st') : Reads settings st' (log.add i e st st') := by
  cases h with
  | broken inputs chunks stage x violation h => exact absurd h.place hs.at_work
  | conforming chunks stage h =>
      cases hs with
      | read message m hr => exact h.read hintake huntouched hr he rfl m
      | eof m hr => exact h.eof hr he rfl m
      | @put work q scheduled m hw =>
          exact .conforming chunks stage (h.put hintake he rfl hw q scheduled m)

end Steps

end VoxLattice.Server
