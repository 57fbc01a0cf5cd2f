import VoxLattice.Server.Accounting
import VoxLattice.Server.Pipeline

/-!
# Batched serving refines the single-stream pipeline

With a model that works row by row, the scheduler does to each session what a fresh
`StreamingPipeline` does to the session's hops, whatever else is in its batches.

`Refines` is the simulation.  While the stream lives, its caches and its delayed hop are those
of the pipeline that answered the same work items, and the emitted audio is what this pipeline
returned, encoded.  A work item goes into inference with the caches of its session, and no one
else writes these before the result comes back.  A stream that died keeps an initial segment,
and a stream that completed with a flush has all of it.
-/

namespace VoxLattice.Server

variable {κ : Type*}

/-- `infer_batch`, when it returns, works row by row: `infer` gives the row and the caches of a
stream from its hop and its caches. -/
def StreamingModel.Rowwise (model : StreamingModel κ) (infer : Tensor → κ → Tensor × κ) : Prop :=
  ∀ hops caches wav updated, hops.length = caches.length →
    model.returns hops caches wav updated →
    wav = List.zipWith (fun hop cache => (infer hop cache).1) hops caches ∧
      updated = List.zipWith (fun hop cache => (infer hop cache).2) hops caches

/-- A work item is answered by the row and the caches `infer` gives. -/
def Env.rowwise (infer : Tensor → κ → Tensor × κ) : Env κ where
  answers flight row updated :=
    row = some (float32ToPcm16le (infer flight.work.samples flight.caches).1) ∧
      updated = some (infer flight.work.samples flight.caches).2
  opens _ _ := True

theorem StreamingModel.Rowwise.delivers {model : StreamingModel κ}
    {infer : Tensor → κ → Tensor × κ} (h : model.Rowwise infer) :
    model.Delivers (.rowwise infer) := by
  intro active wav updated hreturns j flight hj
  obtain ⟨rfl, rfl⟩ := h _ _ _ _ (by simp) hreturns
  simp [Env.rowwise, hj]

/-- The audio a fresh pipeline gives for work items. -/
def pipelineAudio (infer : Tensor → κ → Tensor × κ) (initializeStream : κ)
    (works : List ModelWork) : List OutputAudio :=
  ((StreamingPipeline.new initializeStream).answers infer works).1.map EnhancedHop.encode

/-- The simulation between a session and the pipeline. -/
structure Refines (infer : Tensor → κ → Tensor × κ) (initializeStream : κ) (st : Stream κ)
    (fl : Option (Flight κ)) : Prop where
  flight : ∀ flight ∈ fl, flight.caches = st.session.caches
  lockstep : st.Alive →
    st.history.emitted = pipelineAudio infer initializeStream st.history.applied ∧
    ∀ before : List SourceHop, st.history.applied = before.map .ofSource →
      ((StreamingPipeline.new initializeStream).answers infer st.history.applied).2 =
        ⟨st.session.caches, st.session.pendingSource, false⟩
  emitted : st.history.emitted <+: pipelineAudio infer initializeStream st.history.applied
  flushed : st.Flushed → st.session.ended = true ∧ st.history.emitted =
    pipelineAudio infer initializeStream (st.history.hops.map .ofSource ++ [.flush])

theorem pipelineAudio_mono (infer : Tensor → κ → Tensor × κ) (initializeStream : κ)
    {works works' : List ModelWork} (h : works <+: works') :
    pipelineAudio infer initializeStream works <+: pipelineAudio infer initializeStream works' :=
  (StreamingPipeline.answers_mono _ h).map EnhancedHop.encode

theorem pipelineAudio_concat (infer : Tensor → κ → Tensor × κ) (initializeStream : κ)
    (works : List ModelWork) (work : ModelWork) :
    pipelineAudio infer initializeStream (works ++ [work]) =
      pipelineAudio infer initializeStream works ++
        ((((StreamingPipeline.new initializeStream).answers infer works).2.answer infer
          work).1.map EnhancedHop.encode).toList := by
  rw [pipelineAudio, StreamingPipeline.answers_append, StreamingPipeline.answers_singleton,
    List.map_append, Option.toList_map]
  rfl

/-- The event for the delayed hop, from the encoded row and from the row itself. -/
theorem encode_enhanced (wav : Tensor) (previous : SourceHop) :
    (StreamingPipeline.enhanced wav previous).encode =
      .ofRow previous (float32ToPcm16le wav) := by
  rw [OutputAudio.ofRow, float32ToPcm16le_take]
  rfl

/-- An open pipeline answers a work item with the delayed hop, like the scheduler. -/
theorem answer_encode {infer : Tensor → κ → Tensor × κ} {p : StreamingPipeline κ}
    (hopen : p.closed = false) {work : ModelWork}
    (hwork : (∃ hop, work = .ofSource hop) ∨ work = .flush) :
    (p.answer infer work).1.map EnhancedHop.encode = p.pending.map fun previous =>
      OutputAudio.ofRow previous (float32ToPcm16le (infer work.samples p.caches).1) := by
  obtain ⟨hop, rfl⟩ | rfl := hwork
  · change (p.pending.map _).map _ = _
    rw [Option.map_map]
    congr 1
    funext previous
    exact encode_enhanced _ previous
  · simp only [StreamingPipeline.answer, StreamingPipeline.flush, ModelWork.flush, hopen,
      Bool.false_eq_true, if_false]
    cases p.pending with
    | none => rfl
    | some previous => exact congrArg some (encode_enhanced _ previous)

section Refines

variable {settings : ServerSettings} {infer : Tensor → κ → Tensor × κ} {initializeStream : κ}
  {st st' : Stream κ} {fl fl' : Option (Flight κ)}

/-! ## Steps that leave the audio alone -/

/-- Nothing was put into the output queue but audio and failures. -/
theorem Stream.Flushed.of_mem (h : st'.Flushed)
    (hq : ∀ completion, OutputEvent.completion completion ∈ st'.session.outputQueue.items →
      .completion completion ∈ st.session.outputQueue.items)
    (hy : st'.history.yielded = st.history.yielded) : st.Flushed := by
  obtain ⟨completion, hmem, hf⟩ | ⟨ended, hmem, hf⟩ := h
  · exact .inl ⟨completion, hq completion hmem, hf⟩
  · exact .inr ⟨ended, hy ▸ hmem, hf⟩

/-- A change of neither the audio nor the caches of a stream. -/
theorem Refines.same (h : Refines infer initializeStream st fl)
    (hflight : ∀ flight ∈ fl', flight ∈ fl ∨ flight.caches = st.session.caches)
    (hcaches : st'.session.caches = st.session.caches)
    (happlied : st'.history.applied = st.history.applied)
    (hemitted : st'.history.emitted = st.history.emitted)
    (halive : st'.Alive → st.Alive ∧ st'.session.pendingSource = st.session.pendingSource)
    (hflushed : st'.Flushed → st'.session.ended = true ∧ st'.history.emitted =
      pipelineAudio infer initializeStream (st'.history.hops.map .ofSource ++ [.flush])) :
    Refines infer initializeStream st' fl' where
  flight flight hmem := by
    rw [hcaches]
    exact (hflight flight hmem).elim (h.flight flight) id
  lockstep ha := by
    rw [hemitted, happlied, hcaches, (halive ha).2]
    exact h.lockstep (halive ha).1
  emitted := by
    rw [hemitted, happlied]
    exact h.emitted
  flushed := hflushed

/-- A change of neither the audio nor the completion of a stream. -/
theorem Refines.keep (h : Refines infer initializeStream st fl)
    (hscheduler : st'.schedulerSide = st.schedulerSide)
    (hhops : st.session.ended = true → st'.history.hops = st.history.hops)
    (hc : st'.session.cancelled = false → st.session.cancelled = false)
    (he : st'.session.ended = st.session.ended)
    (hf : st'.Flushed → st.Flushed) : Refines infer initializeStream st' fl := by
  have hemitted : st'.history.emitted = st.history.emitted :=
    congrArg SchedulerSide.emitted hscheduler
  refine h.same (fun _ hmem => .inl hmem) (congrArg SchedulerSide.caches hscheduler)
    (congrArg SchedulerSide.applied hscheduler) hemitted
    (fun ha => ⟨⟨hc ha.cancelled, he ▸ ha.ended⟩,
      congrArg SchedulerSide.pendingSource hscheduler⟩) fun hf' => ?_
  obtain ⟨hended, hwhole⟩ := h.flushed (hf hf')
  exact ⟨he.trans hended, by rw [hemitted, hhops hended, hwhole]⟩

/-- The stream fails. -/
theorem Refines.die (h : Refines infer initializeStream st fl)
    (hdead : st'.session.cancelled = true)
    (hcaches : st'.session.caches = st.session.caches)
    (happlied : st'.history.applied = st.history.applied)
    (hemitted : st'.history.emitted = st.history.emitted)
    (hhops : st'.history.hops = st.history.hops)
    (he : st'.session.ended = st.session.ended)
    (hf : st'.Flushed → st.Flushed) : Refines infer initializeStream st' fl := by
  refine h.same (fun _ hmem => .inl hmem) hcaches happlied hemitted
    (fun ha => absurd (ha.cancelled.symm.trans hdead) Bool.false_ne_true) fun hf' => ?_
  obtain ⟨hended, hwhole⟩ := h.flushed (hf hf')
  exact ⟨he.trans hended, by rw [hemitted, hhops, hwhole]⟩

/-- A queue that holds a failure only. -/
theorem not_mem_only {q : BoundedQueue OutputEvent} {failure : ProtocolViolation}
    {completion : StreamCompletion} {p : Prop}
    (h : OutputEvent.completion completion ∈ (q.only (.failure failure)).items) : p := by
  simp at h

theorem Refines.failReader (h : Refines infer initializeStream st fl)
    (failure : ProtocolViolation) (m : Metrics) :
    Refines infer initializeStream (failReader failure st m).1 fl :=
  h.die rfl rfl rfl rfl rfl rfl fun hf => hf.of_mem (fun _ hmem => not_mem_only hmem) rfl

theorem Refines.fail (h : Refines infer initializeStream st fl) (status : StatusCode)
    (detail : String) (m : Metrics) :
    Refines infer initializeStream (fail status detail st m).1 fl :=
  h.die rfl rfl rfl rfl rfl rfl fun hf => hf.of_mem (fun _ hmem => not_mem_only hmem) rfl

theorem Refines.flagged (h : Refines infer initializeStream st fl) (scheduled : Bool) :
    Refines infer initializeStream (st.flagged scheduled) fl :=
  h.keep rfl (fun _ => rfl) id rfl id

/-- A stream completes, and with a flush only if all its audio was emitted. -/
theorem Refines.complete (h : Refines infer initializeStream st fl) (flushed : Bool) (m : Metrics)
    (hwhole : st.session.ended = false → flushed = true → st.history.emitted =
      pipelineAudio infer initializeStream (st.history.hops.map .ofSource ++ [.flush])) :
    Refines infer initializeStream (complete flushed st m).1 fl := by
  have hdead := complete_dead flushed st m
  have hcompletes := complete_completes flushed st m
  generalize Server.complete flushed st m = next at hcompletes hdead ⊢
  cases hcompletes with
  | already _ => exact h
  | queued q he hput =>
      obtain ⟨-, hitems, -⟩ := BoundedQueue.putNowait_eq_some hput
      refine h.same (fun _ hmem => .inl hmem) rfl rfl rfl (fun ha => absurd ha hdead)
        fun hf => ⟨rfl, ?_⟩
      cases flushed with
      | true => exact hwhole he rfl
      | false =>
          have hf' : st.Flushed := by
            obtain ⟨completion, hmem, hc⟩ | hyielded := hf
            · rw [hitems, List.mem_append, List.mem_singleton] at hmem
              obtain hmem | hmem := hmem
              · exact .inl ⟨completion, hmem, hc⟩
              · obtain rfl := OutputEvent.completion.inj hmem
                cases hc
            · exact .inr hyielded
          exact (h.flushed hf').2
  | full _ _ =>
      refine h.same (fun _ hmem => .inl hmem) rfl rfl rfl (fun ha => absurd ha hdead)
        fun hf => ⟨rfl, ?_⟩
      have hf' : st.Flushed := hf.of_mem (fun _ hmem => not_mem_only hmem) rfl
      exact (h.flushed hf').2

/-! ## The reader -/

/-- A stream that received nothing has emitted all of its audio. -/
theorem Refines.whole_empty (h : Refines infer initializeStream st fl)
    (hintake : Intake settings st) (hbacklog : Backlog st fl) (hr : st.reader.pastEnd = false)
    (hreceived : Received settings st.readerSide) (hzero : st.session.inputSamples = 0) :
    st.history.emitted =
      pipelineAudio infer initializeStream (st.history.hops.map .ofSource ++ [.flush]) := by
  have hpending := hreceived.pending
  simp only [Stream.readerSide, hzero] at hpending
  have hhops : st.history.hops = [] := by
    cases hlist : st.history.hops with
    | nil => rfl
    | cons hop rest =>
        have htiles := hintake.tiles
        rw [hlist] at htiles hpending
        have hpos := htiles.2.1
        rw [Intervals.total_cons] at hpending
        omega
  obtain ⟨before, happlied, hle⟩ := hbacklog.applied_hops hr
  rw [hhops, List.prefix_nil] at hle
  have hemitted := h.emitted
  rw [happlied, hle] at hemitted
  rw [hhops]
  exact List.prefix_nil.mp hemitted

theorem Refines.finishInput (h : Refines infer initializeStream st fl)
    (hintake : Intake settings st) (hbacklog : Backlog st fl) (hr : st.reader = .reading false)
    (flush : Bool) (m : Metrics) :
    Refines infer initializeStream (finishInput flush st m).1 fl := by
  have hpast : st.reader.pastEnd = false := by rw [hr]; rfl
  have hspec := finishInput_finished flush st m
  generalize (Server.finishInput flush st m).1 = st' at hspec ⊢
  cases hspec with
  | noFlush _ => exact h.keep rfl (fun _ => rfl) id rfl id
  | failed failure m => exact h.failReader failure m
  | hop hop rechunker _ _ =>
      exact h.keep rfl (fun he => absurd ((hbacklog.not_ended hpast).symm.trans he)
        Bool.false_ne_true) id rfl id
  | flush rechunker _ _ _ => exact h.keep rfl (fun _ => rfl) id rfl id
  | nothing rechunker m _ _ hzero =>
      have hreceived := hintake.received (.inl (by simp [hr]))
      have hsame : Refines infer initializeStream (st.flushes rechunker (.reading true)) fl :=
        h.keep rfl (fun _ => rfl) id rfl id
      exact hsame.complete true m fun _ _ =>
        h.whole_empty hintake hbacklog hpast hreceived hzero

theorem Refines.readMessage (h : Refines infer initializeStream st fl)
    (hintake : Intake settings st) (hbacklog : Backlog st fl) {sawEnd : Bool}
    (hr : st.reader = .reading sawEnd) (message : ClientMessage) (m : Metrics) :
    Refines infer initializeStream (readMessage settings sawEnd message st m).1 fl := by
  have hread := readMessage_read settings sawEnd message st m
  generalize Server.readMessage settings sawEnd message st m = next at hread ⊢
  cases hread with
  | afterEnd _ => exact h.failReader _ m
  | duplicateStart _ => exact h.failReader _ m
  | empty => exact h.failReader _ m
  | accepted chunk st' m' haccept =>
      obtain ⟨hops, rechunker, rfl⟩ := acceptAudio_accepts haccept
      -- before the end the rechunker may return more hops
      have hopen := hbacklog.not_ended (by rw [hr]; rfl)
      exact h.keep rfl (fun he => absurd (hopen.symm.trans he) Bool.false_ne_true) id rfl id
  | refused chunk st' m' violation haccept =>
      obtain ⟨hhistory, -, hended, -⟩ := acceptAudio_error haccept
      have hoff := acceptAudio_offReader settings chunk st m
      rw [haccept] at hoff
      refine h.die rfl (congrArg SchedulerSide.caches hoff.schedulerSide)
        (congrArg History.applied hhistory) (congrArg History.emitted hhistory)
        (congrArg History.hops hhistory) hended fun hf => ?_
      exact hf.of_mem (fun _ hmem => not_mem_only hmem) (congrArg History.yielded hhistory)
  | ended flush => exact h.finishInput hintake hbacklog hr flush m

theorem Refines.readEof (h : Refines infer initializeStream st fl) (sawEnd : Bool) (m : Metrics) :
    Refines infer initializeStream (readEof sawEnd st m).1 fl := by
  unfold Server.readEof
  split
  · exact h.keep rfl (fun _ => rfl) id rfl id
  · exact h.failReader _ m

theorem Refines.put (h : Refines infer initializeStream st fl) (hintake : Intake settings st)
    (hbacklog : Backlog st fl) {work : ModelWork} (hw : st.reader.work? = some work)
    (q : BoundedQueue ModelWork) (scheduled : Bool) (m : Metrics) :
    Refines infer initializeStream (afterPut ((st.queued q).flagged scheduled) m).1 fl := by
  have hputs : ∀ reader, Refines infer initializeStream (st.puts q scheduled reader) fl :=
    fun reader => h.same (fun _ hmem => .inl hmem) rfl rfl rfl
      (fun ha => ⟨⟨ha.cancelled, ha.ended⟩, rfl⟩) h.flushed
  have hreturned := afterPut_put hw q scheduled m
  generalize afterPut ((st.queued q).flagged scheduled) m = next at hreturned ⊢
  cases hreturned with
  | hop hop rest _ => exact hputs (.ofHops rest)
  | nothing hop hr hzero =>
      have hreader : st.reader = .finishingPartial hop := hr
      have hreceived := hintake.received (.inl (by simp [hreader]))
      exact (hputs (.reading true)).complete true m fun _ _ =>
        h.whole_empty hintake hbacklog (by rw [hreader]; rfl) hreceived hzero
  | remainder hop _ _ => exact hputs .finishingFlush
  | flush _ => exact hputs (.reading true)
  | noFlush _ => exact hputs (.reading true)

/-! ## The scheduler -/

/-- The delayed hop is dropped and the stream completes, or the other way round. -/
theorem completeWithoutFlush_eq (st : Stream κ) (m : Metrics) :
    (completeWithoutFlush st m).1 = { (complete false st m).1 with
      session := { (complete false st m).1.session with pendingSource := none } } := by
  unfold completeWithoutFlush Server.complete
  dsimp only
  split
  · rfl
  · split <;> rfl

theorem Refines.completeWithoutFlush (h : Refines infer initializeStream st fl) (m : Metrics) :
    Refines infer initializeStream (completeWithoutFlush st m).1 fl := by
  have hcomplete := h.complete false m fun _ hf => absurd hf Bool.false_ne_true
  rw [completeWithoutFlush_eq]
  refine hcomplete.same (fun _ hmem => .inl hmem) rfl rfl rfl (fun ha => ?_) hcomplete.flushed
  exact absurd ⟨ha.cancelled, ha.ended⟩ (complete_dead false st m)

theorem Refines.take (h : Refines infer initializeStream st none) {work : Option ModelWork}
    (ht : Taken st st' work) (i : Nat) :
    Refines infer initializeStream st'
      (work.map fun work => ⟨i, work, st'.session.caches⟩) := by
  cases ht with
  | dead _ => exact h.flagged false
  | idle _ _ => exact h.flagged false
  | joins work inputQueue _ _ _ =>
      refine h.same (fun flight hmem => .inr ?_) rfl rfl rfl
        (fun ha => ⟨⟨ha.cancelled, ha.ended⟩, rfl⟩) h.flushed
      obtain rfl := Option.mem_some.mp hmem
      rfl
  | ends work inputQueue m _ _ _ =>
      refine Refines.completeWithoutFlush ?_ m
      exact h.same (fun _ hmem => .inl hmem) rfl rfl rfl
        (fun ha => ⟨⟨ha.cancelled, ha.ended⟩, rfl⟩) h.flushed

/-- The result of a live stream's work item reaches it, and the pipeline takes its step. -/
theorem Refines.advance {flight : Flight κ} (h : Refines infer initializeStream st (some flight))
    (hbacklog : Backlog st (some flight)) (ha : st.Alive) (st' : Stream κ)
    (happlied : st'.history.applied = st.history.applied ++ [flight.work])
    (hemitted : st'.history.emitted =
      st.caughtUp (float32ToPcm16le (infer flight.work.samples flight.caches).1))
    (hcaches : st'.session.caches = (infer flight.work.samples flight.caches).2)
    (hpending : st'.session.pendingSource =
      if flight.work.terminalFlush then none else flight.work.source)
    (hhops : st'.history.hops = st.history.hops) (hf : st'.Flushed → st.Flushed) (m : Metrics) :
    Refines infer initializeStream (finishHop flight.work st' m).1.1 none := by
  obtain ⟨before, after, last, hw⟩ := hbacklog.working ha.cancelled ha.ended
  obtain ⟨hlock, hstate⟩ := h.lockstep ha
  have hstate := hstate before hw.applied
  have hflight := h.flight flight rfl
  have hwaiting := hw.waiting
  rw [Option.map_some, Option.toList_some, List.singleton_append] at hwaiting
  -- the pipeline emits what the scheduler emits
  have haudio : ((∃ hop, flight.work = .ofSource hop) ∨ flight.work = .flush) →
      st'.history.emitted = pipelineAudio infer initializeStream st'.history.applied := by
    intro hwork
    rw [happlied, pipelineAudio_concat, hstate, answer_encode rfl hwork, ← hlock, hemitted,
      ← hflight]
    rfl
  have hunflushed : ¬ st'.Flushed := fun hf' =>
    absurd (ha.ended.symm.trans (h.flushed (hf hf')).1) Bool.false_ne_true
  obtain ⟨hop, after', -, hwork, -⟩ | ⟨rfl, rfl, hwork, -⟩ | ⟨-, -, hwork, -⟩ :=
    waiting_cases hwaiting
  · have haudio' := haudio (.inl ⟨hop, hwork⟩)
    rw [finishHop, if_neg (by rw [hwork]; rintro ⟨⟩)]
    refine ⟨by rintro _ ⟨⟩, fun _ => ⟨haudio', fun _ _ => ?_⟩, haudio' ▸ List.prefix_refl _,
      fun hf' => absurd hf' hunflushed⟩
    rw [happlied, StreamingPipeline.answers_append, StreamingPipeline.answers_singleton, hstate,
      hcaches, hpending, hflight, hwork]
    rfl
  · have haudio' := haudio (.inr hwork)
    have hall : st'.history.applied = st'.history.hops.map .ofSource ++ [.flush] := by
      rw [happlied, hw.applied, hwork, hhops, hw.hops,
        Reader.hops_of_pastEnd (hw.pastEnd (by simp)), List.append_nil, List.append_nil]
    have hinv : Refines infer initializeStream st' none := by
      refine ⟨by rintro _ ⟨⟩, fun _ => ⟨haudio', fun before' hbefore' => ?_⟩,
        haudio' ▸ List.prefix_refl _, fun hf' => absurd hf' hunflushed⟩
      -- the flush is none of the hops
      have hmem : ModelWork.flush ∈ before'.map ModelWork.ofSource := by
        rw [← hbefore', hall]
        exact List.mem_append_right _ List.mem_cons_self
      obtain ⟨hop, -, heq⟩ := List.mem_map.mp hmem
      cases congrArg ModelWork.source heq
    rw [finishHop, if_pos (by rw [hwork]; rfl)]
    exact hinv.complete true m fun _ _ => by rw [haudio', hall]
  · have hnoFlush := hw.flight flight rfl
    rw [hwork] at hnoFlush
    cases hnoFlush

theorem Refines.land {flight : Flight κ} (h : Refines infer initializeStream st (some flight))
    (hbacklog : Backlog st (some flight)) {row : Option Bytes} {updated : Option κ}
    (hres : (Env.rowwise infer).answers flight row updated)
    (hl : Landed flight.work row updated st st') : Refines infer initializeStream st' none := by
  obtain ⟨rfl, rfl⟩ := hres
  cases hl with
  | dead hdead =>
      refine ⟨nofun, fun ha => ?_, h.emitted, h.flushed⟩
      simp [ha.cancelled, ha.ended] at hdead
  | silent caches m halive hu hp =>
      have ha : st.Alive := ⟨(alive_iff.mp halive).1, (alive_iff.mp halive).2⟩
      obtain rfl := Option.some.inj hu
      refine h.advance hbacklog ha (st.advances flight.work _) rfl ?_ rfl rfl rfl id m
      rw [Stream.caughtUp, hp]
      exact (List.append_nil _).symm
  | full caches previous _ m halive hu hp _ _ =>
      have ha : st.Alive := ⟨(alive_iff.mp halive).1, (alive_iff.mp halive).2⟩
      have hdead : ¬ (Server.fail .resourceExhausted "per-stream output queue is full"
          (st.advances flight.work caches) m).1.Alive := fun ha' =>
        absurd ha'.cancelled (by simp [Server.fail, Stream.cancel])
      refine ⟨nofun, fun ha' => absurd ha' hdead, ?_, fun hf => ?_⟩
      · exact h.emitted.trans (pipelineAudio_mono _ _ (List.prefix_append _ _))
      · have hf' : st.Flushed := hf.of_mem (fun _ hmem => not_mem_only hmem) rfl
        exact absurd (ha.ended.symm.trans (h.flushed hf').1) Bool.false_ne_true
  | emitted caches previous bytes outputQueue m halive hu hp hrow hput =>
      have ha : st.Alive := ⟨(alive_iff.mp halive).1, (alive_iff.mp halive).2⟩
      obtain rfl := Option.some.inj hu
      obtain rfl := Option.some.inj hrow
      obtain ⟨-, hitems, -⟩ := BoundedQueue.putNowait_eq_some hput
      refine h.advance hbacklog ha ((st.advances flight.work _).emits _ outputQueue) rfl ?_ rfl rfl
        rfl (fun hf => hf.of_mem (fun completion hmem => ?_) rfl) m
      · rw [Stream.caughtUp, hp]
        rfl
      · change _ ∈ outputQueue.items at hmem
        simpa [hitems] using hmem

/-! ## The generator -/

/-- The generator takes an event and yields its message. -/
theorem Refines.handle (h : Refines infer initializeStream st fl) {event : OutputEvent}
    {q : BoundedQueue OutputEvent} {m m' : Metrics}
    (hget : st.session.outputQueue.getNowait = some (event, q))
    (hh : handleEvent event (st.withOutput q) m = (some st', m')) :
    Refines infer initializeStream st' fl := by
  obtain ⟨hitems, -⟩ := BoundedQueue.getNowait_eq_some hget
  have hmem : ∀ e ∈ q.items, e ∈ st.session.outputQueue.items := fun e he => by
    rw [hitems]
    exact List.mem_cons_of_mem _ he
  cases event with
  | audio audio =>
      simp only [handleEvent, Prod.mk.injEq, Option.map_eq_some_iff] at hh
      obtain ⟨⟨message, -, rfl⟩, -⟩ := hh
      refine h.keep rfl (fun _ => rfl) id rfl fun hf => ?_
      obtain ⟨completion, hc, hflushed⟩ | ⟨ended, he, hflushed⟩ := hf
      · exact .inl ⟨completion, hmem _ hc, hflushed⟩
      · change _ ∈ st.history.yielded ++ [.audio message] at he
        exact .inr ⟨ended, by simpa using he, hflushed⟩
  | completion completion =>
      simp only [handleEvent, Prod.mk.injEq, Option.map_eq_some_iff] at hh
      obtain ⟨⟨message, hmessage, rfl⟩, -⟩ := hh
      refine h.keep rfl (fun _ => rfl) id rfl fun hf => ?_
      obtain ⟨completion', hc, hflushed⟩ | ⟨ended, he, hflushed⟩ := hf
      · exact .inl ⟨completion', hmem _ hc, hflushed⟩
      · change _ ∈ st.history.yielded ++ [.ended message] at he
        rw [List.mem_append, List.mem_singleton] at he
        obtain he | he := he
        · exact .inr ⟨ended, he, hflushed⟩
        · obtain rfl := ServerMessage.ended.inj he
          refine .inl ⟨completion, by rw [hitems]; exact List.mem_cons_self, ?_⟩
          rw [← (streamEnded?_spec hmessage).2.2, hflushed]
  | failure failure =>
      simp only [handleEvent, Prod.mk.injEq, Option.some.injEq] at hh
      obtain ⟨rfl, -⟩ := hh
      exact h.keep rfl (fun _ => rfl) id rfl fun hf => hf.of_mem (fun _ => hmem _) rfl

/-- The call ends: its queues are drained. -/
theorem Refines.finish (h : Refines infer initializeStream st fl) (q : BoundedQueue OutputEvent)
    (m : Metrics) : Refines infer initializeStream (finallyBlock (st.withOutput q) m).1 fl := by
  refine h.die rfl rfl rfl rfl rfl rfl fun hf => hf.of_mem (fun _ hmem => ?_) rfl
  exact absurd hmem List.not_mem_nil

end Refines

/-! ## Every run -/

theorem refines_new {infer : Tensor → κ → Tensor × κ} (settings : ServerSettings)
    (model : StreamingModel κ) (start : StartStream) :
    Refines infer model.initializeStream (.admitted settings model start) none :=
  ⟨nofun, fun _ => ⟨rfl, fun _ _ => rfl⟩, List.prefix_refl _, fun hf => by
    simp [Stream.Flushed, Stream.admitted, startSession, Session.new] at hf⟩

theorem rowwise_answer {infer : Tensor → κ → Tensor × κ} {flight : Flight κ}
    {row : Option Bytes} {updated : Option κ} (h : (Env.rowwise infer).answers flight row updated) :
    row.isSome = true ∧ updated.isSome = true := by
  obtain ⟨rfl, rfl⟩ := h
  exact ⟨rfl, rfl⟩

/-- The simulation, with the invariants of the stream's data. -/
theorem refines_invariant (settings : ServerSettings) (model : StreamingModel κ)
    (infer : Tensor → κ → Tensor × κ) :
    LocalInvariant settings model (.rowwise infer) fun st fl =>
      (Intake settings st ∧ Backlog st fl) ∧ Refines infer model.initializeStream st fl := by
  have hbacklog : LocalInvariant settings model (.rowwise infer) Backlog :=
    backlog_invariant settings model fun _ _ _ => rowwise_answer
  refine ((intake_invariant settings model (.rowwise infer)).and hbacklog.admitted
    hbacklog.unannounced hbacklog.refused
    fun st fl st' fl' _ hb hr => hbacklog.round st fl st' fl' hb hr).and ?_ ?_ ?_ ?_
  · exact refines_new settings model
  · exact fun start => ⟨nofun, fun _ => ⟨rfl, fun _ _ => rfl⟩, List.prefix_refl _, fun hf => by
      simp [Stream.Flushed, Stream.unannounced, Stream.opened, Stream.cancel, startSession,
        Session.new] at hf⟩
  · exact fun start violation => ⟨nofun, fun _ => ⟨rfl, fun _ _ => rfl⟩, List.prefix_refl _,
      fun hf => by simp [Stream.Flushed, Stream.refused, startSession, Session.new] at hf⟩
  · intro st fl st' fl' hinv h hr
    obtain ⟨hintake, hbacklog⟩ := hinv
    cases hr with
    | read message m hr => exact h.readMessage hintake hbacklog hr message m
    | eof m _ => exact h.readEof _ m
    | readFail failure m _ => exact h.failReader failure m
    | put scheduled m hw _ => exact h.put hintake hbacklog hw _ scheduled m
    | putOverflow scheduled m _ _ =>
        exact h.die rfl rfl rfl rfl rfl rfl fun hf =>
          hf.of_mem (fun _ hmem => not_mem_only hmem) rfl
    | afterAccepted m _ => exact h.keep rfl (fun _ => rfl) id rfl id
    | afterAudio m _ => exact h.keep rfl (fun _ => rfl) id rfl id
    | handle m m' _ hget hh => exact h.handle hget hh
    | handleRaise m m' _ _ _ => exact h.finish _ m'
    | finish m _ => exact h.finish st.session.outputQueue m
    | take m => exact h.take (takeWork_taken st m) _
    | apply m hres ho scheduled =>
        exact (h.land hbacklog hres (applyResult_landed ho)).flagged scheduled
    | applyRaised m hres ho =>
        exact absurd ho
          (applyResult_ne_raised (rowwise_answer hres).1 (rowwise_answer hres).2 st m)
    | fail m =>
        have hfail := h.fail .internal "CUDA inference failed" m
        exact ⟨nofun, hfail.lockstep, hfail.emitted, hfail.flushed⟩

/-- The audio the scheduler emits for a stream is what a fresh pipeline returns for the
stream's own hops: an initial segment of it, with the pipeline's flush only once the flush of
the stream is answered, and all of it when the stream completes with a flush. -/
theorem emitted_refines_pipeline {settings : ServerSettings} {model : StreamingModel κ}
    {infer : Tensor → κ → Tensor × κ} (hmodel : model.Rowwise infer) {s : ServerState κ}
    (h : (system settings model).Reachable s) {i : Nat} {st : Stream κ}
    (hst : s.streams[i]? = some st) :
    ∃ outputs p, StreamingPipeline.feed infer (.new model.initializeStream) st.history.hops =
        .ok (outputs, p) ∧
      (st.history.emitted <+: outputs.map EnhancedHop.encode ∨
        ModelWork.flush ∈ st.history.applied ∧ st.history.emitted <+:
          (outputs ++ (p.flush infer).1.toList).map EnhancedHop.encode) ∧
      (st.Flushed → st.history.emitted =
        (outputs ++ (p.flush infer).1.toList).map EnhancedHop.encode) := by
  obtain ⟨⟨hintake, hbacklog⟩, hrefines⟩ := reachable_stream hmodel.delivers (fun _ _ => trivial)
    (refines_invariant settings model infer) h hst
  have hfeed : StreamingPipeline.feed infer (.new model.initializeStream) st.history.hops = _ :=
    StreamingPipeline.feed_eq_run rfl fun hop hmem => (hintake.shape hop hmem).1
  refine ⟨_, _, hfeed, ?_, fun hf => ?_⟩
  · obtain ⟨before, flushed, happlied, hle, hflushed⟩ := hbacklog.inOrder
    have hemitted := hrefines.emitted
    rw [happlied] at hemitted
    cases flushed with
    | false =>
        have hmono := pipelineAudio_mono infer model.initializeStream
          (hle.map ModelWork.ofSource)
        rw [if_neg Bool.false_ne_true, List.append_nil] at hemitted
        rw [pipelineAudio, pipelineAudio, StreamingPipeline.answers_ofSource,
          StreamingPipeline.answers_ofSource] at hmono
        rw [pipelineAudio, StreamingPipeline.answers_ofSource] at hemitted
        exact .inl (hemitted.trans hmono)
    | true =>
        obtain ⟨rfl, -⟩ := hflushed rfl
        rw [if_pos rfl, pipelineAudio, StreamingPipeline.answers_flushed] at hemitted
        refine .inr ⟨?_, hemitted⟩
        rw [happlied, if_pos rfl]
        exact List.mem_append_right _ List.mem_cons_self
  · rw [(hrefines.flushed hf).2, pipelineAudio, StreamingPipeline.answers_flushed]

theorem identityDelayModel_rowwise :
    identityDelayModel.Rowwise fun hop cache => (cache, hop) := by
  rintro hops caches _ _ hlen ⟨rfl, rfl⟩
  constructor
  · rw [List.zipWith_comm, ← List.map_uncurry_zip_eq_zipWith]
    exact (List.map_fst_zip hlen.ge).symm
  · rw [← List.map_uncurry_zip_eq_zipWith]
    exact (List.map_fst_zip hlen.le).symm

/-- One chunk of 300 equal samples, flushed, with the model that delays by a hop. -/
def delayedStream : List (Event Tensor) :=
  let zeros : Tensor := List.replicate hopSamples 0
  let full : Tensor := List.replicate hopSamples (257 / 32768)
  let partialHop : Tensor := List.replicate 44 (257 / 32768) ++ List.replicate 212 0
  [.enhance (testStart "a" 0), .resume 0, .deliver 0 (.audio ⟨0, 0, List.replicate 600 1⟩), .put 0,
    .deliver 0 (.endStream true), .put 0, .put 0,
    .gather, .dispatch, .inferenceReturned [zeros] [full],
    .gather, .dispatch, .inferenceReturned [full] [partialHop],
    .gather, .dispatch, .inferenceReturned [partialHop] [zeros]]

/-- That stream gets its own samples back. -/
theorem emitted_refines_pipeline_delayed :
    ∃ (s : ServerState Tensor) (st : Stream Tensor) (outputs : List EnhancedHop)
      (p : StreamingPipeline Tensor),
      (system .defaults identityDelayModel).run (.init .defaults) delayedStream = some s ∧
      s.streams[0]? = some st ∧
      st.history.emitted = [⟨0, List.replicate 512 1, 256⟩, ⟨256, List.replicate 88 1, 44⟩] ∧
      st.history.emitted = (outputs ++
        (p.flush fun hop cache => (cache, hop)).1.toList).map EnhancedHop.encode := by
  obtain ⟨s, hrun, hr, hp⟩ := Lts.System.Reachable.of_run (system .defaults identityDelayModel)
    delayedStream (fun s => s.streams[0]?.any fun (st : Stream Tensor) => decide
      (st.session.outputQueue.items.getLast? = some (.completion ⟨300, 300, true⟩) ∧
        st.history.emitted = [⟨0, List.replicate 512 1, 256⟩, ⟨256, List.replicate 88 1, 44⟩]))
    (by decide +kernel) (by decide +kernel)
  cases hst : s.streams[0]? with
  | none =>
      rw [hst] at hp
      cases hp
  | some st =>
      rw [hst, Option.any_some, decide_eq_true_eq] at hp
      obtain ⟨outputs, p, -, -, hwhole⟩ :=
        emitted_refines_pipeline identityDelayModel_rowwise hr hst
      have hflushed : st.Flushed := .inl ⟨_, List.mem_of_getLast? hp.1, rfl⟩
      exact ⟨s, st, outputs, p, hrun, hst, hp.2, hwhole hflushed⟩

end VoxLattice.Server
