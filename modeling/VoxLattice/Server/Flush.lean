import VoxLattice.Server.Prompt

/-!
# The end of a promptly read stream

`Live` is what holds of a promptly read stream until its end.  Its output queue carries audio
only and is empty when a hop of the stream comes back from inference, so the put of that hop's
audio finds room.  The last hop makes two puts in a row, the audio and the completion, with no
suspension between them: the second needs a queue of at least two.  A stream without audio is
completed by the reader, with one put.  And the generator must be able to send the audio before
the last: where protobuf refuses an offset, the exception ends the call.

`Live.round` says how a prompt step may end the stream, and when it does which.  `Over` is what
holds after any end, `Quiet` after one that left no failure, and `Shut` where the call is over
without a completion.
-/

namespace VoxLattice.Server

open Intervals

variable {κ : Type*}

/-- The failure of a full output queue. -/
def fullOutputQueue : ProtocolViolation :=
  ⟨.resourceExhausted, "per-stream output queue is full"⟩

/-- The stream was failed because its output queue was full. -/
def Stream.Full (st : Stream κ) : Prop :=
  .failure fullOutputQueue ∈ st.session.outputQueue.items ∨ st.enhance = .aborting fullOutputQueue

/-- The end of a stream that is flushed. -/
structure Ending (st : Stream κ) (fl : Option (Flight κ)) : Prop where
  noFlush : st.reader ≠ .finishingNoFlush ∧ ∀ work ∈ st.waiting fl, work.terminalNoFlush = false
  hops : st.reader = .finishingFlush ∨ (∃ work ∈ st.waiting fl, work.terminalFlush = true) →
    st.history.hops ≠ []
  flush : st.reader.pastEnd = true → ∃ work ∈ st.waiting fl, work.terminalFlush = true

/-- A promptly read stream before its end. -/
structure Live (settings : ServerSettings) (st : Stream κ) (fl : Option (Flight κ)) : Prop where
  alive : st.Alive
  running : st.enhance.running = true
  outputBound : st.session.outputQueue.maxsize = settings.outputHops
  inputBound : st.session.inputQueue.maxsize = settings.queueHops
  audio : ∀ event ∈ st.session.outputQueue.items, ∃ audio, event = .audio audio
  fresh : st.session.inputSamples = 0 → st.session.outputQueue.items = []
  counted : st.history.accepted ≠ [] → st.session.inputSamples ≠ 0
  ending : Ending st fl

/-- The stream ended with a flush, and nothing failed. -/
structure Completed (st : Stream κ) : Prop where
  ended : st.session.ended = true
  flushed : st.Flushed
  pastEnd : st.reader.pastEnd = true
  running : st.enhance.running = true
  noFailure : ∀ failure, .failure failure ∉ st.session.outputQueue.items

/-- How a prompt step may leave a live stream. -/
inductive Left (settings : ServerSettings) (st st' : Stream κ) : Prop where
  /-- The stream completes: the output queue holds two events, or there was no audio.  All audio
  but the last was sent before. -/
  | completed (h : Completed st')
      (hwhen : 2 ≤ settings.outputHops ∨ st'.history.accepted = [])
      (hdrained : st.session.outputQueue.items = [])
      (hemitted : ∀ audio ∈ st'.history.emitted.dropLast, audio ∈ st.history.emitted)
  /-- The stream fails: the output queue holds one event, and there was audio. -/
  | full (h : st'.Full) (hpast : st'.reader.pastEnd = true)
      (hstops : (st'.session.cancelled || st'.session.ended) = true)
      (hbound : settings.outputHops < 2) (haudio : st.history.accepted ≠ [])

/-- Protobuf refuses the audio message of a waiting generator, and the call is over. -/
inductive Raised (st : Stream κ) : Stream κ → Prop where
  | intro (audio : OutputAudio) (q m) (he : st.enhance = .waiting)
      (hget : st.session.outputQueue.getNowait = some (.audio audio, q))
      (hrefused : enhancedAudio? st.session.outputSequence audio = none) :
      Raised st (finallyBlock (st.withOutput q) m).1

section Live

variable {settings : ServerSettings} {st st' : Stream κ} {fl fl' : Option (Flight κ)}
  {g : List Nat} {e : Event κ} {i : Nat}

/-- A hop covers samples. -/
theorem Intake.samples_pos (h : Intake settings st) (hc : st.session.cancelled = false)
    {hop : SourceHop} (hmem : hop ∈ st.history.hops) : st.session.inputSamples ≠ 0 := by
  obtain ⟨-, hle, hpos⟩ := Tiles.mem_bounds h.tiles hmem
  obtain ⟨hlow, -, -⟩ := Tiles.mem_bounds h.tiles hmem
  have hpending := (h.received (.inr hc)).pending
  simp only [Stream.readerSide] at hpending
  omega

/-- Samples come in chunks. -/
theorem Intake.accepted_ne_nil (h : Intake settings st) (hc : st.session.cancelled = false)
    (hsamples : st.session.inputSamples ≠ 0) : st.history.accepted ≠ [] := by
  intro hnil
  have hinput := (h.received (.inr hc)).inputSamples
  simp only [Stream.readerSide, hnil, total_nil] at hinput
  exact hsamples hinput

/-- The reader is not at the end while it puts full hops. -/
theorem ofHops_open (hops : List SourceHop) : Reader.ofHops hops ≠ .finishingNoFlush ∧
    Reader.ofHops hops ≠ .finishingFlush ∧ (Reader.ofHops hops).pastEnd = false := by
  cases hops with
  | nil => exact ⟨nofun, nofun, rfl⟩
  | cons _ _ => exact ⟨nofun, nofun, rfl⟩

/-! ## The reader -/

/-- A chunk is accepted. -/
theorem Live.accepts (h : Live settings st fl) {chunk : AudioChunk}
    (hsize : ¬ (chunk.pcmS16le.length = 0 ∨ chunk.pcmS16le.length % 2 ≠ 0))
    (hops : List SourceHop) (rechunker : PCMRechunker) :
    Live settings (st.accepts chunk hops rechunker) fl := by
  obtain ⟨hnoFlush, hflush, hpast⟩ := ofHops_open hops
  have hsamples : 0 < chunk.samples := by
    unfold AudioChunk.samples
    omega
  refine ⟨⟨h.alive.cancelled, h.alive.ended⟩, h.running, h.outputBound, h.inputBound, h.audio,
    fun hzero => h.fresh ?_, fun _ hzero => ?_, ⟨⟨hnoFlush, h.ending.noFlush.2⟩, ?_, ?_⟩⟩
  · simp only [Stream.accepts, Session.count] at hzero
    omega
  · simp only [Stream.accepts, Session.count] at hzero
    omega
  · intro hend
    have hold := h.ending.hops (.inr (hend.resolve_left hflush))
    exact fun hnil => hold (List.append_eq_nil_iff.mp hnil).1
  · exact fun hend => absurd (hpast.symm.trans hend) Bool.false_ne_true

/-- A completion finds room in an output queue that holds fewer events than it may. -/
theorem complete_room (flushed : Bool) (he : st.session.ended = false)
    (hroom : st.session.outputQueue.items.length < st.session.outputQueue.maxsize)
    (m : Metrics) : ∃ q, (complete flushed st m).1 =
        { st with session := { st.session with ended := true, outputQueue := q } } ∧
      q.items = st.session.outputQueue.items ++
        [.completion ⟨st.session.inputSamples, st.session.outputSamples, flushed⟩] := by
  have hcompletes := complete_completes flushed st m
  generalize complete flushed st m = next at hcompletes ⊢
  cases hcompletes with
  | already hended => exact absurd (he.symm.trans hended) nofun
  | queued q _ hput =>
      obtain ⟨-, hitems, -⟩ := BoundedQueue.putNowait_eq_some hput
      exact ⟨q, rfl, hitems⟩
  | full _ hput =>
      obtain ⟨-, hfull⟩ := BoundedQueue.full_iff.mp (BoundedQueue.putNowait_eq_none.mp hput)
      exact absurd hroom (Nat.not_lt.mpr hfull)

theorem complete_emitted (flushed : Bool) (st : Stream κ) (m : Metrics) :
    (complete flushed st m).1.history.emitted = st.history.emitted :=
  congrArg SchedulerSide.emitted (complete_schedulerSide flushed st m)

/-- A stream completes with a flush, with room for the completion. -/
theorem complete_completed (st : Stream κ) (ha : st.session.ended = false)
    (hrun : st.enhance.running = true)
    (haudio : ∀ event ∈ st.session.outputQueue.items, ∃ audio, event = .audio audio)
    (hpast : st.reader.pastEnd = true)
    (hroom : st.session.outputQueue.items.length < st.session.outputQueue.maxsize) (m : Metrics) :
    Completed (complete true st m).1 := by
  obtain ⟨q, heq, hitems⟩ := complete_room true ha hroom m
  rw [heq]
  refine ⟨rfl, .inl ⟨⟨st.session.inputSamples, st.session.outputSamples, true⟩, ?_, rfl⟩, hpast,
    hrun, fun failure hmem => ?_⟩
  · change _ ∈ q.items
    rw [hitems]
    exact List.mem_append_right _ List.mem_cons_self
  · change _ ∈ q.items at hmem
    rw [hitems, List.mem_append, List.mem_singleton] at hmem
    obtain hmem | hmem := hmem
    · obtain ⟨audio, haudio⟩ := haudio _ hmem
      cases haudio
    · cases hmem

/-- The client ended its stream. -/
theorem Live.finishInput (h : Live settings st fl) (hintake : Intake settings st) (m : Metrics) :
    Live settings (finishInput true st m).1 fl ∨ Left settings st (finishInput true st m).1 := by
  have hreceived := hintake.received (.inr h.alive.cancelled)
  have hpending := hreceived.pending
  simp only [Stream.readerSide] at hpending
  have hsettled := hreceived.settled
  simp only [Stream.readerSide] at hsettled
  unfold Server.finishInput
  rw [if_neg (by simp)]
  obtain ⟨hzero, hflush⟩ | ⟨hop, rechunker, -, hflush, -⟩ := PCMRechunker.flushPartial_ok hsettled
  · simp only [hflush]
    split
    · next hsamples =>
        right
        have hempty := h.fresh hsamples
        refine .completed (complete_completed (st.flushes _ (.reading true)) h.alive.ended h.running
          h.audio rfl ?_ m) (.inr ?_) hempty fun audio hmem => ?_
        · change st.session.outputQueue.items.length < st.session.outputQueue.maxsize
          rw [hempty, h.outputBound]
          exact settings.outputHops_pos
        · refine (congrArg ReaderSide.accepted (complete_readerSide true _ m)).trans ?_
          by_contra haccepted
          exact h.counted haccepted hsamples
        · change audio ∈ (complete true (st.flushes _ (.reading true)) m).1.history.emitted.dropLast
            at hmem
          rw [complete_emitted] at hmem
          exact List.mem_of_mem_dropLast hmem
    · next hsamples =>
        left
        refine ⟨⟨h.alive.cancelled, h.alive.ended⟩, h.running, h.outputBound, h.inputBound,
          h.audio, h.fresh, h.counted,
          ⟨⟨by rintro ⟨⟩, h.ending.noFlush.2⟩, fun _ hnil => ?_, by rintro ⟨⟩⟩⟩
        change st.history.hops = [] at hnil
        rw [hnil, total_nil] at hpending
        change ¬ st.session.inputSamples = 0 at hsamples
        omega
  · simp only [hflush]
    left
    refine ⟨⟨h.alive.cancelled, h.alive.ended⟩, h.running, h.outputBound, h.inputBound,
      h.audio, h.fresh, h.counted,
      ⟨⟨by rintro ⟨⟩, h.ending.noFlush.2⟩, fun _ hnil => ?_, by rintro ⟨⟩⟩⟩
    simp at hnil

theorem mem_waiting_put {q : BoundedQueue ModelWork} {work : ModelWork}
    (hq : q.items = st.session.inputQueue.items ++ [work]) (scheduled : Bool) (reader : Reader) :
    work ∈ (st.puts q scheduled reader).waiting fl := by
  change work ∈ (fl.map Flight.work).toList ++ q.items
  rw [hq]
  exact List.mem_append_right _ (List.mem_append_right _ List.mem_cons_self)

/-- A suspended put returns. -/
theorem Live.put (h : Live settings st fl) (hintake : Intake settings st)
    (hbacklog : Backlog st fl) {work : ModelWork} (hw : st.reader.work? = some work)
    {q : BoundedQueue ModelWork} (hq : st.session.inputQueue.putNowait work = some q)
    (scheduled : Bool) (m : Metrics) :
    Live settings (afterPut ((st.queued q).flagged scheduled) m).1 fl := by
  obtain ⟨-, hitems, hmax⟩ := BoundedQueue.putNowait_eq_some hq
  have hputs : ∀ reader, Ending (st.puts q scheduled reader) fl →
      Live settings (st.puts q scheduled reader) fl := fun reader hending =>
    ⟨⟨h.alive.cancelled, h.alive.ended⟩, h.running, h.outputBound, hmax.trans h.inputBound,
      h.audio, h.fresh, h.counted, hending⟩
  have hhop : ∀ hop reader, work = .ofSource hop → reader ≠ .finishingNoFlush →
      (reader = .finishingFlush → st.history.hops ≠ []) → reader.pastEnd = false →
      Ending (st.puts q scheduled reader) fl := by
    intro hop reader hwork hne hflush hpast
    refine ⟨⟨hne, fun w hmem => ?_⟩, ?_, fun hp => absurd (hpast.symm.trans hp) Bool.false_ne_true⟩
    · obtain hmem | rfl := mem_waiting_puts hitems scheduled reader hmem
      · exact h.ending.noFlush.2 w hmem
      · rw [hwork]
        rfl
    · rintro (hreader | ⟨w, hmem, hf⟩)
      · exact hflush hreader
      · obtain hmem | rfl := mem_waiting_puts hitems scheduled reader hmem
        · exact h.ending.hops (.inr ⟨w, hmem, hf⟩)
        · rw [hwork] at hf
          cases hf
  have hreturned := afterPut_put hw q scheduled m
  generalize afterPut ((st.queued q).flagged scheduled) m = next at hreturned ⊢
  have hmem : ∀ hop, st.reader = .finishingPartial hop → hop ∈ st.history.hops := by
    intro hop hr
    obtain ⟨before, after, last, hworking⟩ := hbacklog.working h.alive.cancelled h.alive.ended
    rw [hworking.hops, hr]
    exact List.mem_append_right _ List.mem_cons_self
  cases hreturned with
  | hop hop rest _ =>
      obtain ⟨hnoFlush, hflush, hpast⟩ := ofHops_open rest
      exact hputs (.ofHops rest) (hhop hop _ rfl hnoFlush
        (fun hreader => absurd hreader hflush) hpast)
  | nothing hop hr hzero =>
      exact absurd hzero (hintake.samples_pos h.alive.cancelled (hmem hop hr))
  | remainder hop hr _ =>
      exact hputs .finishingFlush (hhop hop _ rfl nofun
        (fun _ => List.ne_nil_of_mem (hmem hop hr)) rfl)
  | flush hr =>
      have hhops := h.ending.hops (.inl hr)
      refine hputs (.reading true) ⟨⟨nofun, fun w hmem => ?_⟩, fun _ => hhops, fun _ => ?_⟩
      · obtain hmem | rfl := mem_waiting_puts hitems scheduled _ hmem
        · exact h.ending.noFlush.2 w hmem
        · rfl
      · exact ⟨.flush, mem_waiting_put hitems scheduled _, rfl⟩
  | noFlush hr => exact absurd hr h.ending.noFlush.1

/-! ## The generator -/

theorem Live.not_stopped (h : Live settings st fl) :
    ¬ (st.enhance = .ended ∨ ∃ failure, st.enhance = .aborting failure) := by
  have hrun := h.running
  rintro (he | ⟨failure, he⟩)
  · rw [he] at hrun
    cases hrun
  · rw [he] at hrun
    cases hrun

/-- Only audio is taken from the queue of a live stream. -/
theorem Live.next_audio (h : Live settings st fl) {event : OutputEvent}
    {q : BoundedQueue OutputEvent} (hget : st.session.outputQueue.getNowait = some (event, q)) :
    ∃ audio, event = .audio audio :=
  h.audio event (by rw [(BoundedQueue.getNowait_eq_some hget).1]; exact List.mem_cons_self)

theorem Live.handle (h : Live settings st fl) {event : OutputEvent} {q : BoundedQueue OutputEvent}
    {m m' : Metrics} (hget : st.session.outputQueue.getNowait = some (event, q))
    (hh : handleEvent event (st.withOutput q) m = (some st', m')) : Live settings st' fl := by
  obtain ⟨hitems, hmax⟩ := BoundedQueue.getNowait_eq_some hget
  obtain ⟨audio, rfl⟩ := h.next_audio hget
  simp only [handleEvent, Prod.mk.injEq, Option.map_eq_some_iff] at hh
  obtain ⟨⟨message, -, rfl⟩, -⟩ := hh
  refine ⟨⟨h.alive.cancelled, h.alive.ended⟩, rfl, hmax.trans h.outputBound, h.inputBound,
    fun event hmem => h.audio event ?_, fun hzero => ?_, h.counted,
    ⟨h.ending.noFlush, h.ending.hops, h.ending.flush⟩⟩
  · rw [hitems]
    exact List.mem_cons_of_mem _ hmem
  · have hnil := h.fresh hzero
    rw [hitems] at hnil
    cases hnil

/-- The generator of a live stream cannot send its next event. -/
theorem Live.handleRaise (h : Live settings st fl) {event : OutputEvent}
    {q : BoundedQueue OutputEvent} {m m' : Metrics} (he : st.enhance = .waiting)
    (hget : st.session.outputQueue.getNowait = some (event, q))
    (hh : handleEvent event (st.withOutput q) m = (none, m')) :
    Raised st (finallyBlock (st.withOutput q) m').1 := by
  obtain ⟨audio, rfl⟩ := h.next_audio hget
  simp only [handleEvent, Prod.mk.injEq, Option.map_eq_none_iff] at hh
  exact .intro audio q m' he hget hh.1

/-! ## The scheduler -/

theorem Live.flagged (h : Live settings st fl) (scheduled : Bool) :
    Live settings (st.flagged scheduled) fl :=
  ⟨⟨h.alive.cancelled, h.alive.ended⟩, h.running, h.outputBound, h.inputBound, h.audio, h.fresh,
    h.counted, ⟨h.ending.noFlush, h.ending.hops, h.ending.flush⟩⟩

/-- What a live stream has waiting does not end it without a flush. -/
theorem Live.not_noFlush (h : Live settings st none) {work : ModelWork}
    {q : BoundedQueue ModelWork} (hget : st.session.inputQueue.getNowait = some (work, q)) :
    work.terminalNoFlush = false := by
  refine h.ending.noFlush.2 work ?_
  change work ∈ st.session.inputQueue.items
  rw [(BoundedQueue.getNowait_eq_some hget).1]
  exact List.mem_cons_self

theorem Live.take (h : Live settings st none) {work : Option ModelWork} (ht : Taken st st' work)
    (i : Nat) : Live settings st' (work.map fun work => ⟨i, work, st'.session.caches⟩) := by
  cases ht with
  | dead hdead => simp [h.alive.cancelled, h.alive.ended] at hdead
  | idle _ _ => exact h.flagged false
  | ends work inputQueue m _ hget hend =>
      exact absurd ((h.not_noFlush hget).symm.trans hend) Bool.false_ne_true
  | joins work inputQueue _ hget _ =>
      obtain ⟨hitems, hmax⟩ := BoundedQueue.getNowait_eq_some hget
      have hwaiting : ((st.flagged false).queued inputQueue).waiting
          (some ⟨i, work, st.session.caches⟩) = st.waiting none := by
        change work :: inputQueue.items = st.session.inputQueue.items
        rw [hitems]
      refine ⟨⟨h.alive.cancelled, h.alive.ended⟩, h.running, h.outputBound,
        hmax.trans h.inputBound, h.audio, h.fresh, h.counted, ⟨⟨h.ending.noFlush.1, ?_⟩, ?_, ?_⟩⟩
      · exact hwaiting ▸ h.ending.noFlush.2
      · exact hwaiting ▸ h.ending.hops
      · exact hwaiting ▸ h.ending.flush

/-- A hop of a live stream comes back and leaves at most its audio behind. -/
theorem Live.advance {flight : Flight κ} (h : Live settings st (some flight))
    (hintake : Intake settings st) (hbacklog : Backlog st (some flight))
    (hsamples : st.session.inputSamples ≠ 0) (st' : Stream κ)
    (hscheduler : st'.session.inputQueue = st.session.inputQueue)
    (hreader : st'.readerSide = st.readerSide) (halive : st'.Alive)
    (hrun : st'.enhance.running = true)
    (hbound : st'.session.outputQueue.maxsize = st.session.outputQueue.maxsize)
    (haudio : ∀ event ∈ st'.session.outputQueue.items, ∃ audio, event = .audio audio)
    (hdrained : st.session.outputQueue.items = [])
    (hemitted : ∀ audio ∈ st'.history.emitted.dropLast, audio ∈ st.history.emitted)
    (hfull : flight.work = .flush → st'.session.outputQueue.items.length = 1) (m : Metrics) :
    Live settings (finishHop flight.work st' m).1.1 none ∨
      Left settings st (finishHop flight.work st' m).1.1 := by
  obtain ⟨before, after, last, hw⟩ := hbacklog.working h.alive.cancelled h.alive.ended
  have hwaiting := hw.waiting
  rw [Option.map_some, Option.toList_some, List.singleton_append] at hwaiting
  have hqueue : ∀ work ∈ st'.waiting none, work ∈ st.waiting (some flight) := by
    intro work hmem
    change work ∈ st'.session.inputQueue.items at hmem
    rw [hscheduler] at hmem
    exact List.mem_cons_of_mem _ hmem
  have hhops : st'.history.hops = st.history.hops := congrArg ReaderSide.hops hreader
  have hr : st'.reader = st.reader := congrArg ReaderSide.reader hreader
  have hinput : st'.session.inputSamples = st.session.inputSamples :=
    congrArg ReaderSide.inputSamples hreader
  obtain ⟨hop, after', -, hwork, -⟩ | ⟨-, rfl, hwork, -⟩ | ⟨-, -, hwork, -⟩ :=
    waiting_cases hwaiting
  · left
    rw [finishHop, if_neg (by rw [hwork]; rintro ⟨⟩)]
    refine ⟨halive, hrun, hbound.trans h.outputBound, ?_, haudio, ?_, ?_, ⟨⟨?_, ?_⟩, ?_, ?_⟩⟩
    · rw [hscheduler, h.inputBound]
    · exact fun hzero => absurd (hinput.symm.trans hzero) hsamples
    · exact fun _ hzero => hsamples (hinput.symm.trans hzero)
    · rw [hr]
      exact h.ending.noFlush.1
    · exact fun work hmem => h.ending.noFlush.2 work (hqueue work hmem)
    · rw [hr, hhops]
      intro hend
      refine h.ending.hops (hend.imp_right ?_)
      rintro ⟨work, hmem, hf⟩
      exact ⟨work, hqueue work hmem, hf⟩
    · rw [hr]
      intro hpast
      obtain ⟨work, hmem, hf⟩ := h.ending.flush hpast
      obtain rfl | hmem := List.mem_cons.mp hmem
      · rw [hwork] at hf
        cases hf
      · refine ⟨work, ?_, hf⟩
        change work ∈ st'.session.inputQueue.items
        rw [hscheduler]
        exact hmem
  · right
    have hpast : st'.reader.pastEnd = true := by
      rw [hr]
      exact hw.pastEnd (by simp)
    rw [finishHop, if_pos (by rw [hwork]; rfl)]
    have hlen := hfull hwork
    by_cases hb : 2 ≤ settings.outputHops
    · refine .completed (complete_completed st' halive.ended hrun haudio hpast ?_ m) (.inl hb)
        hdrained ?_
      · rw [hlen, hbound, h.outputBound]
        exact hb
      · change ∀ audio ∈ (complete true st' m).1.history.emitted.dropLast, _
        rw [complete_emitted]
        exact hemitted
    · have hne : ¬ (st'.session.ended = true) := by simp [halive.ended]
      have hputs : ∀ completion,
          st'.session.outputQueue.putNowait (.completion completion) = none := by
        intro completion
        rw [BoundedQueue.putNowait_eq_none, BoundedQueue.full_iff, hlen, hbound, h.outputBound]
        exact ⟨settings.outputHops_pos, by omega⟩
      refine .full (.inl ?_) ?_ (complete_stops true st' m) (by omega) ?_
      · simp only [complete, if_neg hne, hputs]
        exact List.mem_cons_self
      · have hsame : (complete true st' m).1.reader = st'.reader :=
          congrArg ReaderSide.reader (complete_readerSide true st' m)
        change (complete true st' m).1.reader.pastEnd = true
        rw [hsame, hpast]
      · exact hintake.accepted_ne_nil h.alive.cancelled hsamples
  · have hnoFlush := hw.flight flight rfl
    rw [hwork] at hnoFlush
    cases hnoFlush

/-- The result of a live stream's work item reaches it, with its output queue empty. -/
theorem Live.land {flight : Flight κ} (h : Live settings st (some flight))
    (hintake : Intake settings st) (hbacklog : Backlog st (some flight))
    (hdrained : st.session.outputQueue.items = []) {row : Option Bytes} {caches : Option κ}
    (hl : Landed flight.work row caches st st') :
    Live settings st' none ∨ Left settings st st' := by
  obtain ⟨before, after, last, hw⟩ := hbacklog.working h.alive.cancelled h.alive.ended
  have hbefore : before <+: st.history.hops := by
    rw [hw.hops, List.append_assoc]
    exact List.prefix_append _ _
  -- a delayed hop is one of the stream's hops
  have hdelayed : ∀ previous, st.session.pendingSource = some previous →
      st.session.inputSamples ≠ 0 := by
    intro previous hp
    rw [hw.pending] at hp
    exact hintake.samples_pos h.alive.cancelled (hbefore.subset (List.mem_of_getLast? hp))
  cases hl with
  | dead hdead => simp [h.alive.cancelled, h.alive.ended] at hdead
  | silent updated m _ _ hp =>
      have hnil : before = [] := List.getLast?_eq_none_iff.mp (hw.pending.symm.trans hp)
      have hwaiting := hw.waiting
      rw [Option.map_some, Option.toList_some, List.singleton_append] at hwaiting
      -- the flush never comes first
      have hwork : flight.work ≠ .flush := by
        intro hwork
        obtain ⟨hop, after', -, hhop, -⟩ | ⟨hafter, rfl, -, -⟩ | ⟨-, -, hno, -⟩ :=
          waiting_cases hwaiting
        · cases congrArg ModelWork.source (hwork.symm.trans hhop)
        · have hpast : st.reader.pastEnd = true := hw.pastEnd (by simp)
          refine h.ending.hops (.inr ⟨flight.work, by simp [Stream.waiting], by rw [hwork]; rfl⟩) ?_
          rw [hw.hops, hnil, hafter, Reader.hops_of_pastEnd hpast]
          rfl
        · cases congrArg ModelWork.terminalFlush (hwork.symm.trans hno)
      have hsamples : st.session.inputSamples ≠ 0 := by
        obtain ⟨hop, after', hafter, -, -⟩ | ⟨-, -, hflush, -⟩ | ⟨-, -, hno, -⟩ :=
          waiting_cases hwaiting
        · have hmem : hop ∈ st.history.hops := by
            rw [hw.hops, hafter]
            simp
          exact hintake.samples_pos h.alive.cancelled hmem
        · exact absurd hflush hwork
        · have hnoFlush := hw.flight flight rfl
          rw [hno] at hnoFlush
          cases hnoFlush
      exact h.advance hintake hbacklog hsamples (st.advances flight.work updated) rfl rfl
        ⟨h.alive.cancelled, h.alive.ended⟩ h.running rfl h.audio hdrained
        (fun _ hmem => List.mem_of_mem_dropLast hmem) (fun hflush => absurd hflush hwork) m
  | full updated previous bytes m _ _ _ _ hput =>
      obtain ⟨hpos, hfull⟩ := BoundedQueue.full_iff.mp (BoundedQueue.putNowait_eq_none.mp hput)
      rw [hdrained, List.length_nil] at hfull
      omega
  | emitted updated previous bytes outputQueue m _ _ hp _ hput =>
      obtain ⟨-, hitems, hmax⟩ := BoundedQueue.putNowait_eq_some hput
      rw [hdrained, List.nil_append] at hitems
      refine h.advance hintake hbacklog (hdelayed previous hp)
        ((st.advances flight.work updated).emits (.ofRow previous bytes) outputQueue) rfl rfl
        ⟨h.alive.cancelled, h.alive.ended⟩ h.running hmax (fun event hmem => ?_) hdrained
        (fun audio hmem => ?_) (fun _ => ?_) m
      · change event ∈ outputQueue.items at hmem
        rw [hitems, List.mem_singleton] at hmem
        exact ⟨_, hmem⟩
      · change audio ∈ (st.history.emitted ++ [_]).dropLast at hmem
        rwa [List.dropLast_concat] at hmem
      · change outputQueue.items.length = 1
        rw [hitems]
        rfl

/-! ## A prompt step -/

/-- A prompt step leaves a live stream alive, completes it, fails it, or ends its call. -/
theorem Live.round (h : Live settings st fl) (hintake : Intake settings st)
    (hbacklog : Backlog st fl) (hr : PromptRound settings i g e st fl st' fl') :
    Live settings st' fl' ∨ Left settings st st' ∨ Raised st st' := by
  cases hr with
  | elsewhere _ => exact .inl h
  | audio m hr hok =>
      left
      cases ha : acceptAudio settings _ st m with
      | mk stm result =>
          obtain ⟨st₁, m₁⟩ := stm
          rw [ha] at hok
          obtain rfl : result = .ok () := hok
          have hcounted := (hintake.received (.inr h.alive.cancelled)).settled.counted
          obtain ⟨hfits, hops, rechunker, rfl, -⟩ := acceptAudio_ok_cases hcounted ha
          exact h.accepts hfits.size hops rechunker
  | endStream m _ => exact (h.finishInput hintake m).imp_right .inl
  | eof hr =>
      left
      exact ⟨⟨h.alive.cancelled, h.alive.ended⟩, h.running, h.outputBound, h.inputBound, h.audio,
        h.fresh, h.counted, ⟨⟨nofun, h.ending.noFlush.2⟩,
          fun hend => h.ending.hops (.inr (hend.resolve_left nofun)),
          fun _ => h.ending.flush (by rw [hr]; rfl)⟩⟩
  | put scheduled m hw hq => exact .inl (h.put hintake hbacklog hw hq scheduled m)
  | afterAccepted m _ =>
      exact .inl ⟨⟨h.alive.cancelled, h.alive.ended⟩, rfl, h.outputBound, h.inputBound, h.audio,
        h.fresh, h.counted, ⟨h.ending.noFlush, h.ending.hops, h.ending.flush⟩⟩
  | afterAudio m _ =>
      exact .inl ⟨⟨h.alive.cancelled, h.alive.ended⟩, rfl, h.outputBound, h.inputBound, h.audio,
        h.fresh, h.counted, ⟨h.ending.noFlush, h.ending.hops, h.ending.flush⟩⟩
  | handle m m' _ hget hh => exact .inl (h.handle hget hh)
  | handleRaise m m' he hget hh => exact .inr (.inr (h.handleRaise he hget hh))
  | finish _ he => exact absurd he h.not_stopped
  | take m _ => exact .inl (h.take (takeWork_taken st m) i)
  | @apply _ _ _ flight row caches m scheduled hdrained hrow hcaches =>
      have hraised : (applyResult flight.work row caches st m).2 ≠ .raised :=
        applyResult_ne_raised hrow hcaches st m
      have hl := applyResult_landed hraised
      obtain hlive | hleft := h.land hintake hbacklog hdrained hl
      · exact .inl (hlive.flagged scheduled)
      · refine .inr (.inl ?_)
        cases hleft with
        | completed hc hwhen hempty hemitted =>
            exact .completed ⟨hc.ended, hc.flushed, hc.pastEnd, hc.running, hc.noFailure⟩ hwhen
              hempty hemitted
        | full hfull hpast hstops hbound haudio => exact .full hfull hpast hstops hbound haudio

end Live

/-! ## After the end -/

section Quiet

variable {settings : ServerSettings} {st st' : Stream κ} {fl fl' : Option (Flight κ)}
  {g : List Nat} {e : Event κ} {i : Nat}

/-- A stream that has ended, or never began. -/
structure Over (st : Stream κ) (fl : Option (Flight κ)) : Prop where
  pastEnd : st.reader.pastEnd = true
  idle : (st.session.cancelled || st.session.ended) = true ∨
    (st.session.inputQueue.items = [] ∧ fl = none)

/-- A stream that has ended without a failure, or was refused. -/
structure Quiet (st : Stream κ) (fl : Option (Flight κ)) : Prop extends Over st fl where
  noFailure : ∀ failure, .failure failure ∉ st.session.outputQueue.items
  running : st.enhance ≠ .aborting fullOutputQueue

/-- A stream whose call is over, or is about to be, without a completion. -/
structure Shut (st : Stream κ) (fl : Option (Flight κ)) : Prop extends Quiet st fl where
  stopped : st.enhance = .finished ∨ ∃ failure, st.enhance = .aborting failure
  drained : st.session.outputQueue.items = []
  unended : st.session.ended = false

theorem Quiet.not_full (h : Quiet st fl) : ¬ st.Full := by
  rintro (hfull | hfull)
  · exact h.noFailure _ hfull
  · exact h.running hfull

theorem Live.not_full (h : Live settings st fl) : ¬ st.Full := by
  rintro (hfull | hfull)
  · obtain ⟨audio, haudio⟩ := h.audio _ hfull
    cases haudio
  · have hrun := h.running
    rw [hfull] at hrun
    cases hrun

theorem Completed.over (h : Completed st) : Over st fl where
  pastEnd := h.pastEnd
  idle := .inl (by rw [h.ended, Bool.or_true])

theorem Left.over (h : Left settings st st') : Over st' fl := by
  cases h with
  | completed h _ _ _ => exact h.over
  | full _ hpast hstops _ _ => exact ⟨hpast, .inl hstops⟩

theorem Completed.quiet (h : Completed st) : Quiet st fl where
  toOver := h.over
  noFailure := h.noFailure
  running hfull := by
    have hrun := h.running
    rw [hfull] at hrun
    cases hrun

/-- A live stream is not over: what ends it is still to come. -/
theorem Live.not_over (h : Live settings st fl) : ¬ Over st fl := by
  rintro ⟨hpast, hdead | ⟨hempty, rfl⟩⟩
  · simp [h.alive.cancelled, h.alive.ended] at hdead
  · obtain ⟨work, hmem, -⟩ := h.ending.flush hpast
    change work ∈ st.session.inputQueue.items at hmem
    rw [hempty] at hmem
    cases hmem

/-- A stream whose generator still runs has sent no completion, and a live one has none to
send. -/
theorem Live.not_flushed {capabilities : StreamAccepted} (h : Live settings st fl)
    (hlog : Log capabilities st) : ¬ st.Flushed := by
  rintro (⟨completion, hmem, -⟩ | ⟨ended, hmem, -⟩)
  · obtain ⟨audio, haudio⟩ := h.audio _ hmem
    cases haudio
  · obtain ⟨messages, hrunning⟩ := hlog.running h.running
    rw [hrunning.yielded] at hmem
    simp at hmem

theorem Shut.not_flushed {capabilities : StreamAccepted} (h : Shut st fl)
    (hlog : Log capabilities st) : ¬ st.Flushed := by
  rintro (⟨completion, hmem, -⟩ | ⟨ended, hmem, -⟩)
  · rw [h.drained] at hmem
    cases hmem
  · cases hlog.transcript with
    | nothing hy =>
        rw [hy] at hmem
        cases hmem
    | running messages _ hy =>
        rw [hy] at hmem
        simp at hmem
    | ended _ _ _ _ _ hended => exact nomatch hended.symm.trans h.unended

theorem Raised.shut (h : Raised st st') (hunended : st.session.ended = false) : Shut st' fl := by
  cases h with
  | intro audio q m _ _ _ =>
      exact ⟨⟨⟨rfl, .inl rfl⟩, fun _ hmem => absurd hmem List.not_mem_nil, by rintro ⟨⟩⟩, .inl rfl,
        rfl, hunended⟩

/-- A reader past the end stays there. -/
theorem PromptRound.pastEnd (hr : PromptRound settings i g e st fl st' fl')
    (h : st.reader.pastEnd = true) : st'.reader.pastEnd = true := by
  cases hr with
  | elsewhere _ => exact h
  | audio m hr _ =>
      rw [hr] at h
      cases h
  | endStream m hr =>
      rw [hr] at h
      cases h
  | eof _ => rfl
  | put scheduled m hw _ => cases (Reader.work?_of_pastEnd h).symm.trans hw
  | afterAccepted _ _ => exact h
  | afterAudio _ _ => exact h
  | handle m m' _ _ hh =>
      have hreader : st'.reader = st.reader := (handleEvent_offGenerator hh).reader
      rw [hreader]
      exact h
  | handleRaise _ _ _ _ _ => rfl
  | finish _ _ => rfl
  | take m _ =>
      rw [(takeWork_offScheduler st m).reader]
      exact h
  | @apply _ _ _ flight row caches m scheduled =>
      have hreader : ((applyResult flight.work row caches st m).1.1.flagged scheduled).reader =
        st.reader := (applyResult_offScheduler flight.work row caches st m).reader
      rw [hreader]
      exact h

/-- Nothing is taken from a stream that is over. -/
theorem Over.taken (h : Over st none) (m : Metrics) :
    (takeWork st m).1.1 = st.flagged false ∧ (takeWork st m).2 = none := by
  have htaken := takeWork_taken st m
  generalize (takeWork st m).1.1 = st₁ at htaken ⊢
  generalize (takeWork st m).2 = work at htaken ⊢
  -- a live stream here has an empty queue
  have hempty : (st.session.cancelled || st.session.ended) = false →
      st.session.inputQueue.items = [] := fun halive =>
    (h.idle.resolve_left fun hdead => by rw [halive] at hdead; cases hdead).1
  cases htaken with
  | dead _ => exact ⟨rfl, rfl⟩
  | idle _ _ => exact ⟨rfl, rfl⟩
  | ends work inputQueue m halive hget _ =>
      obtain ⟨hitems, -⟩ := BoundedQueue.getNowait_eq_some hget
      rw [hempty halive] at hitems
      cases hitems
  | joins work inputQueue halive hget _ =>
      obtain ⟨hitems, -⟩ := BoundedQueue.getNowait_eq_some hget
      rw [hempty halive] at hitems
      cases hitems

/-- A result that comes too late changes nothing. -/
theorem Over.applied {flight : Flight κ} (h : Over st (some flight)) (row : Option Bytes)
    (caches : Option κ) (m : Metrics) :
    (st.session.cancelled || st.session.ended) = true ∧
      (applyResult flight.work row caches st m).1.1 = st := by
  have hdead : (st.session.cancelled || st.session.ended) = true :=
    h.idle.resolve_right fun hidle => by cases hidle.2
  refine ⟨hdead, ?_⟩
  unfold applyResult
  rw [if_pos hdead]

/-- What a prompt step does to a stream that is over: its reader and its work are done, and only
the generator goes on. -/
inductive OverRound (st : Stream κ) (fl : Option (Flight κ)) :
    Stream κ → Option (Flight κ) → Prop where
  | elsewhere : OverRound st fl st fl
  | eof : OverRound st fl { st with reader := .done } fl
  | afterAccepted (m) (he : st.enhance = .accepted) :
      OverRound st fl (Server.afterAccepted st m).1 fl
  | afterAudio (m) (he : st.enhance = .audio) : OverRound st fl (Server.afterAudio st m).1 fl
  | handle {event q st'} (m m') (he : st.enhance = .waiting)
      (hget : st.session.outputQueue.getNowait = some (event, q))
      (hh : handleEvent event (st.withOutput q) m = (some st', m')) : OverRound st fl st' fl
  | finish (q m) : OverRound st fl (finallyBlock (st.withOutput q) m).1 fl
  | flagged (scheduled) (hidle : (st.session.cancelled || st.session.ended) = true ∨
      st.session.inputQueue.items = []) : OverRound st fl (st.flagged scheduled) none

theorem Over.step (h : Over st fl) (hr : PromptRound settings i g e st fl st' fl') :
    OverRound st fl st' fl' := by
  cases hr with
  | elsewhere _ => exact .elsewhere
  | audio m hr _ =>
      have hp := h.pastEnd
      rw [hr] at hp
      cases hp
  | endStream m hr =>
      have hp := h.pastEnd
      rw [hr] at hp
      cases hp
  | eof _ => exact .eof
  | put scheduled m hw _ => cases (Reader.work?_of_pastEnd h.pastEnd).symm.trans hw
  | afterAccepted m he => exact .afterAccepted m he
  | afterAudio m he => exact .afterAudio m he
  | handle m m' he hget hh => exact .handle m m' he hget hh
  | handleRaise m m' _ _ _ => exact .finish _ m'
  | finish m _ => exact .finish st.session.outputQueue m
  | take m _ =>
      obtain ⟨hstream, hwork⟩ := h.taken m
      rw [hstream, hwork]
      exact .flagged false (h.idle.imp_right And.left)
  | @apply _ _ _ flight row caches m scheduled =>
      obtain ⟨hdead, hstream⟩ := h.applied row caches m
      rw [hstream]
      exact .flagged scheduled (.inl hdead)

/-- What is over stays so. -/
theorem Over.round (h : Over st fl) (hr : PromptRound settings i g e st fl st' fl') :
    Over st' fl' := by
  cases h.step hr with
  | elsewhere => exact h
  | eof => exact ⟨rfl, h.idle⟩
  | afterAccepted _ _ => exact ⟨h.pastEnd, h.idle⟩
  | afterAudio _ _ => exact ⟨h.pastEnd, h.idle⟩
  | handle m m' _ _ hh =>
      have hoff := handleEvent_offGenerator hh
      have hreader : st'.reader = st.reader := hoff.reader
      have hqueue : st'.session.inputQueue = st.session.inputQueue :=
        congrArg SchedulerSide.inputQueue hoff.schedulerSide
      have hcancelled : st'.session.cancelled = st.session.cancelled := hoff.cancelled
      have hended : st'.session.ended = st.session.ended := hoff.ended
      refine ⟨hreader ▸ h.pastEnd, ?_⟩
      rw [hcancelled, hended, hqueue]
      exact h.idle
  | finish _ _ => exact ⟨rfl, .inl rfl⟩
  | flagged _ hidle => exact ⟨h.pastEnd, hidle.imp_right fun hempty => ⟨hempty, rfl⟩⟩

/-- A prompt step does not disturb a stream that has ended well. -/
theorem Quiet.round (h : Quiet st fl) (hr : PromptRound settings i g e st fl st' fl') :
    Quiet st' fl' := by
  have hover := h.toOver.round hr
  cases h.toOver.step hr with
  | elsewhere => exact h
  | eof => exact ⟨hover, h.noFailure, h.running⟩
  | afterAccepted _ _ => exact ⟨hover, h.noFailure, by rintro ⟨⟩⟩
  | afterAudio _ _ => exact ⟨hover, h.noFailure, by rintro ⟨⟩⟩
  | @handle event q _ m m' _ hget hh =>
      obtain ⟨hitems, -⟩ := BoundedQueue.getNowait_eq_some hget
      have hrest : ∀ failure, .failure failure ∉ q.items := fun failure hmem =>
        h.noFailure failure (by rw [hitems]; exact List.mem_cons_of_mem _ hmem)
      cases event with
      | failure failure =>
          exact absurd (by rw [hitems]; exact List.mem_cons_self) (h.noFailure failure)
      | audio audio =>
          simp only [handleEvent, Prod.mk.injEq, Option.map_eq_some_iff] at hh
          obtain ⟨⟨message, -, rfl⟩, -⟩ := hh
          exact ⟨hover, hrest, by rintro ⟨⟩⟩
      | completion completion =>
          simp only [handleEvent, Prod.mk.injEq, Option.map_eq_some_iff] at hh
          obtain ⟨⟨message, -, rfl⟩, -⟩ := hh
          exact ⟨hover, hrest, by rintro ⟨⟩⟩
  | finish _ _ => exact ⟨hover, fun _ hmem => absurd hmem List.not_mem_nil, by rintro ⟨⟩⟩
  | flagged _ _ => exact ⟨hover, h.noFailure, h.running⟩

/-- A call that is over sends nothing any more. -/
theorem Shut.round (h : Shut st fl) (hr : PromptRound settings i g e st fl st' fl') :
    Shut st' fl' := by
  have hquiet := h.toQuiet.round hr
  have hne : st.enhance ≠ .accepted ∧ st.enhance ≠ .audio ∧ st.enhance ≠ .waiting := by
    obtain hstopped | ⟨failure, hstopped⟩ := h.stopped
    · rw [hstopped]
      refine ⟨?_, ?_, ?_⟩ <;> rintro ⟨⟩
    · rw [hstopped]
      refine ⟨?_, ?_, ?_⟩ <;> rintro ⟨⟩
  cases h.toOver.step hr with
  | elsewhere => exact h
  | eof => exact ⟨hquiet, h.stopped, h.drained, h.unended⟩
  | afterAccepted _ he => exact absurd he hne.1
  | afterAudio _ he => exact absurd he hne.2.1
  | handle _ _ he _ _ => exact absurd he hne.2.2
  | finish _ _ => exact ⟨hquiet, .inl rfl, rfl, h.unended⟩
  | flagged _ _ => exact ⟨hquiet, h.stopped, h.drained, h.unended⟩

end Quiet

/-! ## What is left to do -/

section Remaining

variable {settings : ServerSettings} {st st' : Stream κ} {fl fl' : Option (Flight κ)}
  {g : List Nat} {e : Event κ} {i : Nat}

/-- The puts a reader has still to make once the client has ended its stream. -/
def Reader.puts : Reader → Nat
  | .finishingPartial _ => 2
  | .finishingFlush => 1
  | _ => 0

/-- What is left to do for an ended stream: a put is worth more than the item in the queue, and
this more than the item in inference. -/
def Stream.remaining (st : Stream κ) (fl : Option (Flight κ)) : Nat :=
  3 * st.reader.puts + 2 * st.session.inputQueue.items.length + if fl.isSome then 1 else 0

/-- The client has ended its stream. -/
def Reader.finishing (reader : Reader) : Bool := reader.flushing || reader.pastEnd

/-- The event brings the stream closer to its end. -/
def Event.Advances (i : Nat) (g : List Nat) (st : Stream κ) (fl : Option (Flight κ)) :
    Event κ → Prop
  | .put j => j = i
  | .dispatch => i ∈ g ∧ st.session.inputQueue.items ≠ []
  | .inferenceReturned _ _ => fl.isSome = true
  | _ => False

/-- Once the client has ended its stream, every step that leaves it live leaves less to do or as
much. -/
theorem Live.remaining (h : Live settings st fl) (hr : PromptRound settings i g e st fl st' fl')
    (hlive : Live settings st' fl') (hfinishing : st.reader.finishing = true) :
    st'.reader.finishing = true ∧ st'.remaining fl' ≤ st.remaining fl ∧
      (e.Advances i g st fl → st'.remaining fl' < st.remaining fl) ∧
      ((e = .dispatch → i ∉ g) → st.session.inputQueue.items ≠ [] →
        st'.session.inputQueue.items ≠ []) := by
  cases hr with
  | elsewhere hnot =>
      refine ⟨hfinishing, le_refl _, fun hadv => absurd ?_ hnot, fun _ => id⟩
      cases e <;> simp_all [Event.Advances, Event.Concerns]
  | audio m hr _ =>
      rw [hr] at hfinishing
      cases hfinishing
  | endStream m hr =>
      rw [hr] at hfinishing
      cases hfinishing
  | eof hr =>
      refine ⟨rfl, ?_, False.elim, fun _ => id⟩
      simp [Stream.remaining, hr, Reader.puts]
  | @put _ _ work q scheduled m hw hq =>
      obtain ⟨-, hitems, -⟩ := BoundedQueue.putNowait_eq_some hq
      have hputs : ∀ reader : Reader, reader.finishing = true → reader.puts < st.reader.puts →
          ∀ st' : Stream κ, st'.reader = reader → st'.session.inputQueue = q →
          st'.reader.finishing = true ∧ st'.remaining fl < st.remaining fl ∧
            st'.session.inputQueue.items ≠ [] := by
        rintro _ hfin hlt st' rfl rfl
        refine ⟨hfin, ?_, by simp [hitems]⟩
        simp only [Stream.remaining, hitems, List.length_append, List.length_singleton]
        omega
      suffices hstep : (afterPut ((st.queued q).flagged scheduled) m).1.reader.finishing = true ∧
          (afterPut ((st.queued q).flagged scheduled) m).1.remaining fl < st.remaining fl ∧
          (afterPut ((st.queued q).flagged scheduled) m).1.session.inputQueue.items ≠ [] from
        ⟨hstep.1, hstep.2.1.le, fun _ => hstep.2.1, fun _ _ => hstep.2.2⟩
      have hreturned := afterPut_put hw q scheduled m
      generalize afterPut ((st.queued q).flagged scheduled) m = next at hreturned ⊢
      cases hreturned with
      | hop hop rest hr =>
          rw [show st.reader = .accepting (hop :: rest) from hr] at hfinishing
          cases hfinishing
      | nothing hop hr _ =>
          have hreader : st.reader = .finishingPartial hop := hr
          refine hputs (.reading true) rfl (by simp [hreader, Reader.puts]) _ ?_ ?_
          · exact congrArg ReaderSide.reader (complete_readerSide true _ m)
          · exact congrArg SchedulerSide.inputQueue (complete_schedulerSide true _ m)
      | remainder hop hr _ =>
          have hreader : st.reader = .finishingPartial hop := hr
          exact hputs .finishingFlush rfl (by simp [hreader, Reader.puts]) _ rfl rfl
      | flush hr =>
          have hreader : st.reader = .finishingFlush := hr
          exact hputs (.reading true) rfl (by simp [hreader, Reader.puts]) _ rfl rfl
      | noFlush hr =>
          rw [show st.reader = .finishingNoFlush from hr] at hfinishing
          cases hfinishing
  | afterAccepted m _ => exact ⟨hfinishing, le_refl _, False.elim, fun _ => id⟩
  | afterAudio m _ => exact ⟨hfinishing, le_refl _, False.elim, fun _ => id⟩
  | handle m m' _ _ hh =>
      have hoff := handleEvent_offGenerator hh
      have hreader : st'.reader = st.reader := hoff.reader
      have hqueue : st'.session.inputQueue = st.session.inputQueue :=
        congrArg SchedulerSide.inputQueue hoff.schedulerSide
      rw [Stream.remaining, Stream.remaining, hreader, hqueue]
      exact ⟨hfinishing, le_refl _, False.elim, fun _ => id⟩
  | handleRaise m m' he hget hh =>
      exact absurd ((h.handleRaise he hget hh).shut h.alive.ended).toOver hlive.not_over
  | finish _ he => exact absurd he h.not_stopped
  | take m hg =>
      have htaken := takeWork_taken st m
      generalize (takeWork st m).1.1 = st₁ at htaken ⊢
      generalize (takeWork st m).2 = work at htaken ⊢
      cases htaken with
      | dead hdead => simp [h.alive.cancelled, h.alive.ended] at hdead
      | idle _ hempty =>
          exact ⟨hfinishing, le_refl _, fun hadv => absurd hempty hadv.2, fun _ => id⟩
      | ends work inputQueue m _ hget hend =>
          exact absurd ((h.not_noFlush hget).symm.trans hend) Bool.false_ne_true
      | joins work inputQueue _ hget _ =>
          obtain ⟨hitems, -⟩ := BoundedQueue.getNowait_eq_some hget
          have hless : ((st.flagged false).queued inputQueue).remaining
              (some ⟨i, work, st.session.caches⟩) < st.remaining none := by
            simp only [Stream.remaining, Stream.flagged, Stream.queued, hitems, List.length_cons,
              Option.isSome_some, Option.isSome_none, if_true, Bool.false_eq_true, if_false]
            omega
          exact ⟨hfinishing, hless.le, fun _ => hless, fun hnot => absurd hg (hnot rfl)⟩
  | @apply _ _ _ flight row caches m scheduled =>
      have hreader : (applyResult flight.work row caches st m).1.1.reader = st.reader :=
        (applyResult_offScheduler flight.work row caches st m).reader
      have hqueue := applyResult_inputQueue flight.work row caches st m
      have hless :
          ((applyResult flight.work row caches st m).1.1.flagged scheduled).remaining none <
            st.remaining (some flight) := by
        simp only [Stream.remaining, Stream.flagged, hreader, hqueue, Option.isSome_some,
          Option.isSome_none, if_true, Bool.false_eq_true, if_false]
        omega
      refine ⟨?_, hless.le, fun _ => hless, fun _ => ?_⟩
      · change (applyResult flight.work row caches st m).1.1.reader.finishing = true
        rw [hreader, hfinishing]
      · change _ → (applyResult flight.work row caches st m).1.1.session.inputQueue.items ≠ []
        rw [hqueue]
        exact id

end Remaining

end VoxLattice.Server
