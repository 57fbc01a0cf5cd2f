import VoxLattice.Server.Backlog
import VoxLattice.Server.Intake

/-!
# The input backlog

The samples a stream accepted and the scheduler has not taken are in three places: the input
queue, the rechunker, and the list of hops a suspended reader is putting.  The queue is bounded
by `max_pending_audio_ms_per_stream`.  A full queue does not keep the reader from accepting one
more chunk.  The chunk is bounded twice: by `max_audio_chunk_samples`, and by the rechunker,
which refuses a chunk that does not fit the bound of the queue together with what is left over
from the chunk before.
-/

namespace VoxLattice.Server

open Intervals

variable {κ : Type*}

/-- The samples of the client in a work item. -/
def ModelWork.sourceSamples (work : ModelWork) : Nat := work.source.elim 0 SourceHop.validSamples

/-- The samples that were accepted and not yet taken by the scheduler. -/
def Stream.inputBacklog (st : Stream κ) : Nat :=
  total ModelWork.sourceSamples st.session.inputQueue.items +
    (st.session.rechunker.pendingSamples + total SourceHop.validSamples st.reader.hops)

/-- What the reader may hold besides the queue: a chunk, and what was left over before it. -/
def ServerSettings.chunkRoom (settings : ServerSettings) : Nat :=
  min (settings.queueHops * hopSamples) (hopSamples - 1 + settings.maxAudioChunkSamples)

/-- No hop is longer than the model's, and what the reader holds is part of one chunk. -/
structure Held (settings : ServerSettings) (st : Stream κ) : Prop where
  maxsize : st.session.inputQueue.maxsize = settings.queueHops
  queued : ∀ work ∈ st.session.inputQueue.items, work.sourceSamples ≤ hopSamples
  hops : ∀ hop ∈ st.reader.hops, hop.validSamples ≤ hopSamples
  room : st.session.rechunker.pendingSamples + total SourceHop.validSamples st.reader.hops ≤
    settings.chunkRoom

/-- No list of items is longer than its length allows. -/
theorem total_le {α : Type*} {len : α → Nat} {n : Nat} {l : List α} (h : ∀ a ∈ l, len a ≤ n) :
    total len l ≤ l.length * n := by
  induction l with
  | nil => simp
  | cons a rest ih =>
      have hrest := ih fun b hb => h b (List.mem_cons_of_mem _ hb)
      have hhead := h a List.mem_cons_self
      rw [total_cons, List.length_cons, Nat.succ_mul]
      omega

section Held

variable {settings : ServerSettings} {st st' : Stream κ}

/-- The queue holds no more than the setting says. -/
theorem Held.backlog_le (h : Held settings st) :
    st.inputBacklog ≤ settings.queueHops * hopSamples + settings.chunkRoom := by
  have hqueue := total_le h.queued
  have hlength := st.session.inputQueue.bounded (h.maxsize ▸ settings.queueHops_pos)
  rw [h.maxsize] at hlength
  have hroom := h.room
  have hmul := Nat.mul_le_mul_right hopSamples hlength
  unfold Stream.inputBacklog
  omega

/-- A change of the scheduler or the generator. -/
theorem Held.frame (h : Held settings st) (hside : st'.readerSide = st.readerSide)
    (hmax : st'.session.inputQueue.maxsize = st.session.inputQueue.maxsize)
    (hsub : st'.session.inputQueue.items ⊆ st.session.inputQueue.items) : Held settings st' := by
  have hreader : st'.reader = st.reader := congrArg ReaderSide.reader hside
  have hrechunker : st'.session.rechunker = st.session.rechunker :=
    congrArg ReaderSide.rechunker hside
  exact ⟨hmax.trans h.maxsize, fun work hwork => h.queued work (hsub hwork), hreader ▸ h.hops,
    hrechunker ▸ hreader ▸ h.room⟩

/-- A change of the reader that leaves the input queue alone. -/
theorem Held.reader (h : Held settings st)
    (hq : st'.session.inputQueue = st.session.inputQueue)
    (hops : ∀ hop ∈ st'.reader.hops, hop.validSamples ≤ hopSamples)
    (hroom : st'.session.rechunker.pendingSamples +
      total SourceHop.validSamples st'.reader.hops ≤ settings.chunkRoom) :
    Held settings st' :=
  ⟨hq ▸ h.maxsize, hq ▸ h.queued, hops, hroom⟩

/-- The reader stops, or waits with nothing to put. -/
theorem Held.idle (h : Held settings st)
    (hq : st'.session.inputQueue = st.session.inputQueue)
    (hrechunker : st'.session.rechunker = st.session.rechunker)
    (hreader : st'.reader.hops = []) : Held settings st' := by
  refine h.reader hq (by simp [hreader]) ?_
  have hroom := h.room
  rw [hrechunker, hreader, total_nil]
  omega

theorem Held.failReader (h : Held settings st) (failure : ProtocolViolation) (m : Metrics) :
    Held settings (failReader failure st m).1 := h.idle rfl rfl rfl

theorem Held.complete (h : Held settings st) (flushed : Bool) (m : Metrics) :
    Held settings (complete flushed st m).1 := by
  have hq : (Server.complete flushed st m).1.session.inputQueue = st.session.inputQueue :=
    congrArg SchedulerSide.inputQueue (complete_schedulerSide flushed st m)
  exact h.frame (complete_readerSide flushed st m) (by rw [hq])
    (by rw [hq]; exact List.Subset.refl _)

theorem Held.finishInput (h : Held settings st) (hr : st.reader = .reading false)
    (hintake : Intake settings st) (flush : Bool) (m : Metrics) :
    Held settings (finishInput flush st m).1 := by
  have hsettled : st.session.rechunker.Settled := (hintake.received (.inl (by simp [hr]))).settled
  have hfinished := finishInput_finished flush st m
  generalize (Server.finishInput flush st m).1 = st' at hfinished ⊢
  cases hfinished with
  | noFlush _ => exact h.idle rfl rfl rfl
  | failed failure m' => exact h.failReader failure m'
  | hop hop rechunker _ hp =>
      rcases PCMRechunker.flushPartial_ok hsettled with
        ⟨-, heq⟩ | ⟨hop', r', -, heq, -, hvalid, -, -, hzero, -, -⟩
      · rw [hp] at heq
        cases heq
      · rw [hp] at heq
        cases heq
        have hresidue := hsettled.residue
        have hroom := h.room
        refine h.reader rfl ?_ ?_
        · intro hop'' hmem
          obtain rfl := List.mem_singleton.mp hmem
          omega
        · simp only [Stream.flushesHop, Reader.hops, total_cons, total_nil]
          omega
  | nothing rechunker m' _ hp _ =>
      rcases PCMRechunker.flushPartial_ok hsettled with ⟨-, heq⟩ | ⟨hop', r', -, heq, -⟩
      · rw [hp] at heq
        cases heq
        have hflushed : Held settings (st.flushes st.session.rechunker (.reading true)) :=
          h.idle rfl rfl rfl
        exact hflushed.complete true m'
      · rw [hp] at heq
        cases heq
  | flush rechunker _ hp _ =>
      rcases PCMRechunker.flushPartial_ok hsettled with ⟨-, heq⟩ | ⟨hop', r', -, heq, -⟩
      · rw [hp] at heq
        cases heq
        exact h.idle rfl rfl rfl
      · rw [hp] at heq
        cases heq

/-- An accepted chunk fits the rechunker together with what was left over. -/
theorem Held.accepts (h : Held settings st) (hr : st.reader = .reading false)
    (hintake : Intake settings st) {chunk : AudioChunk} {m m' : Metrics}
    (ha : acceptAudio settings chunk st m = ((st', m'), .ok ())) : Held settings st' := by
  have hrec := hintake.received (.inl (by simp [hr]))
  have hcounted : st.session.rechunker.Counted := hrec.settled.counted
  have hbound : st.session.rechunker.maxPendingSamples = settings.queueHops * hopSamples :=
    hrec.bound
  have hresidue : st.session.rechunker.pendingSamples < hopSamples := hrec.settled.residue
  obtain ⟨hfits, hfit⟩ := (acceptAudio_ok_iff hcounted m).mp (by rw [ha])
  have hlimit := hfits.limit
  obtain ⟨-, hops, rechunker, rfl, hd⟩ := acceptAudio_ok_cases hcounted ha
  have hpending := hd.pending
  have hhops : (Reader.ofHops hops).hops = hops := ofHops_hops hops
  refine h.reader rfl ?_ ?_
  · intro hop hmem
    exact (hd.full hop (hhops ▸ hmem)).le
  · simp only [Stream.accepts, hhops, ServerSettings.chunkRoom]
    dsimp only at hpending
    omega

/-- A chunk that is refused does not reach the rechunker. -/
theorem acceptAudio_error_rechunker {chunk : AudioChunk} {m m' : Metrics}
    {violation : ProtocolViolation}
    (h : acceptAudio settings chunk st m = ((st', m'), .error violation)) :
    st'.session.rechunker = st.session.rechunker := by
  unfold acceptAudio at h
  split at h
  · cases h
    rfl
  · dsimp only at h
    split at h
    · cases h
      rfl
    · cases h

theorem Held.readMessage (h : Held settings st) (hintake : Intake settings st) {sawEnd : Bool}
    (hr : st.reader = .reading sawEnd) (message : ClientMessage) (m : Metrics) :
    Held settings (readMessage settings sawEnd message st m).1 := by
  have hread := readMessage_read settings sawEnd message st m
  generalize Server.readMessage settings sawEnd message st m = next at hread ⊢
  cases hread with
  | afterEnd _ => exact h.failReader _ m
  | duplicateStart _ => exact h.failReader _ m
  | empty => exact h.failReader _ m
  | accepted chunk st' m' ha => exact h.accepts hr hintake ha
  | refused chunk st' m' violation ha =>
      have hoff := acceptAudio_offReader settings chunk st m
      have hrechunker := acceptAudio_error_rechunker ha
      rw [ha] at hoff
      exact h.idle hoff.inputQueue hrechunker rfl
  | ended flush => exact h.finishInput hr hintake flush m

theorem Held.readEof (h : Held settings st) {sawEnd : Bool} (m : Metrics) :
    Held settings (readEof sawEnd st m).1 := by
  unfold Server.readEof
  split
  · exact h.idle rfl rfl rfl
  · exact h.failReader _ m

/-- The reader has put a work item and goes on to the next one, or fails. -/
theorem Held.put (h : Held settings st) {work : ModelWork} {q : BoundedQueue ModelWork}
    (hw : st.reader.work? = some work) (hq : st.session.inputQueue.putNowait work = some q)
    (scheduled : Bool) :
    Held settings ((st.queued q).flagged scheduled) ∧
      ∀ m, Held settings (afterPut ((st.queued q).flagged scheduled) m).1 := by
  obtain ⟨-, hitems, hmax⟩ := BoundedQueue.putNowait_eq_some hq
  have hwork : work.sourceSamples ≤ hopSamples := by
    cases hr : st.reader with
    | accepting hops =>
        cases hops with
        | nil => simp [hr, Reader.work?] at hw
        | cons hop rest =>
            simp only [hr, Reader.work?, Option.some.injEq] at hw
            subst hw
            exact h.hops hop (by simp [hr, Reader.hops])
    | finishingPartial hop =>
        simp only [hr, Reader.work?, Option.some.injEq] at hw
        subst hw
        exact h.hops hop (by simp [hr, Reader.hops])
    | finishingFlush =>
        simp only [hr, Reader.work?, Option.some.injEq] at hw
        subst hw
        exact Nat.zero_le _
    | finishingNoFlush =>
        simp only [hr, Reader.work?, Option.some.injEq] at hw
        subst hw
        exact Nat.zero_le _
    | reading _ => simp [hr, Reader.work?] at hw
    | done => simp [hr, Reader.work?] at hw
  have hput : Held settings ((st.queued q).flagged scheduled) := by
    refine ⟨hmax.trans h.maxsize, fun work' hmem => ?_, h.hops, h.room⟩
    change work' ∈ q.items at hmem
    rw [hitems, List.mem_append, List.mem_singleton] at hmem
    rcases hmem with hmem | rfl
    · exact h.queued work' hmem
    · exact hwork
  refine ⟨hput, fun m => ?_⟩
  have hroom := h.room
  have hreturned := afterPut_put hw q scheduled m
  generalize afterPut ((st.queued q).flagged scheduled) m = next at hreturned ⊢
  cases hreturned with
  | hop hop rest hr =>
      have hreader : st.reader = .accepting (hop :: rest) := hr
      refine hput.reader rfl ?_ ?_
      · intro hop' hmem
        rw [ofHops_hops] at hmem
        exact h.hops hop' (by simp [hreader, Reader.hops, hmem])
      · simp only [hreader, Reader.hops, total_cons] at hroom
        simp only [ofHops_hops]
        change st.session.rechunker.pendingSamples + _ ≤ _
        omega
  | nothing hop _ _ =>
      have hread : Held settings { (st.queued q).flagged scheduled with reader := .reading true } :=
        hput.idle rfl rfl rfl
      exact hread.complete true m
  | remainder hop _ _ => exact hput.idle rfl rfl rfl
  | flush _ => exact hput.idle rfl rfl rfl
  | noFlush _ => exact hput.idle rfl rfl rfl

theorem Held.take (h : Held settings st) (m : Metrics) :
    Held settings (takeWork st m).1.1 := by
  have hside := (takeWork_offScheduler st m).readerSide
  have htaken := takeWork_taken st m
  generalize (takeWork st m).1.1 = st' at htaken hside ⊢
  generalize (takeWork st m).2 = work at htaken
  cases htaken with
  | dead _ => exact h.frame rfl rfl (List.Subset.refl _)
  | idle _ _ => exact h.frame rfl rfl (List.Subset.refl _)
  | ends work q m' _ hget _ =>
      obtain ⟨hitems, hmax⟩ := BoundedQueue.getNowait_eq_some hget
      refine h.frame hside ?_ ?_
      · rw [completeWithoutFlush_inputQueue]
        exact hmax
      · rw [completeWithoutFlush_inputQueue, hitems]
        exact List.subset_cons_self _ _
  | joins work q _ hget _ =>
      obtain ⟨hitems, hmax⟩ := BoundedQueue.getNowait_eq_some hget
      refine h.frame hside hmax ?_
      rw [hitems]
      exact List.subset_cons_self _ _

theorem Held.apply (h : Held settings st) (work : ModelWork) (row : Option Bytes)
    (updated : Option κ) (m : Metrics) : Held settings (applyResult work row updated st m).1.1 := by
  have hq := applyResult_inputQueue work row updated st m
  refine h.frame (applyResult_offScheduler work row updated st m).readerSide (by rw [hq]) ?_
  rw [hq]
  exact List.Subset.refl _

theorem Held.finish (h : Held settings st) (m : Metrics) :
    Held settings (finallyBlock st m).1 where
  maxsize := h.maxsize
  queued := fun _ hmem => absurd hmem List.not_mem_nil
  hops := fun _ hmem => absurd hmem List.not_mem_nil
  room := by
    have hroom := h.room
    change st.session.rechunker.pendingSamples + 0 ≤ _
    omega

theorem held_new (settings : ServerSettings) (model : StreamingModel κ) (start : StartStream) :
    Held settings (Stream.admitted settings model start) :=
  ⟨rfl, fun _ hmem => absurd hmem List.not_mem_nil, fun _ hmem => absurd hmem List.not_mem_nil,
    Nat.zero_le _⟩

theorem held_invariant (settings : ServerSettings) (model : StreamingModel κ) (env : Env κ) :
    LocalInvariant settings model env fun st _ => Intake settings st ∧ Held settings st :=
  (intake_invariant settings model env).and (held_new settings model)
    (fun start => (held_new settings model start).idle rfl rfl rfl)
    (fun start _ => (held_new settings model start).idle rfl rfl rfl)
    fun st fl st' fl' hintake h hr => by
      cases hr with
      | read message m hr => exact h.readMessage hintake hr message m
      | eof m _ => exact h.readEof m
      | readFail failure m _ => exact h.failReader failure m
      | put scheduled m hw hq => exact (h.put hw hq scheduled).2 m
      | putOverflow scheduled m hw hq => exact (h.put hw hq scheduled).1.failReader _ m
      | afterAccepted m _ => exact h.frame rfl rfl (List.Subset.refl _)
      | afterAudio m _ => exact h.frame rfl rfl (List.Subset.refl _)
      | handle m m' _ _ hh =>
          have hoff := handleEvent_offGenerator hh
          exact h.frame hoff.readerSide (by rw [hoff.inputQueue]; rfl)
            (by rw [hoff.inputQueue]; exact List.Subset.refl _)
      | @handleRaise _ _ q m m' _ _ _ =>
          have hdrop : Held settings (st.withOutput q) := h.frame rfl rfl (List.Subset.refl _)
          exact hdrop.finish m'
      | finish m _ => exact h.finish m
      | take m => exact h.take m
      | apply m _ _ scheduled =>
          exact (h.apply _ _ _ m).frame rfl rfl (List.Subset.refl _)
      | applyRaised m _ _ => exact h.apply _ _ _ m
      | fail m => exact h.frame rfl rfl (List.Subset.refl _)

end Held

/-- The samples a stream accepted and the scheduler has not taken are at most those of a full
input queue, of one chunk, and of what was left over before it. -/
theorem input_backlog_bounded {settings : ServerSettings} {model : StreamingModel κ}
    {s : ServerState κ} (h : (system settings model).Reachable s) {i : Nat} {st : Stream κ}
    (hst : s.streams[i]? = some st) :
    st.inputBacklog ≤ 256 * settings.queueHops +
      min (256 * settings.queueHops) (255 + settings.maxAudioChunkSamples) := by
  have hheld := (reachable_stream model.delivers_any (fun _ _ => trivial)
    (held_invariant settings model Env.any) h hst).2
  have hle := hheld.backlog_le
  simp only [ServerSettings.chunkRoom, hopSamples_eq] at hle
  omega

/-- 32 ms of pending audio: an input queue of two hops. -/
def twoHops : ServerSettings :=
  { ServerSettings.defaults with
    maxPendingAudioMsPerStream := 32, maxPendingAudioMsPerStream_pos := Nat.two_pow_pos 5 }

/-- The input queue is full, and the reader accepts a chunk of two more hops. -/
def stalled : List (Event Tensor) :=
  [.enhance (testStart "a" 0), .deliver 0 (testAudio 0 0 512), .put 0, .put 0,
    .deliver 0 (testAudio 1 512 512)]

/-- A stalled scheduler, and the backlog is as large as it gets. -/
theorem input_backlog_bounded_stalled :
    ∃ s, (system twoHops identityDelayModel).run (.init twoHops) stalled = some s ∧
      s.streams.map Stream.inputBacklog = [1024] ∧
      ∀ st, s.streams[0]? = some st → st.inputBacklog ≤ 256 * twoHops.queueHops +
        min (256 * twoHops.queueHops) (255 + twoHops.maxAudioChunkSamples) := by
  obtain ⟨s, hrun, hr, hp⟩ := Lts.System.Reachable.of_run (system twoHops identityDelayModel)
    stalled (fun s => s.streams.map Stream.inputBacklog == [1024]) (by decide +kernel)
    (by decide +kernel)
  exact ⟨s, hrun, by simpa using hp, fun st hst => input_backlog_bounded hr hst⟩

/-- The backlog of a stalled stream is more than a full input queue and a partial hop. -/
theorem input_backlog_beyond_queue :
    ∃ (s : ServerState Tensor) (st : Stream Tensor),
      (system twoHops identityDelayModel).Reachable s ∧ s.streams[0]? = some st ∧
      ¬ st.inputBacklog ≤ 256 * twoHops.queueHops + 255 := by
  obtain ⟨s, -, hr, hp⟩ := Lts.System.Reachable.of_run (system twoHops identityDelayModel)
    stalled (fun s => s.streams[0]?.any fun (st : Stream Tensor) =>
      decide (¬ st.inputBacklog ≤ 256 * twoHops.queueHops + 255))
    (by decide +kernel) (by decide +kernel)
  cases hst : s.streams[0]? with
  | none => simp [hst] at hp
  | some st =>
      rw [hst, Option.any_some, decide_eq_true_eq] at hp
      exact ⟨s, st, hr, hst, hp⟩

end VoxLattice.Server
