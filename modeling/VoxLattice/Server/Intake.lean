import VoxLattice.Server.Rechunking
import VoxLattice.Server.Streams

/-!
# What a stream received

The reader counts the samples of the accepted chunks in three places: `input_samples`, the next
expected offset, and the rechunker, whose hops cover what is not pending.  `Received` ties them
together.  It holds while the reader is at work, and afterwards if the session was not
cancelled: a chunk that the rechunker refuses has already moved the counters, and the stream
then fails.

The rechunker is bounded by `max_pending_audio_ms_per_stream`, and a chunk of the size the
server announces need not fit: `acceptAudio_accepts_iff` says which chunks do.
-/

namespace VoxLattice.Server

open Intervals

variable {κ : Type*}

/-- The reader has not flushed the rechunker. -/
def Reader.unflushed : Reader → Bool
  | .reading false | .accepting _ | .finishingNoFlush => true
  | _ => false

/-- The reader has flushed the rechunker and not yet put the flush. -/
def Reader.flushing : Reader → Bool
  | .finishingPartial _ | .finishingFlush => true
  | _ => false

/-- The counters of a stream agree. -/
structure Received (settings : ServerSettings) (side : ReaderSide) : Prop where
  inputSamples : side.inputSamples = total AudioChunk.samples side.accepted
  sequence : side.expectedSequence = side.accepted.length
  offset : side.expectedInputSample = side.inputStartSample + side.inputSamples
  settled : side.rechunker.Settled
  bound : side.rechunker.maxPendingSamples = settings.queueHops * hopSamples
  next : side.rechunker.nextSample =
    side.inputStartSample + total SourceHop.validSamples side.hops
  pending : total SourceHop.validSamples side.hops + side.rechunker.pendingSamples =
    side.inputSamples
  whole : side.reader.unflushed = true → ∀ hop ∈ side.hops, hop.validSamples = hopSamples
  emptied : side.reader.flushing = true → side.rechunker.pendingSamples = 0
  samples : side.reader.unflushed = true →
    side.hops.flatMap SourceHop.samples ++ side.rechunker.parts.flatten =
      side.accepted.flatMap fun chunk => decodeSamples chunk.pcmS16le

/-- The hops of a stream are adjacent and of the model's size, and its counters agree. -/
structure Intake (settings : ServerSettings) (st : Stream κ) : Prop where
  tiles : Tiles SourceHop.startSample SourceHop.validSamples st.session.inputStartSample
    st.history.hops
  shape : ∀ hop ∈ st.history.hops,
    hop.samples.length = hopSamples ∧ hop.validSamples ≤ hopSamples
  received : st.reader ≠ .done ∨ st.session.cancelled = false → Received settings st.readerSide

/-- Before the flush the samples pending are what the full hops leave over. -/
theorem Received.residue {settings : ServerSettings} {side : ReaderSide}
    (h : Received settings side) (hr : side.reader.unflushed = true) :
    side.rechunker.pendingSamples = side.inputSamples % hopSamples ∧
      side.hops.length = side.inputSamples / hopSamples := by
  have htotal := total_of_forall_eq (h.whole hr)
  have hpending := h.pending
  have hresidue := h.settled.residue
  rw [htotal] at hpending
  constructor
  · rw [← hpending, Nat.add_comm, Nat.add_mul_mod_self_right, Nat.mod_eq_of_lt hresidue]
  · rw [← hpending, Nat.add_comm, Nat.add_mul_div_right _ _ (by decide),
      Nat.div_eq_of_lt hresidue, Nat.zero_add]

/-! ## Accepting a chunk -/

/-- The checks of `_accept_audio` before the rechunker, as one condition. -/
structure ChunkFits (settings : ServerSettings) (session : Session κ) (chunk : AudioChunk) :
    Prop where
  size : ¬ (chunk.pcmS16le.length = 0 ∨ chunk.pcmS16le.length % 2 ≠ 0)
  limit : chunk.samples ≤ settings.maxAudioChunkSamples
  sequence : chunk.sequence.toNat = session.expectedSequence
  offset : chunk.inputStartSample.toNat = session.expectedInputSample

theorem checkChunk_ok_iff {settings : ServerSettings} {session : Session κ} {chunk : AudioChunk} :
    checkChunk settings session chunk = .ok () ↔ ChunkFits settings session chunk := by
  constructor
  · intro h
    unfold checkChunk at h
    dsimp only at h
    split at h
    · cases h
    · next hsize =>
        split at h
        · cases h
        · next hlimit =>
            split at h
            · cases h
            · next hsequence =>
                split at h
                · cases h
                · next hoffset =>
                    exact ⟨hsize, Nat.not_lt.mp hlimit, Decidable.not_not.mp hsequence,
                      Decidable.not_not.mp hoffset⟩
  · intro h
    have hlimit : ¬ settings.maxAudioChunkSamples < chunk.pcmS16le.length / 2 :=
      Nat.not_lt.mpr h.limit
    simp only [checkChunk, if_neg h.size, if_neg hlimit, if_neg (not_not.mpr h.sequence),
      if_neg (not_not.mpr h.offset)]

/-- A chunk that passes the checks and fits the rechunker is accepted. -/
theorem acceptAudio_ok {settings : ServerSettings} {st : Stream κ} {chunk : AudioChunk}
    (hfits : ChunkFits settings st.session chunk) (hcounted : st.session.rechunker.Counted)
    (hroom : st.session.rechunker.pendingSamples + chunk.samples ≤
      st.session.rechunker.maxPendingSamples) (m : Metrics) :
    ∃ hops rechunker m',
      acceptAudio settings chunk st m = ((st.accepts chunk hops rechunker, m'), .ok ()) ∧
      PCMRechunker.Drained { st.session.rechunker with
        parts := st.session.rechunker.parts ++ [decodeSamples chunk.pcmS16le]
        pendingSamples := st.session.rechunker.pendingSamples + chunk.samples } hops rechunker := by
  obtain ⟨hops, rechunker, happend, hd⟩ := PCMRechunker.append_ok hcounted hfits.size hroom
  refine ⟨hops, rechunker, { m with inputSamples := m.inputSamples + chunk.samples }, ?_, hd⟩
  have hcount : (st.session.count chunk).rechunker = st.session.rechunker := rfl
  simp only [acceptAudio, checkChunk_ok_iff.mpr hfits, hcount, happend]
  rfl

/-- A chunk that passes the checks and does not fit the rechunker is refused, and its samples are
counted. -/
theorem acceptAudio_full {settings : ServerSettings} {st : Stream κ} {chunk : AudioChunk}
    (hfits : ChunkFits settings st.session chunk)
    (hroom : st.session.rechunker.maxPendingSamples <
      st.session.rechunker.pendingSamples + chunk.samples) (m : Metrics) :
    acceptAudio settings chunk st m =
      (({ st with session := st.session.count chunk },
        { m with inputSamples := m.inputSamples + chunk.samples }),
        .error ⟨.resourceExhausted, "per-stream input audio buffer is full"⟩) := by
  have hcount : (st.session.count chunk).rechunker = st.session.rechunker := rfl
  simp only [acceptAudio, checkChunk_ok_iff.mpr hfits, hcount,
    PCMRechunker.append_full hfits.size hroom, ofRechunkerError]

theorem acceptAudio_ok_cases {settings : ServerSettings} {st st' : Stream κ} {chunk : AudioChunk}
    {m m' : Metrics} (hcounted : st.session.rechunker.Counted)
    (h : acceptAudio settings chunk st m = ((st', m'), .ok ())) :
    ChunkFits settings st.session chunk ∧ ∃ hops rechunker,
      st' = st.accepts chunk hops rechunker ∧
      PCMRechunker.Drained { st.session.rechunker with
        parts := st.session.rechunker.parts ++ [decodeSamples chunk.pcmS16le]
        pendingSamples := st.session.rechunker.pendingSamples + chunk.samples } hops rechunker := by
  have hfits : ChunkFits settings st.session chunk := by
    cases hcheck : checkChunk settings st.session chunk with
    | error violation => simp [acceptAudio, hcheck] at h
    | ok _ => exact checkChunk_ok_iff.mp hcheck
  refine ⟨hfits, ?_⟩
  by_cases hroom : st.session.rechunker.pendingSamples + chunk.samples ≤
      st.session.rechunker.maxPendingSamples
  · obtain ⟨hops, rechunker, m₁, haccept, hd⟩ := acceptAudio_ok hfits hcounted hroom m
    rw [h] at haccept
    exact ⟨hops, rechunker, (Prod.mk.inj (Prod.mk.inj haccept).1).1, hd⟩
  · have hfull := acceptAudio_full hfits (Nat.not_le.mp hroom) m
    rw [h] at hfull
    cases hfull

theorem acceptAudio_ok_iff {settings : ServerSettings} {st : Stream κ} {chunk : AudioChunk}
    (hcounted : st.session.rechunker.Counted) (m : Metrics) :
    (acceptAudio settings chunk st m).2 = .ok () ↔ ChunkFits settings st.session chunk ∧
      st.session.rechunker.pendingSamples + chunk.samples ≤
        st.session.rechunker.maxPendingSamples := by
  constructor
  · intro hok
    obtain ⟨hfits, -⟩ := acceptAudio_ok_cases hcounted
      (Prod.ext rfl hok : acceptAudio settings chunk st m =
        (((acceptAudio settings chunk st m).1.1, (acceptAudio settings chunk st m).1.2), .ok ()))
    refine ⟨hfits, ?_⟩
    by_contra hfull
    rw [acceptAudio_full hfits (Nat.not_le.mp hfull)] at hok
    cases hok
  · rintro ⟨hfits, hroom⟩
    obtain ⟨hops, rechunker, m', haccept, -⟩ := acceptAudio_ok hfits hcounted hroom m
    rw [haccept]

/-! ## The invariant -/

section Invariant

variable {settings : ServerSettings} {st st' : Stream κ}

/-- A change on another side. -/
theorem Intake.frame (h : Intake settings st) (hside : st'.readerSide = st.readerSide)
    (hc : st'.session.cancelled = false → st.session.cancelled = false) : Intake settings st' := by
  have hreader : st'.reader = st.reader := congrArg ReaderSide.reader hside
  have hstart : st'.session.inputStartSample = st.session.inputStartSample :=
    congrArg ReaderSide.inputStartSample hside
  have hhops : st'.history.hops = st.history.hops := congrArg ReaderSide.hops hside
  constructor
  · rw [hstart, hhops]
    exact h.tiles
  · rw [hhops]
    exact h.shape
  · intro hlive
    rw [hside]
    exact h.received (hlive.imp (fun hd => hreader ▸ hd) hc)

/-- The stream fails and its reader stops. -/
theorem Intake.stop (h : Intake settings st) (hhops : st'.history.hops = st.history.hops)
    (hstart : st'.session.inputStartSample = st.session.inputStartSample)
    (hd : st'.reader = .done) (hc : st'.session.cancelled = true) : Intake settings st' := by
  constructor
  · rw [hstart, hhops]
    exact h.tiles
  · rw [hhops]
    exact h.shape
  · rintro (hlive | hlive)
    · exact absurd hd hlive
    · exact absurd (hlive.symm.trans hc) Bool.false_ne_true

theorem Intake.failReader (h : Intake settings st) (failure : ProtocolViolation) (m : Metrics) :
    Intake settings (failReader failure st m).1 := h.stop rfl rfl rfl rfl

/-- The reader goes on to a state in which it has flushed no less. -/
theorem Received.move {side : ReaderSide} (h : Received settings side) {reader : Reader}
    (hu : reader.unflushed = true → side.reader.unflushed = true)
    (hf : reader.flushing = true → side.reader.flushing = true) :
    Received settings { side with reader } :=
  ⟨h.inputSamples, h.sequence, h.offset, h.settled, h.bound, h.next, h.pending,
    fun hr => h.whole (hu hr), fun hr => h.emptied (hf hr), fun hr => h.samples (hu hr)⟩

theorem Intake.move (h : Intake settings st) (hr : st.reader ≠ .done) (reader : Reader)
    (hu : reader.unflushed = true → st.reader.unflushed = true)
    (hf : reader.flushing = true → st.reader.flushing = true) :
    Intake settings { st with reader } :=
  ⟨h.tiles, h.shape, fun _ => (h.received (.inl hr)).move hu hf⟩

theorem Intake.complete (h : Intake settings st) (flushed : Bool) (m : Metrics) :
    Intake settings (complete flushed st m).1 :=
  h.frame (complete_readerSide flushed st m) (complete_calm flushed st m).cancelled

theorem Reader.ofHops_flushing (hops : List SourceHop) :
    (Reader.ofHops hops).flushing = false := by
  cases hops <;> rfl

/-- The rechunker takes a chunk. -/
theorem Intake.accepts (h : Intake settings st) (hr : st.reader = .reading false)
    {chunk : AudioChunk} {hops : List SourceHop} {rechunker : PCMRechunker}
    (hd : PCMRechunker.Drained { st.session.rechunker with
      parts := st.session.rechunker.parts ++ [decodeSamples chunk.pcmS16le]
      pendingSamples := st.session.rechunker.pendingSamples + chunk.samples } hops rechunker) :
    Intake settings (st.accepts chunk hops rechunker) := by
  have hrec : Received settings st.readerSide := h.received (.inl (by simp [hr]))
  have hu : st.readerSide.reader.unflushed = true := by
    simp [Stream.readerSide, hr, Reader.unflushed]
  have hnext : st.session.rechunker.nextSample =
    st.session.inputStartSample + total SourceHop.validSamples st.history.hops := hrec.next
  constructor
  · refine tiles_append.mpr ⟨h.tiles, ?_⟩
    have htiles := hd.tiles
    dsimp only at htiles
    rw [hnext] at htiles
    exact htiles
  · intro hop hmem
    obtain hmem | hmem := List.mem_append.mp hmem
    · exact h.shape hop hmem
    · exact ⟨hd.shape hop hmem, (hd.full hop hmem).le⟩
  · intro _
    constructor
    · have hsum := hrec.inputSamples
      simp only [Stream.readerSide, Stream.accepts, Session.count, total_append, total_cons,
        total_nil] at hsum ⊢
      omega
    · have hseq := hrec.sequence
      simp only [Stream.readerSide, Stream.accepts, Session.count, List.length_append,
        List.length_singleton] at hseq ⊢
      omega
    · have hoff := hrec.offset
      simp only [Stream.readerSide, Stream.accepts, Session.count] at hoff ⊢
      omega
    · exact hd.settled
    · exact hd.bound.trans hrec.bound
    · have hdn := hd.next
      simp only [Stream.readerSide, Stream.accepts, Session.count, total_append] at hdn ⊢
      omega
    · have hp := hrec.pending
      have hdp := hd.pending
      simp only [Stream.readerSide, Stream.accepts, Session.count, total_append] at hp hdp ⊢
      omega
    · intro _ hop hmem
      obtain hmem | hmem := List.mem_append.mp hmem
      · exact hrec.whole hu hop hmem
      · exact hd.full hop hmem
    · intro hf
      exact absurd ((Reader.ofHops_flushing hops).symm.trans hf) Bool.false_ne_true
    · intro _
      have hs := hrec.samples hu
      have hds := hd.samples
      simp only [Stream.readerSide, Stream.accepts, List.flatMap_append, List.append_assoc,
        List.flatten_append, List.flatten_singleton, List.flatMap_singleton] at hs hds ⊢
      rw [hds, ← hs, List.append_assoc]

/-- The input ends. -/
theorem Intake.finishInput (h : Intake settings st) (hr : st.reader = .reading false)
    (flush : Bool) (m : Metrics) : Intake settings (finishInput flush st m).1 := by
  have hne : st.reader ≠ .done := by simp [hr]
  have hrec : Received settings st.readerSide := h.received (.inl hne)
  unfold Server.finishInput
  split
  · exact h.move hne .finishingNoFlush (fun _ => by rw [hr]; rfl) (by rintro ⟨⟩)
  · obtain ⟨hzero, heq⟩ | ⟨hop, r', hpos, heq, hstart, hvalid, hsamples, hsettled, hzero, hnext,
      hbound⟩ := PCMRechunker.flushPartial_ok hrec.settled
    · simp only [Stream.readerSide] at heq
      rw [heq]
      dsimp only
      split
      · exact Intake.complete (h.move hne (.reading true) (by rintro ⟨⟩) (by rintro ⟨⟩)) true m
      · refine ⟨h.tiles, h.shape, fun _ => ?_⟩
        exact ⟨hrec.inputSamples, hrec.sequence, hrec.offset, hrec.settled, hrec.bound, hrec.next,
          hrec.pending, by rintro ⟨⟩, fun _ => hzero, by rintro ⟨⟩⟩
    · simp only [Stream.readerSide] at heq
      rw [heq]
      have hn := hrec.next
      have hp := hrec.pending
      have hresidue := hrec.settled.residue
      simp only [Stream.readerSide] at hn hp hpos hstart hvalid hsamples hnext hresidue
      refine ⟨?_, ?_, fun _ => ?_⟩
      · refine tiles_append.mpr ⟨h.tiles, tiles_singleton.mpr ⟨?_, ?_⟩⟩
        · rw [hstart, hn]
        · rw [hvalid]
          exact hpos
      · intro hop' hmem
        obtain hmem | hmem := List.mem_append.mp hmem
        · exact h.shape hop' hmem
        · obtain rfl := List.mem_singleton.mp hmem
          have hcounted := hrec.settled.counted
          simp only [Stream.readerSide, PCMRechunker.Counted] at hcounted
          rw [hsamples, hvalid, List.length_append, List.length_replicate, hcounted]
          omega
      · refine ⟨hrec.inputSamples, hrec.sequence, hrec.offset, hsettled, hbound.trans hrec.bound,
          ?_, ?_, by rintro ⟨⟩, fun _ => hzero, by rintro ⟨⟩⟩
        · simp only [Stream.readerSide, total_append, total_cons, total_nil]
          omega
        · simp only [Stream.readerSide, total_append, total_cons, total_nil]
          omega

theorem Intake.readMessage (h : Intake settings st) {sawEnd : Bool}
    (hr : st.reader = .reading sawEnd) (message : ClientMessage) (m : Metrics) :
    Intake settings (readMessage settings sawEnd message st m).1 := by
  have hread := readMessage_read settings sawEnd message st m
  generalize Server.readMessage settings sawEnd message st m = next at hread ⊢
  cases hread with
  | afterEnd _ => exact h.failReader _ m
  | duplicateStart _ => exact h.failReader _ m
  | empty => exact h.failReader _ m
  | accepted chunk st' m' haccept =>
      have hcounted := (h.received (.inl (by simp [hr]))).settled.counted
      obtain ⟨-, hops, rechunker, rfl, hd⟩ := acceptAudio_ok_cases hcounted haccept
      exact h.accepts hr hd
  | refused chunk st' m' violation haccept =>
      obtain ⟨hhistory, hstart, -, -⟩ := acceptAudio_error haccept
      exact h.stop (congrArg History.hops hhistory) hstart rfl rfl
  | ended flush => exact h.finishInput hr flush m

theorem Intake.readEof (h : Intake settings st) {sawEnd : Bool}
    (hr : st.reader = .reading sawEnd) (m : Metrics) : Intake settings (readEof sawEnd st m).1 := by
  unfold Server.readEof
  split
  · exact h.move (by simp [hr]) .done nofun nofun
  · exact h.failReader _ m

theorem Intake.afterPut (h : Intake settings st) (m : Metrics) :
    Intake settings (afterPut st m).1 := by
  have hreturned := afterPut_returned st m
  generalize st.reader.work? = work at hreturned
  generalize Server.afterPut st m = next at hreturned ⊢
  cases hreturned with
  | hop hop hops hr =>
      exact h.move (by simp [hr]) (.ofHops hops) (fun _ => by rw [hr]; rfl)
        (fun hf => absurd ((Reader.ofHops_flushing hops).symm.trans hf) Bool.false_ne_true)
  | nothing hop hr _ =>
      exact Intake.complete (h.move (by simp [hr]) (.reading true) nofun nofun) true m
  | remainder hop hr _ => exact h.move (by simp [hr]) .finishingFlush nofun fun _ => by rw [hr]; rfl
  | flush hr => exact h.move (by simp [hr]) (.reading true) nofun nofun
  | noFlush hr => exact h.move (by simp [hr]) (.reading true) nofun nofun
  | idle => exact h

theorem intake_new (settings : ServerSettings) (model : StreamingModel κ) (start : StartStream) :
    Received settings (Stream.admitted settings model start).readerSide := by
  have hpos := settings.queueHops_pos
  refine ⟨rfl, rfl, rfl, ⟨rfl, (by decide : 0 < hopSamples)⟩, ?_, rfl, rfl, ?_, nofun,
    fun _ => rfl⟩
  · have hle : hopSamples ≤ settings.queueHops * hopSamples := Nat.le_mul_of_pos_left _ hpos
    exact Nat.max_eq_right hle
  · exact fun _ hop hmem => absurd hmem List.not_mem_nil

theorem intake_invariant (settings : ServerSettings) (model : StreamingModel κ) (env : Env κ) :
    LocalInvariant settings model env fun st _ => Intake settings st where
  admitted start := ⟨trivial, fun _ hmem => absurd hmem List.not_mem_nil,
    fun _ => intake_new settings model start⟩
  unannounced start := ⟨trivial, fun _ hmem => absurd hmem List.not_mem_nil, nofun⟩
  refused start violation := ⟨trivial, fun _ hmem => absurd hmem List.not_mem_nil,
    fun _ => (intake_new settings model start).move nofun nofun⟩
  round st fl st' fl' h hr := by
    cases hr with
    | read message m hr => exact h.readMessage hr message m
    | eof m hr => exact h.readEof hr m
    | readFail failure m _ => exact h.failReader failure m
    | put scheduled m _ _ =>
        refine Intake.afterPut ?_ m
        exact h.frame rfl id
    | putOverflow scheduled m _ _ => exact h.stop rfl rfl rfl rfl
    | afterAccepted m _ => exact h.frame rfl id
    | afterAudio m _ => exact h.frame rfl id
    | handle m m' _ _ hh =>
        exact h.frame (handleEvent_offGenerator hh).readerSide (handleEvent_calm hh).cancelled
    | handleRaise m m' _ _ _ => exact h.stop rfl rfl rfl rfl
    | finish m _ => exact h.stop rfl rfl rfl rfl
    | take m => exact h.frame (takeWork_offScheduler st m).readerSide (takeWork_calm st m).cancelled
    | apply m _ _ scheduled =>
        exact h.frame (applyResult_offScheduler _ _ _ st m).readerSide
          (applyResult_calm _ _ _ st m).cancelled
    | applyRaised m _ _ =>
        exact h.frame (applyResult_offScheduler _ _ _ st m).readerSide
          (applyResult_calm _ _ _ st m).cancelled
    | fail m => exact h.frame rfl (fail_calm _ _ st m).cancelled

end Invariant

theorem reachable_intake {settings : ServerSettings} {model : StreamingModel κ}
    {s : ServerState κ} (h : (system settings model).Reachable s) {i : Nat} {st : Stream κ}
    (hst : s.streams[i]? = some st) : Intake settings st :=
  reachable_stream model.delivers_any (fun _ _ => trivial)
    (intake_invariant settings model Env.any) h hst

/-! ## The announced chunk limit -/

/-- In every reachable state, `_accept_audio` accepts a chunk that passes its checks, the
announced limit among them, exactly if the chunk and what the full hops left over fit the
rechunker. -/
theorem acceptAudio_accepts_iff {settings : ServerSettings} {model : StreamingModel κ}
    {s : ServerState κ} (h : (system settings model).Reachable s) {i : Nat} {st : Stream κ}
    (hst : s.streams[i]? = some st) (hr : st.reader = .reading false) {chunk : AudioChunk}
    (hfits : ChunkFits settings st.session chunk) :
    (acceptAudio settings chunk st s.metrics).2 = .ok () ↔
      st.session.inputSamples % hopSamples + chunk.samples ≤ settings.queueHops * hopSamples := by
  have hrec := (reachable_intake h hst).received (.inl (by simp [hr]))
  have hresidue := (hrec.residue (by simp [Stream.readerSide, hr, Reader.unflushed])).1
  have hbound := hrec.bound
  simp only [Stream.readerSide] at hresidue hbound
  rw [← hresidue, ← hbound, acceptAudio_ok_iff hrec.settled.counted]
  exact and_iff_right hfits

/-- A stream before its first message. -/
theorem exists_opened : ∃ (s : ServerState Tensor) (st : Stream Tensor),
    (system .defaults identityDelayModel).Reachable s ∧ s.streams[0]? = some st ∧
      st.reader = .reading false ∧ st.session.expectedSequence = 0 ∧
      st.session.expectedInputSample = 0 ∧ st.session.rechunker = ⟨[], 0, 0, 7936⟩ := by
  obtain ⟨s, -, hr, hp⟩ := Lts.System.Reachable.of_run (system .defaults identityDelayModel)
    [.enhance (testStart "a" 0)] (fun s => s.streams[0]?.any fun (st : Stream Tensor) => decide
      (st.reader = .reading false ∧ st.session.expectedSequence = 0 ∧
        st.session.expectedInputSample = 0 ∧ st.session.rechunker = ⟨[], 0, 0, 7936⟩))
    (by decide +kernel) (by decide +kernel)
  cases hst : s.streams[0]? with
  | none => simp [hst] at hp
  | some st =>
      rw [hst, Option.any_some, decide_eq_true_eq] at hp
      exact ⟨s, st, hr, hst, hp⟩

/-- The first chunk of a stream, of one hop. -/
theorem acceptAudio_accepts_first_hop :
    ∃ (s : ServerState Tensor) (st : Stream Tensor), s.streams[0]? = some st ∧
      ((acceptAudio .defaults ⟨0, 0, List.replicate 512 0⟩ st s.metrics).2 = .ok () ↔
        st.session.inputSamples % hopSamples + 256 ≤
          ServerSettings.queueHops .defaults * hopSamples) := by
  obtain ⟨s, st, hr, hst, hreader, hseq, hoff, -⟩ := exists_opened
  have hsamples : AudioChunk.samples ⟨0, 0, List.replicate 512 0⟩ = 256 := by
    rw [AudioChunk.samples, List.length_replicate]
  have hfits : ChunkFits .defaults st.session ⟨0, 0, List.replicate 512 0⟩ :=
    ⟨by simp only [List.length_replicate]; decide, by rw [hsamples]; decide, by rw [hseq]; rfl,
      by rw [hoff]; rfl⟩
  have hiff := acceptAudio_accepts_iff hr hst hreader hfits
  rw [hsamples] at hiff
  exact ⟨s, st, hst, hiff⟩

/-- A stream before its first message and a chunk as long as the server announces: the chunk fits
the session, and is more than its rechunker holds. -/
theorem exists_announced_full : ∃ (s : ServerState Tensor) (st : Stream Tensor),
    (system .defaults identityDelayModel).Reachable s ∧ s.streams[0]? = some st ∧
      st.reader = .reading false ∧
      ChunkFits .defaults st.session ⟨0, 0, List.replicate 32000 0⟩ ∧
      st.session.rechunker.maxPendingSamples < st.session.rechunker.pendingSamples +
        AudioChunk.samples ⟨0, 0, List.replicate 32000 0⟩ := by
  obtain ⟨s, st, hr, hst, hreader, hseq, hoff, hrechunker⟩ := exists_opened
  have hsamples : AudioChunk.samples ⟨0, 0, List.replicate 32000 0⟩ = 16000 := by
    rw [AudioChunk.samples, List.length_replicate]
  refine ⟨s, st, hr, hst, hreader, ⟨?_, hsamples.le, ?_, ?_⟩, ?_⟩
  · simp only [List.length_replicate]
    decide
  · rw [hseq]
    rfl
  · rw [hoff]
    rfl
  · rw [hrechunker, hsamples]
    decide

/-- With the default settings the server announces 16000 samples a chunk and refuses the first
chunk of a stream that has them. -/
theorem acceptAudio_refuses_announced_chunk :
    ∃ (s : ServerState Tensor) (st : Stream Tensor),
      (system .defaults identityDelayModel).Reachable s ∧ s.streams[0]? = some st ∧
      ChunkFits .defaults st.session ⟨0, 0, List.replicate 32000 0⟩ ∧
      (acceptAudio .defaults ⟨0, 0, List.replicate 32000 0⟩ st s.metrics).2 =
        .error ⟨.resourceExhausted, "per-stream input audio buffer is full"⟩ := by
  obtain ⟨s, st, hr, hst, -, hfits, hroom⟩ := exists_announced_full
  exact ⟨s, st, hr, hst, hfits, congrArg Prod.snd (acceptAudio_full hfits hroom _)⟩

end VoxLattice.Server
