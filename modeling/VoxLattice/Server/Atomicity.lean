import VoxLattice.Server.Effects
import VoxLattice.Server.Intake

/-!
# A chunk is counted once or not at all

`_accept_audio` moves the counters of the session before it asks the rechunker.  A chunk that one
of its own checks refuses leaves everything as it was, and a chunk that is taken is counted
everywhere once, its hops in the input queue included, which the reader puts while the other
tasks go on.  A chunk that the rechunker has no room for is refused and counted
(`chunk_atomic_iff`).
-/

namespace VoxLattice.Server

variable {κ : Type*}

/-- What `_accept_audio` counts a chunk in is as before. -/
structure Unmoved (before after : Stream κ × Metrics) : Prop where
  expectedSequence : after.1.session.expectedSequence = before.1.session.expectedSequence
  expectedInputSample : after.1.session.expectedInputSample = before.1.session.expectedInputSample
  inputSamples : after.1.session.inputSamples = before.1.session.inputSamples
  counter : after.2.inputSamples = before.2.inputSamples
  rechunker : after.1.session.rechunker = before.1.session.rechunker
  inputQueue : after.1.session.inputQueue = before.1.session.inputQueue

/-- The chunk is counted once, and the reader is about to put its hops. -/
structure CountedOnce (chunk : AudioChunk) (hops : List SourceHop)
    (before after : Stream κ × Metrics) : Prop where
  expectedSequence : after.1.session.expectedSequence = before.1.session.expectedSequence + 1
  expectedInputSample : after.1.session.expectedInputSample =
    before.1.session.expectedInputSample + chunk.samples
  inputSamples : after.1.session.inputSamples = before.1.session.inputSamples + chunk.samples
  counter : after.2.inputSamples = before.2.inputSamples + chunk.samples
  rechunker : PCMRechunker.Drained { before.1.session.rechunker with
      parts := before.1.session.rechunker.parts ++ [decodeSamples chunk.pcmS16le]
      pendingSamples := before.1.session.rechunker.pendingSamples + chunk.samples }
    hops after.1.session.rechunker
  inputQueue : after.1.session.inputQueue = before.1.session.inputQueue
  reader : after.1.reader = .ofHops hops

/-- The steps of all tasks while the reader of a stream puts hops, with what it has put. -/
inductive Putting (settings : ServerSettings) (model : StreamingModel κ) (i : Nat)
    (s : ServerState κ) : List ModelWork → ServerState κ → Prop where
  | none : Putting settings model i s [] s
  | put {works s₁ s₂ st₁ st₂ work} (h : Putting settings model i s works s₁)
      (hst₁ : s₁.streams[i]? = some st₁) (hr : st₁.reader ≠ .reading false)
      (hs : (system settings model).Step s₁ (.put i) s₂) (hst₂ : s₂.streams[i]? = some st₂)
      (hq : st₂.session.inputQueue.items = st₁.session.inputQueue.items ++ [work]) :
      Putting settings model i s (works ++ [work]) s₂
  | other {works s₁ s₂ st₁ e} (h : Putting settings model i s works s₁)
      (hst₁ : s₁.streams[i]? = some st₁) (hr : st₁.reader ≠ .reading false) (he : e ≠ .put i)
      (hs : (system settings model).Step s₁ e s₂) : Putting settings model i s works s₂

/-- A chunk is counted once or not at all. -/
structure Atomic (settings : ServerSettings) (model : StreamingModel κ) (s : ServerState κ)
    (i : Nat) (st : Stream κ) (chunk : AudioChunk) : Prop where
  raised : ∀ violation, (acceptAudio settings chunk st s.metrics).2 = .error violation →
    Unmoved (st, s.metrics) (acceptAudio settings chunk st s.metrics).1
  /-- The last part is about the puts: when the call returns, they are those of the hops. -/
  returned : (acceptAudio settings chunk st s.metrics).2 = .ok () →
    ∃ hops, CountedOnce chunk hops (st, s.metrics) (acceptAudio settings chunk st s.metrics).1 ∧
      ∀ s₁ works s₂ st₂, (system settings model).Step s (.deliver i (.audio chunk)) s₁ →
        Putting settings model i s₁ works s₂ → s₂.streams[i]? = some st₂ →
        st₂.reader = .reading false → works = hops.map .ofSource

variable {settings : ServerSettings} {model : StreamingModel κ} {s s₁ s₂ : ServerState κ} {i : Nat}
  {st st₁ st₂ : Stream κ} {chunk : AudioChunk}

/-! ## The call up to its puts -/

theorem Unmoved.refl (x : Stream κ × Metrics) : Unmoved x x := ⟨rfl, rfl, rfl, rfl, rfl, rfl⟩

/-- A chunk that fails a check of `_accept_audio` is not counted. -/
theorem acceptAudio_unmoved (hfits : ¬ ChunkFits settings st.session chunk) (m : Metrics) :
    ∃ violation, acceptAudio settings chunk st m = ((st, m), .error violation) := by
  cases hcheck : checkChunk settings st.session chunk with
  | ok _ => exact absurd (checkChunk_ok_iff.mp hcheck) hfits
  | error violation =>
      refine ⟨violation, ?_⟩
      simp only [acceptAudio, hcheck]

/-- A chunk that passes them and has room is counted once. -/
theorem acceptAudio_counted (hfits : ChunkFits settings st.session chunk)
    (hcounted : st.session.rechunker.Counted)
    (hroom : st.session.rechunker.pendingSamples + chunk.samples ≤
      st.session.rechunker.maxPendingSamples) (m : Metrics) :
    ∃ hops, (acceptAudio settings chunk st m).2 = .ok () ∧
      CountedOnce chunk hops (st, m) (acceptAudio settings chunk st m).1 := by
  have hcount : (st.session.count chunk).rechunker = st.session.rechunker := rfl
  obtain ⟨hops, rechunker, happend, hd⟩ := PCMRechunker.append_ok hcounted hfits.size hroom
  refine ⟨hops, ?_⟩
  simp only [acceptAudio, checkChunk_ok_iff.mpr hfits, hcount, happend]
  exact ⟨trivial, rfl, rfl, rfl, rfl, hd, rfl, rfl⟩

/-! ## The puts -/

/-- The reader has put the first hops and is about to put the others. -/
def PutSoFar (hops : List SourceHop) (works : List ModelWork) (st : Stream κ) : Prop :=
  st.reader = .done ∨ ∃ before rest, hops = before ++ rest ∧ works = before.map .ofSource ∧
    st.reader = .ofHops rest

/-- A reader that is about to put the others puts the first of them. -/
theorem afterPut_ofHops {rest : List SourceHop} {work : ModelWork} (hr : st.reader = .ofHops rest)
    (hw : st.reader.work? = some work) (q : BoundedQueue ModelWork) (scheduled : Bool)
    (m : Metrics) : ∃ hop later, rest = hop :: later ∧ work = .ofSource hop ∧
      (afterPut ((st.queued q).flagged scheduled) m).1.reader = .ofHops later := by
  cases rest with
  | nil =>
      rw [hr] at hw
      cases hw
  | cons hop later =>
      have hreturned := afterPut_put hw q scheduled m
      generalize afterPut ((st.queued q).flagged scheduled) m = next at hreturned ⊢
      cases hreturned with
      | hop hop' rest' hr' =>
          obtain ⟨rfl, rfl⟩ := List.cons.inj (Reader.accepting.inj (hr.symm.trans hr'))
          exact ⟨_, _, rfl, rfl, rfl⟩
      | nothing _ hr' _ => exact absurd (hr.symm.trans hr') nofun
      | remainder _ hr' _ => exact absurd (hr.symm.trans hr') nofun
      | flush hr' => exact absurd (hr.symm.trans hr') nofun
      | noFlush hr' => exact absurd (hr.symm.trans hr') nofun

theorem PutSoFar.put {hops : List SourceHop} {works : List ModelWork} {work : ModelWork}
    {env : Env κ} {fl fl' : Option (Flight κ)} (h : PutSoFar hops works st₁)
    (hstep : StreamStep settings env i (.put i) st₁ fl st₂ fl')
    (hq : st₂.session.inputQueue.items = st₁.session.inputQueue.items ++ [work]) :
    PutSoFar hops (works ++ [work]) st₂ := by
  cases hstep with
  | elsewhere =>
      have hlen := congrArg List.length hq
      rw [List.length_append, List.length_singleton] at hlen
      omega
  | @put _ _ work' q scheduled m hw hput =>
      have hqueue : (afterPut ((st₁.queued q).flagged scheduled) m).1.session.inputQueue = q :=
        (afterPut_offReader _ m).inputQueue
      rw [hqueue, (BoundedQueue.putNowait_eq_some hput).2.1, List.append_cancel_left_eq,
        List.cons.injEq] at hq
      obtain ⟨rfl, -⟩ := hq
      rcases h with hdone | ⟨before, rest, rfl, rfl, hreader⟩
      · rw [hdone] at hw
        cases hw
      · obtain ⟨hop, later, rfl, rfl, hafter⟩ := afterPut_ofHops hreader hw q scheduled m
        exact .inr ⟨before ++ [hop], later, by simp, by simp, hafter⟩
  | putOverflow m _ _ _ => exact .inl rfl

/-- While hops are put, the reader does nothing else. -/
theorem PutSoFar.other {hops : List SourceHop} {works : List ModelWork} {e : Event κ}
    {env : Env κ} {fl fl' : Option (Flight κ)} (h : PutSoFar hops works st₁)
    (hbusy : st₁.reader ≠ .reading false) (he : e ≠ .put i)
    (hstep : StreamStep settings env i e st₁ fl st₂ fl') : PutSoFar hops works st₂ := by
  have hnot : ∀ sawEnd, st₁.reader ≠ .reading sawEnd := by
    intro sawEnd hreading
    rcases h with hdone | ⟨before, rest, -, -, hreader⟩
    · exact absurd (hdone.symm.trans hreading) nofun
    · rw [hreader] at hreading hbusy
      cases rest with
      | nil => exact hbusy rfl
      | cons hop later => cases hreading
  cases hown : e.ofReader i with
  | false =>
      rcases hstep.offReader hown with hside | ⟨hcancelled, -⟩
      · have hreader : st₂.reader = st₁.reader := congrArg ReaderSide.reader hside
        rw [PutSoFar, hreader]
        exact h
      · exact .inl (congrArg ReaderSide.reader hcancelled)
  | true =>
      cases hstep with
      | elsewhere => exact h
      | read message _ hr => exact absurd hr (hnot _)
      | eof _ hr => exact absurd hr (hnot _)
      | idleTimeout _ hr => exact absurd hr (hnot _)
      | requestError _ hr => exact absurd hr (hnot _)
      | put _ _ _ _ => exact absurd rfl he
      | putOverflow _ _ _ _ => exact absurd rfl he
      | _ => cases hown

theorem Putting.reachable {works : List ModelWork} (h : Putting settings model i s₁ works s₂)
    (hreach : (system settings model).Reachable s₁) : (system settings model).Reachable s₂ := by
  induction h with
  | none => exact hreach
  | put _ _ _ hs _ _ ih => exact ih.step hs
  | other _ _ _ _ hs ih => exact ih.step hs

/-- Whatever the other tasks do, the reader puts the hops it holds, in their order. -/
theorem Putting.putSoFar {hops : List SourceHop} {works : List ModelWork}
    (h : Putting settings model i s₁ works s₂) (hreach : (system settings model).Reachable s₁)
    (hst₁ : s₁.streams[i]? = some st₁) (hreader : st₁.reader = .ofHops hops) :
    ∀ st₂, s₂.streams[i]? = some st₂ → PutSoFar hops works st₂ := by
  induction h with
  | none =>
      intro st₂ hst₂
      obtain rfl := Option.some.inj (hst₁.symm.trans hst₂)
      exact .inr ⟨[], hops, rfl, rfl, hreader⟩
  | @put works s₂ s₃ st₂ st₃ work hrest hst₂ hr hs hst₃ hq ih =>
      intro st hst
      obtain rfl := Option.some.inj (hst₃.symm.trans hst)
      obtain ⟨st', hst', hstep⟩ := step_effect model.delivers_any
        (reachable_scheduling (hrest.reachable hreach)) hs hst₂
      obtain rfl := Option.some.inj (hst₃.symm.trans hst')
      exact (ih st₂ hst₂).put hstep hq
  | @other works s₂ s₃ st₂ e hrest hst₂ hr he hs ih =>
      intro st hst
      obtain ⟨st', hst', hstep⟩ := step_effect model.delivers_any
        (reachable_scheduling (hrest.reachable hreach)) hs hst₂
      obtain rfl := Option.some.inj (hst.symm.trans hst')
      exact (ih st₂ hst₂).other hr he hstep

/-- When the reader is back at the next message, it has put all of them. -/
theorem PutSoFar.all {hops : List SourceHop} {works : List ModelWork}
    (h : PutSoFar hops works st) (hr : st.reader = .reading false) :
    works = hops.map .ofSource := by
  rcases h with hdone | ⟨before, rest, rfl, rfl, hreader⟩
  · exact absurd (hdone.symm.trans hr) nofun
  · cases rest with
    | nil => rw [List.append_nil]
    | cons hop later => exact absurd (hreader.symm.trans hr) nofun

/-- The step that delivers a chunk which is taken. -/
theorem deliver_audio {hops : List SourceHop} (hst : s.streams[i]? = some st)
    (hr : st.reader = .reading false) (hok : (acceptAudio settings chunk st s.metrics).2 = .ok ())
    (hreader : (acceptAudio settings chunk st s.metrics).1.1.reader = .ofHops hops)
    (hs : (system settings model).Step s (.deliver i (.audio chunk)) s₁) :
    ∃ st₁, s₁.streams[i]? = some st₁ ∧ st₁.reader = .ofHops hops := by
  obtain ⟨st', sawEnd, hst', hr', rfl⟩ := onReading_eq_some hs.eq
  obtain rfl := Option.some.inj (hst.symm.trans hst')
  cases hr.symm.trans hr'
  rw [ServerState.onStream_eq hst]
  refine ⟨_, by rw [ServerState.get?_withStream hst, if_pos rfl], ?_⟩
  rw [← hreader]
  cases haccept : acceptAudio settings chunk st s.metrics with
  | mk left result =>
      rw [haccept] at hok
      cases hok
      simp only [readMessage, Bool.false_eq_true, if_false, haccept]

/-! ## Atomicity -/

/-- In every reachable state, a chunk is counted once or not at all just if it fails a check of
`_accept_audio` or fits the rechunker with what the full hops have left over. -/
theorem chunk_atomic_iff (h : (system settings model).Reachable s)
    (hst : s.streams[i]? = some st) (hr : st.reader = .reading false) (chunk : AudioChunk) :
    Atomic settings model s i st chunk ↔ (ChunkFits settings st.session chunk →
      st.session.inputSamples % hopSamples + chunk.samples ≤ settings.queueHops * hopSamples) := by
  have hrec := (reachable_intake h hst).received (.inl (by simp [hr]))
  have hresidue : st.session.rechunker.pendingSamples = st.session.inputSamples % hopSamples :=
    (hrec.residue (by simp [Stream.readerSide, hr, Reader.unflushed])).1
  have hbound : st.session.rechunker.maxPendingSamples = settings.queueHops * hopSamples :=
    hrec.bound
  rw [← hresidue, ← hbound]
  constructor
  · intro hatomic hfits
    by_contra hroom
    have hmoved := acceptAudio_full hfits (Nat.not_le.mp hroom) s.metrics
    have hunmoved := hatomic.raised _ (by rw [hmoved])
    rw [hmoved] at hunmoved
    exact absurd hunmoved.expectedSequence (Nat.succ_ne_self _)
  · intro hroom
    by_cases hfits : ChunkFits settings st.session chunk
    · obtain ⟨hops, hok, hcounted⟩ :=
        acceptAudio_counted hfits hrec.settled.counted (hroom hfits) s.metrics
      refine ⟨fun violation herror => ?_, fun _ => ⟨hops, hcounted, ?_⟩⟩
      · rw [hok] at herror
        cases herror
      · intro s₁ works s₂ st₂ hs hputting hst₂ hr₂
        obtain ⟨st₁, hst₁, hreader⟩ := deliver_audio hst hr hok hcounted.reader hs
        exact (hputting.putSoFar (h.step hs) hst₁ hreader st₂ hst₂).all hr₂
    · obtain ⟨violation, hsame⟩ := acceptAudio_unmoved hfits s.metrics
      refine ⟨fun _ _ => ?_, fun hok => ?_⟩
      · rw [hsame]
        exact .refl _
      · rw [hsame] at hok
        cases hok

/-- The first chunk of a stream, of one hop. -/
theorem chunk_atomic_first_hop :
    ∃ (s : ServerState Tensor) (st : Stream Tensor), s.streams[0]? = some st ∧
      Atomic .defaults identityDelayModel s 0 st ⟨0, 0, List.replicate 512 0⟩ := by
  obtain ⟨s, -, hreach, hp⟩ := Lts.System.Reachable.of_run (system .defaults identityDelayModel)
    [.enhance (testStart "a" 0)] (fun s => s.streams[0]?.any fun (st : Stream Tensor) => decide
      (st.reader = .reading false ∧ st.session.inputSamples = 0))
    (by decide +kernel) (by decide +kernel)
  cases hst : s.streams[0]? with
  | none => simp [hst] at hp
  | some st =>
      rw [hst, Option.any_some, decide_eq_true_eq] at hp
      obtain ⟨hreader, hzero⟩ := hp
      refine ⟨s, st, hst, (chunk_atomic_iff hreach hst hreader _).mpr fun _ => ?_⟩
      rw [hzero, AudioChunk.samples, List.length_replicate]
      decide

/-- With the default settings a first chunk of 16000 samples is refused and counted. -/
theorem refused_chunk_counted :
    ¬ ∀ (s : ServerState Tensor) (i : Nat) (st : Stream Tensor) (chunk : AudioChunk),
      (system .defaults identityDelayModel).Reachable s → s.streams[i]? = some st →
      st.reader = .reading false → Atomic .defaults identityDelayModel s i st chunk := by
  intro hatomic
  obtain ⟨s, st, hreach, hst, hreader, hfits, hroom⟩ := exists_announced_full
  have hmoved := acceptAudio_full hfits hroom s.metrics
  have hunmoved := (hatomic s 0 st _ hreach hst hreader).raised _ (by rw [hmoved])
  rw [hmoved] at hunmoved
  exact absurd hunmoved.expectedSequence (Nat.succ_ne_self _)

end VoxLattice.Server
