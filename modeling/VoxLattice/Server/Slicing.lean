import VoxLattice.Lib.Samples
import VoxLattice.Server.Intake

/-!
# The hops of the accepted audio

However the client cuts its audio into chunks, the hops of a stream depend on the concatenated
samples alone: `hopsOf` cuts them every 256, and `remainder?` is what is left over, with zeros
behind it.  `Received` says this of the counters and the rechunker of a reader at work; the
lemmas here read the hops off it.

A stream that fails keeps the hops it has.  `Sliced` is what stays true of them: they are those
of the accepted samples, with or without the remainder.
-/

namespace VoxLattice.Server

open Intervals Samples

variable {κ : Type*}

/-- The samples of a list of chunks. -/
def pcmOf (chunks : List AudioChunk) : Tensor :=
  chunks.flatMap fun chunk => decodeSamples chunk.pcmS16le

/-- The full hops of samples that begin at an offset. -/
def hopsOf (start : Nat) (pcm : Tensor) : List SourceHop :=
  (List.range (pcm.length / hopSamples)).map fun k =>
    ⟨start + hopSamples * k, sample hopSamples pcm k, hopSamples⟩

/-- The samples behind the full hops. -/
def leftOver (pcm : Tensor) : Tensor := pcm.drop (pcm.length / hopSamples * hopSamples)

/-- The zero-padded hop of the samples behind the full ones, if there are any. -/
def remainder? (start : Nat) (pcm : Tensor) : Option SourceHop :=
  if leftOver pcm = [] then none
  else some ⟨start + hopSamples * (pcm.length / hopSamples),
    leftOver pcm ++ List.replicate (hopSamples - (leftOver pcm).length) 0, (leftOver pcm).length⟩

@[simp] theorem pcmOf_nil : pcmOf [] = [] := rfl

theorem pcmOf_length (chunks : List AudioChunk) :
    (pcmOf chunks).length = total AudioChunk.samples chunks := by
  induction chunks with
  | nil => rfl
  | cons chunk rest ih =>
      rw [pcmOf, List.flatMap_cons, List.length_append, decodeSamples_length, total_cons]
      exact congrArg (chunk.samples + ·) ih

@[simp] theorem hopsOf_length (start : Nat) (pcm : Tensor) :
    (hopsOf start pcm).length = pcm.length / hopSamples := by
  rw [hopsOf, List.length_map, List.length_range]

@[simp] theorem hopsOf_nil (start : Nat) : hopsOf start [] = [] :=
  List.eq_nil_of_length_eq_zero (by simp)

theorem leftOver_length (pcm : Tensor) : (leftOver pcm).length = pcm.length % hopSamples := by
  rw [leftOver, List.length_drop, Nat.mul_comm]
  have hdiv := Nat.div_add_mod pcm.length hopSamples
  omega

/-- The hops of some samples, and what is left over, are the only ones that are adjacent and of
the model's size. -/
theorem hopsOf_unique {start : Nat} {pcm left : Tensor} {hops : List SourceHop}
    (htiles : Tiles SourceHop.startSample SourceHop.validSamples start hops)
    (hvalid : ∀ hop ∈ hops, hop.validSamples = hopSamples)
    (hshape : ∀ hop ∈ hops, hop.samples.length = hopSamples)
    (hsamples : hops.flatMap SourceHop.samples ++ left = pcm) (hleft : left.length < hopSamples) :
    hops = hopsOf start pcm ∧ left = leftOver pcm := by
  have hflat : (hops.flatMap SourceHop.samples).length = hops.length * hopSamples :=
    length_flatMap_samples hshape
  have hcount : pcm.length / hopSamples = hops.length := by
    rw [← hsamples, List.length_append, hflat, Nat.add_comm, Nat.add_mul_div_right _ _ (by decide),
      Nat.div_eq_of_lt hleft, Nat.zero_add]
  constructor
  · refine List.ext_getElem (by rw [hopsOf_length, hcount]) fun k hk hk' => ?_
    have hget : hops[k]? = some hops[k] := List.getElem?_eq_getElem hk
    simp only [hopsOf, List.getElem_map, List.getElem_range]
    rw [SourceHop.mk.injEq]
    refine ⟨htiles.start_of_forall_eq hvalid hget, ?_, hvalid _ (List.getElem_mem hk)⟩
    rw [← hsamples, sample_flatMap_append hshape hget]
  · rw [leftOver, hcount, ← hflat, ← hsamples, List.drop_left]

/-! ## The hops of a reader at work -/

section Received

variable {settings : ServerSettings} {st : Stream κ}

/-- Before the flush, the hops are those of the accepted samples, and the rest is pending. -/
theorem Intake.hops_eq (h : Intake settings st) (hr : st.reader ≠ .done)
    (hu : st.reader.unflushed = true) :
    st.history.hops = hopsOf st.session.inputStartSample (pcmOf st.history.accepted) ∧
      st.session.rechunker.parts.flatten = leftOver (pcmOf st.history.accepted) := by
  have hrec := h.received (.inl hr)
  refine hopsOf_unique h.tiles (hrec.whole hu) (fun hop hmem => (h.shape hop hmem).1)
    (hrec.samples hu) ?_
  have hcounted : st.session.rechunker.parts.flatten.length =
    st.session.rechunker.pendingSamples := hrec.settled.counted
  rw [hcounted]
  exact hrec.settled.residue

/-- The flush returns the remainder. -/
theorem Intake.flushPartial_eq (h : Intake settings st) (hr : st.reader = .reading false) :
    (∃ rechunker, st.session.rechunker.flushPartial = .ok
      (remainder? st.session.inputStartSample (pcmOf st.history.accepted), rechunker)) ∧
      (st.session.inputSamples = 0 ↔ pcmOf st.history.accepted = []) := by
  have hu : st.reader.unflushed = true := by rw [hr]; rfl
  have hrec := h.received (.inl (by simp [hr]))
  obtain ⟨hhops, hleft⟩ := h.hops_eq (by simp [hr]) hu
  have hinput : st.session.inputSamples = total AudioChunk.samples st.history.accepted :=
    hrec.inputSamples
  have hcounted : st.session.rechunker.parts.flatten.length =
    st.session.rechunker.pendingSamples := hrec.settled.counted
  rw [hleft] at hcounted
  constructor
  · rcases PCMRechunker.flushPartial_ok hrec.settled with ⟨hzero, hflush⟩ | ⟨hop, r', hpos, hflush,
      hstart, hvalid, hsamples, -⟩
    · have hnone : leftOver (pcmOf st.history.accepted) = [] :=
        List.length_eq_zero_iff.mp (hcounted.trans hzero)
      rw [remainder?, if_pos hnone]
      exact ⟨_, hflush⟩
    · have hsome : leftOver (pcmOf st.history.accepted) ≠ [] := by
        intro hnone
        rw [hnone] at hcounted
        exact hpos.ne hcounted
      have hnext : st.session.rechunker.nextSample = st.session.inputStartSample +
          total SourceHop.validSamples st.history.hops := hrec.next
      have htotal : total SourceHop.validSamples st.history.hops =
          st.history.hops.length * hopSamples := total_of_forall_eq (hrec.whole hu)
      change hop.startSample = st.session.rechunker.nextSample at hstart
      change hop.validSamples = st.session.rechunker.pendingSamples at hvalid
      change hop.samples = st.session.rechunker.parts.flatten ++
        List.replicate (hopSamples - st.session.rechunker.pendingSamples) 0 at hsamples
      rw [hnext, htotal, hhops, hopsOf_length, Nat.mul_comm] at hstart
      rw [hleft] at hsamples
      rw [remainder?, if_neg hsome, hcounted]
      refine ⟨r', hflush.trans (congrArg (fun hop => Except.ok (some hop, r')) ?_)⟩
      rw [← hstart, ← hsamples, ← hvalid]
  · rw [hinput, ← pcmOf_length, List.length_eq_zero_iff]

end Received

/-! ## The hops of any stream -/

/-- The hops are those of the accepted samples, with or without the remainder. -/
def Sliced (st : Stream κ) : Prop :=
  st.history.hops = hopsOf st.session.inputStartSample (pcmOf st.history.accepted) ∨
  ∃ hop, remainder? st.session.inputStartSample (pcmOf st.history.accepted) = some hop ∧
    st.history.hops = hopsOf st.session.inputStartSample (pcmOf st.history.accepted) ++ [hop]

section Sliced

variable {settings : ServerSettings} {st st' : Stream κ}

theorem Sliced.frame (h : Sliced st) (hhops : st'.history.hops = st.history.hops)
    (haccepted : st'.history.accepted = st.history.accepted)
    (hstart : st'.session.inputStartSample = st.session.inputStartSample) : Sliced st' := by
  rw [Sliced, hhops, haccepted, hstart]
  exact h

theorem Sliced.same (h : Sliced st) (hside : st'.readerSide = st.readerSide) : Sliced st' :=
  h.frame (congrArg ReaderSide.hops hside) (congrArg ReaderSide.accepted hside)
    (congrArg ReaderSide.inputStartSample hside)

theorem Sliced.finishInput (h : Sliced st) (hintake : Intake settings st)
    (hr : st.reader = .reading false) (flush : Bool) (m : Metrics) :
    Sliced (finishInput flush st m).1 := by
  have hfinished := finishInput_finished flush st m
  generalize (Server.finishInput flush st m).1 = st' at hfinished ⊢
  cases hfinished with
  | noFlush _ => exact h.frame rfl rfl rfl
  | failed failure m' => exact h.frame rfl rfl rfl
  | hop hop rechunker _ hp =>
      obtain ⟨⟨rechunker', hflush⟩, -⟩ := hintake.flushPartial_eq hr
      have hresult := congrArg Prod.fst (Except.ok.inj (hflush.symm.trans hp))
      refine .inr ⟨hop, hresult, ?_⟩
      exact congrArg (· ++ [hop]) (hintake.hops_eq (by simp [hr]) (by rw [hr]; rfl)).1
  | nothing rechunker m' _ _ _ =>
      have hflushed : Sliced (st.flushes rechunker (.reading true)) := h.frame rfl rfl rfl
      exact hflushed.same (complete_readerSide true _ m')
  | flush rechunker _ _ _ => exact h.frame rfl rfl rfl

theorem Sliced.readMessage (h : Sliced st) (hintake : Intake settings st) {sawEnd : Bool}
    (hr : st.reader = .reading sawEnd) (message : ClientMessage) (m : Metrics) :
    Sliced (readMessage settings sawEnd message st m).1 := by
  have hread := readMessage_read settings sawEnd message st m
  generalize Server.readMessage settings sawEnd message st m = next at hread ⊢
  cases hread with
  | afterEnd _ => exact h.frame rfl rfl rfl
  | duplicateStart _ => exact h.frame rfl rfl rfl
  | empty => exact h.frame rfl rfl rfl
  | accepted chunk st' m' ha =>
      have hcounted : st.session.rechunker.Counted :=
        (hintake.received (.inl (by simp [hr]))).settled.counted
      obtain ⟨-, hops, rechunker, rfl, hd⟩ := acceptAudio_ok_cases hcounted ha
      refine .inl ((hintake.accepts hr hd).hops_eq ?_ ?_).1
      · cases hops <;> nofun
      · cases hops <;> rfl
  | refused chunk st' m' violation ha =>
      obtain ⟨hhistory, hstart, -, -⟩ := acceptAudio_error ha
      exact h.frame (congrArg History.hops hhistory) (congrArg History.accepted hhistory) hstart
  | ended flush => exact h.finishInput hintake hr flush m

theorem Sliced.afterPut (h : Sliced st) (m : Metrics) : Sliced (afterPut st m).1 := by
  rcases afterPut_cases st m with ⟨reader, heq⟩ | heq
  · rw [heq]
    exact h.frame rfl rfl rfl
  · rw [heq]
    have hread : Sliced { st with reader := .reading true } := h.frame rfl rfl rfl
    exact hread.same (complete_readerSide true _ m)

theorem sliced_new (settings : ServerSettings) (model : StreamingModel κ) (start : StartStream) :
    Sliced (Stream.admitted settings model start) := .inl (hopsOf_nil _).symm

theorem sliced_invariant (settings : ServerSettings) (model : StreamingModel κ) (env : Env κ) :
    LocalInvariant settings model env fun st _ => Intake settings st ∧ Sliced st :=
  (intake_invariant settings model env).and (sliced_new settings model)
    (fun start => (sliced_new settings model start).frame rfl rfl rfl)
    (fun start _ => (sliced_new settings model start).frame rfl rfl rfl)
    fun st fl st' fl' hintake h hr => by
      cases hr with
      | read message m hr => exact h.readMessage hintake hr message m
      | eof m _ =>
          unfold Server.readEof
          split <;> exact h.frame rfl rfl rfl
      | readFail failure m _ => exact h.frame rfl rfl rfl
      | put scheduled m _ _ =>
          refine Sliced.afterPut ?_ m
          exact h.frame rfl rfl rfl
      | putOverflow scheduled m _ _ => exact h.frame rfl rfl rfl
      | afterAccepted m _ => exact h.frame rfl rfl rfl
      | afterAudio m _ => exact h.frame rfl rfl rfl
      | handle m m' _ _ hh => exact h.same (handleEvent_offGenerator hh).readerSide
      | handleRaise m m' _ _ _ => exact h.frame rfl rfl rfl
      | finish m _ => exact h.frame rfl rfl rfl
      | take m => exact h.same (takeWork_offScheduler st m).readerSide
      | apply m _ _ scheduled => exact h.same (applyResult_offScheduler _ _ _ st m).readerSide
      | applyRaised m _ _ => exact h.same (applyResult_offScheduler _ _ _ st m).readerSide
      | fail m => exact h.frame rfl rfl rfl

end Sliced

theorem reachable_sliced {settings : ServerSettings} {model : StreamingModel κ}
    {s : ServerState κ} (h : (system settings model).Reachable s) {i : Nat} {st : Stream κ}
    (hst : s.streams[i]? = some st) : Sliced st :=
  (reachable_stream model.delivers_any (fun _ _ => trivial)
    (sliced_invariant settings model Env.any) h hst).2

end VoxLattice.Server
