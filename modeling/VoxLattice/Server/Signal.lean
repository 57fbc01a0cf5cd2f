import VoxLattice.Lib.Timelines
import VoxLattice.Server.Chunking
import VoxLattice.Server.Serving
import VoxLattice.Server.Slicing

/-!
# The signal of a stream

The chunks that a stream accepts are adjacent (`reachable_adjacent`), so together they are one
signal.  `signalHops` cuts a signal into hops as the reader and its flush do, and the hops of a
stream are those of its signal, or of a beginning of it (`Sliced.exists_signal`).

`enhancedPcm` is what the model makes of a signal offline, and `EnhancedAt` reads a sample of it at
a position of the stream.  Every sample that the server emits is one of these
(`emitted_enhancedAt`).
-/

namespace VoxLattice.Server

open Intervals Samples Tensors Upstream

/-! ## Decoding -/

section Decoding

variable {K : Type*} [Field K]

theorem decodeSamples_take (value : Bytes) (n : Nat) :
    (decodeSamples (value.take (n * 2)) : List K) = (decodeSamples value).take n := by
  induction n generalizing value with
  | zero => simp [decodeSamples]
  | succ n ih =>
      rcases value with _ | ⟨lo, _ | ⟨hi, rest⟩⟩
      · simp [decodeSamples]
      · simp [decodeSamples, Nat.succ_mul]
      · rw [Nat.succ_mul, List.take_succ_cons, List.take_succ_cons, decodeSamples, decodeSamples,
          List.take_succ_cons, ih]

theorem decodeSamples_flatMap {β : Type*} {pcm : β → Bytes} {l : List β}
    (heven : ∀ b ∈ l, (pcm b).length % 2 = 0) :
    (decodeSamples (l.flatMap pcm) : List K) = l.flatMap fun b => decodeSamples (pcm b) := by
  induction l with
  | nil => rfl
  | cons b l ih =>
      obtain ⟨hb, hl⟩ := List.forall_mem_cons.mp heven
      rw [List.flatMap_cons, decodeSamples_append _ hb, ih hl, List.flatMap_cons]

end Decoding

/-! ## Adjacent chunks -/

section Adjacent

variable {κ : Type*} {settings : ServerSettings} {st st' : Stream κ}

/-- The accepted chunks are adjacent, from the first sample of the stream on. -/
def AdjacentChunks (st : Stream κ) : Prop :=
  Adjacent (·.inputStartSample.toNat) AudioChunk.samples st.session.inputStartSample
    st.history.accepted

theorem AdjacentChunks.frame (h : AdjacentChunks st)
    (haccepted : st'.history.accepted = st.history.accepted)
    (hstart : st'.session.inputStartSample = st.session.inputStartSample) :
    AdjacentChunks st' := by
  rw [AdjacentChunks, haccepted, hstart]
  exact h

theorem AdjacentChunks.same (h : AdjacentChunks st) (hside : st'.readerSide = st.readerSide) :
    AdjacentChunks st' :=
  h.frame (congrArg ReaderSide.accepted hside) (congrArg ReaderSide.inputStartSample hside)

theorem AdjacentChunks.finishInput (h : AdjacentChunks st) (flush : Bool) (m : Metrics) :
    AdjacentChunks (finishInput flush st m).1 := by
  have hfinished := finishInput_finished flush st m
  generalize (Server.finishInput flush st m).1 = st' at hfinished ⊢
  cases hfinished with
  | nothing rechunker m' _ _ _ =>
      have hflushed : AdjacentChunks (st.flushes rechunker (.reading true)) := h.frame rfl rfl
      exact hflushed.same (complete_readerSide true _ m')
  | _ => exact h.frame rfl rfl

/-- A chunk that is accepted begins where the chunks before it end. -/
theorem AdjacentChunks.readMessage (h : AdjacentChunks st) (hintake : Intake settings st)
    {sawEnd : Bool} (hr : st.reader = .reading sawEnd) (message : ClientMessage) (m : Metrics) :
    AdjacentChunks (readMessage settings sawEnd message st m).1 := by
  have hread := readMessage_read settings sawEnd message st m
  generalize Server.readMessage settings sawEnd message st m = next at hread ⊢
  cases hread with
  | accepted chunk st' m' ha =>
      have hrec := hintake.received (.inl (by simp [hr]))
      obtain ⟨hfits, hops, rechunker, rfl, -⟩ := acceptAudio_ok_cases hrec.settled.counted ha
      refine adjacent_append.mpr ⟨h, ?_, trivial⟩
      have hoffset := hrec.offset
      have hinput := hrec.inputSamples
      change st.session.expectedInputSample = st.session.inputStartSample +
        st.session.inputSamples at hoffset
      change st.session.inputSamples = total AudioChunk.samples st.history.accepted at hinput
      change chunk.inputStartSample.toNat = st.session.inputStartSample +
        total AudioChunk.samples st.history.accepted
      rw [hfits.offset, hoffset, hinput]
  | refused chunk st' m' violation ha =>
      obtain ⟨hhistory, hstart, -, -⟩ := acceptAudio_error ha
      exact h.frame (congrArg History.accepted hhistory) hstart
  | ended flush => exact h.finishInput flush m
  | _ => exact h.frame rfl rfl

theorem AdjacentChunks.afterPut (h : AdjacentChunks st) (m : Metrics) :
    AdjacentChunks (afterPut st m).1 := by
  rcases afterPut_cases st m with ⟨reader, heq⟩ | heq
  · rw [heq]
    exact h.frame rfl rfl
  · rw [heq]
    have hread : AdjacentChunks { st with reader := .reading true } := h.frame rfl rfl
    exact hread.same (complete_readerSide true _ m)

theorem adjacent_invariant (settings : ServerSettings) (model : StreamingModel κ) (env : Env κ) :
    LocalInvariant settings model env fun st _ => Intake settings st ∧ AdjacentChunks st :=
  (intake_invariant settings model env).and (fun _ => trivial) (fun _ => trivial)
    (fun _ _ => trivial)
    fun st fl st' fl' hintake h hr => by
      cases hr with
      | read message m hr => exact h.readMessage hintake hr message m
      | eof m _ =>
          unfold Server.readEof
          split <;> exact h.frame rfl rfl
      | put scheduled m _ _ =>
          refine AdjacentChunks.afterPut ?_ m
          exact h.frame rfl rfl
      | handle m m' _ _ hh => exact h.same (handleEvent_offGenerator hh).readerSide
      | take m => exact h.same (takeWork_offScheduler st m).readerSide
      | apply m _ _ scheduled => exact h.same (applyResult_offScheduler _ _ _ st m).readerSide
      | applyRaised m _ _ => exact h.same (applyResult_offScheduler _ _ _ st m).readerSide
      | _ => exact h.frame rfl rfl

theorem reachable_adjacent {model : StreamingModel κ} {s : ServerState κ}
    (h : (system settings model).Reachable s) {i : Nat} (hst : s.streams[i]? = some st) :
    AdjacentChunks st :=
  (reachable_stream model.delivers_any (fun _ _ => trivial)
    (adjacent_invariant settings model Env.any) h hst).2

/-- Chunks that carry excerpts of a signal, and are adjacent, carry a piece of it. -/
theorem AdjacentChunks.pcmOf_eq (h : AdjacentChunks st) {input : Bytes}
    (hslice : ∀ chunk ∈ st.history.accepted, chunk.pcmS16le.length = chunk.samples * 2 ∧
      chunk.pcmS16le = slice 2 input chunk.inputStartSample.toNat chunk.samples) :
    pcmOf st.history.accepted = decodeSamples (slice 2 input st.session.inputStartSample
      (total AudioChunk.samples st.history.accepted)) := by
  rw [← h.flatMap_slice fun chunk hmem => (hslice chunk hmem).2, decodeSamples_flatMap]
  · rfl
  · intro chunk hmem
    rw [(hslice chunk hmem).1, Nat.mul_mod_left]

end Adjacent

/-! ## The hops of a signal -/

/-- The hops of a signal that begins at an offset, with the remainder at the end. -/
def signalHops (start : Nat) (signal : Tensor) : List SourceHop :=
  hopsOf start signal ++ (remainder? start signal).toList

/-- What lies behind the full hops does not change them. -/
theorem signalHops_take (start : Nat) (signal : Tensor) :
    signalHops start (signal.take (signal.length / hopSamples * hopSamples)) =
      hopsOf start signal := by
  have hlen : (signal.take (signal.length / hopSamples * hopSamples)).length =
      signal.length / hopSamples * hopSamples := by
    rw [List.length_take]
    exact Nat.min_eq_left (Nat.div_mul_le_self _ _)
  have hcount : (signal.take (signal.length / hopSamples * hopSamples)).length / hopSamples =
      signal.length / hopSamples := by
    rw [hlen, Nat.mul_div_cancel _ (by decide : 0 < hopSamples)]
  have hnone : remainder? start (signal.take (signal.length / hopSamples * hopSamples)) = none := by
    rw [remainder?, if_pos]
    rw [leftOver, hcount, List.drop_eq_nil_of_le hlen.le]
  rw [signalHops, hnone, Option.toList_none, List.append_nil, hopsOf, hopsOf, hcount]
  refine List.map_congr_left fun k hk => ?_
  rw [sample_take (List.mem_range.mp hk)]

/-- The hops of a stream are those of its signal, or of a beginning of it. -/
theorem Sliced.exists_signal {κ : Type*} {st : Stream κ} (h : Sliced st) :
    ∃ n ≤ (pcmOf st.history.accepted).length, st.history.hops =
      signalHops st.session.inputStartSample ((pcmOf st.history.accepted).take n) := by
  rcases h with hhops | ⟨hop, hremainder, hhops⟩
  · exact ⟨_, Nat.div_mul_le_self _ _, hhops.trans (signalHops_take _ _).symm⟩
  · refine ⟨_, le_rfl, ?_⟩
    rw [List.take_length, signalHops, hremainder, Option.toList_some, hhops]

/-! ## The enhanced signal -/

namespace FastEnhancerBStreamingModel

variable {α : Type} [Elements α] {channels width : ℕ}
  (model : FastEnhancerBStreamingModel α channels width)

/-- What the model makes of a signal, up to the first row that is not finite. -/
def enhancedPcm (start : Nat) (signal : Tensor) : Bytes :=
  ((model.enhanced (signalHops start signal)).takeWhile Option.isSome).reduceOption.flatMap
    OutputAudio.pcmS16le

/-- The enhanced signal has this sample at a position. -/
structure EnhancedAt (start : Nat) (signal : Tensor) (position : Nat) (x : Bytes) : Prop where
  low : start ≤ position
  high : (position - start + 1) * 2 ≤ (model.enhancedPcm start signal).length
  eq : sample 2 (model.enhancedPcm start signal) (position - start) = x

variable {model}

theorem reduceOption_map_some {β : Type*} (l : List β) : (l.map some).reduceOption = l := by
  induction l with
  | nil => rfl
  | cons b l ih => rw [List.map_cons, List.reduceOption_cons_of_some, ih]

/-- A beginning of what the model gives the hops of a signal is a beginning of its samples. -/
theorem enhancedPcm_begins {start : Nat} {signal : Tensor} {emitted : List OutputAudio}
    (h : emitted.map some <+: model.enhanced (signalHops start signal)) :
    emitted.flatMap OutputAudio.pcmS16le <+: model.enhancedPcm start signal := by
  obtain ⟨rest, hrest⟩ := h
  have hsome : ∀ audio ∈ emitted.map some, audio.isSome = true := by
    intro audio hmem
    obtain ⟨out, -, rfl⟩ := List.mem_map.mp hmem
    rfl
  rw [enhancedPcm, ← hrest, List.takeWhile_append_of_pos hsome, List.reduceOption_append,
    reduceOption_map_some, List.flatMap_append]
  exact List.prefix_append _ _

/-- Every sample the server emits for a stream is one of the enhanced signal of the stream, at the
same position. -/
theorem emitted_enhancedAt {settings : ServerSettings} {s : ServerState (StreamCaches α)} {i : ℕ}
    {st : Stream (StreamCaches α)} (h : (system settings model.streamingModel).Reachable s)
    (hst : s.streams[i]? = some st) :
    ∃ n ≤ (pcmOf st.history.accepted).length, ∀ out ∈ st.history.emitted, ∀ position,
      out.startSample ≤ position → position < out.startSample + out.validSamples →
      model.EnhancedAt st.session.inputStartSample ((pcmOf st.history.accepted).take n) position
        (sample 2 out.pcmS16le (position - out.startSample)) := by
  obtain ⟨n, hn, hhops⟩ := (reachable_sliced h hst).exists_signal
  obtain ⟨-, haccounts⟩ := reachable_stream model.rowPerStream.delivers (fun _ _ => trivial)
    (ledger_invariant settings model.streamingModel) h hst
  have hbegins := emitted_begins h hst
  rw [hhops] at hbegins
  obtain ⟨rest, hrest⟩ := enhancedPcm_begins hbegins
  have htiles := haccounts.outputs.tiles.adjacent
  have hbytes : ∀ out ∈ st.history.emitted, out.pcmS16le.length = out.validSamples * 2 :=
    fun out hmem => (haccounts.outputs.bytes out hmem).trans (Nat.mul_comm _ _)
  refine ⟨n, hn, fun out hmem position hlow hhigh => ?_⟩
  have hwithin : (position - st.session.inputStartSample + 1) * 2 ≤
      (st.history.emitted.flatMap OutputAudio.pcmS16le).length := by
    rw [length_flatMap_total hbytes]
    obtain ⟨hstart, hend, -⟩ := haccounts.outputs.tiles.mem_bounds hmem
    exact Nat.mul_le_mul_right 2 (by omega)
  refine ⟨(htiles.le hmem).trans hlow, ?_, ?_⟩
  · rw [← hrest, List.length_append]
    exact hwithin.trans (Nat.le_add_right _ _)
  · rw [← hrest, sample_append_left hwithin, htiles.sample_flatMap hbytes hmem hlow hhigh]

end FastEnhancerBStreamingModel

end VoxLattice.Server
