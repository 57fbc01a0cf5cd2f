import VoxLattice.Plugin.Runs

/-!
# Enhanced audio stays aligned

Every byte the processor stores has an absolute position.  The raw buffer holds an interval of
the input (`ContiguousPCM.Holds`), and every sample of the stored segments comes from a response
that the current generation sent for that very position (`SentFor`).  No block of any thread
disturbs this, whatever the worker hands in, so a frame put together from one of the two buffers
is aligned.
-/

namespace VoxLattice.Plugin

open Server (Bytes)
open Samples

/-- The response gives this sample for the position. -/
structure ReceivedAudio.Gives (audio : ReceivedAudio) (position : Nat) (x : Bytes) : Prop where
  low : audio.startSample ≤ position
  high : position < audio.startSample + audio.pcmS16le.length / 2
  eq : sample 2 audio.pcmS16le (position - audio.startSample) = x

/-- A response of the generation gives this sample for the position. -/
def SentFor (stored : List ReceivedAudio) (generation position : Nat) (x : Bytes) : Prop :=
  ∃ audio ∈ stored, audio.generation = generation ∧ audio.Gives position x

/-- The frame covers an interval from its start on, all of it with the input at its positions,
or all of it with audio the generation sent for them. -/
structure Returned.Aligned (input : Bytes) (r : Returned) : Prop where
  length : r.frame.data.length = r.frame.samplesPerChannel * 2
  source : r.frame.data = slice 2 input r.start r.frame.samplesPerChannel ∨
    ∀ k, k < r.frame.samplesPerChannel →
      SentFor r.stored r.generation (r.start + k) (sample 2 r.frame.data k)

/-- The processor's buffers are right for their positions. -/
structure Buffers (p : RemoteFastEnhancer) (input : Bytes) (stored : List ReceivedAudio) :
    Prop where
  length : input.length = p.inputCursor * 2
  raw : p.raw.Holds input
  enhanced : p.enhanced.Stamped (SentFor stored p.remoteGeneration)

/-- The invariant of the processor. -/
structure Aligned (s : ProcessorState) : Prop where
  buffers : Buffers s.processor s.input s.stored
  returned : ∀ r ∈ s.returned, r.passthrough = false → r.Aligned s.input

/-! ## Growing histories -/

theorem slice_append {data : Bytes} {k n : Nat} (h : (slice 2 data k n).length = n * 2)
    (rest : Bytes) : slice 2 (data ++ rest) k n = slice 2 data k n := by
  rw [slice, List.length_take, List.length_drop] at h
  cases n with
  | zero => rw [slice, slice, Nat.zero_mul, List.take_zero, List.take_zero]
  | succ n =>
      rw [slice, slice, List.drop_append_of_le_length (by omega),
        List.take_append_of_le_length (by rw [List.length_drop]; omega)]

theorem Returned.Aligned.grow {input : Bytes} {r : Returned} (h : r.Aligned input)
    (rest : Bytes) : r.Aligned (input ++ rest) where
  length := h.length
  source := h.source.imp_left fun hraw => by
    rw [slice_append (by rw [← hraw]; exact h.length)]
    exact hraw

theorem SentFor.grow {stored : List ReceivedAudio} {generation position : Nat} {x : Bytes}
    (h : SentFor stored generation position x) (more : List ReceivedAudio) :
    SentFor (stored ++ more) generation position x := by
  obtain ⟨audio, hmem, hgives⟩ := h
  exact ⟨audio, List.mem_append_left _ hmem, hgives⟩

/-- A response gives its own samples. -/
theorem gives_stamped (audio : ReceivedAudio) :
    Stamped 2 audio.Gives audio.startSample audio.pcmS16le := by
  intro k hk
  refine ⟨Nat.le_add_right _ k, ?_, ?_⟩
  · omega
  · rw [Nat.add_sub_cancel_left]

/-! ## The blocks -/

section Blocks

variable {p : RemoteFastEnhancer} {input : Bytes} {stored : List ReceivedAudio}

/-- A block that keeps the cursor, the buffers and the generation. -/
theorem Buffers.same {p' : RemoteFastEnhancer} (h : Buffers p input stored)
    (hcursor : p'.inputCursor = p.inputCursor) (hraw : p'.raw = p.raw)
    (henhanced : p'.enhanced = p.enhanced)
    (hgeneration : p'.remoteGeneration = p.remoteGeneration) :
    Buffers p' input stored where
  length := hcursor ▸ h.length
  raw := hraw ▸ h.raw
  enhanced := by
    rw [henhanced, hgeneration]
    exact h.enhanced

theorem Buffers.cleared {p' : RemoteFastEnhancer} (h : Buffers p input stored)
    (hcursor : p'.inputCursor = p.inputCursor) (hraw : p'.raw.Holds input)
    (henhanced : p'.enhanced = p.enhanced.clear) : Buffers p' input stored where
  length := hcursor ▸ h.length
  raw := hraw
  enhanced := by
    rw [henhanced]
    exact EnhancedSegments.stamped_clear p.enhanced

theorem Buffers.setEnabled (h : Buffers p input stored) (value : Bool) :
    Buffers (p.setEnabled value).1 input stored := by
  unfold RemoteFastEnhancer.setEnabled
  split
  · exact h
  · split
    · exact h
    · exact h.cleared rfl (.clearAt h.length.ge p.raw) rfl

theorem Buffers.endClose (h : Buffers p input stored) : Buffers p.endClose input stored :=
  h.cleared rfl (.clearAt h.length.ge p.raw) rfl

theorem Buffers.generationChanged (h : Buffers p input stored) (generation : Nat)
    (state : TransportState) : Buffers (p.generationChanged generation state) input stored := by
  unfold RemoteFastEnhancer.generationChanged
  dsimp only
  split
  · exact h.cleared rfl h.raw rfl
  · exact h.same rfl rfl rfl rfl

theorem Buffers.protocolError (h : Buffers p input stored) (generation : Nat) :
    Buffers (p.protocolError generation) input stored := by
  unfold RemoteFastEnhancer.protocolError
  split
  · exact h.cleared rfl h.raw rfl
  · exact h

theorem Buffers.overflow (h : Buffers p input stored) : Buffers p.overflow input stored :=
  h.cleared rfl h.raw rfl

/-- A response is stored with its own positions, or not at all. -/
theorem Buffers.receiveAudio (h : Buffers p input stored) (generation start : Nat) (pcm : Bytes) :
    Buffers (p.receiveAudio generation start pcm).1 input
      (if (p.receiveAudio generation start pcm).2 = .stored then
        stored ++ [⟨generation, start, pcm⟩] else stored) := by
  unfold RemoteFastEnhancer.receiveAudio
  dsimp only
  split
  · exact h.same rfl rfl rfl rfl
  · next hgeneration =>
      rw [ne_eq, Decidable.not_not] at hgeneration
      split
      · exact h.same rfl rfl rfl rfl
      · split
        · exact h.same rfl rfl rfl rfl
        · split
          · next enhanced hinsert =>
              rw [if_pos rfl]
              refine ⟨h.length, h.raw, ?_⟩
              have hgives := (gives_stamped ⟨generation, start, pcm⟩).drop (p.outputCursor - start)
              have hpart : Stamped 2
                  (SentFor (stored ++ [⟨generation, start, pcm⟩]) p.remoteGeneration)
                  (max start p.outputCursor) (pcm.drop ((p.outputCursor - start) * 2)) := by
                rw [show max start p.outputCursor = start + (p.outputCursor - start) by omega]
                exact hgives.mono fun position x hx =>
                  ⟨_, List.mem_append_right _ List.mem_cons_self, hgeneration, hx⟩
              have hold : p.enhanced.Stamped
                  (SentFor (stored ++ [⟨generation, start, pcm⟩]) p.remoteGeneration) :=
                h.enhanced.mono fun position x hx => hx.grow _
              exact hold.insert hpart hinsert
          · exact h.cleared rfl h.raw rfl

/-- A frame that passed the checks is taken. -/
theorem Buffers.takeFrame (h : Buffers p input stored) {frame : AudioFrame}
    (hframe : frame.data.length = frame.samplesPerChannel * 2) :
    Buffers (p.takeFrame frame).1 (if p.closed then input else input ++ frame.data) stored := by
  have hgrown : (input ++ frame.data).length = (p.inputCursor + frame.samplesPerChannel) * 2 := by
    rw [List.length_append, h.length, hframe, Nat.add_mul]
  unfold RemoteFastEnhancer.takeFrame
  dsimp only
  split
  · exact h
  · split
    · exact ⟨hgrown, h.raw.grow frame.data, h.enhanced⟩
    · split
      · exact ⟨hgrown, h.raw.grow frame.data, h.enhanced⟩
      · next raw happend =>
          exact ⟨hgrown, h.raw.append h.length.symm happend, h.enhanced⟩

/-- What is read is the input, or audio the generation sent. -/
theorem Buffers.readOutput (h : Buffers p input stored) {count : Nat} {output : Bytes}
    {enhanced : Bool} (hread : p.readOutput count = .ok (output, enhanced)) :
    output.length = count * 2 ∧ (output = slice 2 input p.outputCursor count ∨
      Stamped 2 (SentFor stored p.remoteGeneration) p.outputCursor output) := by
  unfold RemoteFastEnhancer.readOutput at hread
  split at hread
  · next bytes hbytes =>
      cases hread
      split at hbytes
      · next hzero =>
          cases hbytes
          rw [hzero]
          exact ⟨rfl, .inr (stamped_nil (by decide) p.outputCursor)⟩
      · obtain ⟨hlen, hstamped⟩ := h.enhanced.read hbytes
        exact ⟨hlen, .inr hstamped⟩
  · cases hraw : p.raw.read p.outputCursor count with
    | error _ =>
        rw [hraw] at hread
        cases hread
    | ok bytes =>
        rw [hraw] at hread
        cases hread
        obtain ⟨hlen, heq⟩ := h.raw.read_eq hraw
        exact ⟨hlen, .inl heq⟩

/-- The last block of `_process` leaves the buffers right and returns an aligned frame. -/
theorem Buffers.emitFrame (h : Buffers p input stored) (config : RemoteFastEnhancerConfig)
    (frame : AudioFrame) : Buffers (p.emitFrame config frame).1 input stored ∧
      ∀ output, (p.emitFrame config frame).2 = .ok output →
        Returned.Aligned input ⟨false, p.outputCursor, p.remoteGeneration, stored, output⟩ := by
  unfold RemoteFastEnhancer.emitFrame
  dsimp only
  generalize RemoteFastEnhancer.outputSamples config frame.samplesPerChannel p = count
  cases hread : p.readOutput count with
  | error _ => exact ⟨h, nofun⟩
  | ok result =>
      obtain ⟨output, enhanced⟩ := result
      refine ⟨⟨h.length, h.raw.discardBefore _, h.enhanced.discardBefore _⟩, ?_⟩
      rintro _ ⟨⟩
      obtain ⟨hlen, hsource⟩ := h.readOutput hread
      refine ⟨hlen, hsource.imp_right fun hstamped k hk => hstamped k ?_⟩
      rw [hlen]
      exact Nat.mul_le_mul_right 2 hk

end Blocks

/-! ## The runs -/

section Runs

variable {config : RemoteFastEnhancerConfig} {s s' : ProcessorState}

theorem Aligned.process (h : Aligned s) (frame : AudioFrame) :
    Aligned (s.process config frame) := by
  unfold ProcessorState.process
  split
  · exact h
  · next hcheck =>
      have hbuffers := h.buffers.takeFrame (checkFrame_ok hcheck)
      have hold : ∀ r ∈ s.returned, r.passthrough = false →
          r.Aligned (if s.processor.closed then s.input else s.input ++ frame.data) := by
        intro r hr hpass
        split
        · exact h.returned r hr hpass
        · exact (h.returned r hr hpass).grow frame.data
      dsimp only
      split
      · next processor _ htake =>
          rw [htake] at hbuffers
          exact ⟨hbuffers, hold⟩
      · next processor htake =>
          rw [htake] at hbuffers
          refine ⟨hbuffers, fun r hr hpass => ?_⟩
          obtain hr | hr := List.mem_append.mp hr
          · exact hold r hr hpass
          · obtain rfl := List.mem_singleton.mp hr
            cases hpass
      · next processor _ htake =>
          rw [htake] at hbuffers
          exact ⟨hbuffers, hold⟩

theorem Aligned.emit (h : Aligned s) (frame : AudioFrame) : Aligned (s.emit config frame) := by
  obtain ⟨hbuffers, houtput⟩ := h.buffers.emitFrame config frame
  unfold ProcessorState.emit
  split
  · next processor output hemit =>
      rw [hemit] at hbuffers houtput
      refine ⟨hbuffers, fun r hr hpass => ?_⟩
      obtain hr | hr := List.mem_append.mp hr
      · exact h.returned r hr hpass
      · obtain rfl := List.mem_singleton.mp hr
        exact houtput output rfl
  · next processor _ hemit =>
      rw [hemit] at hbuffers
      exact ⟨hbuffers, h.returned⟩

theorem Aligned.step {e : ProcessorEvent} (h : Aligned s) (hs : s.step config e = some s') :
    Aligned s' := by
  cases ProcessorState.step_stepped hs with
  | process frame _ => exact h.process frame
  | trySend sent _ => exact ⟨h.buffers, h.returned⟩
  | overflow _ => exact ⟨h.buffers.overflow, h.returned⟩
  | forceReset _ => exact ⟨h.buffers, h.returned⟩
  | resetRaised _ => exact ⟨h.buffers, h.returned⟩
  | emit _ => exact h.emit _
  | setEnabled value => exact ⟨h.buffers.setEnabled value, h.returned⟩
  | beginClose =>
      refine ⟨?_, h.returned⟩
      change Buffers s.processor.beginClose.1 s.input s.stored
      unfold RemoteFastEnhancer.beginClose
      split
      · exact h.buffers
      · exact h.buffers.same rfl rfl rfl rfl
  | endClose _ => exact ⟨h.buffers.endClose, h.returned⟩
  | streamInfoUpdated room participant publication =>
      exact ⟨h.buffers.same rfl rfl rfl rfl, h.returned⟩
  | streamInfoCleared => exact ⟨h.buffers.same rfl rfl rfl rfl, h.returned⟩
  | generationChanged generation state =>
      exact ⟨h.buffers.generationChanged generation state, h.returned⟩
  | protocolError generation => exact ⟨h.buffers.protocolError generation, h.returned⟩
  | receiveAudio generation start pcm =>
      exact ⟨h.buffers.receiveAudio generation start pcm, h.returned⟩

theorem aligned_init : Aligned (.init config) where
  buffers :=
    ⟨rfl, ⟨rfl, List.nil_prefix, Nat.zero_le _⟩, fun _ hmem => absurd hmem List.not_mem_nil⟩
  returned _ hmem := absurd hmem List.not_mem_nil

/-- Whatever the threads do and the worker hands in, every frame returned while the processor is
enabled covers an interval from the output cursor on, all of it with the input at its positions,
or all of it with audio that the generation of that moment sent for those positions. -/
theorem returned_frames_aligned (h : (processorSystem config).Reachable s) {r : Returned}
    (hr : r ∈ s.returned) (hpass : r.passthrough = false) : r.Aligned s.input := by
  have haligned : Aligned s := Lts.System.Reachable.invariant aligned_init
    (fun s e s' h hstep => h.step hstep.eq) h
  exact haligned.returned r hr hpass

/-- A frame of 512 samples is answered in time, and 64 samples of the answer are returned. -/
theorem returned_frames_aligned_enhanced :
    ∃ s r, (processorSystem testConfig).run (.init testConfig)
        [.generationChanged 1 .active, .process (testFrame 512 1), .trySend true,
          .receiveAudio 1 0 (List.replicate 512 7), .emit] = some s ∧
      r ∈ s.returned ∧ r.frame.data = List.replicate 128 7 ∧ r.Aligned s.input := by
  obtain ⟨s, hrun, hreach, hp⟩ := Lts.System.Reachable.of_run (processorSystem testConfig)
    [.generationChanged 1 .active, .process (testFrame 512 1), .trySend true,
      .receiveAudio 1 0 (List.replicate 512 7), .emit]
    (fun (s : ProcessorState) => s.returned.head?.any fun (r : Returned) => !r.passthrough &&
      decide (r.frame.data = List.replicate 128 7))
    (by decide +kernel) (by decide +kernel)
  cases hr : s.returned.head? with
  | none =>
      rw [hr] at hp
      cases hp
  | some r =>
      rw [hr, Option.any_some, Bool.and_eq_true, Bool.not_eq_true', decide_eq_true_eq] at hp
      have hmem := List.mem_of_mem_head? hr
      exact ⟨s, r, hrun, hmem, hp.2, returned_frames_aligned hreach hmem hp.1⟩

end Runs

end VoxLattice.Plugin
