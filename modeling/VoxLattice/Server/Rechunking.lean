import VoxLattice.Lib.Intervals
import VoxLattice.Server.Audio

/-!
# What the rechunker returns

`Drained` says what a drain leaves: the hops are full and adjacent, less than a hop is pending,
and no sample is lost, added or moved.  `append_ok` and `flushPartial_ok` are the specifications
the rest of the development uses; neither call ever reads an empty deque.
-/

namespace VoxLattice.Server

open Intervals

namespace PCMRechunker

/-- What `_drain_full_hops` returns. -/
structure Drained (r : PCMRechunker) (hops : List SourceHop) (r' : PCMRechunker) : Prop where
  settled : r'.Settled
  full : ∀ hop ∈ hops, hop.validSamples = hopSamples
  shape : ∀ hop ∈ hops, hop.samples.length = hopSamples
  tiles : Tiles SourceHop.startSample SourceHop.validSamples r.nextSample hops
  next : r'.nextSample = r.nextSample + total SourceHop.validSamples hops
  pending : total SourceHop.validSamples hops + r'.pendingSamples = r.pendingSamples
  samples : hops.flatMap SourceHop.samples ++ r'.parts.flatten = r.parts.flatten
  bound : r'.maxPendingSamples = r.maxPendingSamples

theorem drainCallLoop_spec (rounds : Nat) {r : PCMRechunker} (hr : r.Counted)
    (hrounds : r.pendingSamples ≤ rounds) :
    ∃ hops r', drainCallLoop rounds r = (.ok hops, r') ∧ Drained r hops r' := by
  induction rounds generalizing r with
  | zero =>
      refine ⟨[], r, rfl, ⟨hr, ?_⟩, ?_, ?_, trivial, ?_, ?_, ?_, rfl⟩
      · have hpos : 0 < hopSamples := by decide
        omega
      all_goals simp
  | succ rounds ih =>
      by_cases hfull : hopSamples ≤ r.pendingSamples
      · obtain ⟨r₁, htake, hparts, hcounted, hpending, hnext, hbound⟩ := takeCall_eq hr hfull
        have hpos : 0 < hopSamples := by decide
        have hcounted₁ : Counted { r₁ with nextSample := r.nextSample + hopSamples } := hcounted
        obtain ⟨hops, r', hloop, hd⟩ := ih hcounted₁ (by dsimp only; omega)
        have hlen : (r.parts.flatten.take hopSamples).length = hopSamples := by
          rw [List.length_take, hr]
          omega
        refine ⟨⟨r.nextSample, r.parts.flatten.take hopSamples, hopSamples⟩ :: hops, r', ?_, ?_⟩
        · rw [drainCallLoop, if_pos hfull, htake]
          dsimp only
          rw [hloop]
          rfl
        · refine ⟨hd.settled, ?_, ?_, ⟨rfl, hpos, hd.tiles⟩, ?_, ?_, ?_, hd.bound.trans hbound⟩
          · exact List.forall_mem_cons.mpr ⟨rfl, hd.full⟩
          · exact List.forall_mem_cons.mpr ⟨hlen, hd.shape⟩
          · rw [hd.next, total_cons]
            dsimp only
            omega
          · have hp := hd.pending
            rw [total_cons]
            dsimp only at hp ⊢
            omega
          · have hs := hd.samples
            dsimp only at hs
            rw [List.flatMap_cons, List.append_assoc, hs, hparts, List.take_append_drop]
      · refine ⟨[], r, ?_, ⟨hr, by omega⟩, ?_, ?_, trivial, ?_, ?_, ?_, rfl⟩
        · rw [drainCallLoop, if_neg hfull]
        all_goals simp

/-! ## An append -/

/-- A chunk that fits the bound is rechunked: the deque after it is what was pending and the
chunk. -/
theorem appendCall_ok {r : PCMRechunker} (hr : r.Counted) {pcmS16le : Bytes}
    (hsize : ¬ (pcmS16le.length = 0 ∨ pcmS16le.length % 2 ≠ 0))
    (hfit : r.pendingSamples + pcmS16le.length / 2 ≤ r.maxPendingSamples) :
    ∃ hops r', r.appendCall pcmS16le = (.ok hops, r') ∧ Drained { r with
      parts := r.parts ++ [decodeSamples pcmS16le]
      pendingSamples := r.pendingSamples + pcmS16le.length / 2 } hops r' := by
  have hcounted : Counted { r with
      parts := r.parts ++ [decodeSamples pcmS16le]
      pendingSamples := r.pendingSamples + pcmS16le.length / 2 } := by
    rw [Counted, List.flatten_append, List.length_append, hr, List.flatten_singleton,
      decodeSamples_length]
  obtain ⟨hops, r', hdrain, hd⟩ := drainCallLoop_spec _ hcounted (Nat.le_refl _)
  refine ⟨hops, r', ?_, hd⟩
  rw [appendCall, pcm16leToFloat32, if_neg hsize]
  dsimp only
  rw [decodeSamples_length, if_neg (Nat.not_lt.mpr hfit)]
  exact hdrain

/-- A chunk beyond the bound raises `BufferError`, before anything is stored. -/
theorem appendCall_full {r : PCMRechunker} {pcmS16le : Bytes}
    (hsize : ¬ (pcmS16le.length = 0 ∨ pcmS16le.length % 2 ≠ 0))
    (hfull : r.maxPendingSamples < r.pendingSamples + pcmS16le.length / 2) :
    r.appendCall pcmS16le = (.error (.buffer "per-stream input audio buffer is full"), r) := by
  rw [appendCall, pcm16leToFloat32, if_neg hsize]
  dsimp only
  rw [decodeSamples_length, if_pos hfull]

theorem append_ok {r : PCMRechunker} (hr : r.Counted) {pcmS16le : Bytes}
    (hsize : ¬ (pcmS16le.length = 0 ∨ pcmS16le.length % 2 ≠ 0))
    (hfit : r.pendingSamples + pcmS16le.length / 2 ≤ r.maxPendingSamples) :
    ∃ hops r', r.append pcmS16le = .ok (hops, r') ∧ Drained { r with
      parts := r.parts ++ [decodeSamples pcmS16le]
      pendingSamples := r.pendingSamples + pcmS16le.length / 2 } hops r' := by
  obtain ⟨hops, r', hcall, hd⟩ := appendCall_ok hr hsize hfit
  exact ⟨hops, r', by rw [append, hcall, returned], hd⟩

theorem append_full {r : PCMRechunker} {pcmS16le : Bytes}
    (hsize : ¬ (pcmS16le.length = 0 ∨ pcmS16le.length % 2 ≠ 0))
    (hfull : r.maxPendingSamples < r.pendingSamples + pcmS16le.length / 2) :
    r.append pcmS16le = .error (.buffer "per-stream input audio buffer is full") := by
  rw [append, appendCall_full hsize hfull, returned]

/-! ## The flush -/

/-- The hop a flush makes of the pending samples. -/
def partialHop (r : PCMRechunker) : SourceHop :=
  ⟨r.nextSample, r.parts.flatten ++ List.replicate (hopSamples - r.pendingSamples) 0,
    r.pendingSamples⟩

/-- What `flush_partial` does with less than a hop pending: nothing, or one hop of the valid
samples and silence. -/
theorem flushPartialCall_cases {r : PCMRechunker} (hr : r.Settled) :
    (r.pendingSamples = 0 ∧ r.flushPartialCall = (.ok none, r)) ∨
    (0 < r.pendingSamples ∧ ∃ r', r.flushPartialCall = (.ok (some r.partialHop), r') ∧
      r'.Settled ∧ r'.pendingSamples = 0 ∧ r'.nextSample = r.nextSample + r.pendingSamples ∧
      r'.maxPendingSamples = r.maxPendingSamples) := by
  by_cases hzero : r.pendingSamples = 0
  · exact .inl ⟨hzero, by rw [flushPartialCall, if_pos hzero]⟩
  · obtain ⟨r₁, htake, hparts, hcounted, hpending, hnext, hbound⟩ :=
      takeCall_eq hr.counted (Nat.le_refl r.pendingSamples)
    have hpos : 0 < hopSamples := by decide
    have hall : r.parts.flatten.take r.pendingSamples = r.parts.flatten :=
      List.take_of_length_le (by rw [hr.counted])
    rw [hall] at htake
    refine .inr ⟨by omega, { r₁ with nextSample := r.nextSample + r.pendingSamples }, ?_,
      ⟨hcounted, ?_⟩, ?_, rfl, hbound⟩
    · rw [flushPartialCall, if_neg hzero]
      dsimp only
      rw [htake, partialHop]
    · dsimp only
      omega
    · dsimp only
      omega

theorem flushPartial_ok {r : PCMRechunker} (hr : r.Settled) :
    (r.pendingSamples = 0 ∧ r.flushPartial = .ok (none, r)) ∨
    ∃ hop r', 0 < r.pendingSamples ∧ r.flushPartial = .ok (some hop, r') ∧
      hop.startSample = r.nextSample ∧ hop.validSamples = r.pendingSamples ∧
      hop.samples = r.parts.flatten ++ List.replicate (hopSamples - r.pendingSamples) 0 ∧
      r'.Settled ∧ r'.pendingSamples = 0 ∧
      r'.nextSample = r.nextSample + r.pendingSamples ∧
      r'.maxPendingSamples = r.maxPendingSamples := by
  obtain ⟨hzero, hcall⟩ | ⟨hpos, r', hcall, hsettled⟩ := flushPartialCall_cases hr
  · exact .inl ⟨hzero, by rw [flushPartial, hcall, returned]⟩
  · exact .inr ⟨r.partialHop, r', hpos, by rw [flushPartial, hcall, returned], rfl, rfl, rfl,
      hsettled⟩

end PCMRechunker

end VoxLattice.Server
