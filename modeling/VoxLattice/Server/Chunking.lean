import VoxLattice.Lib.Samples
import VoxLattice.Server.Rechunking

/-!
# The rechunker over a sequence of calls

`rechunk` is a sequence of appends, some of which may raise.  `Rechunks` says what it keeps: the
hops and the samples still pending are the samples of the accepted strings, in order and without
regard to where the strings were cut.
-/

namespace VoxLattice.Server

open Intervals Samples

/-! ## Decoding in pieces -/

theorem decodeSamples_append {K : Type*} [Field K] : ∀ {value : Bytes} (rest : Bytes),
    value.length % 2 = 0 →
    (decodeSamples (value ++ rest) : List K) = decodeSamples value ++ decodeSamples rest
  | [], _, _ => rfl
  | [_], _, h => by simp at h
  | lo :: hi :: value, rest, h => by
      have hvalue : value.length % 2 = 0 := by
        rw [List.length_cons, List.length_cons] at h
        omega
      rw [List.cons_append, List.cons_append, decodeSamples, decodeSamples,
        decodeSamples_append rest hvalue]
      rfl

namespace PCMRechunker

/-! ## One append -/

variable {r : PCMRechunker}

/-- An append raises and leaves the rechunker as it was, or returns what the rechunker can make of
the new samples. -/
theorem appendCall_cases (hr : r.Settled) (pcmS16le : Bytes) :
    (∃ e, (e = .value "PCM-S16LE must contain a positive, even number of bytes" ∨
      e = .buffer "per-stream input audio buffer is full") ∧
      r.appendCall pcmS16le = (.error e, r)) ∨
    (pcmS16le.length % 2 = 0 ∧ ∃ hops r', r.appendCall pcmS16le = (.ok hops, r') ∧
      Drained { r with
        parts := r.parts ++ [decodeSamples pcmS16le]
        pendingSamples := r.pendingSamples + pcmS16le.length / 2 } hops r') := by
  by_cases hsize : pcmS16le.length = 0 ∨ pcmS16le.length % 2 ≠ 0
  · refine .inl ⟨_, .inl rfl, ?_⟩
    rw [appendCall, pcm16leToFloat32, if_pos hsize]
  · by_cases hfit : r.pendingSamples + pcmS16le.length / 2 ≤ r.maxPendingSamples
    · obtain ⟨hops, r', happend, hd⟩ := appendCall_ok hr.counted hsize hfit
      exact .inr ⟨by omega, hops, r', happend, hd⟩
    · exact .inl ⟨_, .inr rfl, appendCall_full hsize (Nat.not_le.mp hfit)⟩

/-- The loop of `_drain_full_hops` has ended after as many rounds as there are samples. -/
theorem drainCallLoop_ends (n : Nat) {rounds : Nat} (h : r.pendingSamples ≤ rounds) :
    drainCallLoop (rounds + n) r = drainCallLoop rounds r := by
  have hhop : 0 < hopSamples := by decide
  induction rounds generalizing r with
  | zero =>
      cases n with
      | zero => rfl
      | succ n =>
          have hnone : ¬ hopSamples ≤ r.pendingSamples := by omega
          simp only [drainCallLoop, if_neg hnone]
  | succ rounds ih =>
      rw [Nat.add_right_comm, drainCallLoop, drainCallLoop]
      by_cases hfull : hopSamples ≤ r.pendingSamples
      · rw [if_pos hfull, if_pos hfull, takeCall]
        split
        · rfl
        · next samples r₁ htake =>
            split at htake
            · cases htake
              rw [ih (by dsimp only; omega)]
            · cases htake
      · rw [if_neg hfull, if_neg hfull]

/-! ## A sequence of appends -/

/-- What a sequence of appends has produced: the strings that were accepted, in one piece, the
hops that were returned, and the rechunker afterwards. -/
structure Rechunked where
  accepted : Bytes
  hops : List SourceHop
  rechunker : PCMRechunker

/-- A sequence of appends, some of which may raise. -/
def rechunk (r : PCMRechunker) : List Bytes → Rechunked
  | [] => ⟨[], [], r⟩
  | pcmS16le :: rest =>
    match r.appendCall pcmS16le with
    | (.ok hops, r') =>
      let run := rechunk r' rest
      ⟨pcmS16le ++ run.accepted, hops ++ run.hops, run.rechunker⟩
    | (.error _, r') => rechunk r' rest

/-- What a sequence of appends keeps. -/
structure Rechunks (r : PCMRechunker) (run : Rechunked) : Prop where
  even : run.accepted.length % 2 = 0
  settled : run.rechunker.Settled
  full : ∀ hop ∈ run.hops, hop.validSamples = hopSamples
  shape : ∀ hop ∈ run.hops, hop.samples.length = hopSamples
  tiles : Tiles SourceHop.startSample SourceHop.validSamples r.nextSample run.hops
  next : run.rechunker.nextSample = r.nextSample + total SourceHop.validSamples run.hops
  samples : run.hops.flatMap SourceHop.samples ++ run.rechunker.parts.flatten =
    r.parts.flatten ++ decodeSamples run.accepted

theorem rechunk_spec (calls : List Bytes) {r : PCMRechunker} (hr : r.Settled) :
    Rechunks r (r.rechunk calls) := by
  induction calls generalizing r with
  | nil =>
      refine ⟨rfl, hr, ?_, ?_, trivial, rfl, (List.append_nil _).symm⟩
      all_goals exact fun _ hmem => absurd hmem List.not_mem_nil
  | cons pcmS16le rest ih =>
      obtain ⟨e, -, hcall⟩ | ⟨heven, hops, r', hcall, hd⟩ := appendCall_cases hr pcmS16le
      · rw [rechunk, hcall]
        exact ih hr
      · have h := ih hd.settled
        rw [rechunk, hcall]
        refine ⟨?_, h.settled, ?_, ?_, ?_, ?_, ?_⟩
        · have hrest := h.even
          simp only [List.length_append]
          omega
        · exact fun hop hmem => (List.mem_append.mp hmem).elim (hd.full hop) (h.full hop)
        · exact fun hop hmem => (List.mem_append.mp hmem).elim (hd.shape hop) (h.shape hop)
        · refine tiles_append.mpr ⟨hd.tiles, ?_⟩
          have htiles := h.tiles
          rw [hd.next] at htiles
          exact htiles
        · have hnext := h.next
          rw [hd.next] at hnext
          rw [total_append, ← Nat.add_assoc]
          exact hnext
        · have hsamples := hd.samples
          rw [List.flatten_append, List.flatten_singleton] at hsamples
          rw [List.flatMap_append, List.append_assoc, h.samples, ← List.append_assoc, hsamples,
            decodeSamples_append _ heven, List.append_assoc]

/-! ## The stream is conserved -/

/-- What the hops of a sequence of appends are, and what is left pending. -/
structure Conserved (start : Nat) (run : Rechunked) : Prop where
  /-- The `k`-th hop is a full hop with the samples from `256 * k` on. -/
  hop : ∀ k hop, run.hops[k]? = some hop →
    hop.startSample = start + hopSamples * k ∧ hop.validSamples = hopSamples ∧
      hop.samples.length = hopSamples ∧
      hop.samples = sample hopSamples (decodeSamples run.accepted) k
  /-- As many hops as the accepted samples fill. -/
  count : run.hops.length = run.accepted.length / 2 / hopSamples
  /-- Less than a hop is pending. -/
  residue : run.rechunker.pendingSamples < hopSamples
  /-- Nothing else is pending than what the hops leave over. -/
  pending : run.rechunker.pendingSamples = run.accepted.length / 2 % hopSamples
  /-- An append that raises leaves the rechunker as it was.  It never raises `IndexError`, so
  `_take` never reads an empty deque. -/
  raises : ∀ pcmS16le e r', run.rechunker.appendCall pcmS16le = (.error e, r') →
    r' = run.rechunker ∧ (e = .value "PCM-S16LE must contain a positive, even number of bytes" ∨
      e = .buffer "per-stream input audio buffer is full")
  /-- The flush returns nothing exactly if nothing is pending, and otherwise the pending samples
  and silence, directly after the last hop. -/
  flush : ∃ result r', run.rechunker.flushPartialCall = (.ok result, r') ∧
    r'.pendingSamples = 0 ∧ (result = none ↔ run.rechunker.pendingSamples = 0) ∧
    ∀ hop ∈ result, hop.startSample = start + hopSamples * run.hops.length ∧
      hop.validSamples = run.rechunker.pendingSamples ∧
      hop.samples = (decodeSamples run.accepted).drop (hopSamples * run.hops.length) ++
        List.replicate (hopSamples - run.rechunker.pendingSamples) 0

section Fresh

variable {start bound : Nat} {run : Rechunked}

/-- The samples of the hops and the pending ones are the accepted ones. -/
theorem Rechunks.length_eq (h : Rechunks ⟨[], 0, start, bound⟩ run) :
    hopSamples * run.hops.length + run.rechunker.pendingSamples = run.accepted.length / 2 := by
  have hlen := congrArg List.length h.samples
  have hcounted := h.settled.counted
  rw [List.length_append, length_flatMap_samples h.shape, hcounted, List.flatten_nil,
    List.nil_append, decodeSamples_length] at hlen
  rw [Nat.mul_comm]
  exact hlen

/-- The pending samples are the accepted ones behind the hops. -/
theorem Rechunks.pending_eq (h : Rechunks ⟨[], 0, start, bound⟩ run) :
    run.rechunker.parts.flatten =
      (decodeSamples run.accepted).drop (hopSamples * run.hops.length) := by
  have hsamples := h.samples
  rw [List.flatten_nil, List.nil_append] at hsamples
  rw [← hsamples, Nat.mul_comm, ← length_flatMap_samples h.shape, List.drop_left]

theorem Rechunks.conserved (h : Rechunks ⟨[], 0, start, bound⟩ run) : Conserved start run where
  hop := by
    intro k hop hk
    have hmem := List.mem_of_getElem? hk
    have hsamples := h.samples
    rw [List.flatten_nil, List.nil_append] at hsamples
    refine ⟨h.tiles.start_of_forall_eq h.full hk, h.full hop hmem, h.shape hop hmem, ?_⟩
    rw [← hsamples, sample_flatMap_append h.shape hk]
  count := by
    have hlen := h.length_eq
    have hresidue := h.settled.residue
    rw [← hlen, Nat.mul_add_div (by decide), Nat.div_eq_of_lt hresidue, Nat.add_zero]
  residue := h.settled.residue
  pending := by
    have hlen := h.length_eq
    rw [← hlen, Nat.mul_add_mod, Nat.mod_eq_of_lt h.settled.residue]
  raises := by
    intro pcmS16le e r' hcall
    obtain ⟨e', he, hcall'⟩ | ⟨-, hops, r'', hcall', -⟩ := appendCall_cases h.settled pcmS16le
    · rw [hcall'] at hcall
      cases hcall
      exact ⟨rfl, he⟩
    · rw [hcall'] at hcall
      cases hcall
  flush := by
    have hnext : run.rechunker.nextSample = start + hopSamples * run.hops.length := by
      rw [h.next, total_of_forall_eq h.full, Nat.mul_comm]
    obtain ⟨hzero, hcall⟩ | ⟨hpos, r', hcall, -, hzero, -⟩ :=
        flushPartialCall_cases h.settled
    · exact ⟨none, _, hcall, hzero, ⟨fun _ => hzero, fun _ => rfl⟩, nofun⟩
    · refine ⟨some _, r', hcall, hzero, ⟨nofun, fun hnone => absurd hnone hpos.ne'⟩, ?_⟩
      rintro hop ⟨⟩
      exact ⟨hnext, rfl, by rw [partialHop, h.pending_eq]⟩

/-- Equal samples give equal hops, and an equal flush. -/
theorem Rechunks.unique {run' : Rechunked} (h : Rechunks ⟨[], 0, start, bound⟩ run)
    (h' : Rechunks ⟨[], 0, start, bound⟩ run') (heq : run.accepted = run'.accepted) :
    run.hops = run'.hops ∧
      run.rechunker.flushPartialCall.1 = run'.rechunker.flushPartialCall.1 := by
  have hc := h.conserved
  have hc' := h'.conserved
  have hlen : run.hops.length = run'.hops.length := by rw [hc.count, hc'.count, heq]
  have hpending : run.rechunker.pendingSamples = run'.rechunker.pendingSamples := by
    rw [hc.pending, hc'.pending, heq]
  have hhops : run.hops = run'.hops := by
    refine List.ext_getElem hlen fun k hk hk' => ?_
    obtain ⟨hs, hv, -, hd⟩ := hc.hop k _ (List.getElem?_eq_getElem hk)
    obtain ⟨hs', hv', -, hd'⟩ := hc'.hop k _ (List.getElem?_eq_getElem hk')
    rw [SourceHop.mk.injEq]
    exact ⟨hs.trans hs'.symm, hd.trans (by rw [hd', heq]), hv.trans hv'.symm⟩
  have hpartial : run.rechunker.partialHop = run'.rechunker.partialHop := by
    rw [partialHop, partialHop, h.next, h'.next, h.pending_eq, h'.pending_eq, heq, hhops, hpending]
  refine ⟨hhops, ?_⟩
  obtain ⟨hzero, hcall⟩ | ⟨hpos, r₁, hcall, -⟩ := flushPartialCall_cases h.settled
  · obtain ⟨-, hcall'⟩ | ⟨hpos', -⟩ := flushPartialCall_cases h'.settled
    · rw [hcall, hcall']
    · omega
  · obtain ⟨hzero', -⟩ | ⟨-, r₂, hcall', -⟩ := flushPartialCall_cases h'.settled
    · omega
    · rw [hcall, hcall', hpartial]

end Fresh

end PCMRechunker

open PCMRechunker in
/-- From any start, with any bound of at least a hop, and whatever strings are appended: the hops
are the accepted samples cut every 256, the rest is pending and is what the flush returns, a call
that raises changes nothing, and `_drain_full_hops` ends.  Where the accepted samples are the
same, so are the hops, wherever the strings were cut. -/
theorem rechunking_conserves {start bound : Nat} (hbound : hopSamples ≤ bound) :
    ∃ r, PCMRechunker.new start bound = .ok r ∧
      (∀ calls, Conserved start (r.rechunk calls)) ∧
      (∀ calls calls', (r.rechunk calls).accepted = (r.rechunk calls').accepted →
        (r.rechunk calls).hops = (r.rechunk calls').hops ∧
        (r.rechunk calls).rechunker.flushPartialCall.1 =
          (r.rechunk calls').rechunker.flushPartialCall.1) ∧
      ∀ (r : PCMRechunker) n,
        drainCallLoop (r.pendingSamples + n) r = drainCallLoop r.pendingSamples r := by
  have hsettled : PCMRechunker.Settled ⟨[], 0, start, bound⟩ := ⟨rfl, (by decide : 0 < hopSamples)⟩
  have hnew : PCMRechunker.new start bound = .ok ⟨[], 0, start, bound⟩ := by
    rw [PCMRechunker.new, if_neg (Nat.not_lt.mpr hbound)]
  refine ⟨⟨[], 0, start, bound⟩, hnew, ?_, ?_, ?_⟩
  · exact fun calls => (rechunk_spec calls hsettled).conserved
  · exact fun calls calls' heq =>
      (rechunk_spec calls hsettled).unique (rechunk_spec calls' hsettled) heq
  · exact fun r n => drainCallLoop_ends n le_rfl

/-- With the smallest bound. -/
theorem rechunking_conserves_smallest :
    ∃ r, PCMRechunker.new 5 256 = .ok r ∧
      ∀ calls, PCMRechunker.Conserved 5 (r.rechunk calls) := by
  obtain ⟨r, hnew, hconserved, -⟩ := @rechunking_conserves 5 256 (by decide)
  exact ⟨r, hnew, hconserved⟩

end VoxLattice.Server
