import Mathlib.Data.List.Sort
import VoxLattice.Lib.Samples
import VoxLattice.Server.Audio

/-!
# The timeline buffers

`ContiguousPCM` and `EnhancedSegments` hold 16-bit PCM at absolute positions.

The two specifications say what a read returns.  `ContiguousPCM.read_eq` is about a buffer that
holds an interval of one long input.  `EnhancedSegments.read_stamped` is about segments whose
samples are right for their positions, whatever that means: what `read` puts together from them
is right too, even if they overlap or are out of order.  `Below` is what keeps `insert` from
raising.
-/

namespace VoxLattice.Plugin

open Server (Bytes PyError)
open Samples

/-! ## The raw buffer -/

/-- `ContiguousPCM`. -/
structure ContiguousPCM where
  startSample : Nat
  data : Bytes

namespace ContiguousPCM

def endSample (b : ContiguousPCM) : Nat := b.startSample + b.data.length / 2

def append (b : ContiguousPCM) (startSample : Nat) (pcmS16le : Bytes) :
    Except PyError ContiguousPCM :=
  if startSample ≠ b.endSample then .error (.value "raw PCM append is not contiguous")
  else if pcmS16le.length % 2 ≠ 0 then .error (.value "PCM must have an even byte length")
  else .ok { b with data := b.data ++ pcmS16le }

def read (b : ContiguousPCM) (startSample sampleCount : Nat) : Except PyError Bytes :=
  if startSample < b.startSample ∨ b.endSample < startSample + sampleCount then
    .error (.key "requested raw range is unavailable")
  else .ok (slice 2 b.data (startSample - b.startSample) sampleCount)

def discardBefore (b : ContiguousPCM) (sample : Nat) : ContiguousPCM :=
  let removeSamples := min (sample - b.startSample) (b.data.length / 2)
  ⟨b.startSample + removeSamples, b.data.drop (removeSamples * 2)⟩

def clearAt (_ : ContiguousPCM) (startSample : Nat) : ContiguousPCM := ⟨startSample, []⟩

/-- The buffer holds an interval of the input. -/
structure Holds (b : ContiguousPCM) (input : Bytes) : Prop where
  even : b.data.length % 2 = 0
  interval : b.data <+: input.drop (b.startSample * 2)
  within : b.startSample * 2 ≤ input.length

variable {b b' : ContiguousPCM} {input : Bytes}

theorem Holds.grow (h : b.Holds input) (pcm : Bytes) : b.Holds (input ++ pcm) where
  even := h.even
  interval := by
    rw [List.drop_append_of_le_length h.within]
    exact h.interval.trans (List.prefix_append _ _)
  within := by
    rw [List.length_append]
    exact h.within.trans (Nat.le_add_right _ _)

/-- A frame is appended to the buffer and to the input. -/
theorem Holds.append (h : b.Holds input) {start : Nat} {pcm : Bytes}
    (hstart : start * 2 = input.length) (hb : b.append start pcm = .ok b') :
    b'.Holds (input ++ pcm) := by
  unfold ContiguousPCM.append at hb
  split at hb
  · cases hb
  · next hend =>
      split at hb
      · cases hb
      · next heven =>
          cases hb
          rw [ne_eq, Decidable.not_not] at hend heven
          have hwhole : b.data = input.drop (b.startSample * 2) := by
            refine h.interval.eq_of_length ?_
            have heven' := h.even
            have hwithin := h.within
            rw [endSample] at hend
            rw [List.length_drop]
            omega
          refine ⟨?_, ?_, (h.grow pcm).within⟩
          · have heven' := h.even
            rw [List.length_append]
            omega
          · change b.data ++ pcm <+: _
            rw [List.drop_append_of_le_length h.within]
            exact ⟨[], by rw [List.append_nil, hwhole]⟩

/-- What is read is the input. -/
theorem Holds.read_eq (h : b.Holds input) {start count : Nat} {output : Bytes}
    (hread : b.read start count = .ok output) :
    output.length = count * 2 ∧ output = slice 2 input start count := by
  unfold read at hread
  split at hread
  · cases hread
  · next hrange =>
      cases hread
      rw [not_or, Nat.not_lt, Nat.not_lt, endSample] at hrange
      obtain ⟨hlow, hhigh⟩ := hrange
      obtain ⟨rest, hrest⟩ := h.interval
      have hlen : (start - b.startSample) * 2 + count * 2 ≤ b.data.length := by
        have heven := h.even
        omega
      have hstart : start * 2 = b.startSample * 2 + (start - b.startSample) * 2 := by omega
      constructor
      · rw [slice, List.length_take, List.length_drop]
        omega
      · rw [slice, slice, hstart, ← List.drop_drop, ← hrest,
          List.drop_append_of_le_length (by omega),
          List.take_append_of_le_length (by rw [List.length_drop]; omega)]

theorem Holds.discardBefore (h : b.Holds input) (sample : Nat) :
    (b.discardBefore sample).Holds input := by
  have heven := h.even
  have hwithin := h.within
  have hlen := h.interval.length_le
  rw [List.length_drop] at hlen
  refine ⟨?_, ?_, ?_⟩
  · simp only [ContiguousPCM.discardBefore, List.length_drop]
    omega
  · obtain ⟨rest, hrest⟩ := h.interval
    refine ⟨rest, ?_⟩
    simp only [ContiguousPCM.discardBefore]
    rw [Nat.add_mul, ← List.drop_drop, ← hrest, List.drop_append_of_le_length (by omega)]
  · simp only [ContiguousPCM.discardBefore]
    omega

/-! ### Ranges -/

theorem append_eq_ok {start : Nat} {pcm : Bytes} (hstart : start = b.endSample)
    (heven : pcm.length % 2 = 0) :
    b.append start pcm = .ok { b with data := b.data ++ pcm } := by
  rw [append, if_neg (not_not.mpr hstart), if_neg (not_not.mpr heven)]

theorem read_eq_ok {start count : Nat} (hlow : b.startSample ≤ start)
    (hhigh : start + count ≤ b.endSample) : ∃ output, b.read start count = .ok output := by
  rw [read, if_neg]
  · exact ⟨_, rfl⟩
  · rw [not_or, Nat.not_lt, Nat.not_lt]
    exact ⟨hlow, hhigh⟩

theorem discardBefore_startSample {sample : Nat} (hlow : b.startSample ≤ sample)
    (hhigh : sample ≤ b.endSample) : (b.discardBefore sample).startSample = sample := by
  rw [endSample] at hhigh
  simp only [discardBefore]
  omega

theorem discardBefore_endSample (b : ContiguousPCM) (sample : Nat) :
    (b.discardBefore sample).endSample = b.endSample := by
  simp only [discardBefore, endSample, List.length_drop]
  omega

@[simp] theorem endSample_nil (start : Nat) : endSample ⟨start, []⟩ = start := by
  rw [endSample, List.length_nil, Nat.zero_div, Nat.add_zero]

theorem Holds.clearAt {start : Nat} (h : start * 2 ≤ input.length) (b : ContiguousPCM) :
    (b.clearAt start).Holds input := ⟨rfl, List.nil_prefix, h⟩

end ContiguousPCM

/-! ## The enhanced segments -/

/-- `Segment`. -/
structure Segment where
  startSample : Nat
  pcmS16le : Bytes
deriving DecidableEq

def Segment.endSample (segment : Segment) : Nat :=
  segment.startSample + segment.pcmS16le.length / 2

/-- `EnhancedSegments`. -/
structure EnhancedSegments where
  segments : List Segment

namespace EnhancedSegments

/-- `EnhancedSegments.__init__`. -/
def new : EnhancedSegments := ⟨[]⟩

/-- The loop of `insert` over the stored segments: is one of them the candidate itself? -/
def findIdentical (candidate : Segment) : List Segment → Except PyError Bool
  | [] => .ok false
  | existing :: rest =>
    if candidate.endSample ≤ existing.startSample ∨ existing.endSample ≤ candidate.startSample then
      findIdentical candidate rest
    else if candidate = existing then .ok true
    else .error (.value "non-identical enhanced audio overlap")

/-- A segment is appended and the list is sorted. -/
def add (e : EnhancedSegments) (segment : Segment) : EnhancedSegments :=
  ⟨(e.segments ++ [segment]).insertionSort fun a b => a.startSample ≤ b.startSample⟩

def insert (e : EnhancedSegments) (startSample : Nat) (pcmS16le : Bytes) :
    Except PyError EnhancedSegments :=
  if pcmS16le.length = 0 ∨ pcmS16le.length % 2 ≠ 0 then
    .error (.value "enhanced PCM must have positive even byte length")
  else do
    let candidate : Segment := ⟨startSample, pcmS16le⟩
    if ← findIdentical candidate e.segments then return e
    return e.add candidate

/-- The loop of `read`, with its `cursor` and `output`. -/
def readLoop (endSample : Nat) : List Segment → Nat → Bytes → Option Bytes
  | [], _, _ => none
  | segment :: rest, cursor, output =>
    if segment.endSample ≤ cursor then readLoop endSample rest cursor output
    else if cursor < segment.startSample then none
    else
      let take := min segment.endSample endSample - cursor
      let output := output ++ slice 2 segment.pcmS16le (cursor - segment.startSample) take
      if cursor + take = endSample then some output
      else readLoop endSample rest (cursor + take) output

def read (e : EnhancedSegments) (startSample sampleCount : Nat) : Option Bytes :=
  readLoop (startSample + sampleCount) e.segments startSample []

/-- The round of `discard_before` for one segment. -/
def cutBefore (sample : Nat) (segment : Segment) : Option Segment :=
  if segment.endSample ≤ sample then none
  else if segment.startSample < sample then
    some ⟨sample, segment.pcmS16le.drop ((sample - segment.startSample) * 2)⟩
  else some segment

def discardBefore (e : EnhancedSegments) (sample : Nat) : EnhancedSegments :=
  ⟨e.segments.filterMap (cutBefore sample)⟩

def clear (_ : EnhancedSegments) : EnhancedSegments := ⟨[]⟩

/-! ### Samples that are right for their positions -/

variable {G G' : Nat → Bytes → Prop} {e e' : EnhancedSegments}

/-- Every stored sample is right for its position. -/
def Stamped (G : Nat → Bytes → Prop) (e : EnhancedSegments) : Prop :=
  ∀ segment ∈ e.segments, Samples.Stamped 2 G segment.startSample segment.pcmS16le

theorem stamped_clear (e : EnhancedSegments) : e.clear.Stamped G :=
  fun _ hmem => absurd hmem List.not_mem_nil

theorem Stamped.mono (h : e.Stamped G) (hG : ∀ p x, G p x → G' p x) : e.Stamped G' :=
  fun segment hmem => (h segment hmem).mono hG

theorem mem_add {segment new : Segment} :
    segment ∈ (e.add new).segments ↔ segment ∈ e.segments ∨ segment = new := by
  rw [add, List.mem_insertionSort, List.mem_append, List.mem_singleton]

/-- What `insert` stores: nothing new, or the candidate. -/
theorem insert_cases {start : Nat} {pcm : Bytes} (h : e.insert start pcm = .ok e') :
    e' = e ∨ e' = e.add ⟨start, pcm⟩ := by
  unfold insert at h
  split at h
  · cases h
  · dsimp only at h
    cases hfind : findIdentical ⟨start, pcm⟩ e.segments with
    | error _ =>
        rw [hfind] at h
        cases h
    | ok identical =>
        rw [hfind] at h
        cases identical with
        | true =>
            cases h
            exact .inl rfl
        | false =>
            cases h
            exact .inr rfl

theorem Stamped.insert (h : e.Stamped G) {start : Nat} {pcm : Bytes}
    (hpcm : Samples.Stamped 2 G start pcm) (he : e.insert start pcm = .ok e') :
    e'.Stamped G := by
  obtain rfl | rfl := insert_cases he
  · exact h
  · intro segment hmem
    obtain hold | rfl := mem_add.mp hmem
    · exact h segment hold
    · exact hpcm

theorem Stamped.discardBefore (h : e.Stamped G) (sample : Nat) :
    (e.discardBefore sample).Stamped G := by
  intro segment hsegment
  obtain ⟨old, hmem, hcut⟩ := List.mem_filterMap.mp hsegment
  have hold := h old hmem
  unfold cutBefore at hcut
  split at hcut
  · cases hcut
  · split at hcut
    · next hlt =>
        cases hcut
        have hdrop := hold.drop (sample - old.startSample)
        rw [Nat.add_sub_cancel' hlt.le] at hdrop
        exact hdrop
    · cases hcut
      exact hold

/-- The invariant of the loop of `read`: the output reaches from `start` to the cursor. -/
theorem readLoop_stamped {segments : List Segment} {start stop cursor : Nat}
    {output bytes : Bytes}
    (h : ∀ segment ∈ segments, Samples.Stamped 2 G segment.startSample segment.pcmS16le)
    (hlow : start ≤ cursor) (hhigh : cursor ≤ stop) (hlen : output.length = (cursor - start) * 2)
    (hout : Samples.Stamped 2 G start output)
    (hread : readLoop stop segments cursor output = some bytes) :
    bytes.length = (stop - start) * 2 ∧ Samples.Stamped 2 G start bytes := by
  induction segments generalizing cursor output with
  | nil => cases hread
  | cons segment rest ih =>
      have hrest : ∀ segment ∈ rest,
          Samples.Stamped 2 G segment.startSample segment.pcmS16le :=
        fun s hs => h s (List.mem_cons_of_mem _ hs)
      rw [readLoop] at hread
      split at hread
      · exact ih hrest hlow hhigh hlen hout hread
      · next hpast =>
          split at hread
          · cases hread
          · next hgap =>
              rw [Nat.not_le, Segment.endSample] at hpast
              rw [Nat.not_lt] at hgap
              dsimp only at hread
              generalize htake : min segment.endSample stop - cursor = take at hread
              rw [Segment.endSample] at htake
              -- the part of the segment from the cursor on
              have hpart : Samples.Stamped 2 G cursor
                  (slice 2 segment.pcmS16le (cursor - segment.startSample) take) := by
                have hdrop := (h segment List.mem_cons_self).drop (cursor - segment.startSample)
                rw [Nat.add_sub_cancel' hgap] at hdrop
                exact hdrop.take take
              have hpartLen : (slice 2 segment.pcmS16le (cursor - segment.startSample)
                  take).length = take * 2 := by
                rw [slice, List.length_take, List.length_drop]
                omega
              have hnew := hout.append hlen (by rwa [Nat.add_sub_cancel' hlow])
              have hnewLen : (output ++ slice 2 segment.pcmS16le
                  (cursor - segment.startSample) take).length = (cursor + take - start) * 2 := by
                rw [List.length_append, hlen, hpartLen]
                omega
              split at hread
              · next hend =>
                  cases hread
                  rw [← hend]
                  exact ⟨hnewLen, hnew⟩
              · exact ih hrest (by omega) (by omega) hnewLen hnew hread

/-- What is read is right for its positions. -/
theorem Stamped.read (h : e.Stamped G) {start count : Nat} {bytes : Bytes}
    (hread : e.read start count = some bytes) :
    bytes.length = count * 2 ∧ Samples.Stamped 2 G start bytes := by
  have hloop := readLoop_stamped h (le_refl start) (Nat.le_add_right start count) (by simp)
    (stamped_nil (by decide) start) hread
  rwa [Nat.add_sub_cancel_left] at hloop

/-! ### Inserts that do not raise -/

/-- Nothing is stored from `bound` on. -/
def Below (e : EnhancedSegments) (bound : Nat) : Prop :=
  ∀ segment ∈ e.segments, segment.endSample ≤ bound

theorem findIdentical_below {candidate : Segment} {segments : List Segment}
    (h : ∀ segment ∈ segments, segment.endSample ≤ candidate.startSample) :
    findIdentical candidate segments = .ok false := by
  induction segments with
  | nil => rfl
  | cons segment rest ih =>
      rw [findIdentical, if_pos (.inr (h segment List.mem_cons_self))]
      exact ih fun s hs => h s (List.mem_cons_of_mem _ hs)

/-- Audio behind everything stored is stored. -/
theorem Below.insert {start : Nat} {pcm : Bytes} (h : e.Below start) (hne : pcm.length ≠ 0)
    (heven : pcm.length % 2 = 0) :
    ∃ e', e.insert start pcm = .ok e' ∧ e'.Below (start + pcm.length / 2) := by
  have hfind : findIdentical ⟨start, pcm⟩ e.segments = .ok false := findIdentical_below h
  refine ⟨e.add ⟨start, pcm⟩, ?_, fun segment hmem => ?_⟩
  · rw [EnhancedSegments.insert, if_neg (by omega)]
    simp only [hfind]
    rfl
  · obtain hold | rfl := mem_add.mp hmem
    · exact (h segment hold).trans (Nat.le_add_right _ _)
    · exact le_refl _

theorem Below.mono {bound bound' : Nat} (h : e.Below bound) (hle : bound ≤ bound') :
    e.Below bound' := fun segment hmem => (h segment hmem).trans hle

theorem below_clear (e : EnhancedSegments) (bound : Nat) : e.clear.Below bound :=
  fun _ hmem => absurd hmem List.not_mem_nil

theorem Below.discardBefore {bound : Nat} (h : e.Below bound) (sample : Nat) :
    (e.discardBefore sample).Below bound := by
  intro segment hsegment
  obtain ⟨old, hold, hcut⟩ := List.mem_filterMap.mp hsegment
  have hbound := h old hold
  unfold cutBefore at hcut
  split at hcut
  · cases hcut
  · split at hcut
    · next hend hlt =>
        cases hcut
        simp only [Segment.endSample, List.length_drop] at hbound hend ⊢
        omega
    · cases hcut
      exact hbound

/-! ### Segments in order -/

/-- The segments are in order, do not overlap, and lie between the bounds. -/
structure Within (e : EnhancedSegments) (low high : Nat) : Prop where
  ordered : e.segments.Pairwise fun a b => a.endSample ≤ b.startSample
  bounds : ∀ segment ∈ e.segments,
    low ≤ segment.startSample ∧ segment.startSample < segment.endSample ∧
      segment.endSample ≤ high

/-- The samples that are stored. -/
def samples (e : EnhancedSegments) : Nat :=
  (e.segments.map fun segment => segment.pcmS16le.length / 2).sum

theorem within_clear (e : EnhancedSegments) (low high : Nat) : e.clear.Within low high :=
  ⟨.nil, fun _ hmem => absurd hmem List.not_mem_nil⟩

theorem Within.mono {low high high' : Nat} (h : e.Within low high) (hle : high ≤ high') :
    e.Within low high' where
  ordered := h.ordered
  bounds segment hmem := by
    obtain ⟨hlow, hpos, hhigh⟩ := h.bounds segment hmem
    exact ⟨hlow, hpos, hhigh.trans hle⟩

/-- A candidate that is not stored already overlaps nothing that is. -/
theorem findIdentical_apart {candidate : Segment} {segments : List Segment}
    (h : findIdentical candidate segments = .ok false) {existing : Segment}
    (hmem : existing ∈ segments) :
    existing.endSample ≤ candidate.startSample ∨ candidate.endSample ≤ existing.startSample := by
  induction segments with
  | nil => cases hmem
  | cons segment rest ih =>
      rw [findIdentical] at h
      split at h
      · next hapart =>
          obtain rfl | hrest := List.mem_cons.mp hmem
          · exact hapart.symm
          · exact ih h hrest
      · split at h
        · cases h
        · cases h

/-- A segment that overlaps no other finds its place among them. -/
theorem Within.add {low high : Nat} (h : e.Within low high) {segment : Segment}
    (hapart : ∀ existing ∈ e.segments, existing.endSample ≤ segment.startSample ∨
      segment.endSample ≤ existing.startSample)
    (hlow : low ≤ segment.startSample) (hpos : segment.startSample < segment.endSample)
    (hhigh : segment.endSample ≤ high) : (e.add segment).Within low high := by
  have hbounds : ∀ s ∈ (e.add segment).segments,
      low ≤ s.startSample ∧ s.startSample < s.endSample ∧ s.endSample ≤ high := by
    intro s hmem
    obtain hold | rfl := mem_add.mp hmem
    · exact h.bounds s hold
    · exact ⟨hlow, hpos, hhigh⟩
  refine ⟨?_, hbounds⟩
  -- sorted by their starts, and apart in one order or the other
  have hsorted : (e.add segment).segments.Pairwise fun a b => a.startSample ≤ b.startSample := by
    have : IsTrans Segment fun a b => a.startSample ≤ b.startSample := ⟨fun _ _ _ => Nat.le_trans⟩
    have : Std.Total fun a b : Segment => a.startSample ≤ b.startSample :=
      ⟨fun a b => Nat.le_total a.startSample b.startSample⟩
    exact List.pairwise_insertionSort _ _
  have hdisjoint : (e.add segment).segments.Pairwise fun a b =>
      a.endSample ≤ b.startSample ∨ b.endSample ≤ a.startSample := by
    refine ((List.perm_insertionSort _ _).pairwise_iff fun hab => hab.symm).mpr ?_
    rw [List.pairwise_append]
    refine ⟨h.ordered.imp .inl, List.pairwise_singleton _ _, fun a ha b hb => ?_⟩
    obtain rfl := List.mem_singleton.mp hb
    exact hapart a ha
  refine (hsorted.and hdisjoint).imp_of_mem ?_
  rintro a b ha hb ⟨hle, horder | horder⟩
  · exact horder
  · have hpos := (hbounds b hb).2.1
    omega

theorem Within.insert {low high : Nat} (h : e.Within low high) {start : Nat} {pcm : Bytes}
    (hlow : low ≤ start) (hhigh : start + pcm.length / 2 ≤ high)
    (he : e.insert start pcm = .ok e') : e'.Within low high := by
  unfold EnhancedSegments.insert at he
  split at he
  · cases he
  · next hpcm =>
      dsimp only at he
      cases hfind : findIdentical ⟨start, pcm⟩ e.segments with
      | error _ =>
          rw [hfind] at he
          cases he
      | ok identical =>
          rw [hfind] at he
          cases identical with
          | true =>
              cases he
              exact h
          | false =>
              cases he
              refine h.add (fun existing => findIdentical_apart hfind) hlow ?_ hhigh
              change start < start + pcm.length / 2
              omega

theorem cutBefore_bounds {sample : Nat} {segment cut : Segment}
    (h : cutBefore sample segment = some cut) :
    cut.startSample = max segment.startSample sample ∧ cut.endSample = segment.endSample ∧
      sample < cut.endSample := by
  unfold cutBefore at h
  split at h
  · cases h
  · next hend =>
      split at h
      · next hlt =>
          cases h
          simp only [Segment.endSample, List.length_drop] at hend ⊢
          omega
      · cases h
        omega

theorem Within.discardBefore {low high : Nat} (h : e.Within low high) (sample : Nat) :
    (e.discardBefore sample).Within sample high where
  ordered := by
    refine List.Pairwise.filterMap _ ?_ h.ordered
    intro a b hab a' ha' b' hb'
    obtain ⟨-, hend, -⟩ := cutBefore_bounds ha'
    obtain ⟨hstart, -, -⟩ := cutBefore_bounds hb'
    omega
  bounds cut hmem := by
    obtain ⟨segment, hsegment, hcut⟩ := List.mem_filterMap.mp hmem
    obtain ⟨hstart, hend, hlt⟩ := cutBefore_bounds hcut
    have hbounds := h.bounds segment hsegment
    omega

/-- Segments in order fit between their bounds. -/
theorem Within.samples_le {low high : Nat} (h : e.Within low high) :
    e.samples ≤ high - low := by
  obtain ⟨segments⟩ := e
  induction segments generalizing low with
  | nil => exact Nat.zero_le _
  | cons segment rest ih =>
      obtain ⟨hlow, hpos, hhigh⟩ := h.bounds segment List.mem_cons_self
      obtain ⟨hfirst, hrest⟩ := List.pairwise_cons.mp h.ordered
      have htail : Within ⟨rest⟩ segment.endSample high := by
        refine ⟨hrest, fun s hs => ?_⟩
        obtain ⟨-, hspos, hshigh⟩ := h.bounds s (List.mem_cons_of_mem _ hs)
        exact ⟨hfirst s hs, hspos, hshigh⟩
      have hsamples := ih htail
      simp only [samples, List.map_cons, List.sum_cons, Segment.endSample] at hsamples ⊢
      rw [Segment.endSample] at hhigh
      omega

end EnhancedSegments

end VoxLattice.Plugin
