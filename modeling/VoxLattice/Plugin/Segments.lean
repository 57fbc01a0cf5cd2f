import VoxLattice.Lib.PartialMap
import VoxLattice.Plugin.Timeline

/-!
# The enhanced segments as a partial map

What `EnhancedSegments` is for is a partial map from positions to samples; how the samples are
divided into segments is its own affair.  `contents` is that map.  `Formed` is the invariant of
the representation: the segments are in order, do not overlap, and each holds one sample at
least.

Each operation has its meaning for the map: `contents_insert`, `contents_discardBefore`,
`read_isSome_iff` and `read_samples`.  `insert` has one more thing to say, which the map cannot
tell: whether the audio is the very segment that is stored.
-/

namespace VoxLattice.Plugin

open Server (Bytes PyError)
open Samples PartialMap

namespace Segment

/-- The samples of a segment, by position. -/
def contents (segment : Segment) : Nat → Option Bytes := fun p =>
  if segment.startSample ≤ p ∧ p < segment.endSample then
    some (sample 2 segment.pcmS16le (p - segment.startSample))
  else none

variable {segment other : Segment} {p : Nat} {x : Bytes}

theorem contents_eq_none :
    segment.contents p = none ↔ ¬ (segment.startSample ≤ p ∧ p < segment.endSample) := by
  rw [contents]
  split
  · next h => simp [h]
  · next h => simp [h]

theorem contents_eq_some : segment.contents p = some x ↔
    (segment.startSample ≤ p ∧ p < segment.endSample) ∧
      sample 2 segment.pcmS16le (p - segment.startSample) = x := by
  rw [contents]
  split
  · next h => simp [h]
  · next h => simp [h]

theorem apart_of_le (h : segment.endSample ≤ other.startSample) :
    Apart segment.contents other.contents := by
  intro p
  rw [contents_eq_none, contents_eq_none]
  omega

end Segment

namespace EnhancedSegments

variable {e e' : EnhancedSegments}

/-- The samples that are stored, by position. -/
def contents (e : EnhancedSegments) : Nat → Option Bytes := unions (e.segments.map Segment.contents)

/-- The segments are in order and do not overlap, and each holds whole samples, one at least. -/
structure Formed (e : EnhancedSegments) : Prop where
  within : ∃ high, e.Within 0 high
  even : ∀ segment ∈ e.segments, segment.pcmS16le.length % 2 = 0

theorem Formed.ordered (h : e.Formed) :
    e.segments.Pairwise fun a b => a.endSample ≤ b.startSample :=
  h.within.elim fun _ hwithin => hwithin.ordered

theorem Formed.pos (h : e.Formed) {segment : Segment} (hmem : segment ∈ e.segments) :
    segment.startSample < segment.endSample :=
  h.within.elim fun _ hwithin => (hwithin.bounds segment hmem).2.1

theorem contents_eq_none {p : Nat} :
    e.contents p = none ↔ ∀ segment ∈ e.segments, segment.contents p = none := by
  rw [contents, unions_eq_none, List.forall_mem_map]

theorem Formed.contents_eq_some (h : e.Formed) {p : Nat} {x : Bytes} :
    e.contents p = some x ↔ ∃ segment ∈ e.segments, segment.contents p = some x := by
  have hapart : (e.segments.map Segment.contents).Pairwise Apart :=
    List.pairwise_map.mpr (h.ordered.imp Segment.apart_of_le)
  rw [contents, unions_eq_some hapart]
  simp

/-! ## Insertion -/

section Insert

variable {candidate : Segment} {segments : List Segment}

theorem findIdentical_of_apart (h : ∀ existing ∈ segments,
    candidate.endSample ≤ existing.startSample ∨ existing.endSample ≤ candidate.startSample) :
    findIdentical candidate segments = .ok false := by
  induction segments with
  | nil => rfl
  | cons segment rest ih =>
      rw [findIdentical, if_pos (h segment List.mem_cons_self)]
      exact ih fun s hs => h s (List.mem_cons_of_mem _ hs)

theorem findIdentical_of_mem (hordered : segments.Pairwise fun a b => a.endSample ≤ b.startSample)
    (hpos : candidate.startSample < candidate.endSample) (hmem : candidate ∈ segments) :
    findIdentical candidate segments = .ok true := by
  induction segments with
  | nil => cases hmem
  | cons segment rest ih =>
      obtain ⟨hfirst, hrest⟩ := List.pairwise_cons.mp hordered
      rw [findIdentical]
      obtain rfl | hmem := List.mem_cons.mp hmem
      · rw [if_neg (by omega), if_pos rfl]
      · rw [if_pos (.inr (hfirst candidate hmem))]
        exact ih hrest hmem

theorem findIdentical_of_overlap {existing : Segment} (hmem : existing ∈ segments)
    (hoverlap : ¬ (candidate.endSample ≤ existing.startSample ∨
      existing.endSample ≤ candidate.startSample)) (hne : candidate ∉ segments) :
    findIdentical candidate segments = .error (.value "non-identical enhanced audio overlap") := by
  induction segments with
  | nil => cases hmem
  | cons segment rest ih =>
      obtain ⟨hne, hnrest⟩ := not_or.mp (mt List.mem_cons.mpr hne)
      rw [findIdentical]
      obtain rfl | hmem := List.mem_cons.mp hmem
      · rw [if_neg hoverlap, if_neg hne]
      · by_cases hor : candidate.endSample ≤ segment.startSample ∨
            segment.endSample ≤ candidate.startSample
        · rw [if_pos hor]
          exact ih hmem hnrest
        · rw [if_neg hor, if_neg hne]

end Insert

section Formed

variable {start : Nat} {pcm : Bytes}

theorem insert_malformed (h : pcm.length = 0 ∨ pcm.length % 2 ≠ 0) :
    e.insert start pcm = .error (.value "enhanced PCM must have positive even byte length") := by
  rw [insert, if_pos h]

/-- A stored segment is inserted again. -/
theorem Formed.insert_identical (h : e.Formed) {segment : Segment} (hmem : segment ∈ e.segments) :
    e.insert segment.startSample segment.pcmS16le = .ok e := by
  have hpos := h.pos hmem
  have heven := h.even segment hmem
  rw [Segment.endSample] at hpos
  rw [insert, if_neg (by omega)]
  dsimp only
  rw [findIdentical_of_mem h.ordered (h.pos hmem) hmem]
  rfl

/-- Audio that overlaps what is stored. -/
theorem insert_overlap (hsize : ¬ (pcm.length = 0 ∨ pcm.length % 2 ≠ 0)) {p : Nat}
    (hlow : start ≤ p) (hhigh : p < start + pcm.length / 2) (hp : e.contents p ≠ none)
    (hne : ⟨start, pcm⟩ ∉ e.segments) :
    e.insert start pcm = .error (.value "non-identical enhanced audio overlap") := by
  rw [ne_eq, contents_eq_none] at hp
  push Not at hp
  obtain ⟨existing, hmem, hp⟩ := hp
  rw [ne_eq, Segment.contents_eq_none, not_not] at hp
  rw [insert, if_neg hsize]
  dsimp only
  rw [findIdentical_of_overlap hmem ?_ hne]
  · rfl
  · simp only [Segment.endSample] at hp ⊢
    omega

/-- Audio that overlaps nothing stored. -/
theorem Formed.insert_apart (h : e.Formed) (hsize : ¬ (pcm.length = 0 ∨ pcm.length % 2 ≠ 0))
    (hfree : ∀ p, start ≤ p → p < start + pcm.length / 2 → e.contents p = none) :
    e.insert start pcm = .ok (e.add ⟨start, pcm⟩) ∧ ∀ existing ∈ e.segments,
      Apart existing.contents (Segment.contents ⟨start, pcm⟩) := by
  have hapart : ∀ existing ∈ e.segments, start + pcm.length / 2 ≤ existing.startSample ∨
      existing.endSample ≤ start := by
    intro existing hmem
    by_contra hoverlap
    have hpos := h.pos hmem
    have hnone := contents_eq_none.mp (hfree (max start existing.startSample) (by omega) (by omega))
      existing hmem
    rw [Segment.contents_eq_none] at hnone
    omega
  constructor
  · rw [insert, if_neg hsize]
    dsimp only
    rw [findIdentical_of_apart hapart]
    rfl
  · intro existing hmem p
    rw [Segment.contents_eq_none, Segment.contents_eq_none]
    have hor := hapart existing hmem
    simp only [Segment.endSample] at hor ⊢
    omega

theorem Formed.insert (h : e.Formed) (he : e.insert start pcm = .ok e') : e'.Formed := by
  obtain ⟨high, hwithin⟩ := h.within
  have hwithin' : e.Within 0 (max high (start + pcm.length / 2)) :=
    hwithin.mono (Nat.le_max_left _ _)
  refine ⟨⟨_, hwithin'.insert (Nat.zero_le _) (Nat.le_max_right _ _) he⟩, ?_⟩
  have hsize : ¬ (pcm.length = 0 ∨ pcm.length % 2 ≠ 0) := fun hmal => by
    rw [insert_malformed hmal] at he
    cases he
  obtain rfl | rfl := insert_cases he
  · exact h.even
  · intro segment hmem
    obtain hold | rfl := mem_add.mp hmem
    · exact h.even segment hold
    · dsimp only
      omega

/-- A segment that is apart from the others adds its samples. -/
theorem Formed.contents_add (h : e.Formed) {segment : Segment} (h' : (e.add segment).Formed)
    (hapart : ∀ existing ∈ e.segments, Apart existing.contents segment.contents) :
    (e.add segment).contents = union e.contents segment.contents := by
  have hunion : Apart e.contents segment.contents := fun p => by
    by_cases hp : segment.contents p = none
    · exact .inr hp
    · exact .inl (contents_eq_none.mpr fun s hs => (hapart s hs p).resolve_right hp)
  refine ext_some fun p x => ?_
  rw [union_eq_some hunion, h'.contents_eq_some, h.contents_eq_some]
  constructor
  · rintro ⟨s, hs, hx⟩
    obtain hold | rfl := mem_add.mp hs
    · exact .inl ⟨s, hold, hx⟩
    · exact .inr hx
  · rintro (⟨s, hs, hx⟩ | hx)
    · exact ⟨s, mem_add.mpr (.inl hs), hx⟩
    · exact ⟨segment, mem_add.mpr (.inr rfl), hx⟩

/-! ## Discarding -/

theorem Formed.discardBefore (h : e.Formed) (sample : Nat) : (e.discardBefore sample).Formed := by
  obtain ⟨high, hwithin⟩ := h.within
  have hcut := hwithin.discardBefore sample
  refine ⟨⟨high, hcut.ordered, fun segment hmem => ?_⟩, fun segment hmem => ?_⟩
  · obtain ⟨-, hpos, hhigh⟩ := hcut.bounds segment hmem
    exact ⟨Nat.zero_le _, hpos, hhigh⟩
  · obtain ⟨old, hold, hcut⟩ := List.mem_filterMap.mp hmem
    have heven := h.even old hold
    unfold cutBefore at hcut
    split at hcut
    · cases hcut
    · split at hcut
      · cases hcut
        rw [List.length_drop]
        omega
      · cases hcut
        exact heven

/-- What is left of one segment. -/
theorem contents_cutBefore {sample p : Nat} {segment : Segment} {x : Bytes} :
    (∃ cut, cutBefore sample segment = some cut ∧ cut.contents p = some x) ↔
      sample ≤ p ∧ segment.contents p = some x := by
  unfold cutBefore
  split
  · next hend =>
      constructor
      · rintro ⟨cut, hcut, -⟩
        cases hcut
      · rintro ⟨hle, hx⟩
        have hbounds := (Segment.contents_eq_some.mp hx).1
        omega
  · next hend =>
      split
      · next hlt =>
          -- the segment is cut, and its samples keep their positions
          have hcutEnd : Segment.endSample ⟨sample, segment.pcmS16le.drop
              ((sample - segment.startSample) * 2)⟩ = segment.endSample := by
            simp only [Segment.endSample, List.length_drop] at hend ⊢
            omega
          simp only [Option.some.injEq, exists_eq_left', Segment.contents_eq_some, hcutEnd,
            sample_drop]
          constructor
          · rintro ⟨⟨hlow, hhigh⟩, hx⟩
            refine ⟨hlow, ⟨by omega, hhigh⟩, ?_⟩
            rw [← hx]
            congr 1
            omega
          · rintro ⟨hlow, ⟨-, hhigh⟩, hx⟩
            refine ⟨⟨hlow, hhigh⟩, ?_⟩
            rw [← hx]
            congr 1
            omega
      · next hle =>
          simp only [Option.some.injEq, exists_eq_left', Segment.contents_eq_some]
          constructor
          · rintro ⟨hbounds, hx⟩
            exact ⟨by omega, hbounds, hx⟩
          · rintro ⟨-, hbounds, hx⟩
            exact ⟨hbounds, hx⟩

theorem Formed.contents_discardBefore (h : e.Formed) (sample : Nat) :
    (e.discardBefore sample).contents = dropBelow sample e.contents := by
  refine ext_some fun p x => ?_
  rw [(h.discardBefore sample).contents_eq_some, dropBelow_eq_some, h.contents_eq_some]
  simp only [EnhancedSegments.discardBefore, List.mem_filterMap]
  constructor
  · rintro ⟨cut, ⟨segment, hmem, hcut⟩, hx⟩
    obtain ⟨hle, hx⟩ := contents_cutBefore.mp ⟨cut, hcut, hx⟩
    exact ⟨hle, segment, hmem, hx⟩
  · rintro ⟨hle, segment, hmem, hx⟩
    obtain ⟨cut, hcut, hx⟩ := contents_cutBefore.mpr ⟨hle, hx⟩
    exact ⟨cut, ⟨segment, hmem, hcut⟩, hx⟩

/-! ## Reading -/

/-- The loop of `read` gets through a range without gaps. -/
theorem readLoop_isSome {segments : List Segment} {stop cursor : Nat} {output : Bytes}
    (hordered : segments.Pairwise fun a b => a.endSample ≤ b.startSample)
    (hlt : cursor < stop) (h : ∀ p, cursor ≤ p → p < stop →
      ∃ segment ∈ segments, segment.startSample ≤ p ∧ p < segment.endSample) :
    ∃ bytes, readLoop stop segments cursor output = some bytes := by
  induction segments generalizing cursor output with
  | nil =>
      obtain ⟨segment, hmem, -⟩ := h cursor le_rfl hlt
      cases hmem
  | cons segment rest ih =>
      obtain ⟨hfirst, hrest⟩ := List.pairwise_cons.mp hordered
      rw [readLoop]
      split
      · next hpast =>
          refine ih hrest hlt fun p hlow hhigh => ?_
          obtain ⟨s, hs, hbounds⟩ := h p hlow hhigh
          obtain rfl | hs := List.mem_cons.mp hs
          · omega
          · exact ⟨s, hs, hbounds⟩
      · next hpast =>
          have hgap : ¬ cursor < segment.startSample := by
            obtain ⟨s, hs, hbounds⟩ := h cursor le_rfl hlt
            obtain rfl | hs := List.mem_cons.mp hs
            · omega
            · have hbehind := hfirst s hs
              omega
          rw [if_neg hgap]
          dsimp only
          split
          · exact ⟨_, rfl⟩
          · next hmore =>
              refine ih hrest (by omega) fun p hlow hhigh => ?_
              obtain ⟨s, hs, hbounds⟩ := h p (by omega) hhigh
              obtain rfl | hs := List.mem_cons.mp hs
              · omega
              · exact ⟨s, hs, hbounds⟩

theorem Formed.read_samples (h : e.Formed) {start count : Nat} {bytes : Bytes}
    (hread : e.read start count = some bytes) : bytes.length = count * 2 ∧
      ∀ k, k < count → e.contents (start + k) = some (sample 2 bytes k) := by
  have hstamped : e.Stamped fun p x => e.contents p = some x := by
    intro segment hmem k hk
    refine h.contents_eq_some.mpr ⟨segment, hmem, Segment.contents_eq_some.mpr ⟨⟨?_, ?_⟩, ?_⟩⟩
    · omega
    · rw [Segment.endSample]
      omega
    · rw [Nat.add_sub_cancel_left]
  obtain ⟨hlen, hout⟩ := hstamped.read hread
  exact ⟨hlen, fun k hk => hout k (by omega)⟩

theorem Formed.read_isSome_iff (h : e.Formed) {start count : Nat} (hcount : 0 < count) :
    (∃ bytes, e.read start count = some bytes) ↔ Covers e.contents start count := by
  constructor
  · rintro ⟨bytes, hread⟩ p hlow hhigh
    have hp := (h.read_samples hread).2 (p - start) (by omega)
    rw [Nat.add_sub_cancel' hlow] at hp
    rw [hp, Option.isSome_some]
  · intro hcovers
    refine readLoop_isSome h.ordered (by omega) fun p hlow hhigh => ?_
    obtain ⟨x, hx⟩ := Option.isSome_iff_exists.mp (hcovers p hlow hhigh)
    obtain ⟨segment, hmem, hx⟩ := h.contents_eq_some.mp hx
    exact ⟨segment, hmem, (Segment.contents_eq_some.mp hx).1⟩

/-- What `read` returns depends on the map alone, not on the segments. -/
theorem Formed.read_congr (h : e.Formed) (h' : e'.Formed) (heq : e.contents = e'.contents)
    {start count : Nat} (hcount : 0 < count) : e.read start count = e'.read start count := by
  have hiff : (∃ bytes, e.read start count = some bytes) ↔
      ∃ bytes, e'.read start count = some bytes := by
    rw [h.read_isSome_iff hcount, h'.read_isSome_iff hcount, heq]
  cases hread : e.read start count with
  | none =>
      cases hread' : e'.read start count with
      | none => rfl
      | some bytes' =>
          obtain ⟨bytes, hbytes⟩ := hiff.mpr ⟨bytes', hread'⟩
          rw [hread] at hbytes
          cases hbytes
  | some bytes =>
      obtain ⟨bytes', hread'⟩ := hiff.mp ⟨bytes, hread⟩
      obtain ⟨hlen, hsamples⟩ := h.read_samples hread
      obtain ⟨hlen', hsamples'⟩ := h'.read_samples hread'
      rw [hread', Option.some.injEq]
      refine ext_samples hlen hlen' fun k hk => ?_
      have hk' := hsamples' k hk
      rw [← heq, hsamples k hk, Option.some.injEq] at hk'
      exact hk'

end Formed

/-! ## Sequences of operations -/

/-- A call of a method that changes the segments. -/
inductive Operation where
  | insert (startSample : Nat) (pcmS16le : Bytes)
  | discardBefore (sample : Nat)
  | clear
deriving DecidableEq

/-- What a call raises, if anything, and the segments it leaves.  `insert` raises before it touches
the list. -/
def call (e : EnhancedSegments) : Operation → Except PyError Unit × EnhancedSegments
  | .insert startSample pcmS16le =>
    match e.insert startSample pcmS16le with
    | .ok e' => (.ok (), e')
    | .error error => (.error error, e)
  | .discardBefore sample => (.ok (), e.discardBefore sample)
  | .clear => (.ok (), e.clear)

/-- The segments after a sequence of calls. -/
def run (operations : List Operation) : EnhancedSegments :=
  operations.foldl (fun e operation => (e.call operation).2) .new

theorem formed_new : new.Formed := ⟨⟨0, within_clear new 0 0⟩, nofun⟩

theorem Formed.call (h : e.Formed) (operation : Operation) : (e.call operation).2.Formed := by
  cases operation with
  | insert start pcm =>
      unfold EnhancedSegments.call
      dsimp only
      split
      · next e' he => exact h.insert he
      · exact h
  | discardBefore sample => exact h.discardBefore sample
  | clear => exact formed_new

theorem formed_run (operations : List Operation) : (run operations).Formed :=
  List.foldlRecOn operations _ formed_new fun _ h operation _ => h.call operation

/-- The object behaves as a finite partial map from positions to samples. -/
structure IsPartialMap (e : EnhancedSegments) : Prop where
  /-- The segments are not empty. -/
  nonempty : ∀ segment ∈ e.segments, segment.pcmS16le ≠ []
  /-- They are sorted and pairwise disjoint. -/
  ordered : e.segments.Pairwise fun a b =>
    a.startSample < b.startSample ∧ a.endSample ≤ b.startSample
  /-- Finitely many positions are defined. -/
  finite : ∃ high, ∀ p, high ≤ p → e.contents p = none
  /-- A range that is disjoint from what is stored adds its samples. -/
  insertApart : ∀ start pcm, pcm ≠ [] → pcm.length % 2 = 0 →
    (∀ p, start ≤ p → p < start + pcm.length / 2 → e.contents p = none) →
    ∃ e', e.call (.insert start pcm) = (.ok (), e') ∧
      e'.contents = union e.contents (Segment.contents ⟨start, pcm⟩)
  /-- A stored segment may be inserted again. -/
  insertIdentical : ∀ segment ∈ e.segments,
    e.call (.insert segment.startSample segment.pcmS16le) = (.ok (), e)
  /-- Any other overlap raises `ValueError`. -/
  insertOverlap : ∀ start pcm p, start ≤ p → p < start + pcm.length / 2 → e.contents p ≠ none →
    ⟨start, pcm⟩ ∉ e.segments →
    ∃ detail, e.call (.insert start pcm) = (.error (.value detail), e)
  /-- What is no range of samples raises `ValueError`. -/
  insertMalformed : ∀ start pcm, pcm = [] ∨ pcm.length % 2 ≠ 0 →
    ∃ detail, e.call (.insert start pcm) = (.error (.value detail), e)
  /-- The positions below the bound are forgotten. -/
  discard : ∀ sample,
    (e.call (.discardBefore sample)).2.contents = dropBelow sample e.contents
  /-- A segment on both sides of the bound is cut there. -/
  discardCuts : ∀ sample, ∀ segment ∈ e.segments, segment.startSample < sample →
    sample < segment.endSample →
    ⟨sample, segment.pcmS16le.drop ((sample - segment.startSample) * 2)⟩ ∈
      (e.call (.discardBefore sample)).2.segments
  /-- Nothing is left after `clear`. -/
  clear : (e.call .clear).2.contents = empty
  /-- `read` returns something exactly if the range has no gap. -/
  read : ∀ start count, 0 < count →
    ((∃ bytes, e.read start count = some bytes) ↔ Covers e.contents start count)
  /-- It returns the samples of the range, in order. -/
  readSamples : ∀ start count bytes, e.read start count = some bytes →
    bytes.length = count * 2 ∧
      ∀ k, k < count → e.contents (start + k) = some (sample 2 bytes k)

theorem Formed.isPartialMap (h : e.Formed) : e.IsPartialMap where
  nonempty := by
    intro segment hmem hnil
    have hpos := h.pos hmem
    rw [Segment.endSample, hnil, List.length_nil] at hpos
    omega
  ordered := by
    refine h.ordered.imp_of_mem fun ha _ hle => ⟨?_, hle⟩
    have hpos := h.pos ha
    omega
  finite := by
    obtain ⟨high, hwithin⟩ := h.within
    refine ⟨high, fun p hp => contents_eq_none.mpr fun segment hmem => ?_⟩
    have hbounds := hwithin.bounds segment hmem
    rw [Segment.contents_eq_none]
    omega
  insertApart := by
    intro start pcm hne heven hfree
    have hsize : ¬ (pcm.length = 0 ∨ pcm.length % 2 ≠ 0) := by
      rw [List.length_eq_zero_iff]
      exact fun hor => hor.elim hne fun hodd => hodd heven
    obtain ⟨hinsert, hapart⟩ := h.insert_apart hsize hfree
    refine ⟨_, ?_, h.contents_add (h.insert hinsert) hapart⟩
    rw [EnhancedSegments.call, hinsert]
  insertIdentical := by
    intro segment hmem
    rw [EnhancedSegments.call, h.insert_identical hmem]
  insertOverlap := by
    intro start pcm p hlow hhigh hp hne
    by_cases hsize : pcm.length = 0 ∨ pcm.length % 2 ≠ 0
    · exact ⟨_, by rw [EnhancedSegments.call, insert_malformed hsize]⟩
    · exact ⟨_, by rw [EnhancedSegments.call, insert_overlap hsize hlow hhigh hp hne]⟩
  insertMalformed := by
    intro start pcm hmal
    rw [← List.length_eq_zero_iff] at hmal
    exact ⟨_, by rw [EnhancedSegments.call, insert_malformed hmal]⟩
  discard sample := h.contents_discardBefore sample
  discardCuts := by
    intro sample segment hmem hlow hhigh
    refine List.mem_filterMap.mpr ⟨segment, hmem, ?_⟩
    rw [cutBefore, if_neg (by omega), if_pos hlow]
  clear := rfl
  read _ _ hcount := h.read_isSome_iff hcount
  readSamples _ _ _ hread := h.read_samples hread

/-- After any sequence of calls the segments are a finite partial map from positions to samples,
and every method does to the map what its name says.  However the same samples are divided into
segments, the same is read. -/
theorem segments_partial_map (operations : List Operation) : (run operations).IsPartialMap ∧
    ∀ operations', (run operations).contents = (run operations').contents →
      ∀ start count, 0 < count →
        (run operations).read start count = (run operations').read start count :=
  ⟨(formed_run operations).isPartialMap, fun operations' heq _ _ hcount =>
    (formed_run operations).read_congr (formed_run operations') heq hcount⟩

end EnhancedSegments

end VoxLattice.Plugin
