import Mathlib.Algebra.BigOperators.Group.Finset.Basic
import Mathlib.Algebra.BigOperators.Ring.Finset
import Mathlib.Algebra.BigOperators.Intervals
import Mathlib.Data.List.GetD
import VoxLattice.Lib.Mealy

/-!
# Overlapping frames of a signal

A signal is cut into frames of `size` samples, of which each starts `hop` samples after the one
before it.  `slide` does so piece by piece, with the last samples kept in a cache.

`overlapAdd` is the sum of frames that are laid down again, each at its place.  `fade` does so
frame by frame: what a frame shares with the frames to come stays in a cache, and the rest is
final.  `slide_eq` and `fade_getD` say that both do what the definitions for the whole signal say.

`overlapAdd_frames` is reconstruction: frames that were multiplied by a weight add up to the
signal, where the weights that meet at a sample add up to one and the signal starts with the
silence of the first cache.
-/

namespace Frames

variable {α : Type*} {size hop : ℕ}

/-! ## Cutting -/

/-- The frame that starts at `t` hops. -/
def frame (size hop : ℕ) (signal : List α) (t : ℕ) : List α := (signal.drop (t * hop)).take size

/-- A piece together with the cache before it, of which the last samples are the next cache. -/
def window (keep : ℕ) (piece cache : List α) : List α × List α :=
  (cache ++ piece, (cache ++ piece).drop ((cache ++ piece).length - keep))

/-- Piece by piece. -/
def slide (keep : ℕ) : List α → List (List α) → List (List α) × List α := Mealy.run (window keep)

theorem length_flatten_pieces {pieces : List (List α)} (h : ∀ piece ∈ pieces, piece.length = hop) :
    pieces.flatten.length = pieces.length * hop := by
  rw [List.length_flatten, List.map_congr_left h, List.map_const', List.sum_replicate]
  rfl

theorem slide_eq (hsize : hop ≤ size) {cache : List α} (hcache : cache.length = size - hop)
    {pieces : List (List α)} (h : ∀ piece ∈ pieces, piece.length = hop) :
    slide (size - hop) cache pieces =
      ((List.range pieces.length).map (frame size hop (cache ++ pieces.flatten)),
        (cache ++ pieces.flatten).drop (pieces.length * hop)) := by
  induction pieces generalizing cache with
  | nil => simp [slide]
  | cons piece rest ih =>
      have hpiece := h piece List.mem_cons_self
      have hlen : (cache ++ piece).length = size := by rw [List.length_append]; omega
      have hdrop : ((cache ++ piece).drop hop).length = size - hop := by
        rw [List.length_drop, hlen]
      have hkeep : (cache ++ piece).length - (size - hop) = hop := by omega
      have hrest : (cache ++ piece).drop hop ++ rest.flatten =
          (cache ++ (piece :: rest).flatten).drop hop := by
        rw [List.flatten_cons, ← List.append_assoc,
          ← List.drop_append_of_le_length (hlen ▸ hsize)]
      have hnext := ih hdrop fun p hp => h p (List.mem_cons_of_mem _ hp)
      rw [hrest, slide] at hnext
      rw [slide, Mealy.run_cons, window, hkeep, hnext]
      refine Prod.ext ?_ ?_
      · rw [List.length_cons, List.range_succ_eq_map, List.map_cons, List.map_map]
        refine congrArg₂ List.cons ?_ (List.map_congr_left fun t _ => ?_)
        · rw [frame, Nat.zero_mul, List.drop_zero, List.flatten_cons, ← List.append_assoc,
            List.take_append_of_le_length (by omega), List.take_of_length_le (by omega)]
        · rw [frame, Function.comp_apply, frame, List.drop_drop, Nat.succ_mul, Nat.add_comm]
      · rw [List.drop_drop, List.length_cons, Nat.succ_mul, Nat.add_comm]

/-! ## Adding up -/

section

variable [Add α]

/-- Add the cache to the first samples of a frame. -/
def addCache (cache frame : List α) : List α :=
  List.zipWith (· + ·) (frame.take cache.length) cache ++ frame.drop cache.length

theorem addCache_length {cache frame : List α} (h : cache.length ≤ frame.length) :
    (addCache cache frame).length = frame.length := by
  rw [addCache, List.length_append, List.length_zipWith, List.length_take, List.length_drop]
  omega

/-- What is final of a frame, and the last samples, which stay for the frames to come. -/
def settle (keep : ℕ) (frame cache : List α) : List α × List α :=
  let sum := addCache cache frame
  (sum.take (sum.length - keep), sum.drop (sum.length - keep))

/-- Frame by frame. -/
def fade (keep : ℕ) : List α → List (List α) → List (List α) × List α := Mealy.run (settle keep)

end

section Add

variable [AddCommMonoid α]

/-- The sum at sample `p` of frames that start one hop apart. -/
def overlapAdd (hop : ℕ) (frames : List (List α)) (p : ℕ) : α :=
  ∑ m ∈ Finset.range frames.length,
    if m * hop ≤ p then (frames.getD m []).getD (p - m * hop) 0 else 0

theorem overlapAdd_cons (hop : ℕ) (frame : List α) (frames : List (List α)) (p : ℕ) :
    overlapAdd hop (frame :: frames) p =
      frame.getD p 0 + if hop ≤ p then overlapAdd hop frames (p - hop) else 0 := by
  have hterm (m : ℕ) : (if (m + 1) * hop ≤ p then
        ((frame :: frames).getD (m + 1) []).getD (p - (m + 1) * hop) 0 else 0) =
      if hop ≤ p then
        if m * hop ≤ p - hop then (frames.getD m []).getD (p - hop - m * hop) 0 else 0
      else 0 := by
    rw [Nat.succ_mul, List.getD_cons_succ]
    by_cases hp : hop ≤ p
    · have hiff : m * hop + hop ≤ p ↔ m * hop ≤ p - hop := by omega
      have hsub : p - (m * hop + hop) = p - hop - m * hop := by omega
      simp only [hiff, hsub, if_pos hp]
    · rw [if_neg hp, if_neg (by omega)]
  rw [overlapAdd, List.length_cons, Finset.sum_range_succ', add_comm]
  congr 1
  · simp
  · rw [Finset.sum_congr rfl fun m _ => hterm m]
    split
    · rfl
    · exact Finset.sum_const_zero

theorem addCache_getD {cache frame : List α} (h : cache.length ≤ frame.length) (p : ℕ) :
    (addCache cache frame).getD p 0 = frame.getD p 0 + cache.getD p 0 := by
  have hlen : (List.zipWith (· + ·) (frame.take cache.length) cache).length = cache.length := by
    rw [List.length_zipWith, List.length_take]
    omega
  rw [addCache]
  by_cases hp : p < cache.length
  · rw [List.getD_append _ _ _ _ (by omega), List.getD_eq_getElem _ _ (by omega),
      List.getElem_zipWith, List.getElem_take, List.getD_eq_getElem _ _ (by omega),
      List.getD_eq_getElem _ _ hp]
  · rw [List.getD_append_right _ _ _ _ (by omega), hlen, List.getD_eq_default cache _ (by omega),
      add_zero, List.getD_eq_getElem?_getD, List.getElem?_drop, List.getD_eq_getElem?_getD,
      Nat.add_sub_cancel' (by omega)]

theorem fade_cons (hsize : hop ≤ size) {cache frame : List α} (hcache : cache.length = size - hop)
    (hframe : frame.length = size) (rest : List (List α)) :
    fade (size - hop) cache (frame :: rest) =
      ((addCache cache frame).take hop ::
        (fade (size - hop) ((addCache cache frame).drop hop) rest).1,
        (fade (size - hop) ((addCache cache frame).drop hop) rest).2) := by
  have hkeep : (addCache cache frame).length - (size - hop) = hop := by
    rw [addCache_length (by omega)]
    omega
  rw [fade, Mealy.run_cons, settle, hkeep]

theorem fade_length {cache : List α} {frames : List (List α)} (hsize : hop ≤ size)
    (hcache : cache.length = size - hop) (h : ∀ frame ∈ frames, frame.length = size) :
    (∀ piece ∈ (fade (size - hop) cache frames).1, piece.length = hop) ∧
      (fade (size - hop) cache frames).1.length = frames.length ∧
      (fade (size - hop) cache frames).2.length = size - hop := by
  induction frames generalizing cache with
  | nil => exact ⟨fun _ hmem => absurd hmem List.not_mem_nil, rfl, hcache⟩
  | cons frame rest ih =>
      have hframe := h frame List.mem_cons_self
      have hsum : (addCache cache frame).length = size := by
        rw [addCache_length (by omega), hframe]
      obtain ⟨hpieces, hcount, hlast⟩ := @ih ((addCache cache frame).drop hop)
        (by rw [List.length_drop, hsum]) fun f hf => h f (List.mem_cons_of_mem _ hf)
      rw [fade_cons hsize hcache hframe]
      refine ⟨?_, congrArg Nat.succ hcount, hlast⟩
      rintro piece (_ | ⟨_, hmem⟩)
      · rw [List.length_take, hsum]
        omega
      · exact hpieces piece hmem

/-- The pieces and the last cache are the sum of the first cache and the frames. -/
theorem fade_getD {cache : List α} {frames : List (List α)} (hsize : hop ≤ size)
    (hcache : cache.length = size - hop) (h : ∀ frame ∈ frames, frame.length = size) (p : ℕ) :
    ((fade (size - hop) cache frames).1.flatten ++ (fade (size - hop) cache frames).2).getD p 0 =
      cache.getD p 0 + overlapAdd hop frames p := by
  induction frames generalizing cache p with
  | nil => simp [fade, overlapAdd]
  | cons frame rest ih =>
      have hframe := h frame List.mem_cons_self
      have hle : cache.length ≤ frame.length := by omega
      have hsum : (addCache cache frame).length = size := by rw [addCache_length hle, hframe]
      have hrest := @ih ((addCache cache frame).drop hop)
        (by rw [List.length_drop, hsum]) (fun f hf => h f (List.mem_cons_of_mem _ hf))
      have htake : ((addCache cache frame).take hop).length = hop := by
        rw [List.length_take, hsum]
        omega
      rw [fade_cons hsize hcache hframe, List.flatten_cons, List.append_assoc, overlapAdd_cons,
        ← add_assoc,
        add_comm (cache.getD p 0), ← addCache_getD hle]
      by_cases hp : hop ≤ p
      · have hdrop : ((addCache cache frame).drop hop).getD (p - hop) 0 =
            (addCache cache frame).getD p 0 := by
          rw [List.getD_eq_getElem?_getD, List.getElem?_drop, Nat.add_sub_cancel' hp,
            List.getD_eq_getElem?_getD]
        rw [if_pos hp, List.getD_append_right _ _ _ _ (by omega), htake, hrest, hdrop]
      · rw [if_neg hp, add_zero, List.getD_append _ _ _ _ (by omega), List.getD_eq_getElem?_getD,
          List.getElem?_take_of_lt (by omega), List.getD_eq_getElem?_getD]

end Add

/-! ## Sums over the frames that meet at a sample -/

section Meet

variable [AddCommMonoid α]

/-- The frames that have started at sample `p`, counted from the last one backwards. -/
theorem sum_started (hpos : 0 < hop) (f : ℕ → α) {p count : ℕ} (hp : p < count * hop) :
    (∑ m ∈ Finset.range count, if m * hop ≤ p then f (p - m * hop) else 0) =
      ∑ d ∈ Finset.range (p / hop + 1), f (p % hop + d * hop) := by
  have hdiv : p / hop < count := (Nat.div_lt_iff_lt_mul hpos).mpr hp
  have hsplit := Nat.mod_add_div' p hop
  rw [← Finset.sum_subset (Finset.range_subset_range.mpr hdiv) ?_, ← Finset.sum_range_reflect]
  · refine Finset.sum_congr rfl fun d hd => ?_
    have hd' : d ≤ p / hop := Nat.lt_succ_iff.mp (Finset.mem_range.mp hd)
    have hmul : (p / hop - d) * hop = p / hop * hop - d * hop := Nat.sub_mul ..
    have hle : d * hop ≤ p / hop * hop := Nat.mul_le_mul_right _ hd'
    rw [Nat.succ_sub_one, hmul, if_pos (by omega)]
    congr 1
    omega
  · intro m _ hm
    rw [Finset.mem_range, not_lt] at hm
    refine if_neg fun hle => ?_
    have := (Nat.le_div_iff_mul_le hpos).mpr hle
    omega

/-- Where a function ends, more frames add nothing. -/
theorem sum_covering {f : ℕ → α} (hzero : ∀ i, size ≤ i → f i = 0) {j n n' : ℕ}
    (hn : size ≤ j + n * hop) (hn' : size ≤ j + n' * hop) :
    ∑ d ∈ Finset.range n, f (j + d * hop) = ∑ d ∈ Finset.range n', f (j + d * hop) := by
  wlog hle : n ≤ n' generalizing n n'
  · exact (this hn' hn (by omega)).symm
  refine Finset.sum_subset (Finset.range_subset_range.mpr hle) fun d _ hd => hzero _ ?_
  rw [Finset.mem_range, not_lt] at hd
  have := Nat.mul_le_mul_right hop hd
  omega

end Meet

/-! ## Reconstruction -/

section Weights

variable [CommSemiring α]

/-- The weights of a frame's samples add up to one, over the frames that meet at a sample. -/
structure Partition (size hop : ℕ) (weight : ℕ → α) : Prop where
  zero : ∀ i, size ≤ i → weight i = 0
  one : ∀ j n, j < hop → size ≤ j + n * hop → ∑ d ∈ Finset.range n, weight (j + d * hop) = 1

/-- Weighted frames of a signal that starts silent add up to the signal. -/
theorem overlapAdd_frames {weight : ℕ → α} (hpos : 0 < hop) (hw : Partition size hop weight)
    {signal : List α} {frames : List (List α)}
    (hframes : ∀ m, m < frames.length → ∀ i,
      (frames.getD m []).getD i 0 = weight i * signal.getD (m * hop + i) 0)
    (hsilent : ∀ p, p + hop < size → signal.getD p 0 = 0) {p : ℕ}
    (hp : p < frames.length * hop) : overlapAdd hop frames p = signal.getD p 0 := by
  have hterm : overlapAdd hop frames p = ∑ m ∈ Finset.range frames.length,
      if m * hop ≤ p then weight (p - m * hop) * signal.getD p 0 else 0 := by
    refine Finset.sum_congr rfl fun m hm => ?_
    by_cases hle : m * hop ≤ p
    · rw [if_pos hle, if_pos hle, hframes m (Finset.mem_range.mp hm), Nat.add_sub_cancel' hle]
    · rw [if_neg hle, if_neg hle]
  rw [hterm, sum_started hpos (fun i => weight i * signal.getD p 0) hp, ← Finset.sum_mul]
  by_cases hp' : p + hop < size
  · rw [hsilent p hp', mul_zero]
  · have hsplit := Nat.mod_add_div' p hop
    rw [hw.one _ _ (Nat.mod_lt p hpos) (by rw [Nat.succ_mul]; omega), one_mul]

end Weights

end Frames
