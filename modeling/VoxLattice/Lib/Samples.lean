import Mathlib.Algebra.BigOperators.Group.List.Basic
import Mathlib.Tactic.Ring

/-!
# Samples in flat lists

A flat list holds samples of a fixed width `w`.  Placed at an absolute position it is a piece of
a timeline: its `k`-th sample is the sample of position `start + k`.

`Stamped` says that every sample of a piece meets a predicate of its position.  It says nothing
about an incomplete sample at the end.  The lemmas say that it survives what buffers do with
pieces: cutting at a whole sample, and joining adjacent ones.
-/

namespace Samples

variable {α : Type*} {w : Nat} {G G' : Nat → List α → Prop}

/-- The `k`-th sample. -/
def sample (w : Nat) (data : List α) (k : Nat) : List α := (data.drop (k * w)).take w

/-- The samples from `k` to `k + n`. -/
def slice (w : Nat) (data : List α) (k n : Nat) : List α := (data.drop (k * w)).take (n * w)

/-- Every sample of the list, which is placed at `start`, is right for its position. -/
def Stamped (w : Nat) (G : Nat → List α → Prop) (start : Nat) (data : List α) : Prop :=
  ∀ k, (k + 1) * w ≤ data.length → G (start + k) (sample w data k)

/-! ## Samples of parts -/

theorem sample_append_left {data : List α} {k : Nat} (h : (k + 1) * w ≤ data.length)
    (rest : List α) : sample w (data ++ rest) k = sample w data k := by
  rw [Nat.add_mul, Nat.one_mul] at h
  rw [sample, sample, List.drop_append_of_le_length (by omega),
    List.take_append_of_le_length (by rw [List.length_drop]; omega)]

theorem sample_append_right {data : List α} {n : Nat} (h : data.length = n * w) (rest : List α)
    (k : Nat) : sample w (data ++ rest) (n + k) = sample w rest k := by
  rw [sample, sample, Nat.add_mul, ← h, List.drop_length_add_append]

theorem sample_drop (data : List α) (n k : Nat) :
    sample w (data.drop (n * w)) k = sample w data (n + k) := by
  rw [sample, sample, List.drop_drop, Nat.add_mul]

theorem sample_take {k n : Nat} (h : k < n) (data : List α) :
    sample w (data.take (n * w)) k = sample w data k := by
  have hle : w ≤ n * w - k * w := by
    obtain ⟨d, rfl⟩ := Nat.exists_eq_add_of_lt h
    have hsplit : (k + d + 1) * w = k * w + d * w + w := by ring
    omega
  rw [sample, sample, List.drop_take, List.take_take, Nat.min_eq_left hle]

theorem length_flatMap_samples {β : Type*} {f : β → List α} {l : List β}
    (hlen : ∀ b ∈ l, (f b).length = w) : (l.flatMap f).length = l.length * w := by
  induction l with
  | nil => rw [List.flatMap_nil, List.length_nil, List.length_nil, Nat.zero_mul]
  | cons c l ih =>
      rw [List.flatMap_cons, List.length_append, hlen c List.mem_cons_self,
        ih fun b hb => hlen b (List.mem_cons_of_mem _ hb), List.length_cons, Nat.succ_mul,
        Nat.add_comm]

/-- The samples of a list that is put together from samples. -/
theorem sample_flatMap {β : Type*} {f : β → List α} {l : List β}
    (hlen : ∀ b ∈ l, (f b).length = w) {k : Nat} {b : β} (h : l[k]? = some b) :
    sample w (l.flatMap f) k = f b := by
  induction l generalizing k with
  | nil => simp at h
  | cons c l ih =>
      have hc : (f c).length = 1 * w := by rw [hlen c List.mem_cons_self, Nat.one_mul]
      rw [List.flatMap_cons]
      cases k with
      | zero =>
          rw [List.getElem?_cons_zero, Option.some.injEq] at h
          subst h
          rw [sample_append_left (by rw [hc, Nat.zero_add]), sample, Nat.zero_mul, List.drop_zero,
            List.take_of_length_le (by rw [hc, Nat.one_mul])]
      | succ k =>
          rw [List.getElem?_cons_succ] at h
          rw [Nat.add_comm k 1, sample_append_right hc]
          exact ih (fun b hb => hlen b (List.mem_cons_of_mem _ hb)) h

/-- The same with some more behind them. -/
theorem sample_flatMap_append {β : Type*} {f : β → List α} {l : List β}
    (hlen : ∀ b ∈ l, (f b).length = w) {k : Nat} {b : β} (h : l[k]? = some b) (rest : List α) :
    sample w (l.flatMap f ++ rest) k = f b := by
  have hlt := (List.getElem?_eq_some_iff.mp h).1
  rw [sample_append_left, sample_flatMap hlen h]
  rw [length_flatMap_samples hlen]
  exact Nat.mul_le_mul_right w hlt

/-- Lists of whole samples that agree in every sample are equal. -/
theorem ext_samples {data data' : List α} {n : Nat} (h : data.length = n * w)
    (h' : data'.length = n * w) (heq : ∀ k, k < n → sample w data k = sample w data' k) :
    data = data' := by
  induction n generalizing data data' with
  | zero =>
      rw [Nat.zero_mul, List.length_eq_zero_iff] at h h'
      rw [h, h']
  | succ n ih =>
      have hw : w ≤ (n + 1) * w := Nat.le_mul_of_pos_left w n.succ_pos
      rw [← List.take_append_drop w data, ← List.take_append_drop w data']
      congr 1
      · have hzero := heq 0 n.succ_pos
        rwa [sample, sample, Nat.zero_mul, List.drop_zero, List.drop_zero] at hzero
      · refine ih ?_ ?_ fun k hk => ?_
        · rw [List.length_drop, h, Nat.add_mul, Nat.one_mul, Nat.add_sub_cancel]
        · rw [List.length_drop, h', Nat.add_mul, Nat.one_mul, Nat.add_sub_cancel]
        · have hsucc := heq (k + 1) (by omega)
          rw [Nat.add_comm k 1, ← sample_drop, ← sample_drop, Nat.one_mul] at hsucc
          exact hsucc

/-- A list is put together from its samples. -/
theorem flatMap_sample {data : List α} {n : Nat} (h : data.length = n * w) :
    (List.range n).flatMap (sample w data) = data := by
  have hlen : ∀ k ∈ List.range n, (sample w data k).length = w := by
    intro k hk
    have hle : (k + 1) * w ≤ n * w := Nat.mul_le_mul_right w (List.mem_range.mp hk)
    rw [Nat.add_mul, Nat.one_mul] at hle
    rw [sample, List.length_take, List.length_drop]
    omega
  refine ext_samples ?_ h fun k hk => ?_
  · rw [length_flatMap_samples hlen, List.length_range]
  · exact sample_flatMap hlen (List.getElem?_range hk)

theorem getElem?_sample (data : List α) (k : Nat) {i : Nat} (hi : i < w) :
    (sample w data k)[i]? = data[k * w + i]? := by
  rw [sample, List.getElem?_take_of_lt hi, List.getElem?_drop]

/-- Every element stands in a sample. -/
theorem getElem?_eq_sample (hw : 0 < w) (data : List α) (i : Nat) :
    data[i]? = (sample w data (i / w))[i % w]? := by
  rw [getElem?_sample _ _ (Nat.mod_lt i hw), Nat.mul_comm, Nat.div_add_mod]

theorem sample_eq_nil {data : List α} {k : Nat} (h : data.length ≤ k * w) :
    sample w data k = [] := by
  rw [sample, List.drop_of_length_le h, List.take_nil]

theorem sample_congr {data data' : List α} {k : Nat}
    (h : ∀ i, i < w → data[k * w + i]? = data'[k * w + i]?) :
    sample w data k = sample w data' k := by
  refine List.ext_getElem? fun i => ?_
  by_cases hi : i < w
  · rw [getElem?_sample _ _ hi, getElem?_sample _ _ hi, h i hi]
  · rw [sample, sample, List.getElem?_take_eq_none (by omega),
      List.getElem?_take_eq_none (by omega)]

/-! ## Slices -/

theorem sample_slice {k n i : Nat} (h : i < n) (data : List α) :
    sample w (slice w data k n) i = sample w data (k + i) := by
  rw [slice, sample_take h, sample_drop]

/-- Two adjacent slices are one. -/
theorem slice_append_slice (data : List α) (k n m : Nat) :
    slice w data k n ++ slice w data (k + n) m = slice w data k (n + m) := by
  rw [slice, slice, slice, Nat.add_mul k, Nat.add_mul n, ← List.drop_drop, ← List.take_add]

theorem length_slice {data : List α} {k n : Nat} (h : (k + n) * w ≤ data.length) :
    (slice w data k n).length = n * w := by
  rw [Nat.add_mul] at h
  rw [slice, List.length_take, List.length_drop]
  omega

/-- What has been sliced is not touched by what comes behind it. -/
theorem slice_append_left {data : List α} {k n : Nat} (h : (k + n) * w ≤ data.length)
    (rest : List α) : slice w (data ++ rest) k n = slice w data k n := by
  rw [Nat.add_mul] at h
  rw [slice, slice, List.drop_append_of_le_length (by omega),
    List.take_append_of_le_length (by rw [List.length_drop]; omega)]

/-- A list is a slice if it has the samples of the slice. -/
theorem eq_slice {data data' : List α} {k n : Nat} (hlen : data.length = n * w)
    (hfits : (k + n) * w ≤ data'.length)
    (heq : ∀ i, i < n → sample w data i = sample w data' (k + i)) :
    data = slice w data' k n :=
  ext_samples hlen (length_slice hfits) fun i hi => by rw [heq i hi, sample_slice hi]

theorem take_slice {k n m : Nat} (h : n ≤ m) (data : List α) :
    (slice w data k m).take (n * w) = slice w data k n := by
  rw [slice, slice, List.take_take, Nat.min_eq_left (Nat.mul_le_mul_right w h)]

/-! ## Pieces of a timeline -/

theorem stamped_nil (hw : 0 < w) (start : Nat) : Stamped w G start ([] : List α) := by
  intro k hk
  rw [List.length_nil, Nat.le_zero, Nat.mul_eq_zero] at hk
  omega

theorem Stamped.mono {start : Nat} {data : List α} (h : Stamped w G start data)
    (hG : ∀ p x, G p x → G' p x) : Stamped w G' start data :=
  fun k hk => hG _ _ (h k hk)

/-- Two adjacent pieces. -/
theorem Stamped.append {start n : Nat} {data rest : List α} (h : Stamped w G start data)
    (hlen : data.length = n * w) (h' : Stamped w G (start + n) rest) :
    Stamped w G start (data ++ rest) := by
  intro k hk
  rw [List.length_append] at hk
  by_cases hkn : k < n
  · have hle : (k + 1) * w ≤ data.length := by
      rw [hlen]
      exact Nat.mul_le_mul_right w hkn
    rw [sample_append_left hle]
    exact h k hle
  · obtain ⟨j, rfl⟩ := Nat.exists_eq_add_of_le (Nat.le_of_not_lt hkn)
    have hsplit : (n + j + 1) * w = n * w + (j + 1) * w := by ring
    rw [sample_append_right hlen, ← Nat.add_assoc]
    exact h' j (by omega)

theorem Stamped.drop {start : Nat} {data : List α} (h : Stamped w G start data) (n : Nat) :
    Stamped w G (start + n) (data.drop (n * w)) := by
  intro k hk
  have hsplit : (n + k + 1) * w = n * w + (k + 1) * w := by ring
  rw [List.length_drop] at hk
  rw [sample_drop, Nat.add_assoc]
  by_cases hw : w = 0
  · exact h (n + k) (by rw [hw, Nat.mul_zero]; exact Nat.zero_le _)
  · have hpos : 0 < (k + 1) * w := Nat.mul_pos k.succ_pos (Nat.pos_of_ne_zero hw)
    exact h (n + k) (by omega)

theorem Stamped.take {start : Nat} {data : List α} (h : Stamped w G start data) (n : Nat) :
    Stamped w G start (data.take (n * w)) := by
  intro k hk
  by_cases hw : w = 0
  · rw [hw, sample, List.take_zero]
    have hk := h k (by rw [hw, Nat.mul_zero]; exact Nat.zero_le _)
    rwa [hw, sample, List.take_zero] at hk
  · rw [List.length_take] at hk
    have hkn : k < n := Nat.lt_of_mul_lt_mul_right (a := w) (by
      have hsplit : (k + 1) * w = k * w + w := by ring
      omega)
    rw [sample_take hkn]
    exact h k (by omega)

end Samples
