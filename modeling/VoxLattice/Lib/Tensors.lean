import VoxLattice.Lib.Samples

/-!
# Tensors as nested lists

A tensor of rank 2 or 3 is a nested list with its shape, so a ragged one cannot be built.  `cat`
and `slice` are concatenation and slicing along the axis a batch is stacked on: the first axis of
rank 2, the second of rank 3.  `cat` is `none` where the other dimensions disagree.

A batch of tensors with `n` rows each is a list that holds one sample of width `n` for each of
them.  So cutting a batch up and putting it together again are inverse to each other
(`slice_cat`, `cat_slices`), and a row belongs to one tensor of the batch alone.
-/

namespace Tensors

open Samples

variable {α : Type*}

/-! ## Rank 2 -/

/-- A tensor of rank 2: rows of one width. -/
@[ext] structure Tensor2 (α : Type*) where
  rows : List (List α)
  width : Nat
  /-- Every row has the width. -/
  rect : ∀ row ∈ rows, row.length = width

namespace Tensor2

/-- The dimensions. -/
def shape (t : Tensor2 α) : Nat × Nat := (t.rows.length, t.width)

/-- `t[start:stop]`. -/
def slice (start stop : Nat) (t : Tensor2 α) : Tensor2 α where
  rows := (t.rows.drop start).take (stop - start)
  width := t.width
  rect row hrow := t.rect row (List.mem_of_mem_drop (List.mem_of_mem_take hrow))

/-- Concatenation along the first axis. -/
def cat : List (Tensor2 α) → Option (Tensor2 α)
  | [] => none
  | t :: rest =>
    if h : ∀ u ∈ rest, u.width = t.width then
      some {
        rows := (t :: rest).flatMap rows
        width := t.width
        rect := by
          intro row hrow
          obtain ⟨u, hu, hmem⟩ := List.mem_flatMap.mp hrow
          refine (u.rect row hmem).trans ?_
          obtain rfl | hu := List.mem_cons.mp hu
          · rfl
          · exact h u hu
      }
    else none

variable {ts : List (Tensor2 α)} {t c : Tensor2 α} {n w count : Nat}

theorem cat_eq (hne : ts ≠ []) (h : ∀ t ∈ ts, t.width = w) :
    ∃ c, cat ts = some c ∧ c.rows = ts.flatMap rows ∧ c.width = w := by
  cases ts with
  | nil => exact absurd rfl hne
  | cons t rest =>
      have hw := h t List.mem_cons_self
      rw [cat, dif_pos fun u hu => (h u (List.mem_cons_of_mem _ hu)).trans hw.symm]
      exact ⟨_, rfl, rfl, hw⟩

/-- A slice of `n` rows, at a multiple of `n`. -/
theorem slice_rows (t : Tensor2 α) (i n : Nat) :
    (t.slice (i * n) (i * n + n)).rows = sample n t.rows i := by
  change (t.rows.drop (i * n)).take (i * n + n - i * n) = _
  rw [Nat.add_sub_cancel_left, sample]

theorem slice_cat (hrows : c.rows = ts.flatMap rows) (hlen : ∀ t ∈ ts, t.rows.length = n) {i : Nat}
    (hi : ts[i]? = some t) (hw : c.width = t.width) : c.slice (i * n) (i * n + n) = t := by
  refine Tensor2.ext ?_ hw
  rw [slice_rows, hrows]
  exact sample_flatMap hlen hi

theorem cat_slices (hcount : count ≠ 0) (hlen : t.rows.length = count * n) :
    cat ((List.range count).map fun i => t.slice (i * n) (i * n + n)) = some t := by
  have hwidth : ∀ s ∈ (List.range count).map fun i => t.slice (i * n) (i * n + n),
      s.width = t.width := by
    intro s hs
    obtain ⟨i, -, rfl⟩ := List.mem_map.mp hs
    rfl
  obtain ⟨c, hcat, hrows, hw⟩ := cat_eq (by simpa using hcount) hwidth
  rw [hcat, Option.some.injEq]
  refine Tensor2.ext ?_ hw
  rw [hrows, List.flatMap_map]
  simp only [slice_rows]
  exact flatMap_sample hlen

theorem slice_congr {t' : Tensor2 α} {i : Nat} (hw : t.width = t'.width)
    (h : ∀ k, k < n → t.rows[i * n + k]? = t'.rows[i * n + k]?) :
    t.slice (i * n) (i * n + n) = t'.slice (i * n) (i * n + n) := by
  refine Tensor2.ext ?_ hw
  rw [slice_rows, slice_rows]
  exact sample_congr h

end Tensor2

/-! ## Rank 3 -/

/-- A tensor of rank 3: planes of one height, of rows of one width. -/
@[ext] structure Tensor3 (α : Type*) where
  planes : List (List (List α))
  height : Nat
  width : Nat
  /-- Every plane has the height and every row the width. -/
  rect : ∀ plane ∈ planes, plane.length = height ∧ ∀ row ∈ plane, row.length = width

namespace Tensor3

/-- The dimensions. -/
def shape (t : Tensor3 α) : Nat × Nat × Nat := (t.planes.length, t.height, t.width)

/-- The rows of a plane. -/
def plane (t : Tensor3 α) (k : Nat) : List (List α) := t.planes[k]?.getD []

/-- `t[:, start:stop]`. -/
def slice (start stop : Nat) (t : Tensor3 α) : Tensor3 α where
  planes := t.planes.map fun plane => (plane.drop start).take (stop - start)
  height := min (stop - start) (t.height - start)
  width := t.width
  rect := by
    intro plane hplane
    obtain ⟨old, hold, rfl⟩ := List.mem_map.mp hplane
    obtain ⟨hheight, hwidth⟩ := t.rect old hold
    refine ⟨by rw [List.length_take, List.length_drop, hheight], fun row hrow => ?_⟩
    exact hwidth row (List.mem_of_mem_drop (List.mem_of_mem_take hrow))

variable {ts : List (Tensor3 α)} {t c : Tensor3 α} {d n w count : Nat}

theorem plane_length (t : Tensor3 α) {k : Nat} (hk : k < t.planes.length) :
    (t.plane k).length = t.height := by
  rw [plane, List.getElem?_eq_getElem hk]
  exact (t.rect _ (List.getElem_mem hk)).1

theorem plane_length_le (t : Tensor3 α) (k : Nat) : (t.plane k).length ≤ t.height := by
  by_cases hk : k < t.planes.length
  · exact (t.plane_length hk).le
  · rw [plane, List.getElem?_eq_none (Nat.le_of_not_lt hk)]
    exact Nat.zero_le _

theorem mem_plane {k : Nat} {row : List α} (hrow : row ∈ t.plane k) : row.length = t.width := by
  rw [plane] at hrow
  cases hk : t.planes[k]? with
  | none => simp [hk] at hrow
  | some plane =>
      rw [hk] at hrow
      exact (t.rect plane (List.mem_of_getElem? hk)).2 row hrow

/-- A tensor is its planes, its height and its width. -/
theorem ext_plane {t' : Tensor3 α} (hdepth : t.planes.length = t'.planes.length)
    (hheight : t.height = t'.height) (hwidth : t.width = t'.width)
    (h : ∀ k, k < t.planes.length → t.plane k = t'.plane k) : t = t' := by
  refine Tensor3.ext (List.ext_getElem hdepth fun k hk hk' => ?_) hheight hwidth
  have hplane := h k hk
  rw [plane, plane, List.getElem?_eq_getElem hk, List.getElem?_eq_getElem hk'] at hplane
  exact hplane

/-- Concatenation along the second axis. -/
def cat : List (Tensor3 α) → Option (Tensor3 α)
  | [] => none
  | t :: rest =>
    if h : ∀ u ∈ rest, u.planes.length = t.planes.length ∧ u.width = t.width then
      some {
        planes := (List.range t.planes.length).map fun k => (t :: rest).flatMap (plane · k)
        height := ((t :: rest).map height).sum
        width := t.width
        rect := by
          intro new hnew
          obtain ⟨k, hk, rfl⟩ := List.mem_map.mp hnew
          rw [List.mem_range] at hk
          constructor
          · rw [List.length_flatMap]
            refine congrArg List.sum (List.map_congr_left fun u hu => u.plane_length ?_)
            obtain rfl | hu := List.mem_cons.mp hu
            · exact hk
            · exact hk.trans_eq (h u hu).1.symm
          · intro row hrow
            obtain ⟨u, hu, hmem⟩ := List.mem_flatMap.mp hrow
            refine (mem_plane hmem).trans ?_
            obtain rfl | hu := List.mem_cons.mp hu
            · rfl
            · exact (h u hu).2
      }
    else none

theorem cat_eq (hne : ts ≠ [])
    (h : ∀ t ∈ ts, t.planes.length = d ∧ t.height = n ∧ t.width = w) :
    ∃ c, cat ts = some c ∧ c.planes.length = d ∧ c.height = ts.length * n ∧ c.width = w ∧
      ∀ k, k < d → c.plane k = ts.flatMap (plane · k) := by
  cases ts with
  | nil => exact absurd rfl hne
  | cons t rest =>
      obtain ⟨hd, -, hw⟩ := h t List.mem_cons_self
      rw [cat, dif_pos fun u hu => ?_]
      · refine ⟨_, rfl, ?_, ?_, hw, fun k hk => ?_⟩
        · rw [List.length_map, List.length_range, hd]
        · dsimp only
          rw [List.map_congr_left fun u hu => (h u hu).2.1, List.map_const', List.sum_replicate]
          rfl
        · rw [plane]
          dsimp only
          rw [List.getElem?_map, List.getElem?_range (hd ▸ hk)]
          rfl
      · obtain ⟨hud, -, huw⟩ := h u (List.mem_cons_of_mem _ hu)
        exact ⟨hud.trans hd.symm, huw.trans hw.symm⟩

/-- A slice of `n` rows, at a multiple of `n`. -/
theorem slice_plane (t : Tensor3 α) (i n k : Nat) :
    (t.slice (i * n) (i * n + n)).plane k = sample n (t.plane k) i := by
  have hplanes : (t.slice (i * n) (i * n + n)).planes = t.planes.map (sample n · i) := by
    refine List.map_congr_left fun rows _ => ?_
    rw [Nat.add_sub_cancel_left, sample]
  rw [plane, hplanes, List.getElem?_map, plane]
  cases t.planes[k]? with
  | none => simp [sample]
  | some rows => rfl

theorem slice_height {i : Nat} (hheight : t.height = count * n) (hi : i < count) :
    (t.slice (i * n) (i * n + n)).height = n := by
  have hle : (i + 1) * n ≤ count * n := Nat.mul_le_mul_right n hi
  rw [Nat.add_mul, Nat.one_mul] at hle
  simp only [slice]
  omega

theorem slice_cat (hplane : ∀ k, k < d → c.plane k = ts.flatMap (plane · k))
    (hd : c.planes.length = d) (hheight : c.height = ts.length * n) (hw : c.width = w)
    (h : ∀ t ∈ ts, t.planes.length = d ∧ t.height = n ∧ t.width = w) {i : Nat}
    (hi : ts[i]? = some t) : c.slice (i * n) (i * n + n) = t := by
  obtain ⟨htd, hth, htw⟩ := h t (List.mem_of_getElem? hi)
  have hlt := (List.getElem?_eq_some_iff.mp hi).1
  have hdepth : (c.slice (i * n) (i * n + n)).planes.length = c.planes.length := List.length_map ..
  refine ext_plane (hdepth.trans (hd.trans htd.symm)) ?_ (hw.trans htw.symm) fun k hk => ?_
  · rw [slice_height hheight hlt, hth]
  · have hkd : k < d := hk.trans_eq (hdepth.trans hd)
    rw [slice_plane, hplane k hkd]
    refine sample_flatMap (fun u hu => ?_) hi
    obtain ⟨hud, huh, -⟩ := h u hu
    rw [u.plane_length (hkd.trans_eq hud.symm), huh]

theorem cat_slices (hcount : count ≠ 0) (hheight : t.height = count * n) :
    cat ((List.range count).map fun i => t.slice (i * n) (i * n + n)) = some t := by
  have hslices : ∀ s ∈ (List.range count).map fun i => t.slice (i * n) (i * n + n),
      s.planes.length = t.planes.length ∧ s.height = n ∧ s.width = t.width := by
    intro s hs
    obtain ⟨i, hi, rfl⟩ := List.mem_map.mp hs
    exact ⟨List.length_map .., slice_height hheight (List.mem_range.mp hi), rfl⟩
  obtain ⟨c, hcat, hd, hh, hw, hplane⟩ := cat_eq (by simpa using hcount) hslices
  rw [hcat, Option.some.injEq]
  refine ext_plane hd ?_ hw fun k hk => ?_
  · rw [hh, hheight, List.length_map, List.length_range]
  · have hkt : k < t.planes.length := hk.trans_eq hd
    rw [hplane k hkt, List.flatMap_map]
    simp only [slice_plane]
    exact flatMap_sample ((t.plane_length hkt).trans hheight)

theorem slice_congr {t' : Tensor3 α} {i : Nat} (hd : t.planes.length = t'.planes.length)
    (hheight : t.height = t'.height) (hw : t.width = t'.width)
    (h : ∀ k j, k < t.planes.length → j < n →
      (t.plane k)[i * n + j]? = (t'.plane k)[i * n + j]?) :
    t.slice (i * n) (i * n + n) = t'.slice (i * n) (i * n + n) := by
  have hdepth (u : Tensor3 α) : (u.slice (i * n) (i * n + n)).planes.length = u.planes.length :=
    List.length_map ..
  refine ext_plane ?_ ?_ hw fun k hk => ?_
  · rw [hdepth, hdepth, hd]
  · simp only [slice, hheight]
  · rw [slice_plane, slice_plane]
    exact sample_congr fun j hj => h k j (hk.trans_eq (hdepth t)) hj

end Tensor3

end Tensors
