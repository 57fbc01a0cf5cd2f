import VoxLattice.Lib.Fourier

/-!
# What the vendored network takes from torch

`Torch` is the arithmetic of a tensor's elements together with the functions of torch that the
transform and the network call on them.  No law is asked for, but each function is one of its
arguments alone, so that a row of a layer's result is a function of one row of its input.  Exact
arithmetic (`ℝ`) is like that, and so are roundings that are made element by element in a fixed
order.  The kernels of torch are not: they choose the order of a sum by the sizes of the batch, and
a row rounds differently in a larger one.  A literal of the source is a rational number, cast to the
type of the elements.

`sumOver` is a sum along an axis, in the order of the axis; exact arithmetic does not depend on it.

`merge` and `split` are `view` and `reshape`, where these put two adjacent axes into one or one into
two.  `lastOf` and `exceptLast` are Python's slices by a negative number.  `-0` is `0`, so `x[-0:]`
is all of `x` and `x[:-0]` is nothing.
-/

namespace VoxLattice.Upstream

/-! ## Literals

An axis of one entry is indexed by `0`, one of two by `0` and `1`, and `2` is real.  What these
literals rest on has a name, so that a definition with one in it proves nothing of its own. -/

scoped instance neZero_one : NeZero 1 := ⟨Nat.one_ne_zero⟩

scoped instance neZero_two : NeZero 2 := ⟨Nat.succ_ne_zero 1⟩

scoped instance atLeastTwo_two : Nat.AtLeastTwo 2 := ⟨Nat.le_refl 2⟩

/-! ## Elements -/

/-- The elements of a tensor and the functions of torch on them. -/
class Torch (α : Type*) extends Zero α, Add α, Neg α, Sub α, Mul α, Div α, RatCast α where
  /-- `torch.fft.rfft` of a row: the real and the imaginary part of each bin. -/
  rfft : List α → List (α × α)
  /-- `torch.fft.ifft` of a row. -/
  ifft : List (α × α) → List (α × α)
  /-- `torch.linalg.norm` of a pair. -/
  norm : α → α → α
  /-- `clamp(min=least)`. -/
  clamp : α → α → α
  /-- `pow`. -/
  pow : α → α → α
  /-- `sqrt`. -/
  sqrt : α → α
  /-- `exp`. -/
  exp : α → α
  /-- `sigmoid`. -/
  sigmoid : α → α
  /-- `tanh`. -/
  tanh : α → α
  rfft_length : ∀ x, (rfft x).length = x.length / 2 + 1
  ifft_length : ∀ X, (ifft X).length = X.length

section Slices

variable {β : Type*}

/-- `x[-n:]`. -/
def lastOf (n : ℕ) (x : List β) : List β := if n = 0 then x else x.drop (x.length - n)

/-- `x[:-n]`. -/
def exceptLast (n : ℕ) (x : List β) : List β := if n = 0 then [] else x.take (x.length - n)

theorem lastOf_eq {n : ℕ} (hn : n ≠ 0) (x : List β) : lastOf n x = x.drop (x.length - n) :=
  if_neg hn

theorem exceptLast_eq {n : ℕ} (hn : n ≠ 0) (x : List β) :
    exceptLast n x = x.take (x.length - n) :=
  if_neg hn

end Slices

/-! ## Axes -/

section Axes

/-- A sum along an axis. -/
def sumOver {α : Type*} [Zero α] [Add α] {n : ℕ} (f : Fin n → α) : α := (List.ofFn f).sum

variable {a b : ℕ} {β : Type*}

/-- Two axes as one, row by row. -/
def merge (x : Fin a → Fin b → β) : Fin (a * b) → β := fun i =>
  x (finProdFinEquiv.symm i).1 (finProdFinEquiv.symm i).2

/-- One axis as two. -/
def split (x : Fin (a * b) → β) : Fin a → Fin b → β := fun i j => x (finProdFinEquiv (i, j))

@[simp] theorem merge_apply (x : Fin a → Fin b → β) (i : Fin a) (j : Fin b) :
    merge x (finProdFinEquiv (i, j)) = x i j := by
  rw [merge, Equiv.symm_apply_apply]

@[simp] theorem split_apply (x : Fin (a * b) → β) (i : Fin a) (j : Fin b) :
    split x i j = x (finProdFinEquiv (i, j)) := rfl

end Axes

/-! ## Exact arithmetic -/

/-- The complex number of a pair. -/
def complexOf (z : ℝ × ℝ) : ℂ := ⟨z.1, z.2⟩

/-- The pair of a complex number. -/
def pairOf (z : ℂ) : ℝ × ℝ := (z.re, z.im)

noncomputable instance : Torch ℝ where
  rfft x := (List.range (x.length / 2 + 1)).map fun k =>
    pairOf (Fourier.dft x.length (fun m => (x.getD m 0 : ℝ)) k)
  ifft X := (List.range X.length).map fun m =>
    pairOf (Fourier.idft X.length (fun k => complexOf (X.getD k 0)) m)
  norm x y := √(x ^ 2 + y ^ 2)
  clamp least x := max x least
  pow x e := x ^ e
  sqrt x := √x
  exp x := Real.exp x
  sigmoid x := 1 / (1 + Real.exp (-x))
  tanh x := Real.tanh x
  rfft_length _ := (List.length_map ..).trans List.length_range
  ifft_length _ := (List.length_map ..).trans List.length_range

/-- `torch.hann_window`, periodic. -/
noncomputable def hannWindow (n : ℕ) : List ℝ :=
  if n = 1 then [1] else (List.range n).map fun i : ℕ => (1 - Real.cos (2 * Real.pi * i / n)) / 2

@[simp] theorem hannWindow_length (n : ℕ) : (hannWindow n).length = n := by
  unfold hannWindow
  split
  · next h => rw [h, List.length_singleton]
  · rw [List.length_map, List.length_range]

/-- The window ends at its first sample, and nowhere else. -/
theorem hannWindow_eq_zero_iff {n i : ℕ} (hn : n ≠ 1) (hi : i < n) :
    (hannWindow n).getD i 0 = 0 ↔ i = 0 := by
  have hget : (hannWindow n).getD i 0 = (1 - Real.cos (2 * Real.pi * i / n)) / 2 := by
    rw [List.getD_eq_getElem _ _ (by rwa [hannWindow_length])]
    simp only [hannWindow, if_neg hn, List.getElem_map, List.getElem_range]
  have hn' : (0 : ℝ) < n := Nat.cast_pos.mpr (by omega)
  rw [hget, div_eq_zero_iff, or_iff_left two_ne_zero, sub_eq_zero, eq_comm,
    Real.cos_eq_one_iff_of_lt_of_lt]
  · rw [div_eq_zero_iff, or_iff_left hn'.ne', mul_eq_zero, or_iff_right (by positivity),
      Nat.cast_eq_zero]
  · have : 0 ≤ 2 * Real.pi * i / n := by positivity
    have := Real.pi_pos
    linarith
  · rw [div_lt_iff₀ hn']
    have hlt : (i : ℝ) < n := Nat.cast_lt.mpr hi
    have := Real.pi_pos
    nlinarith

end VoxLattice.Upstream
