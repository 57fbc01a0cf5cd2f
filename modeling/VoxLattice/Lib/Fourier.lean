import Mathlib

/-!
# The discrete Fourier transform of a real frame

`dft` and `idft` are the transforms of `n` samples, as sums.  The spectrum of a real frame is
conjugate-symmetric, so its first `n / 2 + 1` bins, the half spectrum, tell the rest.

There are two ways back from a half spectrum.  `symmetric` puts the other half in place, and the
real part of the inverse transform is the frame.  `halved` leaves it zero.  Then the inverse
transform has half of every bin but the first and the last, which are their own mirror images, so
twice its real part counts these two once too often.  `re_idft_symmetric` says that the two ways
agree on every half spectrum, the spectrum of a real frame or not.
-/

namespace Fourier

open Finset Complex
open scoped ComplexConjugate

/-- The `j`-th power of the root of unity `e^{2πi / n}`. -/
noncomputable def root (n : ℕ) (j : ℤ) : ℂ := Real.fourierChar (j / n)

/-- The transform of the first `n` values of `x`. -/
noncomputable def dft (n : ℕ) (x : ℕ → ℂ) (k : ℕ) : ℂ := ∑ m ∈ range n, x m * root n (-(m * k))

/-- The inverse transform. -/
noncomputable def idft (n : ℕ) (X : ℕ → ℂ) (m : ℕ) : ℂ :=
  (∑ k ∈ range n, X k * root n (m * k)) / n

/-- The spectrum with the second half of a real frame. -/
noncomputable def symmetric (n : ℕ) (X : ℕ → ℂ) (k : ℕ) : ℂ :=
  if k ≤ n / 2 then X k else conj (X (n - k))

/-- The spectrum with nothing in its second half. -/
noncomputable def halved (n : ℕ) (X : ℕ → ℂ) (k : ℕ) : ℂ := if k ≤ n / 2 then X k else 0

/-! ## Roots of unity -/

section Roots

variable (n : ℕ)

theorem root_eq_exp (j : ℤ) : root n j = cexp (2 * Real.pi * I * j / n) := by
  rw [root, Real.fourierChar_apply]
  congr 1
  push_cast
  ring

@[simp] theorem root_zero : root n 0 = 1 := by simp [root]

theorem root_add (i j : ℤ) : root n (i + j) = root n i * root n j := by
  rw [root_eq_exp, root_eq_exp, root_eq_exp, ← Complex.exp_add]
  congr 1
  push_cast
  ring

theorem root_neg (j : ℤ) : root n (-j) = conj (root n j) := by
  rw [root_eq_exp, root_eq_exp, ← Complex.exp_conj]
  congr 1
  have htwo : conj (2 : ℂ) = 2 := Complex.conj_ofNat 2
  simp [Complex.conj_ofReal, htwo]

variable [NeZero n]

theorem root_eq_stdAddChar (j : ℤ) : root n j = ZMod.stdAddChar (j : ZMod n) :=
  (root_eq_exp n j).trans (ZMod.stdAddChar_coe j).symm

/-- A root is that of any exponent with the same remainder. -/
theorem root_congr {i j : ℤ} (h : (i : ZMod n) = j) : root n i = root n j := by
  rw [root_eq_stdAddChar, root_eq_stdAddChar, h]

/-- The roots of one exponent add up to nothing, unless the exponent is a multiple of `n`. -/
theorem sum_root (d : ℤ) :
    ∑ k ∈ range n, root n (d * k) = if (d : ZMod n) = 0 then (n : ℂ) else 0 := by
  have hsum := AddChar.sum_mulShift (d : ZMod n) (ZMod.isPrimitive_stdAddChar n)
  rw [ZMod.card, Nat.cast_ite, Nat.cast_zero] at hsum
  rw [← hsum]
  refine Finset.sum_bij' (fun k _ => (k : ZMod n)) (fun k _ => k.val) ?_ ?_ ?_ ?_ ?_
  · exact fun _ _ => Finset.mem_univ _
  · exact fun k _ => Finset.mem_range.mpr (ZMod.val_lt k)
  · exact fun k hk => ZMod.val_cast_of_lt (Finset.mem_range.mp hk)
  · exact fun k _ => ZMod.natCast_zmod_val k
  · intro k _
    rw [root_eq_stdAddChar]
    push_cast
    rw [mul_comm]

end Roots

/-! ## The inverse -/

section Inverse

variable {n : ℕ} [NeZero n]

/-- The inverse transform of the transform is the frame. -/
theorem idft_dft (x : ℕ → ℂ) {m : ℕ} (hm : m < n) : idft n (dft n x) m = x m := by
  have hn : (n : ℂ) ≠ 0 := Nat.cast_ne_zero.mpr (NeZero.ne n)
  have hterm (l : ℕ) (hl : l ∈ range n) :
      ∑ k ∈ range n, x l * root n (-(l * k)) * root n (m * k) =
        if l = m then x l * n else 0 := by
    have hroot (k : ℕ) : x l * root n (-(l * k)) * root n (m * k) =
        x l * root n (((m : ℤ) - l) * k) := by
      rw [mul_assoc, ← root_add]
      congr 2
      ring
    simp only [hroot, ← Finset.mul_sum, sum_root]
    have hiff : (((m : ℤ) - l : ℤ) : ZMod n) = 0 ↔ l = m := by
      push_cast
      rw [sub_eq_zero, ZMod.natCast_eq_natCast_iff', Nat.mod_eq_of_lt hm,
        Nat.mod_eq_of_lt (Finset.mem_range.mp hl), eq_comm]
    simp only [hiff, mul_ite, mul_zero]
  rw [idft, div_eq_iff hn]
  simp only [dft, Finset.sum_mul]
  rw [Finset.sum_comm, Finset.sum_congr rfl hterm,
    Finset.sum_ite_eq' (range n) m, if_pos (Finset.mem_range.mpr hm)]

/-- The mirror image of a bin of a real frame. -/
theorem dft_sub {x : ℕ → ℂ} (hreal : ∀ m, conj (x m) = x m) {k : ℕ} (hk : k ≤ n) :
    dft n x (n - k) = conj (dft n x k) := by
  rw [dft, dft, map_sum]
  refine Finset.sum_congr rfl fun m _ => ?_
  rw [map_mul, hreal, ← root_neg]
  congr 1
  refine root_congr n ?_
  push_cast [Nat.cast_sub hk]
  simp

/-- The half spectrum of a real frame tells its spectrum. -/
theorem symmetric_dft {x : ℕ → ℂ} (hreal : ∀ m, conj (x m) = x m) {k : ℕ} (hk : k < n) :
    symmetric n (dft n x) k = dft n x k := by
  unfold symmetric
  split
  · rfl
  · rw [dft_sub hreal hk.le, Complex.conj_conj]

end Inverse

/-! ## Back from the half spectrum -/

section Half

variable {h : ℕ} (X : ℕ → ℂ) (m : ℕ)

theorem root_half (hpos : 0 < h) : root (2 * h) (m * h) = (-1) ^ m := by
  rw [root_eq_exp, ← Complex.exp_pi_mul_I, ← Complex.exp_nat_mul]
  congr 1
  have hh : (h : ℂ) ≠ 0 := Nat.cast_ne_zero.mpr hpos.ne'
  push_cast
  field_simp

/-- A bin of the second half contributes what its mirror image does. -/
theorem re_mirror (hpos : 0 < h) {k : ℕ} (hk : k ≤ 2 * h) :
    (conj (X k) * root (2 * h) (m * ((2 * h - k : ℕ) : ℤ))).re =
      (X k * root (2 * h) (m * k)).re := by
  have : NeZero (2 * h) := ⟨by omega⟩
  have hroot : root (2 * h) (m * ((2 * h - k : ℕ) : ℤ)) = conj (root (2 * h) (m * k)) := by
    rw [← root_neg]
    refine root_congr _ ?_
    have hzero : ((2 * h : ℕ) : ZMod (2 * h)) = 0 := ZMod.natCast_self _
    push_cast [Nat.cast_sub hk] at hzero ⊢
    rw [hzero]
    ring
  rw [hroot, ← map_mul, Complex.conj_re]

/-- The second half of the spectrum, mirrored. -/
theorem sum_mirror (hpos : 0 < h) :
    ∑ k ∈ Ico (h + 1) (2 * h), (conj (X (2 * h - k)) * root (2 * h) (m * k)).re =
      ∑ k ∈ Ico 1 h, (X k * root (2 * h) (m * k)).re := by
  refine Finset.sum_bij' (fun k _ => 2 * h - k) (fun k _ => 2 * h - k) ?_ ?_ ?_ ?_ ?_
  · intro k hk
    rw [Finset.mem_Ico] at hk ⊢
    omega
  · intro k hk
    rw [Finset.mem_Ico] at hk ⊢
    omega
  · intro k hk
    rw [Finset.mem_Ico] at hk
    omega
  · intro k hk
    rw [Finset.mem_Ico] at hk
    omega
  · intro k hk
    rw [Finset.mem_Ico] at hk
    have hmirror := re_mirror X m hpos (k := 2 * h - k) (by omega)
    rwa [Nat.sub_sub_self (by omega)] at hmirror

/-- The first half of the spectrum, without its first and its last bin. -/
theorem sum_inner (hpos : 0 < h) :
    ∑ k ∈ Ico 1 h, (X k * root (2 * h) (m * k)).re =
      ∑ k ∈ range (h + 1), (X k * root (2 * h) (m * k)).re -
        ((X 0).re + (-1) ^ m * (X h).re) := by
  have hlast : (X h * root (2 * h) (m * h)).re = (-1) ^ m * (X h).re := by
    have hsign : ((-1 : ℂ)) ^ m = ((-1 : ℝ) ^ m : ℝ) := by push_cast; rfl
    rw [root_half m hpos, hsign, mul_comm, Complex.re_ofReal_mul]
  rw [Finset.sum_range_succ, hlast, Finset.range_eq_Ico, Finset.sum_eq_sum_Ico_succ_bot hpos]
  simp

/-- The two ways back from a half spectrum agree. -/
theorem re_idft_symmetric (hpos : 0 < h) :
    (idft (2 * h) (symmetric (2 * h) X) m).re =
      2 * (idft (2 * h) (halved (2 * h) X) m).re -
        ((X 0).re + (-1) ^ m * (X h).re) / (2 * h : ℕ) := by
  have hhalf : 2 * h / 2 = h := by omega
  have hsplit (F : ℕ → ℂ) : (∑ k ∈ range (2 * h), F k).re =
      ∑ k ∈ range (h + 1), (F k).re + ∑ k ∈ Ico (h + 1) (2 * h), (F k).re := by
    rw [Complex.re_sum, Finset.sum_range_add_sum_Ico _ (by omega)]
  have hlow (Y : ℕ → ℂ) (hY : ∀ k ≤ h, Y k = X k) :
      ∑ k ∈ range (h + 1), (Y k * root (2 * h) (m * k)).re =
        ∑ k ∈ range (h + 1), (X k * root (2 * h) (m * k)).re :=
    Finset.sum_congr rfl fun k hk => by rw [hY k (Nat.lt_succ_iff.mp (Finset.mem_range.mp hk))]
  have hsymmetric : ∑ k ∈ Ico (h + 1) (2 * h),
      (symmetric (2 * h) X k * root (2 * h) (m * k)).re =
        ∑ k ∈ Ico 1 h, (X k * root (2 * h) (m * k)).re := by
    rw [← sum_mirror X m hpos]
    refine Finset.sum_congr rfl fun k hk => ?_
    rw [symmetric, if_neg (by have := (Finset.mem_Ico.mp hk).1; omega)]
  have hhalved : ∑ k ∈ Ico (h + 1) (2 * h),
      (halved (2 * h) X k * root (2 * h) (m * k)).re = 0 := by
    refine Finset.sum_eq_zero fun k hk => ?_
    rw [halved, if_neg (by have := (Finset.mem_Ico.mp hk).1; omega), zero_mul, Complex.zero_re]
  have hlowSymmetric := hlow (symmetric (2 * h) X) fun k hk => if_pos (by omega)
  have hlowHalved := hlow (halved (2 * h) X) fun k hk => if_pos (by omega)
  rw [idft, idft, Complex.div_natCast_re, Complex.div_natCast_re, hsplit, hsplit, hlowSymmetric,
    hlowHalved, hsymmetric, hhalved, sum_inner X m hpos]
  ring

end Half

end Fourier
