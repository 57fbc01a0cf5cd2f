import VoxLattice.Upstream.Streaming

/-!
# What a mask does to a spectrum

`forward` compresses every bin to the power `c` of its magnitude, multiplies it by the mask as a
complex number and undoes the compression.  In exact arithmetic the whole is a gain on the bin.
`forward_gain` says which: the mask with the power `1 / c` of its own magnitude, and for a bin below
the floor `1e-5` of the compression, a power of its distance from it.  So the phase of a bin turns
by the phase of its mask, a mask of one leaves the bins above the floor as they are, and the gate
never makes a bin louder.  The last bin is dropped.
-/

namespace VoxLattice.Upstream

open Complex

/-- A bin as a complex number. -/
def binOf (z : Fin 2 → ℝ) : ℂ := ⟨z 0, z 1⟩

/-- `1.0e-5`, the least magnitude the compression divides by. -/
noncomputable def leastMagnitude : ℝ := ((1 / 100000 : ℚ) : ℝ)

theorem leastMagnitude_pos : 0 < leastMagnitude := by
  rw [leastMagnitude]
  positivity

/-- The gain of the way there and back on a bin of the given magnitude. -/
noncomputable def gate (c magnitude : ℝ) : ℝ := min 1 (magnitude / leastMagnitude) ^ (1 / c - 1)

theorem torch_norm (z : Fin 2 → ℝ) : Torch.norm (z 0) (z 1) = ‖binOf z‖ := by
  rw [Complex.norm_eq_sqrt_sq_add_sq]
  rfl

theorem binOf_masked (z mask : Fin 2 → ℝ) :
    binOf (ONNXModel.masked z mask) = binOf z * binOf mask := by
  apply Complex.ext
  · simp [binOf, ONNXModel.masked]
  · simp [binOf, ONNXModel.masked]

theorem binOf_mul (z : Fin 2 → ℝ) (r : ℝ) : (binOf fun c => z c * r) = binOf z * r := by
  apply Complex.ext
  · simp [binOf]
  · simp [binOf]

section Gate

variable {c x : ℝ}

theorem gate_of_le (hx : leastMagnitude ≤ x) : gate c x = 1 := by
  rw [gate, min_eq_left ((one_le_div leastMagnitude_pos).mpr hx), Real.one_rpow]

/-- The compression of a magnitude and the way back. -/
theorem gate_eq (hc : 0 < c) (hx : 0 ≤ x) :
    max x leastMagnitude ^ (c - 1) * (x * max x leastMagnitude ^ (c - 1)) ^ (1 / c - 1) =
      gate c x := by
  have hpos := leastMagnitude_pos
  have hcancel : (c - 1) + (c - 1) * (1 / c - 1) = -(1 / c - 1) := by
    field_simp
    ring
  rcases le_total leastMagnitude x with hle | hle
  · have hx' : 0 < x := hpos.trans_le hle
    have hone : c - 1 + (1 + (c - 1)) * (1 / c - 1) = 0 := by
      field_simp
      ring
    rw [max_eq_left hle, gate_of_le hle]
    nth_rewrite 2 [← Real.rpow_one x]
    rw [← Real.rpow_add hx', ← Real.rpow_mul hx, ← Real.rpow_add hx', hone, Real.rpow_zero]
  · rw [max_eq_right hle, gate, min_eq_right ((div_le_one hpos).mpr hle),
      Real.mul_rpow hx (Real.rpow_nonneg hpos.le _), Real.div_rpow hx hpos.le,
      ← Real.rpow_mul hpos.le, mul_left_comm, ← Real.rpow_add hpos, hcancel,
      Real.rpow_neg hpos.le, ← div_eq_mul_inv]

theorem gate_le_one (hc : 0 < c) (hc1 : c ≤ 1) (hx : 0 ≤ x) : gate c x ≤ 1 := by
  have hexp : 0 ≤ 1 / c - 1 := by
    rw [sub_nonneg, le_div_iff₀ hc, one_mul]
    exact hc1
  refine Real.rpow_le_one ?_ (min_le_left _ _) hexp
  exact le_min zero_le_one (div_nonneg hx leastMagnitude_pos.le)

end Gate

namespace ONNXModel

variable {bins channels width rfFreq rfCh : ℕ} (m : ONNXModel ℝ bins channels width rfFreq rfCh)

theorem binOf_compress (z : Fin 2 → ℝ) : binOf (m.compress z) =
    binOf z * ((max ‖binOf z‖ leastMagnitude ^ (m.inputCompression - 1) : ℝ) : ℂ) := by
  rw [← binOf_mul, ← torch_norm]
  simp only [compress, Rat.cast_one]
  rfl

theorem binOf_uncompress (z : Fin 2 → ℝ) : binOf (m.uncompress z) =
    binOf z * ((‖binOf z‖ ^ (1 / m.inputCompression - 1) : ℝ) : ℂ) := by
  rw [← binOf_mul, ← torch_norm]
  simp only [uncompress, Rat.cast_one]
  rfl

/-- A mask is a gain. -/
theorem binOf_gain (hc : 0 < m.inputCompression) (z mask : Fin 2 → ℝ) :
    binOf (m.uncompress (masked (m.compress z) mask)) =
      binOf z * (binOf mask * ((‖binOf mask‖ ^ (1 / m.inputCompression - 1) *
        gate m.inputCompression ‖binOf z‖ : ℝ) : ℂ)) := by
  have hmax : 0 ≤ max ‖binOf z‖ leastMagnitude ^ (m.inputCompression - 1) :=
    Real.rpow_nonneg (le_max_of_le_left (norm_nonneg _)) _
  have hnorm : ‖binOf (masked (m.compress z) mask)‖ ^ (1 / m.inputCompression - 1) =
      (‖binOf z‖ * max ‖binOf z‖ leastMagnitude ^ (m.inputCompression - 1)) ^
        (1 / m.inputCompression - 1) * ‖binOf mask‖ ^ (1 / m.inputCompression - 1) := by
    rw [binOf_masked, binOf_compress, norm_mul, norm_mul, Complex.norm_real,
      Real.norm_of_nonneg hmax,
      Real.mul_rpow (mul_nonneg (norm_nonneg _) hmax) (norm_nonneg _)]
  rw [binOf_uncompress, hnorm, binOf_masked, binOf_compress,
    ← gate_eq hc (norm_nonneg (binOf z))]
  push_cast
  ring

variable {B T : ℕ} (spec : Fin B → Fin (bins + 1) → Fin T → Fin 2 → ℝ)
  (caches : List (Fin 1 → Fin (B * rfFreq) → Fin rfCh → ℝ))

/-- The mask `forward` asks the layers for. -/
noncomputable def maskFor : Fin B → Fin bins → Fin T → Fin 2 → ℝ :=
  (m.modelForward (fun b f t => m.compress (spec b f.castSucc t)) caches).1

/-- A bin of what `forward` returns is the bin times its mask, the mask's power and the gate. -/
theorem binOf_forward (hc : 0 < m.inputCompression) (b : Fin B) (t : Fin T) (f : Fin bins) :
    binOf ((m.forward spec caches).1 b f.castSucc t) =
      binOf (spec b f.castSucc t) * (binOf (m.maskFor spec caches b f t) *
        ((‖binOf (m.maskFor spec caches b f t)‖ ^ (1 / m.inputCompression - 1) *
          gate m.inputCompression ‖binOf (spec b f.castSucc t)‖ : ℝ) : ℂ)) := by
  rw [← m.binOf_gain hc]
  simp only [forward, Fin.snoc_castSucc, maskFor]

/-- What the network makes of a spectrum: a gain on every bin, which the mask decides above the
floor of the compression, and nothing in the last one. -/
theorem forward_gain (hc : 0 < m.inputCompression) (b : Fin B) (t : Fin T) :
    (∀ f : Fin bins, binOf ((m.forward spec caches).1 b f.castSucc t) =
      binOf (spec b f.castSucc t) * (binOf (m.maskFor spec caches b f t) *
        ((‖binOf (m.maskFor spec caches b f t)‖ ^ (1 / m.inputCompression - 1) *
          gate m.inputCompression ‖binOf (spec b f.castSucc t)‖ : ℝ) : ℂ))) ∧
    (m.forward spec caches).1 b (Fin.last bins) t = 0 := by
  refine ⟨m.binOf_forward spec caches hc b t, ?_⟩
  simp only [forward, Fin.snoc_last]
  rfl

/-- The network that counts, on a bin above the floor. -/
theorem forward_gain_counting :
    (∀ f : Fin 1, binOf ((countingModel.forward (fun (_ : Fin 1) _ (_ : Fin 1) _ => (1 : ℝ))
        [fun _ _ _ => 0]).1 0 f.castSucc 0) =
      binOf (fun _ => 1) * (binOf (countingModel.maskFor (fun (_ : Fin 1) _ (_ : Fin 1) _ => 1)
        [fun _ _ _ => 0] 0 f 0) *
          ((‖binOf (countingModel.maskFor (fun (_ : Fin 1) _ (_ : Fin 1) _ => 1)
            [fun _ _ _ => 0] 0 f 0)‖ ^ (1 / countingModel.inputCompression - 1) *
              gate countingModel.inputCompression ‖binOf fun _ => 1‖ : ℝ) : ℂ))) ∧
    (countingModel.forward (fun (_ : Fin 1) _ (_ : Fin 1) _ => (1 : ℝ))
      [fun _ _ _ => 0]).1 0 (Fin.last 1) 0 = 0 :=
  countingModel.forward_gain _ _ (by norm_num [countingModel]) 0 0

/-- No bin gets louder than its mask makes it. -/
theorem norm_forward_le (hc : 0 < m.inputCompression) (hc1 : m.inputCompression ≤ 1) (b : Fin B)
    (t : Fin T) (f : Fin bins) : ‖binOf ((m.forward spec caches).1 b f.castSucc t)‖ ≤
      ‖binOf (spec b f.castSucc t)‖ *
        ‖binOf (m.maskFor spec caches b f t)‖ ^ (1 / m.inputCompression) := by
  have hgate := gate_le_one hc hc1 (norm_nonneg (binOf (spec b f.castSucc t)))
  have hgate0 : 0 ≤ gate m.inputCompression ‖binOf (spec b f.castSucc t)‖ :=
    Real.rpow_nonneg (le_min zero_le_one (div_nonneg (norm_nonneg _) leastMagnitude_pos.le)) _
  rw [m.binOf_forward spec caches hc b t f, norm_mul, norm_mul, Complex.norm_real]
  have hM := norm_nonneg (binOf (m.maskFor spec caches b f t))
  generalize ‖binOf (m.maskFor spec caches b f t)‖ = M at hM
  have hpow : M * M ^ (1 / m.inputCompression - 1) = M ^ (1 / m.inputCompression) := by
    rcases hM.eq_or_lt with rfl | hpos
    · rw [zero_mul, Real.zero_rpow (one_div_ne_zero hc.ne')]
    · nth_rewrite 1 [← Real.rpow_one M]
      rw [← Real.rpow_add hpos, add_sub_cancel]
  rw [Real.norm_of_nonneg (mul_nonneg (Real.rpow_nonneg hM _) hgate0), ← mul_assoc M, hpow]
  exact mul_le_mul_of_nonneg_left (mul_le_of_le_one_right (Real.rpow_nonneg hM _) hgate)
    (norm_nonneg _)

end ONNXModel

end VoxLattice.Upstream
