import Mathlib.Data.Int.ConditionallyCompleteOrder
import VoxLattice.Lib.Rounding
import VoxLattice.Lib.Samples
import VoxLattice.Server.Audio

/-!
# What the conversions keep

Three things meet in `float32_to_pcm16le`: the clamp to the range of a 16-bit sample, the rounding
to the nearest integer, and the two bytes of its two's complement.  `quantize_nearest` and
`quantize_bounds` are about the first two, over any ordered field: the clamp keeps the cast to
`int16` from wrapping around.  `int16Bytes_int16OfBytes` and `int16OfBytes_int16Bytes` are about
the bytes.
-/

namespace VoxLattice.Server

open Rounding Samples

/-! ## Bytes of a sample -/

/-- The value of two bytes, case by case. -/
theorem int16OfBytes_cases (lo hi : UInt8) :
    (lo.toNat + 256 * hi.toNat < 32768 ∧ int16OfBytes lo hi = lo.toNat + 256 * hi.toNat) ∨
      (32768 ≤ lo.toNat + 256 * hi.toNat ∧
        int16OfBytes lo hi = lo.toNat + 256 * hi.toNat - 65536) := by
  unfold int16OfBytes
  dsimp only
  by_cases h : (lo.toNat : Int) + 256 * hi.toNat < 32768
  · exact .inl ⟨by omega, if_pos h⟩
  · exact .inr ⟨by omega, if_neg h⟩

theorem int16OfBytes_bounds (lo hi : UInt8) :
    -32768 ≤ int16OfBytes lo hi ∧ int16OfBytes lo hi ≤ 32767 := by
  have hlo := lo.toNat_lt
  have hhi := hi.toNat_lt
  obtain ⟨hlt, h⟩ | ⟨hle, h⟩ := int16OfBytes_cases lo hi
  · omega
  · omega

/-- The bytes of a sample are those it was read from. -/
theorem int16Bytes_int16OfBytes (lo hi : UInt8) : int16Bytes (int16OfBytes lo hi) = [lo, hi] := by
  have hlo := lo.toNat_lt
  have hhi := hi.toNat_lt
  have hu : (int16OfBytes lo hi % 65536).toNat = lo.toNat + 256 * hi.toNat := by
    obtain ⟨-, h⟩ | ⟨-, h⟩ := int16OfBytes_cases lo hi
    · omega
    · omega
  have hlow : (lo.toNat + 256 * hi.toNat) % 256 = lo.toNat := by omega
  have hhigh : (lo.toNat + 256 * hi.toNat) / 256 = hi.toNat := by omega
  simp only [int16Bytes, hu, hlow, hhigh, UInt8.ofNat_toNat]

/-- A value in the range of a sample is read from its bytes. -/
theorem int16OfBytes_int16Bytes {v : Int} (hlow : -32768 ≤ v) (hhigh : v ≤ 32767) :
    ∃ lo hi, int16Bytes v = [lo, hi] ∧ int16OfBytes lo hi = v := by
  have hlo : (UInt8.ofNat ((v % 65536).toNat % 256)).toNat = (v % 65536).toNat % 256 :=
    UInt8.toNat_ofNat_of_lt' (Nat.mod_lt _ (by decide))
  have hhi : (UInt8.ofNat ((v % 65536).toNat / 256)).toNat = (v % 65536).toNat / 256 :=
    UInt8.toNat_ofNat_of_lt' (by change _ < 256; omega)
  refine ⟨.ofNat ((v % 65536).toNat % 256), .ofNat ((v % 65536).toNat / 256), rfl, ?_⟩
  obtain ⟨hlt, h⟩ | ⟨hle, h⟩ := int16OfBytes_cases (.ofNat ((v % 65536).toNat % 256))
    (.ofNat ((v % 65536).toNat / 256))
  · rw [hlo, hhi] at hlt h
    omega
  · rw [hlo, hhi] at hle h
    omega

section Conversion

variable {K : Type*} [Field K] [LinearOrder K] [IsStrictOrderedRing K] [FloorRing K]

/-! ## Rounding and clamping -/

theorem roundHalfEven_nearest (x : K) : NearestEven x (roundHalfEven x) := by
  have hlow := Int.floor_le x
  have hhigh := Int.lt_floor_add_one x
  unfold roundHalfEven
  dsimp only
  split
  · next hbelow =>
      refine ⟨abs_le.mpr ⟨by linarith, hbelow.le⟩, fun htie => ?_⟩
      rw [abs_of_nonneg (by linarith)] at htie
      linarith
  · next hbelow =>
      split
      · next habove =>
          have hcast : ((⌊x⌋ + 1 : ℤ) : K) = ⌊x⌋ + 1 := by push_cast; rfl
          refine ⟨?_, fun htie => ?_⟩
          · rw [hcast]
            exact abs_le.mpr ⟨by linarith, by linarith⟩
          · rw [hcast, abs_of_nonpos (by linarith)] at htie
            linarith
      · next habove =>
          -- half way between the floor and its successor
          have hhalf : x - ⌊x⌋ = 1 / 2 := le_antisymm (not_lt.mp habove) (not_lt.mp hbelow)
          split
          · next heven =>
              refine ⟨?_, fun _ => Int.even_iff.mpr heven⟩
              rw [hhalf, abs_of_pos (by positivity)]
          · next hodd =>
              have hcast : x - ((⌊x⌋ + 1 : ℤ) : K) = -(1 / 2) := by
                push_cast
                linarith
              refine ⟨?_, fun _ => Int.even_add_one.mpr fun heven => hodd (Int.even_iff.mp heven)⟩
              rw [hcast, abs_neg, abs_of_pos (by positivity)]

/-- What an element becomes: the nearest integer to its clamped and scaled value. -/
theorem quantize_nearest (x : K) :
    NearestEven (32768 * min (max x (-1)) (32767 / 32768)) (quantize x) := by
  rw [mul_comm]
  exact roundHalfEven_nearest _

/-- The cast to `int16` does not wrap around. -/
theorem quantize_bounds (x : K) : -32768 ≤ quantize x ∧ quantize x ≤ 32767 := by
  have hlow : (-1 : K) ≤ min (max x (-1)) (32767 / 32768) :=
    le_min (le_max_right _ _) (by norm_num)
  have hhigh : min (max x (-1)) (32767 / 32768) ≤ (32767 / 32768 : K) := min_le_right _ _
  refine (quantize_nearest x).bounds ?_ ?_
  · push_cast
    linarith
  · push_cast
    linarith

theorem quantize_mono : Monotone (quantize : K → Int) := fun _ _ h =>
  (quantize_nearest _).mono (quantize_nearest _)
    (mul_le_mul_of_nonneg_left (min_le_min_right _ (max_le_max_right _ h)) (by norm_num))

/-- A decoded sample is quantized to the value it was decoded from. -/
theorem quantize_intCast_div {v : Int} (hlow : -32768 ≤ v) (hhigh : v ≤ 32767) :
    quantize ((v : K) / 32768) = v := by
  have hlow' : (-32768 : K) ≤ v := by exact_mod_cast hlow
  have hhigh' : (v : K) ≤ 32767 := by exact_mod_cast hhigh
  have hmax : max ((v : K) / 32768) (-1) = v / 32768 := max_eq_left (by linarith)
  have hmin : min ((v : K) / 32768) (32767 / 32768) = v / 32768 := min_eq_left (by linarith)
  have hscaled : (32768 : K) * (v / 32768) = v := mul_div_cancel₀ _ (by norm_num)
  have hnear := quantize_nearest ((v : K) / 32768)
  rw [hmax, hmin, hscaled] at hnear
  exact hnear.unique (nearestEven_intCast v)

/-! ## Whole tensors -/

theorem float32ToPcm16le_decodeSamples : ∀ {value : Bytes}, value.length % 2 = 0 →
    float32ToPcm16le (decodeSamples value : List K) = value
  | [], _ => rfl
  | [_], h => by simp at h
  | lo :: hi :: rest, h => by
      have hrest : rest.length % 2 = 0 := by
        rw [List.length_cons, List.length_cons] at h
        omega
      obtain ⟨hlow, hhigh⟩ := int16OfBytes_bounds lo hi
      rw [decodeSamples, float32ToPcm16le_cons, quantize_intCast_div hlow hhigh,
        int16Bytes_int16OfBytes, float32ToPcm16le_decodeSamples hrest]
      rfl

omit [IsStrictOrderedRing K] in
/-- The bytes of an element. -/
theorem sample_float32ToPcm16le (value : List K) {i : Nat} {x : K} (h : value[i]? = some x) :
    sample 2 (float32ToPcm16le value) i = int16Bytes (quantize x) :=
  sample_flatMap (fun y _ => int16Bytes_length (quantize y)) h

/-- Decoding and encoding again gives the same bytes.  Encoding gives each element two bytes, which
hold the nearest integer to 32768 times the clamped element, ties to even; the value is always in
the range of a sample and grows with the element.  The first `2 * n` bytes are the encoding of
the first `n` elements. -/
theorem pcm_conversion_exact :
    (∀ value : Bytes, value ≠ [] → value.length % 2 = 0 →
      ∃ samples : List K, pcm16leToFloat32 value = .ok samples ∧
        float32ToPcm16le samples = value) ∧
    (∀ value : List K,
      (float32ToPcm16le value).length = 2 * value.length ∧
      (∀ i x, value[i]? = some x → ∃ lo hi, sample 2 (float32ToPcm16le value) i = [lo, hi] ∧
        int16OfBytes lo hi = quantize x) ∧
      ∀ n, (float32ToPcm16le value).take (2 * n) = float32ToPcm16le (value.take n)) ∧
    (∀ x : K, -32768 ≤ quantize x ∧ quantize x ≤ 32767 ∧
      NearestEven (32768 * min (max x (-1)) (32767 / 32768)) (quantize x)) ∧
    ∀ x y : K, x ≤ y → quantize x ≤ quantize y := by
  refine ⟨fun value hne heven => ?_, fun value => ⟨float32ToPcm16le_length value, ?_, ?_⟩, ?_, ?_⟩
  · have hsize : ¬ (value.length = 0 ∨ value.length % 2 ≠ 0) := by
      rw [List.length_eq_zero_iff]
      exact fun h => h.elim hne fun hodd => hodd heven
    exact ⟨decodeSamples value, by rw [pcm16leToFloat32, if_neg hsize],
      float32ToPcm16le_decodeSamples heven⟩
  · intro i x hx
    obtain ⟨hlow, hhigh⟩ := quantize_bounds x
    obtain ⟨lo, hi, hbytes, hvalue⟩ := int16OfBytes_int16Bytes hlow hhigh
    exact ⟨lo, hi, (sample_float32ToPcm16le value hx).trans hbytes, hvalue⟩
  · intro n
    rw [Nat.mul_comm]
    exact float32ToPcm16le_take value n
  · exact fun x => ⟨(quantize_bounds x).1, (quantize_bounds x).2, quantize_nearest x⟩
  · exact fun x y h => quantize_mono h

/-- The smallest and the largest sample, at the rationals. -/
theorem pcm_conversion_exact_extremes :
    ∃ samples : List ℚ, pcm16leToFloat32 [0, 128, 255, 127] = .ok samples ∧
      float32ToPcm16le samples = [0, 128, 255, 127] :=
  (pcm_conversion_exact (K := ℚ)).1 [0, 128, 255, 127] (by decide) (by decide)

end Conversion

end VoxLattice.Server
