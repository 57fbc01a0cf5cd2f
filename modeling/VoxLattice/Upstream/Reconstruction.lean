import VoxLattice.Upstream.Transform

/-!
# Reconstruction

The transform in exact arithmetic.

`irfft_eq_methodOne`: the inverse of the source is the real part of the inverse transform of the
conjugate-symmetric spectrum, whatever half spectrum it is given, and it is the inverse of `rfft`
(`irfft_rfft`).

`reconstruction`: a stream that goes through `forward` and `inverse` hop by hop comes out as it
was, delayed by the length of the caches, for every window whose squared copies leave no sample of
a frame uncovered.  The synthesis window divides by the sum of these copies, so the weights of the
frames that meet at a sample add up to one; and the samples that no frame of the stream covers in
full are the silence of the first cache.
-/

namespace VoxLattice.Upstream

open Fourier

/-! ## Lengths and entries -/

section Entries

theorem rfft_eq (x : List ℝ) : Torch.rfft x = (List.range (x.length / 2 + 1)).map fun k =>
    pairOf (dft x.length (fun m => (x.getD m 0 : ℝ)) k) := rfl

theorem ifft_eq (X : List (ℝ × ℝ)) : Torch.ifft X = (List.range X.length).map fun m =>
    pairOf (idft X.length (fun k => complexOf (X.getD k 0)) m) := rfl

theorem rfft_getD (x : List ℝ) {k : ℕ} (hk : k ≤ x.length / 2) :
    complexOf ((Torch.rfft x).getD k 0) = dft x.length (fun m => (x.getD m 0 : ℝ)) k := by
  rw [List.getD_eq_getElem _ _ (by rw [Torch.rfft_length]; omega)]
  simp only [rfft_eq, List.getElem_map, List.getElem_range]
  rfl

theorem ifft_getElem (X : List (ℝ × ℝ)) {m : ℕ} (hm : m < (Torch.ifft X).length) :
    (Torch.ifft X)[m].1 = (idft X.length (fun k => complexOf (X.getD k 0)) m).re := by
  simp only [ifft_eq, List.getElem_map, List.getElem_range]
  rfl

theorem idft_congr {n m : ℕ} {X Y : ℕ → ℂ} (h : ∀ k, k < n → X k = Y k) :
    idft n X m = idft n Y m := by
  rw [idft, idft, Finset.sum_congr rfl fun k hk => by rw [h k (Finset.mem_range.mp hk)]]

end Entries

namespace ONNXSTFT

variable {stft : ONNXSTFT ℝ} {h : ℕ}

/-! ## The inverse of the real transform -/

section Inverse

variable (hpos : 0 < h) (hfft : stft.nFft = 2 * h) {x : List (ℝ × ℝ)} (hx : x.length = h + 1)

/-- The half spectrum as a function. -/
noncomputable def bins (x : List (ℝ × ℝ)) (k : ℕ) : ℂ := complexOf (x.getD k 0)

include hpos hx in
/-- The padded half spectrum. -/
theorem padded_getD {k : ℕ} (hk : k < 2 * h) :
    complexOf ((x ++ List.replicate (h - 1) 0).getD k 0) = halved (2 * h) (bins x) k := by
  unfold halved
  split
  · rw [List.getD_append _ _ _ _ (by omega)]
    rfl
  · rw [List.getD_append_right _ _ _ _ (by omega), List.getD_replicate _ (by omega)]
    rfl

include hpos hx in
/-- The completed half spectrum. -/
theorem mirrored_getD {k : ℕ} (hk : k < 2 * h) :
    complexOf ((x ++ (x.dropLast.reverse.take (h - 1)).map fun z => (z.1, -z.2)).getD k 0) =
      symmetric (2 * h) (bins x) k := by
  unfold symmetric
  split
  · rw [List.getD_append _ _ _ _ (by omega)]
    rfl
  · have hlt : k - x.length < (x.dropLast.reverse.take (h - 1)).length := by
      simp only [List.length_take, List.length_reverse, List.length_dropLast]
      omega
    rw [List.getD_append_right _ _ _ _ (by omega),
      List.getD_eq_getElem _ _ (by rw [List.length_map]; exact hlt), List.getElem_map,
      List.getElem_take, List.getElem_reverse, List.getElem_dropLast, bins,
      List.getD_eq_getElem x _ (by omega)]
    have hindex : x.dropLast.length - 1 - (k - x.length) = 2 * h - k := by
      rw [List.length_dropLast]
      omega
    simp only [hindex]
    rfl

include hpos hfft hx in
/-- What the source computes for a place. -/
theorem irfft_getElem {n : ℕ} (hn : n < (stft.irfft x).length) :
    (stft.irfft x)[n] = (idft (2 * h) (symmetric (2 * h) (bins x)) n).re := by
  have hhalf : 2 * h / 2 - 1 = h - 1 := by omega
  have hlen : (x ++ List.replicate (h - 1) (0 : ℝ × ℝ)).length = 2 * h := by
    rw [List.length_append, List.length_replicate]
    omega
  have hfirst : (x.headD 0).1 = (bins x 0).re := by
    cases x with
    | nil => simp at hx
    | cons z rest => rfl
  have hlast : (x.getLastD 0).1 = (bins x h).re := by
    rw [List.getLastD_eq_getLast?, List.getLast?_eq_getElem?, hx, Nat.add_sub_cancel, bins,
      List.getD_eq_getElem?_getD]
    rfl
  have hpadded : (idft (2 * h) (fun k => complexOf ((x ++ List.replicate (h - 1) 0).getD k 0))
      n).re = (idft (2 * h) (halved (2 * h) (bins x)) n).re :=
    congrArg Complex.re (idft_congr fun k hk => padded_getD hpos hx hk)
  rw [re_idft_symmetric (bins x) n hpos, ← hpadded, ← hfirst, ← hlast]
  simp only [irfft, hfft, hhalf, List.getElem_mapIdx, List.getElem_map, ifft_getElem, hlen]
  rcases Nat.even_or_odd n with heven | hodd
  · rw [if_pos (Nat.even_iff.mp heven), heven.neg_one_pow, one_mul]
    push_cast
    ring
  · rw [if_neg (by rw [Nat.odd_iff.mp hodd]; exact one_ne_zero), hodd.neg_one_pow]
    push_cast
    ring

end Inverse

/-- The two ways the source writes down agree, on every half spectrum. -/
theorem irfft_eq_methodOne (hpos : 0 < stft.nFft) (heven : stft.nFft % 2 = 0)
    {x : List (ℝ × ℝ)} (hx : x.length = stft.nFft / 2 + 1) :
    stft.irfft x = stft.methodOne x := by
  obtain ⟨h, hfft⟩ : ∃ h, stft.nFft = 2 * h := ⟨stft.nFft / 2, by omega⟩
  have hh : 0 < h := by omega
  have hhalf : stft.nFft / 2 - 1 = h - 1 := by omega
  have hx' : x.length = h + 1 := by omega
  have hlen : (x ++ (x.dropLast.reverse.take (h - 1)).map fun z => (z.1, -z.2)).length = 2 * h := by
    simp only [List.length_append, List.length_map, List.length_take, List.length_reverse,
      List.length_dropLast]
    omega
  refine List.ext_getElem ?_ fun n hn _ => ?_
  · rw [irfft_length (by omega) (by omega) hx, methodOne, List.length_map, Torch.ifft_length, hhalf,
      hlen, hfft]
  · rw [irfft_getElem hh hfft hx']
    simp only [methodOne, hhalf, List.getElem_map, ifft_getElem, hlen]
    exact congrArg Complex.re (idft_congr fun k hk => (mirrored_getD hh hx' hk).symm)

/-- The inverse of the source undoes the real transform. -/
theorem irfft_rfft (hpos : 0 < stft.nFft) (heven : stft.nFft % 2 = 0) {frame : List ℝ}
    (hframe : frame.length = stft.nFft) : stft.irfft (Torch.rfft frame) = frame := by
  obtain ⟨h, hfft⟩ : ∃ h, stft.nFft = 2 * h := ⟨stft.nFft / 2, by omega⟩
  have hh : 0 < h := by omega
  have hlen : frame.length = 2 * h := hframe.trans hfft
  have hx : (Torch.rfft frame).length = h + 1 := by
    rw [Torch.rfft_length]
    omega
  have : NeZero (2 * h) := ⟨by omega⟩
  have hreal (m : ℕ) : (starRingEnd ℂ) (frame.getD m 0 : ℝ) = (frame.getD m 0 : ℝ) :=
    Complex.conj_ofReal _
  have hbins (k : ℕ) (hk : k < 2 * h) : symmetric (2 * h) (bins (Torch.rfft frame)) k =
      dft (2 * h) (fun m => (frame.getD m 0 : ℝ)) k := by
    rw [← symmetric_dft hreal hk]
    unfold symmetric
    split
    · rw [bins, rfft_getD _ (by omega), hlen]
    · rw [bins, rfft_getD _ (by omega), hlen]
  have hlength := (irfft_length heven hpos (hx.trans (by omega))).trans hframe.symm
  refine List.ext_getElem hlength fun n hn hn' => ?_
  rw [irfft_getElem hh hfft hx, idft_congr hbins, idft_dft _ (by omega), Complex.ofReal_re,
    List.getD_eq_getElem _ _ hn']

/-- The inverse of the source is what its comments say: Method 1 on every half spectrum, and the
frame itself on the half spectrum of a frame. -/
theorem irfft_correct (hpos : 0 < stft.nFft) (heven : stft.nFft % 2 = 0) :
    (∀ x : List (ℝ × ℝ), x.length = stft.nFft / 2 + 1 → stft.irfft x = stft.methodOne x) ∧
      ∀ frame : List ℝ, frame.length = stft.nFft → stft.irfft (Torch.rfft frame) = frame :=
  ⟨fun _ => irfft_eq_methodOne hpos heven, fun _ => irfft_rfft hpos heven⟩

/-- Frames of four samples. -/
theorem irfft_correct_four :
    (⟨4, 2, 2, [], []⟩ : ONNXSTFT ℝ).irfft (Torch.rfft [1, 2, 3, 5]) = [1, 2, 3, 5] :=
  (@irfft_correct ⟨4, 2, 2, [], []⟩ (by decide) rfl).2 [1, 2, 3, 5] rfl

/-! ## The windows -/

section Windows

variable {nFft hop : ℕ} {window : List ℝ}

/-- A place of a fold. -/
theorem fold_getD (column : List ℝ) (count size stride : ℕ) {p : ℕ} (hp : p < size) :
    (fold column count size stride).getD p 0 = ∑ m ∈ Finset.range count,
      if m * stride ≤ p then column.getD (p - m * stride) 0 else 0 := by
  have hlen : p < (fold column count size stride).length := by
    rw [fold, List.length_map, List.length_range]
    exact hp
  rw [List.getD_eq_getElem _ _ hlen]
  simp only [fold, List.getElem_map, List.getElem_range]
  rfl

/-- The sum at a place is over all the squared windows that meet there. -/
theorem winSqSum_getD (hpos : 0 < hop) (hle : hop ≤ nFft) (hwindow : window.length = nFft)
    {i n : ℕ} (hi : i < nFft) (hn : nFft ≤ i % hop + n * hop) :
    (winSqSum nFft hop window).getD i 0 =
      ∑ d ∈ Finset.range n, window.getD (i % hop + d * hop) 0 ^ 2 := by
  obtain ⟨k, hcover, heq⟩ := winSqSum_eq window hpos hle
  have hsquare (j : ℕ) : (window.map fun w => w * w).getD j 0 = window.getD j 0 ^ 2 := by
    rw [List.getD_eq_getElem?_getD, List.getElem?_map, List.getD_eq_getElem?_getD]
    cases window[j]? with
    | none => simp
    | some w => exact (sq w).symm
  have hzero (j : ℕ) (hj : nFft ≤ j) : window.getD j 0 ^ 2 = 0 := by
    rw [List.getD_eq_default _ _ (hwindow.trans_le hj), sq, zero_mul]
  have hentry : (winSqSum nFft hop window).getD i 0 =
      (fold (window.map fun w => w * w) (2 * k + 1) (2 * (k * hop) + nFft) hop).getD
        (k * hop + i) 0 := by
    rw [heq, List.getD_eq_getElem?_getD, List.getElem?_take_of_lt hi, List.getElem?_drop,
      List.getD_eq_getElem?_getD]
  have hlt : k * hop + i < (2 * k + 1) * hop := by
    have : (2 * k + 1) * hop = k * hop + (k + 1) * hop := by ring
    omega
  rw [hentry, fold_getD _ _ _ _ (by omega)]
  simp only [hsquare]
  rw [Frames.sum_started hpos (fun j => window.getD j 0 ^ 2) hlt]
  have hmod : (k * hop + i) % hop = i % hop := Nat.mul_add_mod' k hop i
  have hsplit := Nat.mod_add_div' (k * hop + i) hop
  have hdiv : k ≤ (k * hop + i) / hop := (Nat.le_div_iff_mul_le hpos).mpr (Nat.le_add_right _ _)
  rw [hmod] at hsplit ⊢
  have hmul := Nat.mul_le_mul_right hop hdiv
  refine Frames.sum_covering hzero ?_ hn
  rw [Nat.succ_mul] at hcover ⊢
  omega

/-- Some window is at work at every place of a frame. -/
def Covered (nFft hop : ℕ) (window : List ℝ) : Prop :=
  ∀ i, i < nFft → (winSqSum nFft hop window).getD i 0 ≠ 0

/-- The weight of a sample of a frame after both windows. -/
def weight (stft : ONNXSTFT ℝ) (i : ℕ) : ℝ := stft.window.getD i 0 * stft.windowIstft.getD i 0

variable {winSize : Option ℕ} {torchWindow : Option (ℕ → List ℝ)}

/-- The weights that meet at a sample add up to one. -/
theorem Built.partition (hbuilt : Built nFft hop winSize torchWindow stft) (hlt : hop < nFft)
    (hwindow : stft.window.length = nFft) (hcovered : Covered nFft hop stft.window) :
    Frames.Partition nFft hop (weight stft) where
  zero i hi := by rw [weight, List.getD_eq_default _ _ (hwindow.trans_le hi), zero_mul]
  one j n hj hn := by
    have hpos := hbuilt.hop_pos
    have hlen := winSqSum_length stft.window hpos hlt.le
    have htotal := winSqSum_getD hpos hlt.le hwindow (i := j) (n := n) (by omega)
      (by rwa [Nat.mod_eq_of_lt hj])
    rw [Nat.mod_eq_of_lt hj] at htotal
    have hne := hcovered j (by omega)
    have hterm (d : ℕ) : weight stft (j + d * hop) =
        stft.window.getD (j + d * hop) 0 ^ 2 / (winSqSum nFft hop stft.window).getD j 0 := by
      by_cases hi : j + d * hop < nFft
      · have hsame : (winSqSum nFft hop stft.window).getD (j + d * hop) 0 =
            (winSqSum nFft hop stft.window).getD j 0 := by
          have hmod : (j + d * hop) % hop = j := by
            rw [Nat.add_mul_mod_self_right, Nat.mod_eq_of_lt hj]
          rw [winSqSum_getD hpos hlt.le hwindow (n := n) hi (by rwa [hmod]), hmod, htotal]
        rw [weight, hbuilt.windowIstft, List.getD_eq_getElem (List.zipWith _ _ _) _
          (by rw [List.length_zipWith]; omega), List.getElem_zipWith, ← hsame,
          List.getD_eq_getElem _ _ (by omega), List.getD_eq_getElem _ _ (by omega)]
        ring
      · rw [weight, List.getD_eq_default _ _ (by omega), zero_mul, sq, zero_mul, zero_div]
    simp only [hterm]
    rw [← Finset.sum_div, ← htotal, div_self hne]

end Windows

/-! ## Streams -/

section Streams

/-- The spectrum of the frame of a signal that starts at `t` hops. -/
noncomputable def spectrum (stft : ONNXSTFT ℝ) (signal : List ℝ) (t : ℕ) : List (ℝ × ℝ) :=
  Torch.rfft (List.zipWith (· * ·) (Frames.frame stft.nFft stft.hopSize signal t) stft.window)

/-- The frame of a spectrum, behind the synthesis window. -/
noncomputable def frameOf (stft : ONNXSTFT ℝ) (x : List (ℝ × ℝ)) : List ℝ :=
  List.zipWith (· * ·) (stft.irfft x) stft.windowIstft

/-- The signal a stream's transform sees: its hops behind the silence of the first cache. -/
noncomputable def padded (stft : ONNXSTFT ℝ) (hops : List (List ℝ)) : List ℝ :=
  List.replicate stft.cacheLen 0 ++ hops.flatten

theorem forward_eq (hcache : stft.cacheLen ≠ 0) : stft.forward = fun x cache =>
    (Torch.rfft (List.zipWith (· * ·) (Frames.window stft.cacheLen x cache).1 stft.window),
      (Frames.window stft.cacheLen x cache).2) := by
  funext x cache
  rw [forward, Frames.window, lastOf_eq hcache]

theorem inverse_eq (hkeep : stft.nFft - stft.hopSize ≠ 0) : stft.inverse = fun x =>
    Frames.settle (stft.nFft - stft.hopSize) (stft.frameOf x) := by
  funext x cache
  rw [inverse, Frames.settle, exceptLast_eq hkeep, lastOf_eq hkeep]
  rfl

variable {nFft hop : ℕ} {winSize : Option ℕ} {torchWindow : Option (ℕ → List ℝ)}
  (hbuilt : Built nFft hop winSize torchWindow stft) (hlt : hop < nFft)
  {hops : List (List ℝ)} (hhops : ∀ x ∈ hops, x.length = hop)

include hbuilt hlt hhops

/-- The spectra of a stream are those of its signal's frames. -/
theorem analyse_eq :
    stft.analyse stft.initializeCache.1 hops =
      ((List.range hops.length).map (stft.spectrum (stft.padded hops)),
        (stft.padded hops).drop (hops.length * hop)) := by
  have hcache : stft.cacheLen ≠ 0 := by
    rw [hbuilt.cacheLen]
    omega
  have hzeros : (List.replicate stft.cacheLen (0 : ℝ)).length = nFft - hop := by
    rw [List.length_replicate, hbuilt.cacheLen]
  have hslide := Frames.slide_eq hlt.le hzeros hhops
  rw [Frames.slide, ← hbuilt.cacheLen] at hslide
  rw [analyse, forward_eq hcache, Mealy.run_map _ _ fun frame : List ℝ =>
    Torch.rfft (List.zipWith (· * ·) frame stft.window), initializeCache, hslide, List.map_map,
    padded]
  refine Prod.ext (List.map_congr_left fun t _ => ?_) rfl
  rw [spectrum, hbuilt.fft, hbuilt.hop_size]
  rfl

omit hhops

theorem synthesise_eq (specs : List (List (ℝ × ℝ))) :
    stft.synthesise stft.initializeCache.2 specs =
      Frames.fade (nFft - hop) (List.replicate (nFft - hop) 0) (specs.map stft.frameOf) := by
  have hkeep : stft.nFft - stft.hopSize ≠ 0 := by
    rw [hbuilt.fft, hbuilt.hop_size]
    omega
  rw [synthesise, inverse_eq hkeep, Mealy.run_comap (Frames.settle _) _ stft.frameOf, Frames.fade,
    initializeCache, hbuilt.fft, hbuilt.hop_size, hbuilt.cacheLen]

omit hlt in
theorem padded_length (hhops : ∀ x ∈ hops, x.length = hop) :
    (stft.padded hops).length = nFft - hop + hops.length * hop := by
  rw [padded, List.length_append, List.length_replicate, Frames.length_flatten_pieces hhops,
    hbuilt.cacheLen]

/-- There is a whole frame for every hop. -/
theorem padded_covers (hhops : ∀ x ∈ hops, x.length = hop) {t : ℕ} (ht : t < hops.length) :
    t * hop + nFft ≤ (stft.padded hops).length := by
  have hmul := Nat.mul_le_mul_right hop ht
  rw [Nat.succ_mul] at hmul
  rw [padded_length hbuilt hhops]
  omega

variable (hwindow : stft.window.length = nFft)

include hwindow

theorem frameOf_length {x : List (ℝ × ℝ)} (hx : x.length = nFft / 2 + 1) :
    (stft.frameOf x).length = nFft := by
  have heven := hbuilt.even
  have hirfft : (stft.irfft x).length = stft.nFft :=
    irfft_length (by rw [hbuilt.fft, heven]) (by rw [hbuilt.fft]; omega) (by rw [hbuilt.fft, hx])
  rw [frameOf, List.length_zipWith, hirfft, hbuilt.windowIstft_length hlt hwindow, hbuilt.fft,
    Nat.min_self]

/-- The hops of a stream of spectra are the sum of their frames. -/
theorem synthesise_flatten {specs : List (List (ℝ × ℝ))}
    (hspecs : ∀ x ∈ specs, x.length = nFft / 2 + 1) :
    (stft.synthesise stft.initializeCache.2 specs).1.flatten =
      (List.range (specs.length * hop)).map
        (Frames.overlapAdd hop (specs.map stft.frameOf)) := by
  have hframes : ∀ frame ∈ specs.map stft.frameOf, frame.length = nFft := by
    intro frame hframe
    obtain ⟨x, hx, rfl⟩ := List.mem_map.mp hframe
    exact frameOf_length hbuilt hlt hwindow (hspecs x hx)
  have hcache : (List.replicate (nFft - hop) (0 : ℝ)).length = nFft - hop := List.length_replicate
  obtain ⟨hpieces, hcount, -⟩ := Frames.fade_length hlt.le hcache hframes
  have hlen := Frames.length_flatten_pieces hpieces
  rw [hcount, List.length_map] at hlen
  rw [synthesise_eq hbuilt hlt]
  refine List.ext_getElem (by rw [hlen, List.length_map, List.length_range]) fun p hp _ => ?_
  have hsum := Frames.fade_getD hlt.le hcache hframes p
  rw [List.getD_append _ _ _ _ hp, List.getD_eq_getElem _ _ hp,
    List.getD_eq_getElem?_getD, List.getElem?_getD_replicate_default_eq, zero_add] at hsum
  rw [hsum, List.getElem_map, List.getElem_range]

omit hbuilt in
/-- A whole frame of a signal, behind the analysis window. -/
theorem windowed_length {t : ℕ} {signal : List ℝ} (hsignal : t * hop + nFft ≤ signal.length) :
    (List.zipWith (· * ·) (Frames.frame nFft hop signal t) stft.window).length = nFft := by
  rw [List.length_zipWith, Frames.frame, List.length_take, List.length_drop]
  omega

theorem spectrum_length {t : ℕ} {signal : List ℝ} (hsignal : t * hop + nFft ≤ signal.length) :
    (stft.spectrum signal t).length = nFft / 2 + 1 := by
  rw [spectrum, Torch.rfft_length, hbuilt.fft, hbuilt.hop_size,
    windowed_length hlt hwindow hsignal]

/-- The frames of the signal, between the two windows. -/
theorem frameOf_spectrum_getD {t : ℕ} {signal : List ℝ}
    (hsignal : t * hop + nFft ≤ signal.length) (i : ℕ) :
    (stft.frameOf (stft.spectrum signal t)).getD i 0 =
      weight stft i * signal.getD (t * hop + i) 0 := by
  have hframe : (Frames.frame nFft hop signal t).length = nFft := by
    rw [Frames.frame, List.length_take, List.length_drop]
    omega
  have hzip := (windowed_length hlt hwindow hsignal).trans hbuilt.fft.symm
  have hinner : stft.irfft (Torch.rfft _) = _ :=
    irfft_rfft (by rw [hbuilt.fft]; omega) (by rw [hbuilt.fft, hbuilt.even]) hzip
  have hlen := hbuilt.windowIstft_length hlt hwindow
  rw [frameOf, spectrum, hbuilt.fft, hbuilt.hop_size]
  rw [hbuilt.fft] at hzip
  by_cases hi : i < nFft
  · have hget : (Frames.frame nFft hop signal t)[i] = signal.getD (t * hop + i) 0 := by
      rw [List.getD_eq_getElem _ _ (by omega)]
      simp only [Frames.frame, List.getElem_take, List.getElem_drop]
    rw [hinner, List.getD_eq_getElem _ _ (by rw [List.length_zipWith]; omega),
      List.getElem_zipWith, List.getElem_zipWith, hget, weight,
      List.getD_eq_getElem stft.window _ (by omega),
      List.getD_eq_getElem stft.windowIstft _ (by omega)]
    ring
  · rw [List.getD_eq_default _ _ (by rw [List.length_zipWith]; omega), weight,
      List.getD_eq_default stft.window _ (by omega), zero_mul, zero_mul]

end Streams

/-! ## Whole streams -/

section

variable {nFft hop : ℕ} {winSize : Option ℕ} {torchWindow : Option (ℕ → List ℝ)} {σ : Type*}

/-- A stream that goes through the transform hop by hop, with a network between: what comes out is
the sum of the frames that the network makes of the spectra of the stream's signal. -/
theorem stream_eq (hinit : init nFft hop winSize torchWindow = .ok stft) (hlt : hop < nFft)
    (hwindow : ∀ makeWindow ∈ torchWindow, ∀ n, (makeWindow n).length = n)
    (network : List (ℝ × ℝ) → σ → List (ℝ × ℝ) × σ)
    (hnetwork : ∀ x s, x.length = nFft / 2 + 1 → (network x s).1.length = nFft / 2 + 1) (s : σ)
    {hops : List (List ℝ)} (hhops : ∀ x ∈ hops, x.length = hop) :
    (Mealy.run (Mealy.cascade stft.forward (Mealy.cascade network stft.inverse))
      (stft.initializeCache.1, s, stft.initializeCache.2) hops).1.flatten =
      (List.range (hops.length * hop)).map (Frames.overlapAdd hop
        ((Mealy.run network s
          ((List.range hops.length).map (stft.spectrum (stft.padded hops)))).1.map
            stft.frameOf)) := by
  have hbuilt := built_of_init hinit
  have hlen := hbuilt.window_length hwindow
  have hanalyse := congrArg Prod.fst (analyse_eq hbuilt hlt hhops)
  rw [analyse] at hanalyse
  have hspecs : ∀ x ∈ (Mealy.run network s ((List.range hops.length).map
      (stft.spectrum (stft.padded hops)))).1, x.length = nFft / 2 + 1 := by
    refine Mealy.run_forall _ _ fun x hx s => hnetwork x s ?_
    obtain ⟨t, ht, rfl⟩ := List.mem_map.mp hx
    exact spectrum_length hbuilt hlt hlen (padded_covers hbuilt hlt hhops (List.mem_range.mp ht))
  have hflatten := synthesise_flatten hbuilt hlt hlen hspecs
  rw [Mealy.run_length, List.length_map, List.length_range, synthesise] at hflatten
  rw [Mealy.run_cascade, Mealy.run_cascade, hanalyse, hflatten]

/-- A stream that nothing changes between the transforms comes out as it was, behind as many
samples of silence as the caches are long. -/
theorem reconstruction (hinit : init nFft hop winSize torchWindow = .ok stft) (hlt : hop < nFft)
    (hwindow : ∀ makeWindow ∈ torchWindow, ∀ n, (makeWindow n).length = n)
    (hcovered : Covered nFft hop stft.window) {hops : List (List ℝ)}
    (hhops : ∀ x ∈ hops, x.length = hop) :
    (Mealy.run (Mealy.cascade stft.forward stft.inverse) stft.initializeCache hops).1.flatten =
      (List.replicate (nFft - hop) 0 ++ hops.flatten).take (hops.length * hop) := by
  have hbuilt := built_of_init hinit
  have hlen := hbuilt.window_length hwindow
  have hanalyse := congrArg Prod.fst (analyse_eq hbuilt hlt hhops)
  rw [analyse] at hanalyse
  have hspecs : ∀ x ∈ (List.range hops.length).map (stft.spectrum (stft.padded hops)),
      x.length = nFft / 2 + 1 := by
    intro x hx
    obtain ⟨t, ht, rfl⟩ := List.mem_map.mp hx
    exact spectrum_length hbuilt hlt hlen (padded_covers hbuilt hlt hhops (List.mem_range.mp ht))
  have hflatten := synthesise_flatten hbuilt hlt hlen hspecs
  rw [List.length_map, List.length_range, synthesise] at hflatten
  rw [initializeCache, Mealy.run_cascade]
  change (Mealy.run stft.inverse stft.initializeCache.2
    (Mealy.run stft.forward stft.initializeCache.1 hops).1).1.flatten = _
  rw [hanalyse, hflatten]
  have hpadded := padded_length hbuilt hhops
  refine List.ext_getElem ?_ fun p hp hp' => ?_
  · rw [List.length_map, List.length_range, ← hbuilt.cacheLen, List.length_take, ← padded, hpadded]
    omega
  · rw [List.length_map, List.length_range] at hp
    rw [List.getElem_map, List.getElem_range, List.getElem_take, ← List.getD_eq_getElem _ 0,
      ← hbuilt.cacheLen]
    refine Frames.overlapAdd_frames hbuilt.hop_pos (hbuilt.partition hlt hlen hcovered)
      (fun m hm i => ?_) (fun q hq => ?_) (by simpa using hp)
    · rw [List.length_map, List.length_map, List.length_range] at hm
      have hframe : (((List.range hops.length).map (stft.spectrum (stft.padded hops))).map
          stft.frameOf).getD m [] = stft.frameOf (stft.spectrum (stft.padded hops) m) := by
        rw [List.map_map, List.getD_eq_getElem?_getD, List.getElem?_map, List.getElem?_range hm]
        rfl
      rw [hframe]
      exact frameOf_spectrum_getD hbuilt hlt hlen (padded_covers hbuilt hlt hhops hm) i
    · have hsilent : q < stft.cacheLen := by
        rw [hbuilt.cacheLen]
        omega
      rw [List.getD_append _ _ _ _ (by rwa [List.length_replicate]), List.getD_replicate _ hsilent]

end

/-! ## The Hann window -/

section Hann

variable {nFft hop winSize : ℕ}

/-- A place of the padded window. -/
theorem analysisWindow_getD {makeWindow : ℕ → List ℝ}
    (hwindow : (makeWindow winSize).length = winSize) (i : ℕ) :
    (analysisWindow nFft winSize (some makeWindow)).getD i 0 =
      if (nFft - winSize) / 2 ≤ i then (makeWindow winSize).getD (i - (nFft - winSize) / 2) 0
      else 0 := by
  have hlen : (List.replicate ((nFft - winSize) / 2) (0 : ℝ)).length = (nFft - winSize) / 2 :=
    List.length_replicate
  rw [analysisWindow, List.append_assoc]
  split
  · next hle =>
      rw [List.getD_append_right _ _ _ _ (by omega), hlen]
      by_cases hi : i - (nFft - winSize) / 2 < winSize
      · rw [List.getD_append _ _ _ _ (by omega)]
      · rw [List.getD_append_right _ _ _ _ (by omega),
          List.getD_eq_default (makeWindow winSize) _ (by omega), List.getD_eq_getElem?_getD,
          List.getElem?_getD_replicate_default_eq]
  · next hlt => rw [List.getD_append _ _ _ _ (by omega), List.getD_replicate _ (by omega)]

theorem analysisWindow_hann_length (hwin : winSize ≤ nFft) :
    (analysisWindow nFft winSize (some hannWindow)).length = nFft :=
  analysisWindow_length hwin fun makeWindow hmem => by
    rw [← Option.mem_some_iff.mp hmem, hannWindow_length]

/-- The padded Hann window is zero up to its first sample, and past its last. -/
theorem analysisWindow_hann_eq_zero_iff (hone : 1 < winSize) (i : ℕ) :
    (analysisWindow nFft winSize (some hannWindow)).getD i 0 = 0 ↔
      i ≤ (nFft - winSize) / 2 ∨ (nFft - winSize) / 2 + winSize ≤ i := by
  rw [analysisWindow_getD (hannWindow_length winSize)]
  split
  · next hle =>
      by_cases hi : i - (nFft - winSize) / 2 < winSize
      · rw [hannWindow_eq_zero_iff hone.ne' hi]
        omega
      · rw [List.getD_eq_default _ _ (by rw [hannWindow_length]; omega)]
        exact iff_of_true rfl (by omega)
  · next hlt => exact iff_of_true rfl (by omega)

/-- What the windows add up to at a place; enough of them meet there to cover the frame. -/
theorem winSqSum_hann (hpos : 0 < hop) (hhop : hop ≤ nFft) (hwin : winSize ≤ nFft) {i : ℕ}
    (hi : i < nFft) :
    (winSqSum nFft hop (analysisWindow nFft winSize (some hannWindow))).getD i 0 =
      ∑ d ∈ Finset.range (nFft + 1),
        (analysisWindow nFft winSize (some hannWindow)).getD (i % hop + d * hop) 0 ^ 2 := by
  refine winSqSum_getD hpos hhop (analysisWindow_hann_length hwin) hi ?_
  rw [Nat.succ_mul]
  have hle := Nat.le_mul_of_pos_right nFft hpos
  omega

/-- A window that is longer than a hop reaches every place. -/
theorem hann_covered (hpos : 0 < hop) (hhop : hop ≤ nFft) (hwin : winSize ≤ nFft)
    (hone : 1 < winSize) (hlt : hop < winSize) :
    Covered nFft hop (analysisWindow nFft winSize (some hannWindow)) := by
  intro i hi
  rw [winSqSum_hann hpos hhop hwin hi]
  -- the first place past the start of the window that is a number of hops away
  obtain ⟨d, hlo, hhi⟩ : ∃ d, (nFft - winSize) / 2 < i % hop + d * hop ∧
      i % hop + d * hop < (nFft - winSize) / 2 + winSize := by
    have hmod := Nat.mod_lt i hpos
    have hdiv := Nat.mod_add_div' ((nFft - winSize) / 2) hop
    have hrest := Nat.mod_lt ((nFft - winSize) / 2) hpos
    by_cases hstart : (nFft - winSize) / 2 % hop < i % hop
    · exact ⟨(nFft - winSize) / 2 / hop, by omega, by omega⟩
    · exact ⟨(nFft - winSize) / 2 / hop + 1, by rw [Nat.succ_mul]; omega,
        by rw [Nat.succ_mul]; omega⟩
  have hd : d < nFft + 1 := by
    have := Nat.le_mul_of_pos_right d hpos
    omega
  refine (Finset.sum_pos' (fun d _ => sq_nonneg _) ⟨d, Finset.mem_range.mpr hd, ?_⟩).ne'
  refine sq_pos_of_ne_zero fun hzero => ?_
  rw [analysisWindow_hann_eq_zero_iff hone] at hzero
  omega

/-- The first sample of the window is left to the other windows, and without overlap there is
none. -/
theorem hann_not_covered (hpos : 0 < hop) (hhop : hop ≤ nFft) (hwin : winSize ≤ nFft)
    (hone : 1 < winSize) (hge : winSize ≤ hop) :
    ¬ Covered nFft hop (analysisWindow nFft winSize (some hannWindow)) := by
  intro hcovered
  refine hcovered ((nFft - winSize) / 2) (by omega) ?_
  rw [winSqSum_hann hpos hhop hwin (by omega)]
  refine Finset.sum_eq_zero fun d _ => ?_
  rw [sq_eq_zero_iff, analysisWindow_hann_eq_zero_iff hone]
  have hmod := Nat.mod_add_div' ((nFft - winSize) / 2) hop
  rcases Nat.lt_or_ge ((nFft - winSize) / 2 / hop) d with hd | hd
  · -- a later window starts a hop later, at least
    have hle := Nat.mul_le_mul_right hop hd
    rw [Nat.succ_mul] at hle
    omega
  · have hle := Nat.mul_le_mul_right hop hd
    omega

/-- A Hann window leaves no place of a frame uncovered exactly if it is longer than a hop: its first
sample is zero, so that a hop of its own length leaves one place in every hop to no window. -/
theorem hann_covered_iff (hpos : 0 < hop) (hhop : hop ≤ nFft) (hwin : winSize ≤ nFft)
    (hone : 1 < winSize) :
    Covered nFft hop (analysisWindow nFft winSize (some hannWindow)) ↔ hop < winSize := by
  constructor
  · intro hcovered
    by_contra hle
    exact hann_not_covered hpos hhop hwin hone (Nat.le_of_not_lt hle) hcovered
  · exact hann_covered hpos hhop hwin hone

/-- Frames of four samples, and two hops to a window. -/
theorem hann_covered_iff_four :
    Covered 4 2 (analysisWindow 4 4 (some hannWindow)) ↔ 2 < 4 :=
  hann_covered_iff (by decide) (by decide) (by decide) (by decide)

end Hann

/-! ## The released transform -/

/-- The transform of the released configuration. -/
noncomputable def released : ONNXSTFT ℝ where
  nFft := 512
  hopSize := 256
  cacheLen := 256
  window := analysisWindow 512 512 (some hannWindow)
  windowIstft := List.zipWith (· / ·) (analysisWindow 512 512 (some hannWindow))
    (winSqSum 512 256 (analysisWindow 512 512 (some hannWindow)))

theorem init_released : init 512 256 (some 512) (some hannWindow) = .ok released := rfl

/-- Two hops. -/
theorem reconstruction_released :
    (Mealy.run (Mealy.cascade released.forward released.inverse) released.initializeCache
      [List.replicate 256 1, List.replicate 256 0]).1.flatten =
      (List.replicate 256 (0 : ℝ) ++ [List.replicate 256 1, List.replicate 256 0].flatten).take
        (2 * 256) := by
  refine reconstruction init_released (by decide) (fun makeWindow hmem n => ?_)
    (hann_covered (by decide) (by decide) (by decide) (by decide) (by decide)) ?_
  · rw [← Option.mem_some_iff.mp hmem, hannWindow_length]
  · simp only [List.forall_mem_cons, List.length_replicate, List.not_mem_nil, false_imp_iff,
      implies_true, and_self]

/-- A network that leaves the spectra as they are. -/
theorem stream_eq_released :
    (Mealy.run (Mealy.cascade released.forward
        (Mealy.cascade (fun x (s : Unit) => (x, s)) released.inverse))
      (released.initializeCache.1, (), released.initializeCache.2)
      [List.replicate 256 1, List.replicate 256 0]).1.flatten =
      (List.range (2 * 256)).map (Frames.overlapAdd 256
        ((Mealy.run (fun x (s : Unit) => (x, s)) () ((List.range 2).map (released.spectrum
          (released.padded [List.replicate 256 1, List.replicate 256 0])))).1.map
            released.frameOf)) := by
  refine stream_eq init_released (by decide) (fun makeWindow hmem n => ?_) _
    (fun _ _ hx => hx) () ?_
  · rw [← Option.mem_some_iff.mp hmem, hannWindow_length]
  · simp only [List.forall_mem_cons, List.length_replicate, List.not_mem_nil, false_imp_iff,
      implies_true, and_self]

end ONNXSTFT

end VoxLattice.Upstream
