import VoxLattice.Lib.Frames
import VoxLattice.Upstream.Torch

/-!
# The streaming transform

`ONNXSTFT` on one row of its batch.  Every operation of the source works along the second axis, so
a batch is its rows (`forwardBatch`, `inverseBatch`).

`forward` takes a hop and what the window keeps of the hops before it, and returns the half
spectrum of the window.  `inverse` returns from a half spectrum to a hop: `irfft` by the way the
source calls Method 2, the synthesis window, and the overlap with the frames before.

A row has the widths of the caches and of a hop.  Other widths, which torch refuses to put
together, are not modelled; `infer_batch` checks them before it calls the transform.
-/

namespace VoxLattice.Upstream

variable {α : Type*}

/-- `ONNXSTFT`. -/
structure ONNXSTFT (α : Type*) where
  nFft : ℕ
  hopSize : ℕ
  /-- `cache_len`. -/
  cacheLen : ℕ
  window : List α
  /-- `window_istft`. -/
  windowIstft : List α

namespace ONNXSTFT

variable [Torch α]

/-! ## The windows -/

/-- `F.fold` of `count` copies of a column, one every `stride`, onto `size` places. -/
def fold (column : List α) (count size stride : ℕ) : List α :=
  (List.range size).map fun p => ((List.range count).map fun m =>
    if m * stride ≤ p then column.getD (p - m * stride) 0 else 0).sum

/-- The analysis window.  `torchWindow` is the function of torch that the type names. -/
def analysisWindow (nFft winSize : ℕ) (torchWindow : Option (ℕ → List α)) : List α :=
  match torchWindow with
  | none => List.replicate nFft ((1 : ℚ) : α)
  | some makeWindow =>
    let padding := nFft - winSize
    List.replicate (padding / 2) 0 ++ makeWindow winSize ++
      List.replicate (padding - padding / 2) 0

/-- `win_sq_sum`: the squared windows that meet at each place of a frame. -/
def winSqSum (nFft hopSize : ℕ) (window : List α) : List α :=
  let K := (nFft + hopSize - 1) / hopSize
  let L := hopSize * (2 * K - 1) + nFft - hopSize
  let winSq := window.map fun w => w * w
  ((fold winSq (2 * K - 1) L hopSize).drop ((K - 1) * hopSize)).take nFft

/-- `__init__`, or the text of its exception. -/
def init (nFft hopSize : ℕ) (winSize : Option ℕ) (torchWindow : Option (ℕ → List α)) :
    Except String (ONNXSTFT α) :=
  if nFft % 2 ≠ 0 then
    .error ("`n_fft` must be an even number, but given " ++ toString nFft ++ ".")
  else
    let winSize := winSize.getD nFft
    if nFft < winSize then
      .error ("n_fft(" ++ toString nFft ++ ") must be bigger than win_size(" ++
        toString winSize ++ ")")
    else if hopSize = 0 then .error "integer division or modulo by zero"
    else
      let window := analysisWindow nFft winSize torchWindow
      let windowIstft := List.zipWith (· / ·) window (winSqSum nFft hopSize window)
      .ok { nFft, hopSize, cacheLen := nFft - hopSize, window, windowIstft }

/-! ## One hop -/

/-- `initialize_cache`, for one row. -/
def initializeCache (stft : ONNXSTFT α) : List α × List α :=
  (List.replicate stft.cacheLen 0, List.replicate stft.cacheLen 0)

/-- `forward`. -/
def forward (stft : ONNXSTFT α) (x cache : List α) : List (α × α) × List α :=
  let x := cache ++ x
  let cache := lastOf stft.cacheLen x
  let x := List.zipWith (· * ·) x stft.window
  (Torch.rfft x, cache)

/-- The inverse of the real transform in `inverse`, which the source calls Method 2. -/
def irfft (stft : ONNXSTFT α) (x : List (α × α)) : List α :=
  let x₀ := (x.headD 0).1
  let xLast := (x.getLastD 0).1
  let x := x ++ List.replicate (stft.nFft / 2 - 1) 0
  let x := (Torch.ifft x).map Prod.fst
  -- the pairs of the source are an even and the odd place after it
  x.mapIdx fun n value =>
    let correction := if n % 2 = 0 then x₀ + xLast else x₀ - xLast
    ((2 : ℚ) : α) * value - correction / ((stft.nFft : ℚ) : α)

/-- The other way the source writes down in a comment, Method 1: the spectrum is completed before
the inverse transform. -/
def methodOne (stft : ONNXSTFT α) (x : List (α × α)) : List α :=
  let mirror := (x.dropLast.reverse.take (stft.nFft / 2 - 1)).map fun z => (z.1, -z.2)
  (Torch.ifft (x ++ mirror)).map Prod.fst

/-- `inverse`. -/
def inverse (stft : ONNXSTFT α) (x : List (α × α)) (cache : List α) : List α × List α :=
  let x := List.zipWith (· * ·) (stft.irfft x) stft.windowIstft
  let x := Frames.addCache cache x
  (exceptLast (stft.nFft - stft.hopSize) x, lastOf (stft.nFft - stft.hopSize) x)

/-! ## A batch -/

/-- `forward` of a batch. -/
def forwardBatch (stft : ONNXSTFT α) (x cache : List (List α)) :
    List (List (α × α)) × List (List α) :=
  (List.zipWith (fun x cache => (stft.forward x cache).1) x cache,
    List.zipWith (fun x cache => (stft.forward x cache).2) x cache)

/-- `inverse` of a batch. -/
def inverseBatch (stft : ONNXSTFT α) (x : List (List (α × α))) (cache : List (List α)) :
    List (List α) × List (List α) :=
  (List.zipWith (fun x cache => (stft.inverse x cache).1) x cache,
    List.zipWith (fun x cache => (stft.inverse x cache).2) x cache)

/-! ## Calls in a row -/

/-- `forward` hop by hop, each with the cache of the call before. -/
def analyse (stft : ONNXSTFT α) : List α → List (List α) → List (List (α × α)) × List α :=
  Mealy.run stft.forward

/-- `inverse` spectrum by spectrum. -/
def synthesise (stft : ONNXSTFT α) : List α → List (List (α × α)) → List (List α) × List α :=
  Mealy.run stft.inverse

/-! ## Lengths -/

section Lengths

variable {stft : ONNXSTFT α} {nFft hop : ℕ} {window : List α}

/-- What the constructor built. -/
structure Built (nFft hop : ℕ) (winSize : Option ℕ) (torchWindow : Option (ℕ → List α))
    (stft : ONNXSTFT α) : Prop where
  even : nFft % 2 = 0
  winSize_le : winSize.getD nFft ≤ nFft
  hop_pos : 0 < hop
  fft : stft.nFft = nFft
  hop_size : stft.hopSize = hop
  cacheLen : stft.cacheLen = nFft - hop
  window : stft.window = analysisWindow nFft (winSize.getD nFft) torchWindow
  windowIstft : stft.windowIstft =
    List.zipWith (· / ·) stft.window (winSqSum nFft hop stft.window)

theorem built_of_init {winSize : Option ℕ} {torchWindow : Option (ℕ → List α)}
    (h : init nFft hop winSize torchWindow = .ok stft) :
    Built nFft hop winSize torchWindow stft := by
  unfold init at h
  split at h
  · cases h
  · next heven =>
      dsimp only at h
      split at h
      · cases h
      · next hwin =>
          split at h
          · cases h
          · next hhop =>
              cases h
              exact ⟨not_not.mp heven, Nat.le_of_not_lt hwin, Nat.pos_of_ne_zero hhop, rfl, rfl,
                rfl, rfl, rfl⟩

theorem analysisWindow_length {winSize : ℕ} (hle : winSize ≤ nFft)
    {torchWindow : Option (ℕ → List α)}
    (hwindow : ∀ makeWindow ∈ torchWindow, (makeWindow winSize).length = winSize) :
    (analysisWindow nFft winSize torchWindow).length = nFft := by
  cases torchWindow with
  | none => exact List.length_replicate
  | some makeWindow =>
      have hlen := hwindow makeWindow rfl
      simp only [analysisWindow, List.length_append, List.length_replicate, hlen]
      omega

theorem Built.window_length {winSize : Option ℕ} {torchWindow : Option (ℕ → List α)}
    (hbuilt : Built nFft hop winSize torchWindow stft)
    (hwindow : ∀ makeWindow ∈ torchWindow, ∀ n, (makeWindow n).length = n) :
    stft.window.length = nFft := by
  rw [hbuilt.window]
  exact analysisWindow_length hbuilt.winSize_le fun makeWindow hmem => hwindow makeWindow hmem _

variable (window) in
/-- The frames of `win_sq_sum`: there is one before the middle for every one after it. -/
theorem winSqSum_eq (hpos : 0 < hop) (hle : hop ≤ nFft) : ∃ k, nFft ≤ (k + 1) * hop ∧
    winSqSum nFft hop window = ((fold (window.map fun w => w * w) (2 * k + 1)
      (2 * (k * hop) + nFft) hop).drop (k * hop)).take nFft := by
  have hcover : nFft ≤ (nFft + hop - 1) / hop * hop := by
    have := Nat.lt_div_mul_add hpos (a := nFft + hop - 1)
    omega
  obtain ⟨k, hk⟩ := Nat.exists_eq_succ_of_ne_zero (Nat.div_pos (by omega : hop ≤ nFft + hop - 1)
    hpos).ne'
  have hcount : 2 * (k + 1) - 1 = 2 * k + 1 := by omega
  have hsize : hop * (2 * k + 1) + nFft - hop = 2 * (k * hop) + nFft := by
    have : hop * (2 * k + 1) = 2 * (k * hop) + hop := by ring
    omega
  rw [hk] at hcover
  refine ⟨k, hcover, ?_⟩
  simp only [winSqSum, hk, Nat.succ_eq_add_one, hcount, hsize, Nat.add_sub_cancel]

variable (window) in
theorem winSqSum_length (hpos : 0 < hop) (hle : hop ≤ nFft) :
    (winSqSum nFft hop window).length = nFft := by
  obtain ⟨k, -, heq⟩ := winSqSum_eq window hpos hle
  rw [heq, List.length_take, List.length_drop, fold, List.length_map, List.length_range]
  omega

theorem irfft_length (heven : stft.nFft % 2 = 0) (hpos : 0 < stft.nFft) {x : List (α × α)}
    (hx : x.length = stft.nFft / 2 + 1) : (stft.irfft x).length = stft.nFft := by
  rw [irfft, List.length_mapIdx, List.length_map, Torch.ifft_length, List.length_append,
    List.length_replicate]
  omega

variable {winSize : Option ℕ} {torchWindow : Option (ℕ → List α)}
  (hbuilt : Built nFft hop winSize torchWindow stft) (hlt : hop < nFft)
  (hwindow : stft.window.length = nFft) {cache : List α} (hcache : cache.length = nFft - hop)

include hbuilt hlt hwindow

theorem Built.windowIstft_length : stft.windowIstft.length = nFft := by
  rw [hbuilt.windowIstft, List.length_zipWith, hwindow,
    winSqSum_length stft.window hbuilt.hop_pos hlt.le, Nat.min_self]

include hcache

theorem Built.forward_length {x : List α} (hx : x.length = hop) :
    (stft.forward x cache).1.length = nFft / 2 + 1 ∧
      (stft.forward x cache).2.length = nFft - hop := by
  have hcacheLen : stft.cacheLen ≠ 0 := by
    rw [hbuilt.cacheLen]
    omega
  rw [forward, lastOf_eq hcacheLen, hbuilt.cacheLen]
  simp only [Torch.rfft_length, List.length_zipWith, List.length_append, List.length_drop]
  have hlen : min (cache.length + x.length) stft.window.length = nFft := by omega
  exact ⟨by rw [hlen], by omega⟩

theorem Built.inverse_length {x : List (α × α)} (hx : x.length = nFft / 2 + 1) :
    (stft.inverse x cache).1.length = hop ∧ (stft.inverse x cache).2.length = nFft - hop := by
  have hirfft : (stft.irfft x).length = stft.nFft :=
    irfft_length (by rw [hbuilt.fft, hbuilt.even]) (by rw [hbuilt.fft]; omega)
      (by rw [hbuilt.fft, hx])
  have hkeep : stft.nFft - stft.hopSize ≠ 0 := by
    rw [hbuilt.fft, hbuilt.hop_size]
    omega
  have hframe : (List.zipWith (· * ·) (stft.irfft x) stft.windowIstft).length = nFft := by
    rw [List.length_zipWith, hirfft, hbuilt.windowIstft_length hlt hwindow, hbuilt.fft,
      Nat.min_self]
  have hsum : (Frames.addCache cache
      (List.zipWith (· * ·) (stft.irfft x) stft.windowIstft)).length = _ :=
    Frames.addCache_length (by omega)
  rw [inverse, exceptLast_eq hkeep, lastOf_eq hkeep, hbuilt.fft, hbuilt.hop_size]
  simp only [List.length_take, List.length_drop, hsum, hframe]
  omega

end Lengths

end ONNXSTFT

end VoxLattice.Upstream
