import Mathlib.Data.Rat.Defs
import VoxLattice.Lib.Tensors
import VoxLattice.Server.Settings

/-!
# Combining and splitting the caches of a batch

`StreamCaches` of `model.py` over the values `α` of its tensors, with the two functions that
`infer_batch` calls around the network.  The tensors are of rank 2 and 3 by their types, and there
are three RNN caches by the type of the tuple, as in the source's annotations.  Neither function
passes a device to `assert_layout`, and every tensor here is float32, so devices and the check of
the element type are left out.

A stream has one row of the STFT and iSTFT caches and 24 rows of each RNN cache.  `Layout` says
when `assert_layout` passes; `combineStreamCaches_ok` and `splitStreamCaches_ok` say what the
functions return then.  `AgreeOutside i` says that two batches differ in the rows of stream `i` at
most.
-/

namespace VoxLattice.Server

open Tensors Samples

/-- `RF_FREQ`: the rows of an RNN cache that belong to one stream. -/
def rfFreq : Nat := 24
/-- `RF_HIDDEN`. -/
def rfHidden : Nat := 36

variable {α : Type}

/-- `StreamCaches`. -/
@[ext] structure StreamCaches (α : Type) where
  stft : Tensor2 α
  istft : Tensor2 α
  rnn : Tensor3 α × Tensor3 α × Tensor3 α

/-- The RNN caches of a stream. -/
def StreamCaches.blocks (caches : StreamCaches α) : List (Tensor3 α) :=
  [caches.rnn.1, caches.rnn.2.1, caches.rnn.2.2]

/-- The text of a shape of rank 2. -/
def shapeText (shape : Nat × Nat) : String :=
  "(" ++ toString shape.1 ++ ", " ++ toString shape.2 ++ ")"

/-- `assert_layout`, without a device. -/
def StreamCaches.assertLayout (batchSize : Nat) (caches : StreamCaches α) : Except PyError Unit :=
  if caches.stft.shape ≠ (batchSize, hopSamples) then
    .error (.runtime ("invalid STFT cache shape " ++ shapeText caches.stft.shape))
  else if caches.istft.shape ≠ (batchSize, hopSamples) then
    .error (.runtime ("invalid iSTFT cache shape " ++ shapeText caches.istft.shape))
  else if ∃ block ∈ caches.blocks, block.shape ≠ (1, batchSize * rfFreq, rfHidden) then
    .error (.runtime "invalid RNN cache shape")
  else .ok ()

/-- `torch.cat`, which raises where the other dimensions disagree. -/
def orRaise {β : Type} : Option β → Except PyError β
  | some value => .ok value
  | none => .error (.runtime "sizes of tensors must match")

/-- `combine_stream_caches`. -/
def combineStreamCaches (caches : List (StreamCaches α)) : Except PyError (StreamCaches α) := do
  if caches.isEmpty then throw (.value "cannot combine an empty cache sequence")
  caches.forM (StreamCaches.assertLayout 1)
  let stft ← orRaise (Tensor2.cat (caches.map StreamCaches.stft))
  let istft ← orRaise (Tensor2.cat (caches.map StreamCaches.istft))
  let rnn0 ← orRaise (Tensor3.cat (caches.map (·.rnn.1)))
  let rnn1 ← orRaise (Tensor3.cat (caches.map (·.rnn.2.1)))
  let rnn2 ← orRaise (Tensor3.cat (caches.map (·.rnn.2.2)))
  let combined : StreamCaches α := ⟨stft, istft, rnn0, rnn1, rnn2⟩
  combined.assertLayout caches.length
  return combined

/-- The caches of one stream of a batch. -/
def StreamCaches.row (caches : StreamCaches α) (index : Nat) : StreamCaches α :=
  let start := index * rfFreq
  { stft := caches.stft.slice index (index + 1)
    istft := caches.istft.slice index (index + 1)
    rnn := (caches.rnn.1.slice start (start + rfFreq), caches.rnn.2.1.slice start (start + rfFreq),
      caches.rnn.2.2.slice start (start + rfFreq)) }

/-- `split_stream_caches`. -/
def splitStreamCaches (caches : StreamCaches α) (batchSize : Nat) :
    Except PyError (List (StreamCaches α)) := do
  caches.assertLayout batchSize
  return (List.range batchSize).map caches.row

/-! ## The layout -/

/-- The shapes of the caches of a batch. -/
structure StreamCaches.Layout (batchSize : Nat) (caches : StreamCaches α) : Prop where
  stft : caches.stft.shape = (batchSize, hopSamples)
  istft : caches.istft.shape = (batchSize, hopSamples)
  rnn0 : caches.rnn.1.shape = (1, batchSize * rfFreq, rfHidden)
  rnn1 : caches.rnn.2.1.shape = (1, batchSize * rfFreq, rfHidden)
  rnn2 : caches.rnn.2.2.shape = (1, batchSize * rfFreq, rfHidden)

variable {batchSize : Nat} {caches caches' : StreamCaches α} {cs : List (StreamCaches α)}

theorem StreamCaches.assertLayout_ok_iff :
    caches.assertLayout batchSize = .ok () ↔ caches.Layout batchSize := by
  unfold StreamCaches.assertLayout
  constructor
  · intro h
    split at h
    · cases h
    · next hstft =>
        split at h
        · cases h
        · next histft =>
            split at h
            · cases h
            · next hrnn =>
                simp only [StreamCaches.blocks, List.exists_mem_cons_iff, List.not_mem_nil,
                  false_and, exists_false, or_false, not_or, not_not] at hrnn
                exact ⟨not_not.mp hstft, not_not.mp histft, hrnn.1, hrnn.2.1, hrnn.2.2⟩
  · intro h
    have hrnn : ¬ ∃ block ∈ caches.blocks, block.shape ≠ (1, batchSize * rfFreq, rfHidden) := by
      simp only [StreamCaches.blocks, List.exists_mem_cons_iff, List.not_mem_nil, false_and,
        exists_false, or_false, not_or, not_not]
      exact ⟨h.rnn0, h.rnn1, h.rnn2⟩
    rw [if_neg (not_not.mpr h.stft), if_neg (not_not.mpr h.istft), if_neg hrnn]

theorem forM_assertLayout (h : ∀ c ∈ cs, c.Layout 1) :
    cs.forM (StreamCaches.assertLayout 1) = .ok () := by
  induction cs with
  | nil => rfl
  | cons c cs ih =>
      change (StreamCaches.assertLayout 1 c >>= fun _ => cs.forM (StreamCaches.assertLayout 1)) = _
      rw [StreamCaches.assertLayout_ok_iff.mpr (h c List.mem_cons_self)]
      exact ih fun c hc => h c (List.mem_cons_of_mem _ hc)

/-! ## Combining -/

/-- A component of rank 2 of a batch. -/
structure Stacked2 (f : StreamCaches α → Tensor2 α) (cs : List (StreamCaches α)) (t : Tensor2 α) :
    Prop where
  cat : Tensor2.cat (cs.map f) = some t
  shape : t.shape = (cs.length, hopSamples)
  rows : t.rows = (cs.map f).flatMap Tensor2.rows

theorem stacked2 {f : StreamCaches α → Tensor2 α} (hne : cs ≠ [])
    (h : ∀ c ∈ cs, (f c).shape = (1, hopSamples)) : ∃ t, Stacked2 f cs t := by
  have hwidth : ∀ t ∈ cs.map f, t.width = hopSamples := by
    intro t ht
    obtain ⟨c, hc, rfl⟩ := List.mem_map.mp ht
    exact congrArg Prod.snd (h c hc)
  obtain ⟨t, hcat, hrows, hw⟩ := Tensor2.cat_eq (by simpa using hne) hwidth
  have hlen : ∀ c ∈ cs, (f c).rows.length = 1 := fun c hc => congrArg Prod.fst (h c hc)
  refine ⟨t, hcat, ?_, hrows⟩
  rw [Tensor2.shape, hw, hrows, List.flatMap_map, List.length_flatMap, List.map_congr_left hlen,
    List.map_const', List.sum_replicate]
  simp

/-- A component of rank 3 of a batch. -/
structure Stacked3 (f : StreamCaches α → Tensor3 α) (cs : List (StreamCaches α)) (t : Tensor3 α) :
    Prop where
  cat : Tensor3.cat (cs.map f) = some t
  shape : t.shape = (1, cs.length * rfFreq, rfHidden)
  plane : ∀ k, k < 1 → t.plane k = (cs.map f).flatMap (Tensor3.plane · k)

theorem stacked3 {f : StreamCaches α → Tensor3 α} (hne : cs ≠ [])
    (h : ∀ c ∈ cs, (f c).shape = (1, 1 * rfFreq, rfHidden)) : ∃ t, Stacked3 f cs t := by
  have hshape : ∀ t ∈ cs.map f, t.planes.length = 1 ∧ t.height = rfFreq ∧ t.width = rfHidden := by
    intro t ht
    obtain ⟨c, hc, rfl⟩ := List.mem_map.mp ht
    have hc := h c hc
    rw [Tensor3.shape, Nat.one_mul, Prod.mk.injEq, Prod.mk.injEq] at hc
    exact hc
  obtain ⟨t, hcat, hd, hh, hw, hplane⟩ := Tensor3.cat_eq (by simpa using hne) hshape
  rw [List.length_map] at hh
  exact ⟨t, hcat, by rw [Tensor3.shape, hd, hh, hw], hplane⟩

/-- What `combine_stream_caches` returns: every component stacked. -/
structure Combined (cs : List (StreamCaches α)) (caches : StreamCaches α) : Prop where
  stft : Stacked2 StreamCaches.stft cs caches.stft
  istft : Stacked2 StreamCaches.istft cs caches.istft
  rnn0 : Stacked3 (·.rnn.1) cs caches.rnn.1
  rnn1 : Stacked3 (·.rnn.2.1) cs caches.rnn.2.1
  rnn2 : Stacked3 (·.rnn.2.2) cs caches.rnn.2.2

theorem Combined.layout (h : Combined cs caches) : caches.Layout cs.length where
  stft := h.stft.shape
  istft := h.istft.shape
  rnn0 := h.rnn0.shape
  rnn1 := h.rnn1.shape
  rnn2 := h.rnn2.shape

theorem combineStreamCaches_ok (hne : cs ≠ []) (h : ∀ c ∈ cs, c.Layout 1) :
    ∃ caches, combineStreamCaches cs = .ok caches ∧ Combined cs caches := by
  obtain ⟨stft, hstft⟩ := stacked2 (f := StreamCaches.stft) hne fun c hc => (h c hc).stft
  obtain ⟨istft, histft⟩ := stacked2 (f := StreamCaches.istft) hne fun c hc => (h c hc).istft
  obtain ⟨rnn0, hrnn0⟩ := stacked3 (f := (·.rnn.1)) hne fun c hc => (h c hc).rnn0
  obtain ⟨rnn1, hrnn1⟩ := stacked3 (f := (·.rnn.2.1)) hne fun c hc => (h c hc).rnn1
  obtain ⟨rnn2, hrnn2⟩ := stacked3 (f := (·.rnn.2.2)) hne fun c hc => (h c hc).rnn2
  have hcombined : Combined cs ⟨stft, istft, rnn0, rnn1, rnn2⟩ :=
    ⟨hstft, histft, hrnn0, hrnn1, hrnn2⟩
  refine ⟨_, ?_, hcombined⟩
  have hempty : ¬ cs.isEmpty = true := by simpa using hne
  simp only [combineStreamCaches, if_neg hempty, forM_assertLayout h, hstft.cat, histft.cat,
    hrnn0.cat, hrnn1.cat, hrnn2.cat, orRaise, bind, Except.bind, pure, Except.pure,
    StreamCaches.assertLayout_ok_iff.mpr hcombined.layout]

/-! ## Splitting -/

theorem splitStreamCaches_ok (h : caches.Layout batchSize) :
    splitStreamCaches caches batchSize = .ok ((List.range batchSize).map caches.row) := by
  rw [splitStreamCaches, StreamCaches.assertLayout_ok_iff.mpr h]
  rfl

theorem StreamCaches.Layout.row (h : caches.Layout batchSize) {i : Nat} (hi : i < batchSize) :
    (caches.row i).Layout 1 := by
  have hslice2 {t : Tensor2 α} (ht : t.shape = (batchSize, hopSamples)) :
      (t.slice i (i + 1)).shape = (1, hopSamples) := by
    rw [Tensor2.shape, Prod.mk.injEq] at ht
    have hlen := ht.1
    refine Prod.ext ?_ ht.2
    simp only [Tensor2.shape, Tensor2.slice, List.length_take, List.length_drop]
    omega
  have hslice3 {t : Tensor3 α} (ht : t.shape = (1, batchSize * rfFreq, rfHidden)) :
      (t.slice (i * rfFreq) (i * rfFreq + rfFreq)).shape = (1, 1 * rfFreq, rfHidden) := by
    rw [Tensor3.shape, Prod.mk.injEq, Prod.mk.injEq] at ht
    refine Prod.ext ((List.length_map ..).trans ht.1) (Prod.ext ?_ ht.2.2)
    rw [Nat.one_mul]
    exact Tensor3.slice_height ht.2.1 hi
  exact ⟨hslice2 h.stft, hslice2 h.istft, hslice3 h.rnn0, hslice3 h.rnn1, hslice3 h.rnn2⟩

theorem cat_slices₂ {t : Tensor2 α} (hpos : batchSize ≠ 0)
    (h : t.shape = (batchSize, hopSamples)) :
    Tensor2.cat ((List.range batchSize).map fun i => t.slice i (i + 1)) = some t := by
  have hlen : t.rows.length = batchSize * 1 := (congrArg Prod.fst h).trans (Nat.mul_one _).symm
  have hcat := Tensor2.cat_slices hpos hlen
  simp only [Nat.mul_one] at hcat
  exact hcat

theorem cat_slices₃ {t : Tensor3 α} (hpos : batchSize ≠ 0)
    (h : t.shape = (1, batchSize * rfFreq, rfHidden)) :
    Tensor3.cat ((List.range batchSize).map fun i => t.slice (i * rfFreq) (i * rfFreq + rfFreq)) =
      some t := by
  rw [Tensor3.shape, Prod.mk.injEq, Prod.mk.injEq] at h
  exact Tensor3.cat_slices hpos h.2.1

theorem Stacked2.slice {f : StreamCaches α → Tensor2 α} {t : Tensor2 α} (h : Stacked2 f cs t)
    (hcs : ∀ c ∈ cs, (f c).shape = (1, hopSamples)) {i : Nat} {c : StreamCaches α}
    (hi : cs[i]? = some c) : t.slice i (i + 1) = f c := by
  have hslice := Tensor2.slice_cat (n := 1) (i := i) (t := f c) h.rows (fun t ht => ?_)
    (by rw [List.getElem?_map, hi]; rfl) ?_
  · rwa [Nat.mul_one] at hslice
  · obtain ⟨c, hc, rfl⟩ := List.mem_map.mp ht
    exact congrArg Prod.fst (hcs c hc)
  · exact (congrArg Prod.snd h.shape).trans
      (congrArg Prod.snd (hcs c (List.mem_of_getElem? hi))).symm

theorem Stacked3.slice {f : StreamCaches α → Tensor3 α} {t : Tensor3 α} (h : Stacked3 f cs t)
    (hcs : ∀ c ∈ cs, (f c).shape = (1, 1 * rfFreq, rfHidden)) {i : Nat} {c : StreamCaches α}
    (hi : cs[i]? = some c) : t.slice (i * rfFreq) (i * rfFreq + rfFreq) = f c := by
  have hshape := h.shape
  rw [Tensor3.shape, Prod.mk.injEq, Prod.mk.injEq] at hshape
  obtain ⟨hd, hh, hw⟩ := hshape
  refine Tensor3.slice_cat h.plane hd (by rw [hh, List.length_map]) hw (fun t ht => ?_)
    (by rw [List.getElem?_map, hi]; rfl)
  obtain ⟨c, hc, rfl⟩ := List.mem_map.mp ht
  have hc := hcs c hc
  rw [Tensor3.shape, Nat.one_mul, Prod.mk.injEq, Prod.mk.injEq] at hc
  exact hc

/-- The rows of a stream in a batch are its caches. -/
theorem Combined.row (h : Combined cs caches) (hcs : ∀ c ∈ cs, c.Layout 1) {i : Nat}
    {c : StreamCaches α} (hi : cs[i]? = some c) : caches.row i = c := by
  refine StreamCaches.ext ?_ ?_ (Prod.ext ?_ (Prod.ext ?_ ?_))
  · exact h.stft.slice (fun c hc => (hcs c hc).stft) hi
  · exact h.istft.slice (fun c hc => (hcs c hc).istft) hi
  · exact h.rnn0.slice (fun c hc => (hcs c hc).rnn0) hi
  · exact h.rnn1.slice (fun c hc => (hcs c hc).rnn1) hi
  · exact h.rnn2.slice (fun c hc => (hcs c hc).rnn2) hi

theorem Combined.rows (h : Combined cs caches) (hcs : ∀ c ∈ cs, c.Layout 1) :
    (List.range cs.length).map caches.row = cs := by
  refine List.ext_getElem? fun i => ?_
  rw [List.getElem?_map]
  cases hi : cs[i]? with
  | none =>
      rw [List.getElem?_eq_none_iff] at hi
      rw [List.getElem?_eq_none (by rw [List.length_range]; exact hi)]
      rfl
  | some c =>
      rw [List.getElem?_range (List.getElem?_eq_some_iff.mp hi).1, Option.map_some, h.row hcs hi]

/-- What is stacked again after it was cut up is what was there. -/
theorem combineStreamCaches_rows (hpos : 0 < batchSize) (h : caches.Layout batchSize) :
    combineStreamCaches ((List.range batchSize).map caches.row) = .ok caches := by
  have hpos' : batchSize ≠ 0 := Nat.pos_iff_ne_zero.mp hpos
  have hlayout : ∀ c ∈ (List.range batchSize).map caches.row, c.Layout 1 := by
    intro c hc
    obtain ⟨i, hi, rfl⟩ := List.mem_map.mp hc
    exact h.row (List.mem_range.mp hi)
  obtain ⟨combined, hok, hcombined⟩ := combineStreamCaches_ok (by simpa using hpos') hlayout
  rw [hok, Except.ok.injEq]
  have hstft := hcombined.stft.cat
  have histft := hcombined.istft.cat
  have hrnn0 := hcombined.rnn0.cat
  have hrnn1 := hcombined.rnn1.cat
  have hrnn2 := hcombined.rnn2.cat
  rw [List.map_map] at hstft histft hrnn0 hrnn1 hrnn2
  refine StreamCaches.ext ?_ ?_ (Prod.ext ?_ (Prod.ext ?_ ?_))
  · exact Option.some.inj (hstft.symm.trans (cat_slices₂ hpos' h.stft))
  · exact Option.some.inj (histft.symm.trans (cat_slices₂ hpos' h.istft))
  · exact Option.some.inj (hrnn0.symm.trans (cat_slices₃ hpos' h.rnn0))
  · exact Option.some.inj (hrnn1.symm.trans (cat_slices₃ hpos' h.rnn1))
  · exact Option.some.inj (hrnn2.symm.trans (cat_slices₃ hpos' h.rnn2))

/-! ## One stream of a batch -/

/-- Two RNN caches that differ in the rows of stream `i` at most. -/
def AgreeRows (i : Nat) (t t' : Tensor3 α) : Prop :=
  ∀ k r, r < i * rfFreq ∨ i * rfFreq + rfFreq ≤ r → (t.plane k)[r]? = (t'.plane k)[r]?

/-- Two batches that differ in the rows of stream `i` at most. -/
structure AgreeOutside (i : Nat) (caches caches' : StreamCaches α) : Prop where
  stft : ∀ j, j ≠ i → caches.stft.rows[j]? = caches'.stft.rows[j]?
  istft : ∀ j, j ≠ i → caches.istft.rows[j]? = caches'.istft.rows[j]?
  rnn0 : AgreeRows i caches.rnn.1 caches'.rnn.1
  rnn1 : AgreeRows i caches.rnn.2.1 caches'.rnn.2.1
  rnn2 : AgreeRows i caches.rnn.2.2 caches'.rnn.2.2

/-- Where the caches of two streams are the same, so are their rows. -/
theorem Stacked2.agree {f : StreamCaches α → Tensor2 α} {cs' : List (StreamCaches α)}
    {t t' : Tensor2 α} (h : Stacked2 f cs t) (h' : Stacked2 f cs' t')
    (hcs : ∀ c ∈ cs, (f c).shape = (1, hopSamples))
    (hcs' : ∀ c ∈ cs', (f c).shape = (1, hopSamples)) (hlen : cs.length = cs'.length) {j : Nat}
    (heq : cs[j]? = cs'[j]?) : t.rows[j]? = t'.rows[j]? := by
  have hrows : t.rows.length = cs.length := congrArg Prod.fst h.shape
  have hrows' : t'.rows.length = cs'.length := congrArg Prod.fst h'.shape
  cases hj : cs[j]? with
  | none =>
      rw [List.getElem?_eq_none_iff] at hj
      rw [List.getElem?_eq_none (by omega), List.getElem?_eq_none (by omega)]
  | some c =>
      have hslice := (h.slice hcs hj).trans (h'.slice hcs' (heq.symm.trans hj)).symm
      have hsample := congrArg Tensor2.rows hslice
      simp only [Tensor2.slice, Nat.add_sub_cancel_left] at hsample
      have hget := congrArg (·[0]?) hsample
      simpa [List.getElem?_take_of_lt] using hget

theorem Stacked3.agree {f : StreamCaches α → Tensor3 α} {cs' : List (StreamCaches α)}
    {t t' : Tensor3 α} (h : Stacked3 f cs t) (h' : Stacked3 f cs' t')
    (hcs : ∀ c ∈ cs, (f c).shape = (1, 1 * rfFreq, rfHidden))
    (hcs' : ∀ c ∈ cs', (f c).shape = (1, 1 * rfFreq, rfHidden)) (hlen : cs.length = cs'.length)
    {i : Nat} (heq : ∀ j, j ≠ i → cs[j]? = cs'[j]?) : AgreeRows i t t' := by
  intro k r hr
  have hrow : r / rfFreq ≠ i := by
    simp only [rfFreq] at hr ⊢
    omega
  have hpos : 0 < rfFreq := by decide
  rw [getElem?_eq_sample hpos (t.plane k), getElem?_eq_sample hpos (t'.plane k)]
  congr 1
  cases hj : cs[r / rfFreq]? with
  | none =>
      -- neither batch has so many streams
      rw [List.getElem?_eq_none_iff] at hj
      have hheight : t.height = cs.length * rfFreq := congrArg (·.2.1) h.shape
      have hheight' : t'.height = cs'.length * rfFreq := congrArg (·.2.1) h'.shape
      have hle : cs.length * rfFreq ≤ r / rfFreq * rfFreq := Nat.mul_le_mul_right _ hj
      rw [sample_eq_nil ((t.plane_length_le k).trans (hheight.le.trans hle)),
        sample_eq_nil ((t'.plane_length_le k).trans (hheight'.le.trans (hlen ▸ hle)))]
  | some c =>
      rw [← Tensor3.slice_plane, ← Tensor3.slice_plane, h.slice hcs hj,
        h'.slice hcs' ((heq _ hrow).symm.trans hj)]

/-- Batches of streams that have the same caches but for stream `i`. -/
theorem Combined.agree {cs' : List (StreamCaches α)} (h : Combined cs caches)
    (h' : Combined cs' caches') (hcs : ∀ c ∈ cs, c.Layout 1) (hcs' : ∀ c ∈ cs', c.Layout 1)
    (hlen : cs.length = cs'.length) {i : Nat} (heq : ∀ j, j ≠ i → cs[j]? = cs'[j]?) :
    AgreeOutside i caches caches' where
  stft j hj := h.stft.agree h'.stft (fun c hc => (hcs c hc).stft) (fun c hc => (hcs' c hc).stft)
    hlen (heq j hj)
  istft j hj := h.istft.agree h'.istft (fun c hc => (hcs c hc).istft)
    (fun c hc => (hcs' c hc).istft) hlen (heq j hj)
  rnn0 := h.rnn0.agree h'.rnn0 (fun c hc => (hcs c hc).rnn0) (fun c hc => (hcs' c hc).rnn0) hlen heq
  rnn1 := h.rnn1.agree h'.rnn1 (fun c hc => (hcs c hc).rnn1) (fun c hc => (hcs' c hc).rnn1) hlen heq
  rnn2 := h.rnn2.agree h'.rnn2 (fun c hc => (hcs c hc).rnn2) (fun c hc => (hcs' c hc).rnn2) hlen heq

/-- Another stream's caches are cut from rows that agree. -/
theorem AgreeOutside.row {i : Nat} (h : AgreeOutside i caches caches')
    (hlayout : caches.Layout batchSize) (hlayout' : caches'.Layout batchSize) {j : Nat}
    (hj : j ≠ i) : caches.row j = caches'.row j := by
  have hslice2 {t t' : Tensor2 α} (ht : t.shape = (batchSize, hopSamples))
      (ht' : t'.shape = (batchSize, hopSamples)) (hrows : t.rows[j]? = t'.rows[j]?) :
      t.slice j (j + 1) = t'.slice j (j + 1) := by
    have hcongr : t.slice (j * 1) (j * 1 + 1) = t'.slice (j * 1) (j * 1 + 1) := by
      refine Tensor2.slice_congr ((congrArg Prod.snd ht).trans (congrArg Prod.snd ht').symm) ?_
      intro k hk
      obtain rfl : k = 0 := by omega
      rwa [Nat.mul_one, Nat.add_zero]
    rwa [Nat.mul_one] at hcongr
  have hslice3 {t t' : Tensor3 α} (ht : t.shape = (1, batchSize * rfFreq, rfHidden))
      (ht' : t'.shape = (1, batchSize * rfFreq, rfHidden)) (hrows : AgreeRows i t t') :
      t.slice (j * rfFreq) (j * rfFreq + rfFreq) = t'.slice (j * rfFreq) (j * rfFreq + rfFreq) := by
    have hshape := ht.trans ht'.symm
    refine Tensor3.slice_congr (congrArg Prod.fst hshape) (congrArg (·.2.1) hshape)
      (congrArg (·.2.2) hshape) fun k r _ hr => hrows k _ ?_
    simp only [rfFreq] at hr ⊢
    omega
  refine StreamCaches.ext ?_ ?_ (Prod.ext ?_ (Prod.ext ?_ ?_))
  · exact hslice2 hlayout.stft hlayout'.stft (h.stft j hj)
  · exact hslice2 hlayout.istft hlayout'.istft (h.istft j hj)
  · exact hslice3 hlayout.rnn0 hlayout'.rnn0 h.rnn0
  · exact hslice3 hlayout.rnn1 hlayout'.rnn1 h.rnn1
  · exact hslice3 hlayout.rnn2 hlayout'.rnn2 h.rnn2

/-- A cache of rank 2 of one stream, of one value. -/
def constantRow (value : α) : Tensor2 α where
  rows := [List.replicate hopSamples value]
  width := hopSamples
  rect := by
    intro row hrow
    rw [List.mem_singleton.mp hrow]
    exact List.length_replicate

/-- An RNN cache of one stream, of one value. -/
def constantBlock (value : α) : Tensor3 α where
  planes := [List.replicate rfFreq (List.replicate rfHidden value)]
  height := rfFreq
  width := rfHidden
  rect := by
    intro plane hplane
    rw [List.mem_singleton.mp hplane]
    refine ⟨List.length_replicate, fun row hrow => ?_⟩
    rw [List.eq_of_mem_replicate hrow]
    exact List.length_replicate

/-- The caches of one stream, of one value. -/
def constantCaches (value : α) : StreamCaches α where
  stft := constantRow value
  istft := constantRow value
  rnn := (constantBlock value, constantBlock value, constantBlock value)

theorem constantCaches_layout (value : α) : (constantCaches value).assertLayout 1 = .ok () :=
  StreamCaches.assertLayout_ok_iff.mpr ⟨rfl, rfl, rfl, rfl, rfl⟩

/-- Combining and splitting are inverse to each other on caches of the right layout.  Another cache
for stream `i` changes the rows of stream `i` of the batch alone, and other rows of stream `i`
change the caches of stream `i` alone. -/
theorem combine_split_inverse :
    (∀ cs : List (StreamCaches α), cs ≠ [] → (∀ c ∈ cs, c.assertLayout 1 = .ok ()) →
      (combineStreamCaches cs).bind (splitStreamCaches · cs.length) = .ok cs) ∧
    (∀ batchSize (caches : StreamCaches α), 0 < batchSize →
      caches.assertLayout batchSize = .ok () →
      (splitStreamCaches caches batchSize).bind combineStreamCaches = .ok caches) ∧
    (∀ (cs : List (StreamCaches α)) i c, cs ≠ [] → (∀ c ∈ cs, c.assertLayout 1 = .ok ()) →
      c.assertLayout 1 = .ok () → ∃ caches caches', combineStreamCaches cs = .ok caches ∧
        combineStreamCaches (cs.set i c) = .ok caches' ∧ AgreeOutside i caches caches') ∧
    ∀ batchSize i (caches caches' : StreamCaches α), caches.assertLayout batchSize = .ok () →
      caches'.assertLayout batchSize = .ok () → AgreeOutside i caches caches' →
      ∃ cs cs', splitStreamCaches caches batchSize = .ok cs ∧
        splitStreamCaches caches' batchSize = .ok cs' ∧ ∀ j, j ≠ i → cs[j]? = cs'[j]? := by
  simp only [StreamCaches.assertLayout_ok_iff]
  refine ⟨fun cs hne hcs => ?_, fun batchSize caches hpos h => ?_, fun cs i c hne hcs hc => ?_,
    fun batchSize i caches caches' h h' hagree => ?_⟩
  · obtain ⟨caches, hok, hcombined⟩ := combineStreamCaches_ok hne hcs
    rw [hok, Except.bind, splitStreamCaches_ok hcombined.layout, hcombined.rows hcs]
  · rw [splitStreamCaches_ok h, Except.bind, combineStreamCaches_rows hpos h]
  · have hcs' : ∀ d ∈ cs.set i c, d.Layout 1 := fun d hd =>
      (List.mem_or_eq_of_mem_set hd).elim (hcs d) fun heq => heq ▸ hc
    obtain ⟨caches, hok, hcombined⟩ := combineStreamCaches_ok hne hcs
    obtain ⟨caches', hok', hcombined'⟩ := combineStreamCaches_ok (by simpa using hne) hcs'
    refine ⟨caches, caches', hok, hok', hcombined.agree hcombined' hcs hcs' ?_ fun j hj => ?_⟩
    · rw [List.length_set]
    · rw [List.getElem?_set_ne hj.symm]
  · refine ⟨_, _, splitStreamCaches_ok h, splitStreamCaches_ok h', fun j hj => ?_⟩
    rw [List.getElem?_map, List.getElem?_map]
    by_cases hlt : j < batchSize
    · rw [List.getElem?_range hlt, Option.map_some, Option.map_some, hagree.row h h' hj]
    · rw [List.getElem?_eq_none (by rw [List.length_range]; omega)]
      rfl

/-- Two streams. -/
theorem combine_split_inverse_two :
    (combineStreamCaches [constantCaches (0 : ℚ), constantCaches 1]).bind (splitStreamCaches · 2) =
      .ok [constantCaches 0, constantCaches 1] := by
  refine combine_split_inverse.1 [constantCaches 0, constantCaches 1] (List.cons_ne_nil _ _) ?_
  simp only [List.forall_mem_cons, List.not_mem_nil, false_imp_iff, implies_true, and_true]
  exact ⟨constantCaches_layout 0, constantCaches_layout 1⟩

end VoxLattice.Server
