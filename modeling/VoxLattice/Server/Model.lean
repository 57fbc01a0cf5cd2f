import VoxLattice.Server.Caches
import VoxLattice.Server.Service
import VoxLattice.Upstream.Reconstruction
import VoxLattice.Upstream.Streaming

/-!
# The streaming model

`FastEnhancerBStreamingModel`: `infer_batch` puts the caches of its streams together, runs the
transform, the network and the inverse transform on the batch, checks the result and cuts the
caches up again.  The constructor's checks of the configuration are fields of the model: the frames
and hops of the transform, and the count and the widths of the blocks.

`inferBatch_eq` says what a batch returns, row by row: `rowStep` on the hop and the caches of every
stream, unless an element of the output is not finite.  No other check can fail.

The elements of a tensor are any type with the operations of torch.  `value` is the number that an
element stands for; NaN and the infinities stand for none.  Devices, the lock and `inference_mode`
are left out.
-/

namespace VoxLattice.Server

open Tensors Upstream

/-- Elements of tensors, with the numbers they stand for. -/
class Elements (α : Type*) extends Torch α where
  value : α → Option ℚ

/-- `RNN_BLOCKS`. -/
def rnnBlocks : ℕ := 3

/-- `FastEnhancerBStreamingModel`.  The widths of the convolutions are not checked. -/
structure FastEnhancerBStreamingModel (α : Type) [Elements α] (channels width : ℕ) where
  modelName : String
  modelRevision : String
  checkpointSha256 : String
  cudaDeviceName : String
  /-- `_network.stft`. -/
  stft : ONNXSTFT α
  /-- `_network`. -/
  network : ONNXModel α 256 channels width rfFreq rfHidden
  /-- The window function of torch that the configuration names. -/
  torchWindow : ℕ → List α
  torchWindow_length : ∀ n, (torchWindow n).length = n
  /-- `_load_and_validate_config`: the frame, the hop and the window. -/
  stft_init : ONNXSTFT.init 512 hopSamples (some 512) (some torchWindow) = .ok stft
  /-- `_load_and_validate_config`: the blocks. -/
  blocks : network.rfBlock.length = rnnBlocks

variable {α : Type} [Elements α] {channels width : ℕ}

/-! ## Tensors -/

/-- Rows as one tensor. -/
def stackRows (rows : List (List α)) : Except PyError (Tensor2 α) :=
  if h : ∀ row ∈ rows, row.length = (rows.headD []).length then .ok ⟨rows, _, h⟩
  else .error (.runtime "stack expects each tensor to be equal size")

/-- A hop as float32 on the device. -/
def castHop (hop : Tensor) : List α := hop.map fun (sample : ℚ) => (sample : α)

/-- A half spectrum by its bins. -/
def specFrame (spec : List (α × α)) : Fin (256 + 1) → Fin 2 → α := fun f =>
  ![(spec.getD f 0).1, (spec.getD f 0).2]

/-- The half spectra of a batch, as the network takes them. -/
def specTensor {B : ℕ} (specs : List (List (α × α))) : Fin B → Fin (256 + 1) → Fin 1 → Fin 2 → α :=
  fun b f _ => specFrame (specs.getD b []) f

/-- The half spectrum of a frame. -/
def specRow (z : Fin (256 + 1) → Fin 2 → α) : List (α × α) := List.ofFn fun f => (z f 0, z f 1)

/-- A tensor of rank 3 by its indices. -/
def elements {a b c : ℕ} (t : Tensor3 α) : Fin a → Fin b → Fin c → α := fun i j k =>
  ((t.plane i).getD j []).getD k 0

/-- A tensor of rank 3 from its elements. -/
def ofElements {a b c : ℕ} (x : Fin a → Fin b → Fin c → α) : Tensor3 α where
  planes := List.ofFn fun i => List.ofFn fun j => List.ofFn (x i j)
  height := b
  width := c
  rect := by
    intro plane hplane
    obtain ⟨i, rfl⟩ := (List.mem_ofFn' _ _).mp hplane
    refine ⟨List.length_ofFn, fun row hrow => ?_⟩
    obtain ⟨j, rfl⟩ := (List.mem_ofFn' _ _).mp hrow
    exact List.length_ofFn

/-- The RNN caches of a batch, as the network takes them. -/
def rnnTensors (batchSize : ℕ) (caches : StreamCaches α) :
    List (Fin 1 → Fin (batchSize * rfFreq) → Fin rfHidden → α) :=
  caches.blocks.map elements

namespace FastEnhancerBStreamingModel

variable (model : FastEnhancerBStreamingModel α channels width)

/-! ## The methods -/

/-- `initialize_stream`, without a device. -/
def initializeStream : Except PyError (StreamCaches α) := do
  let (stft, istft) := model.stft.initializeCache
  match model.network.initializeCache with
  | [rnn0, rnn1, rnn2] =>
    let stft ← stackRows [stft]
    let istft ← stackRows [istft]
    let caches : StreamCaches α :=
      ⟨stft, istft, ofElements rnn0, ofElements rnn1, ofElements rnn2⟩
    caches.assertLayout 1
    return caches
  | _ => throw (.runtime "model returned an unexpected number of RNN caches")

/-- `torch.isfinite`. -/
def isFinite (x : α) : Bool := (Elements.value x).isSome

/-- What `infer_batch` computes under its lock. -/
structure Computed (α : Type) (batchSize : ℕ) where
  /-- `wav_out`. -/
  wavOut : List (List α)
  stft : List (List α)
  istft : List (List α)
  rnn : List (Fin 1 → Fin (batchSize * rfFreq) → Fin rfHidden → α)

/-- The transform, the network and the inverse transform of `infer_batch`. -/
def compute (batchSize : ℕ) (wavHops : List (List α)) (combined : StreamCaches α) :
    Computed α batchSize :=
  let (spec, stft) := model.stft.forwardBatch wavHops combined.stft.rows
  let (specOut, rnn) := model.network.forward (specTensor spec) (rnnTensors batchSize combined)
  let (wavOut, istft) := model.stft.inverseBatch
    (List.ofFn fun b => specRow fun f => specOut b f 0) combined.istft.rows
  { wavOut, stft, istft, rnn }

/-- `infer_batch`. -/
def inferBatch (wavHops : List Tensor) (streamCaches : List (StreamCaches α)) :
    Except PyError (List (List α) × List (StreamCaches α)) := do
  let batchSize := streamCaches.length
  if wavHops.length ≠ batchSize ∨ ∃ row ∈ wavHops, row.length ≠ hopSamples then
    throw (.value "wav_hops must have shape [batch, 256]")
  let combined ← combineStreamCaches streamCaches
  let wavHops := wavHops.map castHop
  let computed := model.compute batchSize wavHops combined
  let wavOut := computed.wavOut
  if wavOut.length ≠ batchSize ∨ ∃ row ∈ wavOut, row.length ≠ hopSamples then
    throw (.runtime "model returned an invalid waveform shape")
  if ∃ row ∈ wavOut, ∃ x ∈ row, isFinite x = false then
    throw (.runtime "model produced NaN or infinity")
  match computed.rnn with
  | rnn0 :: rnn1 :: rnn2 :: _ =>
    let stft ← stackRows computed.stft
    let istft ← stackRows computed.istft
    let updated : StreamCaches α :=
      ⟨stft, istft, ofElements rnn0, ofElements rnn1, ofElements rnn2⟩
    updated.assertLayout batchSize
    return (wavOut, ← splitStreamCaches updated batchSize)
  | _ => throw .index

/-! ## One row -/

end FastEnhancerBStreamingModel

/-- A tensor of one row. -/
def oneRow (row : List α) : Tensor2 α where
  rows := [row]
  width := row.length
  rect _ hrow := congrArg List.length (List.mem_singleton.mp hrow)

/-- The row of a cache of one stream. -/
def onlyRow (t : Tensor2 α) : List α := t.rows.headD []

/-- The rows of a stream's RNN caches. -/
def StreamCaches.hidden (caches : StreamCaches α) : List (Fin rfFreq → Fin rfHidden → α) :=
  caches.blocks.map fun t => (elements t : Fin 1 → Fin rfFreq → Fin rfHidden → α) 0

namespace FastEnhancerBStreamingModel

variable (model : FastEnhancerBStreamingModel α channels width)

/-- The RNN caches of a stream from its rows. -/
def blockCaches (rows : List (Fin rfFreq → Fin rfHidden → α)) :
    Tensor3 α × Tensor3 α × Tensor3 α :=
  let block (k : ℕ) : Tensor3 α := ofElements fun _ : Fin 1 => rows.getD k fun _ _ => 0
  (block 0, block 1, block 2)

/-- What `infer_batch` does for one stream, but for its checks. -/
def rowStep (hop : Tensor) (caches : StreamCaches α) : List α × StreamCaches α :=
  let (spec, stft) := model.stft.forward (castHop hop)
    (onlyRow caches.stft)
  let (specOut, rnn) := model.network.step (specFrame spec) caches.hidden
  let (wav, istft) := model.stft.inverse (specRow specOut) (onlyRow caches.istft)
  (wav, ⟨oneRow stft, oneRow istft, blockCaches rnn⟩)

end FastEnhancerBStreamingModel

/-! ## Rows of tensors -/

section Rows

variable {a b c : ℕ}

/-- The rows of a stream in a batch. -/
theorem rowsOf_elements {B : ℕ} (t : Tensor3 α) (i : Fin B) :
    rowsOf i (elements t : Fin 1 → Fin (B * rfFreq) → Fin rfHidden → α) =
      (elements (t.slice (i * rfFreq) (i * rfFreq + rfFreq)) :
        Fin 1 → Fin rfFreq → Fin rfHidden → α) 0 := by
  funext j k
  have hrow : ((t.slice (i * rfFreq) (i * rfFreq + rfFreq)).plane 0).getD j [] =
      (t.plane 0).getD (finProdFinEquiv (i, j)) [] := by
    rw [Tensor3.slice_plane, List.getD_eq_getElem?_getD, Samples.getElem?_sample _ _ j.isLt,
      List.getD_eq_getElem?_getD]
    simp only [finProdFinEquiv_apply_val]
    rw [Nat.add_comm, Nat.mul_comm]
  simp only [rowsOf, split_apply, elements, Fin.val_zero]
  rw [hrow]

omit [Elements α] in
/-- The rows of a stream, cut from a batch. -/
theorem slice_ofElements {B : ℕ} (x : Fin 1 → Fin (B * rfFreq) → Fin rfHidden → α) (i : Fin B) :
    (ofElements x).slice (i * rfFreq) (i * rfFreq + rfFreq) =
      ofElements fun _ : Fin 1 => rowsOf i x := by
  have hle : (i + 1) * rfFreq ≤ B * rfFreq := Nat.mul_le_mul_right _ i.isLt
  rw [Nat.add_mul, Nat.one_mul] at hle
  refine Tensor3.ext ?_ ?_ rfl
  · simp only [Tensor3.slice, ofElements, Nat.add_sub_cancel_left, List.ofFn_succ, List.ofFn_zero,
      List.map_cons, List.map_nil]
    refine congrArg (fun rows => [rows]) (List.ext_getElem ?_ fun j hj hj' => ?_)
    · simp only [List.length_take, List.length_drop, List.length_ofFn]
      omega
    · rw [List.length_ofFn] at hj'
      simp only [List.getElem_take, List.getElem_drop, List.getElem_ofFn, rowsOf, split_apply]
      refine congrArg (fun r => List.ofFn (x 0 r)) (Fin.ext ?_)
      simp only [finProdFinEquiv_apply_val]
      rw [Nat.add_comm, Nat.mul_comm]
  · simp only [Tensor3.slice, ofElements]
    omega

@[simp] theorem elements_ofElements (x : Fin a → Fin b → Fin c → α) :
    elements (ofElements x) = x := by
  funext i j k
  simp only [elements, ofElements, Tensor3.plane, List.getD_eq_getElem?_getD, List.getElem?_ofFn,
    i.isLt, j.isLt, k.isLt, dite_true, Option.getD_some]

omit [Elements α] in
theorem ofElements_shape (x : Fin a → Fin b → Fin c → α) : (ofElements x).shape = (a, b, c) := by
  rw [Tensor3.shape, ofElements, List.length_ofFn]

omit [Elements α] in
theorem stackRows_ok {rows : List (List α)} {w : ℕ} (hne : rows ≠ [])
    (h : ∀ row ∈ rows, row.length = w) :
    ∃ t, stackRows rows = .ok t ∧ t.rows = rows ∧ t.width = w := by
  cases rows with
  | nil => exact absurd rfl hne
  | cons row rest =>
      have hw := h row List.mem_cons_self
      have hrect : ∀ r ∈ row :: rest, r.length = ((row :: rest).headD []).length := fun r hr =>
        (h r hr).trans hw.symm
      exact ⟨_, dif_pos hrect, rfl, hw⟩

omit [Elements α] in
/-- The rows of a batch's cache of rank 2. -/
theorem Stacked2.onlyRow {f : StreamCaches α → Tensor2 α} {cs : List (StreamCaches α)}
    {t : Tensor2 α} (h : Stacked2 f cs t) (hcs : ∀ c ∈ cs, (f c).shape = (1, hopSamples)) :
    t.rows = cs.map fun c => onlyRow (f c) := by
  rw [h.rows, List.flatMap_map, List.map_eq_flatMap, List.flatMap_def, List.flatMap_def]
  refine congrArg List.flatten (List.map_congr_left fun c hc => ?_)
  obtain ⟨row, hrow⟩ := List.length_eq_one_iff.mp (congrArg Prod.fst (hcs c hc))
  rw [Server.onlyRow, hrow]
  rfl

omit [Elements α] in
/-- The row of a stream, cut from a batch. -/
theorem slice_oneRow {t : Tensor2 α} {i : ℕ} (hi : i < t.rows.length) :
    t.slice i (i + 1) = oneRow t.rows[i] := by
  refine Tensor2.ext ?_ (t.rect _ (List.getElem_mem hi)).symm
  change (t.rows.drop i).take (i + 1 - i) = [t.rows[i]]
  rw [Nat.add_sub_cancel_left, List.drop_eq_getElem_cons hi]
  rfl

omit [Elements α] in
theorem onlyRow_length {t : Tensor2 α} (h : t.shape = (1, hopSamples)) :
    (onlyRow t).length = hopSamples := by
  obtain ⟨row, hrow⟩ := List.length_eq_one_iff.mp (congrArg Prod.fst h)
  rw [onlyRow, hrow]
  exact (t.rect row (hrow ▸ List.mem_singleton_self row)).trans (congrArg Prod.snd h)

omit [Elements α] in
theorem oneRow_onlyRow {t : Tensor2 α} {w : ℕ} (h : t.shape = (1, w)) : oneRow (onlyRow t) = t := by
  obtain ⟨row, hrow⟩ := List.length_eq_one_iff.mp (congrArg Prod.fst h)
  have honly : onlyRow t = row := by
    rw [onlyRow, hrow]
    rfl
  refine Tensor2.ext ?_ ?_
  · rw [honly, hrow]
    rfl
  · rw [honly]
    exact t.rect row (hrow ▸ List.mem_singleton_self row)

end Rows

/-- What `infer_batch` checks of its arguments. -/
structure Shaped (hops : List Tensor) (cs : List (StreamCaches α)) : Prop where
  nonempty : cs ≠ []
  count : hops.length = cs.length
  widths : ∀ row ∈ hops, row.length = hopSamples
  layout : ∀ c ∈ cs, c.Layout 1

namespace FastEnhancerBStreamingModel

variable (model : FastEnhancerBStreamingModel α channels width)

/-! ## What a batch returns -/

theorem built : ONNXSTFT.Built 512 hopSamples (some 512) (some model.torchWindow) model.stft :=
  ONNXSTFT.built_of_init model.stft_init

theorem window_length : model.stft.window.length = 512 :=
  model.built.window_length fun makeWindow hmem n => by
    rw [← Option.mem_some_iff.mp hmem, model.torchWindow_length]

variable {hop : Tensor} {c : StreamCaches α} {hops : List Tensor} {cs : List (StreamCaches α)}

/-- A stream's step keeps the widths. -/
theorem rowStep_layout (hhop : hop.length = hopSamples) (hc : c.Layout 1) :
    (model.rowStep hop c).1.length = hopSamples ∧ (model.rowStep hop c).2.Layout 1 := by
  obtain ⟨-, hstft⟩ := model.built.forward_length (by decide) model.window_length
    (onlyRow_length hc.stft) (x := castHop hop)
    (by rw [castHop, List.length_map, hhop])
  have hinverse (z : Fin (256 + 1) → Fin 2 → α) := model.built.inverse_length (by decide)
    model.window_length (onlyRow_length hc.istft) (x := specRow z)
    (by rw [specRow, List.length_ofFn])
  refine ⟨(hinverse _).1, ?_, ?_, ?_, ?_, ?_⟩
  · exact Prod.ext rfl hstft
  · exact Prod.ext rfl (hinverse _).2
  · exact ofElements_shape _
  · exact ofElements_shape _
  · exact ofElements_shape _

/-- There are rows for every block. -/
theorem hidden_length (c : StreamCaches α) : c.hidden.length = model.network.rfBlock.length :=
  model.blocks.symm

/-- The spectrum of a stream of a batch. -/
theorem spec_getD {i : ℕ} (hhop : hops[i]? = some hop)
    (hc : cs[i]? = some c) :
    ((model.stft.forwardBatch (hops.map castHop)
      (cs.map fun c => onlyRow c.stft)).1).getD i [] =
      (model.stft.forward (castHop hop) (onlyRow c.stft)).1 := by
  rw [ONNXSTFT.forwardBatch, List.getD_eq_getElem?_getD, List.getElem?_zipWith, List.getElem?_map,
    List.getElem?_map, hhop, hc]
  rfl

/-- The network, for a stream of a batch. -/
theorem network_row (h : Shaped hops cs) {caches : StreamCaches α} (hcombined : Combined cs caches)
    (specs : List (List (α × α))) (b : Fin cs.length) :
    (fun f => (model.network.forward (specTensor specs) (rnnTensors cs.length caches)).1 b f 0) =
      (model.network.step (specFrame (specs.getD b [])) cs[b].hidden).1 ∧
    (model.network.forward (specTensor specs) (rnnTensors cs.length caches)).2.map (rowsOf b) =
      (model.network.step (specFrame (specs.getD b [])) cs[b].hidden).2 := by
  have hrow : caches.row b = cs[b] :=
    hcombined.row h.layout (List.getElem?_eq_getElem b.isLt)
  have hrows : (rnnTensors cs.length caches).map (rowsOf b) = cs[b].hidden := by
    simp only [rnnTensors, StreamCaches.blocks, List.map_cons, List.map_nil, rowsOf_elements]
    rw [← hrow]
    rfl
  have hlen : (rnnTensors cs.length caches).length = model.network.rfBlock.length :=
    model.blocks.symm
  obtain ⟨hout, hfinal⟩ := model.network.forward_eq (specTensor specs) hlen b
  rw [hrows] at hout hfinal
  exact ⟨funext (hout 0), hfinal⟩

/-- The hop and the caches of every stream, through the model. -/
def rowSteps (hops : List Tensor) (cs : List (StreamCaches α)) :
    List (List α × StreamCaches α) :=
  List.zipWith model.rowStep hops cs

theorem rowSteps_getElem? (h : Shaped hops cs) (b : Fin cs.length) :
    ∃ hop, hops[b.val]? = some hop ∧
      (model.rowSteps hops cs)[b.val]? = some (model.rowStep hop cs[b]) := by
  have hb : b.val < hops.length := b.isLt.trans_eq h.count.symm
  refine ⟨hops[b.val], List.getElem?_eq_getElem hb, ?_⟩
  rw [rowSteps, List.getElem?_zipWith, List.getElem?_eq_getElem hb,
    List.getElem?_eq_getElem b.isLt]
  rfl

theorem rowSteps_length (h : Shaped hops cs) : (model.rowSteps hops cs).length = cs.length := by
  rw [rowSteps, List.length_zipWith, h.count, Nat.min_self]

theorem rowSteps_layout (h : Shaped hops cs) :
    ∀ out ∈ model.rowSteps hops cs, out.1.length = hopSamples ∧ out.2.Layout 1 := by
  intro out hout
  obtain ⟨i, hi, rfl⟩ := List.mem_iff_getElem.mp hout
  simp only [rowSteps, List.getElem_zipWith]
  exact model.rowStep_layout (h.widths _ (List.getElem_mem _)) (h.layout _ (List.getElem_mem _))

/-- What is computed is, row by row, the step of a stream. -/
structure Rows (outs : List (List α × StreamCaches α)) {batchSize : ℕ}
    (computed : Computed α batchSize) : Prop where
  wavOut : computed.wavOut = outs.map Prod.fst
  stft : computed.stft = outs.map fun out => onlyRow out.2.stft
  istft : computed.istft = outs.map fun out => onlyRow out.2.istft
  rnn : ∃ rnn0 rnn1 rnn2, computed.rnn = [rnn0, rnn1, rnn2] ∧
    ∀ (b : Fin batchSize) out, outs[b.val]? = some out →
      out.2.rnn = (ofElements fun _ : Fin 1 => rowsOf b rnn0,
        ofElements fun _ : Fin 1 => rowsOf b rnn1, ofElements fun _ : Fin 1 => rowsOf b rnn2)

theorem compute_rows (h : Shaped hops cs) {caches : StreamCaches α}
    (hcombined : Combined cs caches) :
    Rows (model.rowSteps hops cs) (model.compute cs.length
      (hops.map castHop) caches) := by
  have hstft := hcombined.stft.onlyRow fun c hc => (h.layout c hc).stft
  have histft := hcombined.istft.onlyRow fun c hc => (h.layout c hc).istft
  have hlen := model.rowSteps_length h
  -- a list that has what belongs to a stream at its place is a map over the streams
  have hext {β : Type} {xs : List β} {f : List α × StreamCaches α → β}
      (hcount : xs.length = cs.length) (hget : ∀ (b : Fin cs.length) hop, hops[b.val]? = some hop →
        xs[b.val]? = some (f (model.rowStep hop cs[b]))) :
      xs = (model.rowSteps hops cs).map f := by
    refine List.ext_getElem? fun i => ?_
    by_cases hi : i < cs.length
    · obtain ⟨hop, hhop, hout⟩ := model.rowSteps_getElem? h ⟨i, hi⟩
      rw [List.getElem?_map, hout]
      exact hget ⟨i, hi⟩ hop hhop
    · rw [List.getElem?_eq_none (by omega), List.getElem?_eq_none (by rw [List.length_map]; omega)]
  have hinverse (b : Fin cs.length) {hop : Tensor} (hhop : hops[b.val]? = some hop) :
      (specRow fun f => (model.network.forward (specTensor (model.stft.forwardBatch
        (hops.map castHop) caches.stft.rows).1)
          (rnnTensors cs.length caches)).1 b f 0) =
      specRow (model.network.step (specFrame (model.stft.forward
        (castHop hop) (onlyRow cs[b].stft)).1) cs[b].hidden).1 := by
    rw [(model.network_row h hcombined _ b).1, hstft,
      model.spec_getD hhop (List.getElem?_eq_getElem b.isLt)]
    rfl
  refine ⟨?_, ?_, ?_, ?_⟩
  · refine hext (by simp [compute, ONNXSTFT.inverseBatch, histft]) fun b hop hhop => ?_
    simp only [compute, ONNXSTFT.inverseBatch, histft, List.getElem?_zipWith, List.getElem?_ofFn,
      b.isLt, dite_true, List.getElem?_map, List.getElem?_eq_getElem b.isLt, hinverse b hhop]
    rfl
  · refine hext (by simp [compute, ONNXSTFT.forwardBatch, hstft, h.count]) fun b hop hhop => ?_
    simp only [compute, ONNXSTFT.forwardBatch, hstft, List.getElem?_zipWith, List.getElem?_map,
      List.getElem?_eq_getElem b.isLt, hhop]
    rfl
  · refine hext (by simp [compute, ONNXSTFT.inverseBatch, histft]) fun b hop hhop => ?_
    simp only [compute, ONNXSTFT.inverseBatch, histft, List.getElem?_zipWith, List.getElem?_ofFn,
      b.isLt, dite_true, List.getElem?_map, List.getElem?_eq_getElem b.isLt, hinverse b hhop]
    rfl
  · have hrnn := fun b => (model.network_row h hcombined
      (model.stft.forwardBatch (hops.map castHop) caches.stft.rows).1 b).2
    have hpos : 0 < cs.length := List.length_pos_iff.mpr h.nonempty
    have hthree := congrArg List.length (hrnn ⟨0, hpos⟩)
    rw [List.length_map, model.network.step_length _ (model.hidden_length _), model.blocks]
      at hthree
    obtain ⟨rnn0, rnn1, rnn2, heq⟩ := List.length_eq_three.mp hthree
    refine ⟨rnn0, rnn1, rnn2, heq, fun b out hout => ?_⟩
    obtain ⟨hop, hhop, hout'⟩ := model.rowSteps_getElem? h b
    obtain rfl := Option.some.inj (hout'.symm.trans hout)
    have hstep := hrnn b
    rw [heq, hstft, model.spec_getD hhop (List.getElem?_eq_getElem b.isLt)] at hstep
    exact congrArg (fun rows => blockCaches rows) hstep.symm

/-- What `infer_batch` returns for a batch that fits. -/
theorem inferBatch_eq (h : Shaped hops cs) :
    model.inferBatch hops cs =
      if ∃ out ∈ model.rowSteps hops cs, ∃ x ∈ out.1, isFinite x = false then
        .error (.runtime "model produced NaN or infinity")
      else .ok ((model.rowSteps hops cs).unzip) := by
  obtain ⟨caches, hok, hcombined⟩ := combineStreamCaches_ok h.nonempty h.layout
  obtain ⟨hwav, hstft, histft, rnn0, rnn1, rnn2, hrnn, hblocks⟩ := model.compute_rows h hcombined
  have hlen := model.rowSteps_length h
  have hlayout := model.rowSteps_layout h
  have hshape : ¬ (hops.length ≠ cs.length ∨ ∃ row ∈ hops, row.length ≠ hopSamples) := by
    rw [not_or, not_not]
    refine ⟨h.count, ?_⟩
    rintro ⟨row, hrow, hne⟩
    exact hne (h.widths row hrow)
  have hwavShape : ¬ (((model.rowSteps hops cs).map Prod.fst).length ≠ cs.length ∨
      ∃ row ∈ (model.rowSteps hops cs).map Prod.fst, row.length ≠ hopSamples) := by
    rw [not_or, not_not, List.length_map]
    refine ⟨hlen, ?_⟩
    rintro ⟨row, hrow, hne⟩
    obtain ⟨out, hout, rfl⟩ := List.mem_map.mp hrow
    exact hne (hlayout out hout).1
  have hne : model.rowSteps hops cs ≠ [] := by
    intro hnil
    rw [hnil] at hlen
    exact h.nonempty (List.eq_nil_of_length_eq_zero hlen.symm)
  have hwidths {f : StreamCaches α → Tensor2 α}
      (hf : ∀ c : StreamCaches α, c.Layout 1 → (f c).shape = (1, hopSamples)) :
      ∀ row ∈ (model.rowSteps hops cs).map fun out => onlyRow (f out.2),
        row.length = hopSamples := by
    intro row hrow
    obtain ⟨out, hout, rfl⟩ := List.mem_map.mp hrow
    exact onlyRow_length (hf _ (hlayout out hout).2)
  obtain ⟨stft, hstack, hstftRows, hstftWidth⟩ :=
    stackRows_ok (by simpa using hne) (hwidths (f := StreamCaches.stft) fun _ hc => hc.stft)
  obtain ⟨istft, histack, histftRows, histftWidth⟩ :=
    stackRows_ok (by simpa using hne) (hwidths (f := StreamCaches.istft) fun _ hc => hc.istft)
  have hupdated : StreamCaches.Layout cs.length (⟨stft, istft, ofElements rnn0, ofElements rnn1,
      ofElements rnn2⟩ : StreamCaches α) := by
    refine ⟨Prod.ext ?_ hstftWidth, Prod.ext ?_ histftWidth, ofElements_shape _,
      ofElements_shape _, ofElements_shape _⟩
    · rw [Tensor2.shape, hstftRows, List.length_map, hlen]
    · rw [Tensor2.shape, histftRows, List.length_map, hlen]
  have hsplit : (List.range cs.length).map (⟨stft, istft, ofElements rnn0, ofElements rnn1,
      ofElements rnn2⟩ : StreamCaches α).row = (model.rowSteps hops cs).map Prod.snd := by
    refine List.ext_getElem (by rw [List.length_map, List.length_map, List.length_range, hlen])
      fun i hi hi' => ?_
    rw [List.length_map] at hi'
    have hb : i < cs.length := hi'.trans_eq hlen
    have hmem := hlayout _ (List.getElem_mem hi')
    have hrnn := hblocks ⟨i, hb⟩ _ (List.getElem?_eq_getElem hi')
    have hslice {t : Tensor2 α} {f : StreamCaches α → Tensor2 α}
        (hrows : t.rows = (model.rowSteps hops cs).map fun out => onlyRow (f out.2))
        (hf : (f ((model.rowSteps hops cs)[i]).2).shape = (1, hopSamples)) :
        t.slice i (i + 1) = f ((model.rowSteps hops cs)[i]).2 := by
      rw [slice_oneRow (by rw [hrows, List.length_map]; exact hi')]
      simp only [hrows, List.getElem_map]
      exact oneRow_onlyRow hf
    rw [List.getElem_map, List.getElem_range, List.getElem_map]
    refine StreamCaches.ext (hslice hstftRows hmem.2.stft) (hslice histftRows hmem.2.istft) ?_
    rw [hrnn]
    exact Prod.ext (slice_ofElements rnn0 ⟨i, hb⟩) (Prod.ext (slice_ofElements rnn1 ⟨i, hb⟩)
      (slice_ofElements rnn2 ⟨i, hb⟩))
  have hfinite : (∃ row ∈ (model.rowSteps hops cs).map Prod.fst, ∃ x ∈ row, isFinite x = false) ↔
      ∃ out ∈ model.rowSteps hops cs, ∃ x ∈ out.1, isFinite x = false := by
    simp only [List.mem_map, exists_exists_and_eq_and]
  simp only [inferBatch, hok, if_neg hshape, hwav, hstft, histft, hrnn, if_neg hwavShape, hstack,
    histack, StreamCaches.assertLayout_ok_iff.mpr hupdated, splitStreamCaches_ok hupdated, hsplit,
    bind, Except.bind, pure, Except.pure, hfinite, List.unzip_eq_map]
  split
  · rfl
  · rfl

/-! ## A stream that starts -/

/-- The caches of a new stream. -/
def initialCaches : StreamCaches α :=
  ⟨oneRow model.stft.initializeCache.1, oneRow model.stft.initializeCache.2,
    blockCaches (List.replicate rnnBlocks fun _ _ => 0)⟩

theorem initialCaches_layout : model.initialCaches.Layout 1 := by
  have hlen : (List.replicate model.stft.cacheLen (0 : α)).length = hopSamples := by
    rw [List.length_replicate, model.built.cacheLen]
    rfl
  exact ⟨Prod.ext rfl hlen, Prod.ext rfl hlen, ofElements_shape _, ofElements_shape _,
    ofElements_shape _⟩

/-- `initialize_stream` passes its own check. -/
theorem initializeStream_eq : model.initializeStream = .ok model.initialCaches := by
  obtain ⟨block0, block1, block2, hblocks⟩ := List.length_eq_three.mp model.blocks
  have hstack (row : List α) : stackRows [row] = .ok (oneRow row) :=
    dif_pos fun r hr => congrArg List.length (List.mem_singleton.mp hr)
  simp only [initializeStream, ONNXModel.initializeCache, hblocks, List.map_cons, List.map_nil,
    hstack]
  change (StreamCaches.assertLayout 1 model.initialCaches >>= fun _ =>
    pure model.initialCaches) = _
  rw [StreamCaches.assertLayout_ok_iff.mpr model.initialCaches_layout]
  rfl

/-! ## A batch and its streams -/

/-- The check of one stream's output. -/
def Finite (hop : Tensor) (c : StreamCaches α) : Prop :=
  ∀ x ∈ (model.rowStep hop c).1, isFinite x = true

instance (hop : Tensor) (c : StreamCaches α) : Decidable (model.Finite hop c) :=
  inferInstanceAs (Decidable (∀ x ∈ _, isFinite x = true))

/-- A batch of one stream. -/
theorem inferBatch_one (hhop : hop.length = hopSamples) (hc : c.Layout 1) :
    model.inferBatch [hop] [c] =
      if model.Finite hop c then .ok ([(model.rowStep hop c).1], [(model.rowStep hop c).2])
      else .error (.runtime "model produced NaN or infinity") := by
  have hshaped : Shaped [hop] [c] :=
    ⟨List.cons_ne_nil _ _, rfl, fun _ hrow => List.mem_singleton.mp hrow ▸ hhop,
      fun _ hmem => List.mem_singleton.mp hmem ▸ hc⟩
  have hiff : (∃ out ∈ model.rowSteps [hop] [c], ∃ x ∈ out.1, isFinite x = false) ↔
      ¬ model.Finite hop c := by
    simp [rowSteps, Finite]
  rw [model.inferBatch_eq hshaped]
  simp only [hiff, ite_not]
  rfl

/-- Checks of a list, one by one. -/
theorem mapM_check {β γ ε : Type} {g : β → Except ε γ} {f : β → γ} {p : β → Prop}
    [DecidablePred p] {e : ε} {l : List β}
    (h : ∀ x ∈ l, g x = if p x then .ok (f x) else .error e) :
    l.mapM g = if ∀ x ∈ l, p x then .ok (l.map f) else .error e := by
  induction l with
  | nil => rfl
  | cons x l ih =>
      rw [List.mapM_cons, h x List.mem_cons_self, ih fun y hy => h y (List.mem_cons_of_mem _ hy)]
      by_cases hx : p x
      · by_cases hl : ∀ y ∈ l, p y
        · rw [if_pos hx, if_pos hl, if_pos (List.forall_mem_cons.mpr ⟨hx, hl⟩)]
          rfl
        · rw [if_pos hx, if_neg hl, if_neg fun hall => hl (List.forall_mem_cons.mp hall).2]
          rfl
      · rw [if_neg hx, if_neg fun hall => hx (List.forall_mem_cons.mp hall).1]
        rfl

/-- A batch is its streams: it returns what they return one by one, and raises what the first of
them raises that does. -/
theorem inferBatch_parity (h : Shaped hops cs) :
    model.inferBatch hops cs = do
      let outs ← (hops.zip cs).mapM fun input => model.inferBatch [input.1] [input.2]
      return (outs.flatMap Prod.fst, outs.flatMap Prod.snd) := by
  have hsteps : model.rowSteps hops cs =
      (hops.zip cs).map fun input => model.rowStep input.1 input.2 := by
    rw [List.zip_eq_zipWith, List.map_zipWith]
    rfl
  have hone := mapM_check (l := hops.zip cs) fun input hinput =>
    model.inferBatch_one (h.widths _ (List.of_mem_zip hinput).1)
      (h.layout _ (List.of_mem_zip hinput).2)
  have hiff : (∃ out ∈ model.rowSteps hops cs, ∃ x ∈ out.1, isFinite x = false) ↔
      ¬ ∀ input ∈ hops.zip cs, model.Finite input.1 input.2 := by
    rw [hsteps]
    simp only [List.mem_map, exists_exists_and_eq_and, Finite, not_forall, exists_prop,
      Bool.not_eq_true]
  rw [hone, model.inferBatch_eq h]
  by_cases hall : ∀ input ∈ hops.zip cs, model.Finite input.1 input.2
  · rw [if_neg fun hbad => hiff.mp hbad hall, if_pos hall, hsteps, List.unzip_eq_map]
    simp only [bind, Except.bind, pure, Except.pure, List.map_map, List.flatMap_map]
    rw [List.map_eq_flatMap, List.map_eq_flatMap]
    rfl
  · rw [if_pos (hiff.mpr hall), if_neg hall]
    rfl

end FastEnhancerBStreamingModel

/-! ## Exact arithmetic -/

section Exact

/-- Exact arithmetic, whose results leave the device as multiples of `2 ^ -23`. -/
noncomputable instance : Elements ℝ where
  value x := some (⌊x * 8388608⌋ / 8388608)

/-- A network that adds up the first bins of its frames. -/
noncomputable def countingNetwork : ONNXModel ℝ 256 1 1 rfFreq rfHidden where
  inputCompression := ((3 / 10 : ℚ) : ℝ)
  encPre z := fun _ _ => z 0 0
  encoder := []
  rfPre x := fun _ _ => x 0 0
  rfBlock := List.replicate rnnBlocks countingBlock
  rfPost x := fun _ _ => x ⟨0, by decide⟩ ⟨0, by decide⟩
  decoder := []
  decPost x := fun _ _ => x ⟨0, Nat.two_pos⟩ 0
  mask x := x
  resnet := true
  decoder_length := rfl

/-- The model with this network. -/
noncomputable def exactModel : FastEnhancerBStreamingModel ℝ 1 1 where
  modelName := "FastEnhancer-B"
  modelRevision := "49ab55a57e3a064d94c6412cd0f0a383a55ca0f8"
  checkpointSha256 := "980ec00d9c3cb0497893c815c718a2fe44970329ae8477d22596d0a1373f2382"
  cudaDeviceName := "exact"
  stft := ONNXSTFT.released
  network := countingNetwork
  torchWindow := hannWindow
  torchWindow_length := hannWindow_length
  stft_init := rfl
  blocks := rfl

theorem exactModel_finite (hop : Tensor) (c : StreamCaches ℝ) : exactModel.Finite hop c :=
  fun _ _ => rfl

/-- A batch of two streams, one of them silent. -/
theorem inferBatch_parity_two :
    let hops : List Tensor := [List.replicate hopSamples (1 / 2), List.replicate hopSamples 0]
    let caches := [exactModel.initialCaches, exactModel.initialCaches]
    exactModel.inferBatch hops caches = do
      let outs ← (hops.zip caches).mapM fun input => exactModel.inferBatch [input.1] [input.2]
      return (outs.flatMap Prod.fst, outs.flatMap Prod.snd) := by
  refine exactModel.inferBatch_parity ⟨List.cons_ne_nil _ _, rfl, fun row hrow => ?_,
    fun c hc => ?_⟩
  · obtain rfl | hrow := List.mem_cons.mp hrow
    · exact List.length_replicate
    · rw [List.mem_singleton.mp hrow, List.length_replicate]
  · rw [List.eq_of_mem_replicate (n := 2) hc]
    exact exactModel.initialCaches_layout

end Exact

end VoxLattice.Server
