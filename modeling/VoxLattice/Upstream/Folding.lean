import VoxLattice.Upstream.Layers

/-!
# Removing the reparametrizations

`remove_weight_reparameterizations` rewrites the weights of the network before it serves: it takes
the parametrizations off, and it merges every norm into the layer before it and, in the blocks, into
the layer behind it.  In exact arithmetic the network computes what it computed before
(`removeWeightReparameterizations_forward`).

A norm is `y * gain + offset`, so a layer that is linear in its weight takes the gain into the
weight and the offset into the bias.  A norm in front of a layer divides the columns of its weight.

The source rewrites in place and asserts of every convolution that it has no bias yet.  The result
here is the network afterwards, or the text of the exception.
-/

namespace VoxLattice.Upstream

/-! ## The pass -/

section Pass

variable {α : Type*} [Torch α] {inp out kernel channels freq heads headDim : ℕ}

/-- What a norm multiplies a channel with. -/
def BatchNorm.gain (norm : BatchNorm α channels) : Fin channels → α := fun c =>
  norm.weight c / norm.std c

/-- What a norm adds to a channel. -/
def BatchNorm.offset (norm : BatchNorm α channels) : Fin channels → α := fun c =>
  norm.bias c - norm.runningMean c * norm.weight c / norm.std c

/-- A convolution with its norm merged into it. -/
def ConvNorm.fold : ConvNorm α inp out kernel → ConvNorm α inp out kernel
  | .separate weight norm => .merged (fun o i k => weight o i k * norm.gain o) norm.offset
  | .merged weight bias => .merged weight bias

/-- `merge_conv_bn`. -/
def mergeConvBn (errorMessage : String) :
    ConvNorm α inp out kernel → Except String (ConvNorm α inp out kernel)
  | .separate weight norm => .ok (ConvNorm.separate weight norm).fold
  | .merged _ _ => .error errorMessage

/-- `merge_conv_bn` of a convolution that keeps the width. -/
def SameConvNorm.merge (errorMessage : String) (m : SameConvNorm α inp out) :
    Except String (SameConvNorm α inp out) := do
  return { m with layer := ← mergeConvBn errorMessage m.layer }

/-- A linear layer of a block with its norm merged into it. -/
def LinearNorm.fold : LinearNorm α inp out → LinearNorm α inp out
  | .separate weight norm => .merged (fun o i => weight o i * norm.gain o) norm.offset
  | .merged weight bias => .merged weight bias

/-- The loop of the block over its linear layers. -/
def LinearNorm.merge : LinearNorm α inp out → Except String (LinearNorm α inp out)
  | .separate weight norm => .ok (LinearNorm.separate weight norm).fold
  | .merged _ _ => .error "'Identity' object has no attribute 'running_var'"

/-- A weight and a bias that take over the norm in front of them. -/
def foldPreNorm (norm : RunningNorm α inp) (weight : Fin out → Fin inp → α)
    (bias : Option (Fin out → α)) : (Fin out → Fin inp → α) × (Fin out → α) :=
  let beta := fun i => -norm.runningMean i / norm.std i
  let wMatmulBeta := matVec weight beta
  (fun o i => weight o i / norm.std i, fun o => (bias.getD fun _ => 0) o + wMatmulBeta o)

/-- The parametrizations of a block taken off. -/
def BlockParameters.removeParametrizations (b : BlockParameters α freq heads headDim) :
    BlockParameters α freq heads headDim :=
  if b.weightNorm then
    { b with
      rnn := { b.rnn with
        weightIh := b.rnn.weightIh.removeParametrizations
        weightHh := b.rnn.weightHh.removeParametrizations }
      qkv := { b.qkv with weight := b.qkv.weight.removeParametrizations }
      weightNorm := false }
  else b

/-- The norm in front of the attention taken into its linear layer. -/
def BlockParameters.foldAttnPreNorm (b : BlockParameters α freq heads headDim) :
    BlockParameters α freq heads headDim :=
  match b.attnPreNorm with
  | none => b
  | some norm =>
    let (weight, bias) := foldPreNorm norm b.qkv.weight.value b.qkv.bias
    { b with qkv := ⟨.plain weight, some bias⟩, attnPreNorm := none }

/-- The norm in front of the GRU taken into its first weight. -/
def BlockParameters.foldRnnPreNorm (b : BlockParameters α freq heads headDim) :
    BlockParameters α freq heads headDim :=
  match b.rnnPreNorm with
  | none => b
  | some norm =>
    let (weight, bias) := foldPreNorm norm b.rnn.weightIh.value (some b.rnn.biasIh)
    { b with rnn := { b.rnn with weightIh := .plain weight, biasIh := bias }, rnnPreNorm := none }

/-- `remove_weight_reparameterizations` of a block. -/
def BlockParameters.removeWeightReparameterizations (b : BlockParameters α freq heads headDim) :
    Except String (BlockParameters α freq heads headDim) := do
  let b := b.removeParametrizations
  let rnnFc ← b.rnnFc.merge
  let attnFc ← b.attnFc.merge
  let b := { b with rnnFc, attnFc }
  return b.foldAttnPreNorm.foldRnnPreNorm

/-- A loop that merges, from an index on. -/
def mergeEach {β : Type*} (merge : ℕ → β → Except String β) :
    ℕ → (modules : List β) → Except String { merged : List β // merged.length = modules.length }
  | _, [] => .ok ⟨[], rfl⟩
  | idx, m :: rest => do
    let m ← merge idx m
    let rest ← mergeEach merge (idx + 1) rest
    return ⟨m :: rest.1, congrArg Nat.succ rest.2⟩

/-- The loop over the decoder. -/
def DecoderModule.merge (idx : ℕ) (m : DecoderModule α channels) :
    Except String (DecoderModule α channels) := do
  let first ← m.first.merge ("dec." ++ toString idx ++ ".0")
  let second ← m.second.merge ("dec." ++ toString idx ++ ".1")
  return ⟨first, second⟩

variable {bins width rfFreq : ℕ}

/-- The first part of `remove_weight_reparameterizations`: the blocks and the last layer. -/
def Parameters.removeWeightNorm (p : Parameters α bins channels width rfFreq heads headDim) :
    Except String (Parameters α bins channels width rfFreq heads headDim) :=
  if p.weightNorm then do
    let rfBlock ← mergeEach (fun _ => BlockParameters.removeWeightReparameterizations) 0 p.rfBlock
    let upsample := p.upsample.removeWeightReparameterizations
    return { p with rfBlock := rfBlock.1, upsample, weightNorm := false }
  else .ok p

/-- `remove_weight_reparameterizations`. -/
def Parameters.removeWeightReparameterizations
    (p : Parameters α bins channels width rfFreq heads headDim) :
    Except String (Parameters α bins channels width rfFreq heads headDim) := do
  let p ← p.removeWeightNorm
  let encPre := { p.encPre with layer := ← mergeConvBn "enc_pre" p.encPre.layer }
  let encoder ← mergeEach (fun idx m => m.merge ("enc." ++ toString idx)) 0 p.encoder
  let rfPre ← p.rfPre.merge "rf_pre"
  let rfPost ← p.rfPost.merge "rf_post"
  let decoder ← mergeEach DecoderModule.merge 0 p.decoder
  let decPost ← p.decPost.merge "dec_post"
  return { p with
    encPre, encoder := encoder.1, rfPre, rfPost, decoder := decoder.1, decPost
    decoder_length := by rw [decoder.2, p.decoder_length, encoder.2] }

end Pass

/-! ## The layers, in exact arithmetic -/

section Exact

variable {inp out kernel channels freq heads headDim : ℕ}

theorem sumOver_eq (f : Fin channels → ℝ) : sumOver f = ∑ i, f i := List.sum_ofFn

/-- A norm is a gain and an offset. -/
theorem BatchNorm.forward_eq (norm : BatchNorm ℝ channels) (y : Fin channels → ℝ)
    (c : Fin channels) : norm.forward y c = y c * norm.gain c + norm.offset c := by
  simp only [BatchNorm.forward, RunningNorm.forward, gain, offset]
  ring

theorem matVec_gain (weight : Fin out → Fin inp → ℝ) (gain : Fin out → ℝ) (x : Fin inp → ℝ)
    (o : Fin out) : matVec (fun o i => weight o i * gain o) x o = matVec weight x o * gain o := by
  simp only [matVec, sumOver_eq, Finset.sum_mul]
  exact Finset.sum_congr rfl fun i _ => by ring

theorem column_gain (weight : Fin out → Fin inp → Fin kernel → ℝ) (gain : Fin out → ℝ)
    (x : Fin inp → ℕ → ℝ) (j : ℕ) (o : Fin out) :
    column (fun o i k => weight o i k * gain o) x j o = column weight x j o * gain o := by
  simp only [column, sumOver_eq, Finset.sum_mul]
  exact Finset.sum_congr rfl fun i _ => Finset.sum_congr rfl fun k _ => by ring

/-- A linear layer that took its norm over is the two layers. -/
theorem LinearNorm.fold_eq (layer : LinearNorm ℝ inp out) (x : Fin inp → ℝ) :
    layer.fold.norm (layer.fold.linear x) = layer.norm (layer.linear x) := by
  cases layer with
  | merged weight bias => rfl
  | separate weight norm =>
      funext o
      change matVec _ x o + norm.offset o = norm.forward (matVec weight x) o
      rw [matVec_gain, norm.forward_eq]

/-- So is a convolution. -/
theorem ConvNorm.fold_eq (layer : ConvNorm ℝ inp out kernel) (x : Fin inp → ℕ → ℝ) (j : ℕ) :
    layer.fold.column x j = layer.column x j := by
  cases layer with
  | merged weight bias => rfl
  | separate weight norm =>
      funext o
      change Upstream.column _ x j o + norm.offset o = norm.forward (Upstream.column weight x j) o
      rw [column_gain, norm.forward_eq]

/-- A layer that took the norm in front of it over. -/
theorem foldPreNorm_eq (norm : RunningNorm ℝ inp) (weight : Fin out → Fin inp → ℝ)
    (bias : Option (Fin out → ℝ)) (x : Fin inp → ℝ) :
    addBias (some (foldPreNorm norm weight bias).2) (matVec (foldPreNorm norm weight bias).1 x) =
      addBias bias (matVec weight (norm.forward x)) := by
  have hsum (o : Fin out) : matVec (fun o i => weight o i / norm.std i) x o +
      matVec weight (fun i => -norm.runningMean i / norm.std i) o =
        matVec weight (norm.forward x) o := by
    simp only [matVec, sumOver_eq, ← Finset.sum_add_distrib, RunningNorm.forward]
    exact Finset.sum_congr rfl fun i _ => by ring
  funext o
  cases bias with
  | none =>
      change matVec _ x o + (0 + _) = _
      rw [zero_add]
      exact hsum o
  | some bias =>
      change matVec _ x o + (bias o + _) = matVec weight (norm.forward x) o + bias o
      rw [← hsum o, add_left_comm, add_comm]
      rfl

end Exact

/-! ## Networks that agree -/

section Agree

variable {α : Type*} {B T freq channels : ℕ}

/-- GRUs whose cells agree behind the functions before them. -/
theorem gru_congr {n : ℕ} {cell cell' : (Fin channels → α) → (Fin channels → α) → Fin channels → α}
    {before before' : (Fin channels → α) → Fin channels → α}
    (hcell : ∀ x h, cell (before x) h = cell' (before' x) h)
    (x : Fin T → Fin n → Fin channels → α) (h : Fin 1 → Fin n → Fin channels → α) :
    gru cell (fun t i => before (x t i)) h = gru cell' (fun t i => before' (x t i)) h := by
  have hstep : Mealy.wrap before (fun _ y => y) (gruStep cell) =
      Mealy.wrap before' (fun _ y => y) (gruStep cell') := by
    funext x h
    change (cell _ h, cell _ h) = (cell' _ h, cell' _ h)
    rw [hcell]
  refine Prod.ext (funext₂ fun t i => ?_) (funext₂ fun _ i => ?_)
  · have houtput := congrArg (fun step => Mealy.output step (h 0 i) (fun t => x t i) t) hstep
    simp only [Mealy.output_wrap] at houtput
    exact houtput
  · have hstate := congrArg
      (fun step => Mealy.state step (h 0 i) (fun t => x t i) (Fin.last T)) hstep
    simp only [Mealy.state_wrap] at hstate
    exact hstate

/-- Blocks that agree once every norm is put together with its layer. -/
structure RNNFormerBlock.Agree (block block' : RNNFormerBlock α freq channels) : Prop where
  rnn : ∀ x h, block.cell (block.rnnPreNorm x) h = block'.cell (block'.rnnPreNorm x) h
  rnnFc : ∀ x, block.rnnPostNorm (block.rnnFc x) = block'.rnnPostNorm (block'.rnnFc x)
  rnnAct : block.rnnAct = block'.rnnAct
  pe : block.pe = block'.pe
  attn : ∀ x : Fin freq → Fin channels → α,
    (block.attn fun f => block.attnPreNorm (x f)) = block'.attn fun f => block'.attnPreNorm (x f)
  attnFc : ∀ x, block.attnPostNorm (block.attnFc x) = block'.attnPostNorm (block'.attnFc x)
  attnAct : block.attnAct = block'.attnAct

theorem RNNFormerBlock.Agree.refl (block : RNNFormerBlock α freq channels) :
    block.Agree block :=
  ⟨fun _ _ => rfl, fun _ => rfl, rfl, rfl, fun _ => rfl, fun _ => rfl, rfl⟩

theorem RNNFormerBlock.Agree.trans {b₁ b₂ b₃ : RNNFormerBlock α freq channels}
    (h : b₁.Agree b₂) (h' : b₂.Agree b₃) : b₁.Agree b₃ where
  rnn x s := (h.rnn x s).trans (h'.rnn x s)
  rnnFc x := (h.rnnFc x).trans (h'.rnnFc x)
  rnnAct := h.rnnAct.trans h'.rnnAct
  pe := h.pe.trans h'.pe
  attn x := (h.attn x).trans (h'.attn x)
  attnFc x := (h.attnFc x).trans (h'.attnFc x)
  attnAct := h.attnAct.trans h'.attnAct

variable [Torch α]

theorem RNNFormerBlock.Agree.forward {block block' : RNNFormerBlock α freq channels}
    (hagree : block.Agree block') (x : Fin T → Fin B → Fin freq → Fin channels → α)
    (h : Fin 1 → Fin (B * freq) → Fin channels → α) :
    block.forward x h = block'.forward x h := by
  have hgru : gru block.cell (fun t => merge fun b f => block.rnnPreNorm (x t b f)) h =
      gru block'.cell (fun t => merge fun b f => block'.rnnPreNorm (x t b f)) h :=
    gru_congr hagree.rnn (fun t => merge (x t)) h
  have hattn (y : Fin T → Fin B → Fin freq → Fin channels → α) :
      (fun i => block.attn (merge (fun t b f => block.attnPreNorm (y t b f)) i)) =
        fun i => block'.attn (merge (fun t b f => block'.attnPreNorm (y t b f)) i) :=
    funext fun i => hagree.attn (merge y i)
  simp only [RNNFormerBlock.forward, hagree.rnnFc, hagree.rnnAct, hagree.pe, hagree.attnFc,
    hagree.attnAct, hgru, hattn]

theorem runBlocks_congr {blocks blocks' : List (RNNFormerBlock α freq channels)}
    (hagree : List.Forall₂ RNNFormerBlock.Agree blocks blocks')
    (x : Fin T → Fin B → Fin freq → Fin channels → α)
    (hs : List (Fin 1 → Fin (B * freq) → Fin channels → α)) :
    runBlocks blocks x hs = runBlocks blocks' x hs := by
  induction hagree generalizing x hs with
  | nil => rfl
  | cons hblock _ ih =>
      cases hs with
      | nil => rfl
      | cons h hs => simp only [runBlocks, hblock.forward, ih]

variable {bins width rfFreq rfCh : ℕ}

/-- Blocks that agree make networks that agree. -/
theorem ONNXModel.forward_congr (m : ONNXModel α bins channels width rfFreq rfCh)
    {blocks : List (RNNFormerBlock α rfFreq rfCh)}
    (hagree : List.Forall₂ RNNFormerBlock.Agree blocks m.rfBlock)
    (spec : Fin B → Fin (bins + 1) → Fin T → Fin 2 → α)
    (caches : List (Fin 1 → Fin (B * rfFreq) → Fin rfCh → α)) :
    { m with rfBlock := blocks }.forward spec caches = m.forward spec caches := by
  have hzeros : (blocks.map fun _ _ _ _ => 0 : List (Fin 1 → Fin (B * rfFreq) → Fin rfCh → α)) =
      m.rfBlock.map fun _ _ _ _ => 0 := by
    rw [List.map_const', List.map_const', hagree.length_eq]
  simp only [ONNXModel.forward, modelForward, compress, uncompress, runBlocks_congr hagree, hzeros]

end Agree

/-! ## The pass on fresh weights -/

section Fresh

variable {α : Type*} [Torch α] {inp out kernel channels freq heads headDim : ℕ}

/-- The convolution still has its norm. -/
def ConvNorm.Separate : ConvNorm α inp out kernel → Prop
  | .separate _ _ => True
  | .merged _ _ => False

/-- The linear layer still has its norm. -/
def LinearNorm.Separate : LinearNorm α inp out → Prop
  | .separate _ _ => True
  | .merged _ _ => False

theorem mergeConvBn_separate {layer : ConvNorm α inp out kernel} (h : layer.Separate)
    (errorMessage : String) : mergeConvBn errorMessage layer = .ok layer.fold := by
  cases layer with
  | separate weight norm => rfl
  | merged weight bias => exact h.elim

theorem mergeConvBn_fold (layer : ConvNorm α inp out kernel) (errorMessage : String) :
    mergeConvBn errorMessage layer.fold = .error errorMessage := by
  cases layer <;> rfl

theorem LinearNorm.merge_separate {layer : LinearNorm α inp out} (h : layer.Separate) :
    layer.merge = .ok layer.fold := by
  cases layer with
  | separate weight norm => rfl
  | merged weight bias => exact h.elim

/-- A convolution that keeps the width, with its norm merged into it. -/
def SameConvNorm.fold (m : SameConvNorm α inp out) : SameConvNorm α inp out :=
  { m with layer := m.layer.fold }

theorem SameConvNorm.merge_separate {m : SameConvNorm α inp out} (h : m.layer.Separate)
    (errorMessage : String) : m.merge errorMessage = .ok m.fold := by
  rw [SameConvNorm.merge, mergeConvBn_separate h]
  rfl

/-- A module of the decoder with its norms merged. -/
def DecoderModule.fold (m : DecoderModule α channels) : DecoderModule α channels :=
  ⟨m.first.fold, m.second.fold⟩

theorem DecoderModule.merge_separate {m : DecoderModule α channels}
    (h : m.first.layer.Separate ∧ m.second.layer.Separate) (idx : ℕ) :
    m.merge idx = .ok m.fold := by
  rw [DecoderModule.merge, SameConvNorm.merge_separate h.1, SameConvNorm.merge_separate h.2]
  rfl

theorem mergeEach_eq {β : Type*} {merge : ℕ → β → Except String β} {f : β → β} {modules : List β}
    (h : ∀ m ∈ modules, ∀ idx, merge idx m = .ok (f m)) (idx : ℕ) :
    mergeEach merge idx modules = .ok ⟨modules.map f, List.length_map ..⟩ := by
  induction modules generalizing idx with
  | nil => rfl
  | cons m rest ih =>
      rw [mergeEach, h m List.mem_cons_self, ih fun m hm => h m (List.mem_cons_of_mem _ hm)]
      rfl

/-- A block with all its norms merged. -/
def BlockParameters.folded (b : BlockParameters α freq heads headDim) :
    BlockParameters α freq heads headDim :=
  let b := b.removeParametrizations
  { b with rnnFc := b.rnnFc.fold, attnFc := b.attnFc.fold }.foldAttnPreNorm.foldRnnPreNorm

variable {bins width rfFreq : ℕ}

/-- The weights as the constructor makes them: no norm is merged yet. -/
structure Parameters.Fresh (p : Parameters α bins channels width rfFreq heads headDim) : Prop where
  encPre : p.encPre.layer.Separate
  encoder : ∀ m ∈ p.encoder, m.layer.Separate
  rfPre : p.rfPre.layer.Separate
  rfBlock : p.weightNorm → ∀ b ∈ p.rfBlock, b.rnnFc.Separate ∧ b.attnFc.Separate
  rfPost : p.rfPost.layer.Separate
  decoder : ∀ m ∈ p.decoder, m.first.layer.Separate ∧ m.second.layer.Separate
  decPost : p.decPost.layer.Separate

/-- The blocks and the last layer without their parametrizations. -/
def Parameters.plain (p : Parameters α bins channels width rfFreq heads headDim) :
    Parameters α bins channels width rfFreq heads headDim :=
  if p.weightNorm then
    { p with
      rfBlock := p.rfBlock.map BlockParameters.folded
      upsample := p.upsample.removeWeightReparameterizations
      weightNorm := false }
  else p

/-- All norms merged and all parametrizations removed. -/
def Parameters.folded (p : Parameters α bins channels width rfFreq heads headDim) :
    Parameters α bins channels width rfFreq heads headDim :=
  { p.plain with
    encPre := { p.plain.encPre with layer := p.plain.encPre.layer.fold }
    encoder := p.plain.encoder.map SameConvNorm.fold
    rfPre := p.plain.rfPre.fold
    rfPost := p.plain.rfPost.fold
    decoder := p.plain.decoder.map DecoderModule.fold
    decPost := p.plain.decPost.fold
    decoder_length := by rw [List.length_map, List.length_map, p.plain.decoder_length] }

theorem BlockParameters.removeWeightReparameterizations_fresh
    {b : BlockParameters α freq heads headDim} (h : b.rnnFc.Separate ∧ b.attnFc.Separate) :
    b.removeWeightReparameterizations = .ok b.folded := by
  have hrnn : b.removeParametrizations.rnnFc = b.rnnFc := by
    unfold removeParametrizations
    split <;> rfl
  have hattn : b.removeParametrizations.attnFc = b.attnFc := by
    unfold removeParametrizations
    split <;> rfl
  rw [removeWeightReparameterizations, hrnn, hattn, LinearNorm.merge_separate h.1,
    LinearNorm.merge_separate h.2, folded, hrnn, hattn]
  rfl

namespace Parameters

variable {p : Parameters α bins channels width rfFreq heads headDim}

theorem Fresh.removeWeightNorm (h : p.Fresh) : p.removeWeightNorm = .ok p.plain := by
  unfold Parameters.removeWeightNorm plain
  split
  · next hnorm =>
      rw [mergeEach_eq fun b hb _ => BlockParameters.removeWeightReparameterizations_fresh
        (h.rfBlock hnorm b hb)]
      rfl
  · rfl

/-- The norms that are merged second are still there after the first part. -/
theorem Fresh.plain (h : p.Fresh) : p.plain.Fresh := by
  unfold Parameters.plain
  split
  · exact { h with rfBlock := fun hnorm => absurd hnorm Bool.false_ne_true }
  · exact h

theorem Fresh.removeWeightReparameterizations (h : p.Fresh) :
    p.removeWeightReparameterizations = .ok p.folded := by
  have hp := h.plain
  simp only [Parameters.removeWeightReparameterizations, h.removeWeightNorm,
    mergeConvBn_separate hp.encPre,
    mergeEach_eq fun m hm idx => SameConvNorm.merge_separate (hp.encoder m hm) _,
    SameConvNorm.merge_separate hp.rfPre, SameConvNorm.merge_separate hp.rfPost,
    mergeEach_eq fun m hm => DecoderModule.merge_separate (hp.decoder m hm),
    SameConvNorm.merge_separate hp.decPost, bind, Except.bind]
  rfl

end Parameters

end Fresh

/-! ## The network afterwards, in exact arithmetic -/

section Meaning

variable {inp out channels freq heads headDim width width' : ℕ}

theorem SameConvNorm.fold_forward (m : SameConvNorm ℝ inp out) (x : Fin inp → Fin width → ℝ) :
    m.fold.forward x = m.forward x := by
  funext o j
  exact congrFun (ConvNorm.fold_eq m.layer _ j) o

theorem StridedConvNorm.fold_forward (m : StridedConvNorm ℝ inp out)
    (x : Fin inp → Fin width → ℝ) :
    ({ m with layer := m.layer.fold }.forward x : Fin out → Fin width' → ℝ) = m.forward x := by
  funext o j
  exact congrFun (ConvNorm.fold_eq m.layer _ j) o

theorem BlockParameters.foldAttnPreNorm_agree (b : BlockParameters ℝ freq heads headDim) :
    b.foldAttnPreNorm.block.Agree b.block := by
  unfold foldAttnPreNorm
  split
  · exact .refl _
  · next norm hnorm =>
      refine { RNNFormerBlock.Agree.refl b.block with attn := fun x => ?_ }
      have hpre : preNorm b.attnPreNorm = norm.forward := by rw [hnorm]; rfl
      change attend _ = attend fun f => b.qkv.forward (preNorm b.attnPreNorm (x f))
      rw [hpre]
      exact congrArg attend
        (funext fun f => foldPreNorm_eq norm b.qkv.weight.value b.qkv.bias (x f))

theorem BlockParameters.foldRnnPreNorm_agree (b : BlockParameters ℝ freq heads headDim) :
    b.foldRnnPreNorm.block.Agree b.block := by
  unfold foldRnnPreNorm
  split
  · exact .refl _
  · next norm hnorm =>
      refine { RNNFormerBlock.Agree.refl b.block with rnn := fun x h => ?_ }
      have hpre : preNorm b.rnnPreNorm = norm.forward := by rw [hnorm]; rfl
      change gates _ _ h = b.rnn.cell (preNorm b.rnnPreNorm x) h
      rw [hpre]
      exact congrArg (gates · _ h)
        (foldPreNorm_eq norm b.rnn.weightIh.value (some b.rnn.biasIh) x)

/-- A block computes afterwards what it computed before. -/
theorem BlockParameters.folded_agree (b : BlockParameters ℝ freq heads headDim) :
    b.folded.block.Agree b.block := by
  have hplain : b.removeParametrizations.block = b.block := by
    unfold removeParametrizations
    split <;> rfl
  have hfc (b : BlockParameters ℝ freq heads headDim) :
      { b with rnnFc := b.rnnFc.fold, attnFc := b.attnFc.fold }.block.Agree b.block :=
    { RNNFormerBlock.Agree.refl b.block with
      rnnFc := b.rnnFc.fold_eq
      attnFc := b.attnFc.fold_eq }
  rw [← hplain]
  exact (foldRnnPreNorm_agree _).trans ((foldAttnPreNorm_agree _).trans (hfc _))

namespace Parameters

variable {bins rfFreq : ℕ} (p : Parameters ℝ bins channels width rfFreq heads headDim)

/-- Merging the convolutions does not change the network. -/
theorem network_folded : p.folded.network = p.plain.network := by
  have hsame {inp out width : ℕ} (m : SameConvNorm ℝ inp out) :
      (m.fold.forward : (Fin inp → Fin width → ℝ) → _) = m.forward :=
    funext m.fold_forward
  simp only [network, folded, ONNXModel.mk.injEq, List.map_map]
  refine ⟨trivial, ?_, ?_, ?_, trivial, ?_, ?_, ?_, trivial, trivial⟩
  · simp only [StridedConvNorm.fold_forward]
  · exact List.map_congr_left fun m _ => by simp only [Function.comp, hsame]
  · simp only [hsame]
  · simp only [hsame]
  · exact List.map_congr_left fun m _ => by simp only [Function.comp, DecoderModule.fold, hsame]
  · simp only [hsame]

theorem network_plain : p.plain.network =
    { p.network with rfBlock := p.plain.rfBlock.map BlockParameters.block } := by
  unfold plain
  split <;> rfl

theorem plain_agree : List.Forall₂ RNNFormerBlock.Agree
    (p.plain.rfBlock.map BlockParameters.block) p.network.rfBlock := by
  change List.Forall₂ _ _ (p.rfBlock.map _)
  unfold plain
  split
  · rw [List.map_map, List.forall₂_map_left_iff, List.forall₂_map_right_iff, List.forall₂_same]
    exact fun b _ => b.folded_agree
  · exact List.forall₂_same.mpr fun b _ => .refl b

theorem plain_weightNorm : p.plain.weightNorm = false := by
  unfold plain
  split
  · rfl
  · next h => exact Bool.not_eq_true _ ▸ h

variable {p}

/-- On fresh weights the pass succeeds, the network computes what it computed before, on every
batch and every number of frames and with any caches, and a second pass raises. -/
theorem removeWeightReparameterizations_forward (hp : p.Fresh) :
    ∃ p', p.removeWeightReparameterizations = .ok p' ∧
      (∀ (B T : ℕ) (spec : Fin B → Fin (bins + 1) → Fin T → Fin 2 → ℝ)
        (caches : List (Fin 1 → Fin (B * rfFreq) → Fin (heads * headDim) → ℝ)),
        p'.network.forward spec caches = p.network.forward spec caches) ∧
      p'.removeWeightReparameterizations = .error "enc_pre" := by
  refine ⟨p.folded, hp.removeWeightReparameterizations, fun B T spec caches => ?_, ?_⟩
  · rw [network_folded, network_plain, p.network.forward_congr p.plain_agree]
  · have hnorm : p.folded.removeWeightNorm = .ok p.folded := by
      unfold removeWeightNorm
      exact if_neg (Bool.not_eq_true _ ▸ p.plain_weightNorm)
    rw [removeWeightReparameterizations, hnorm]
    change (mergeConvBn "enc_pre" p.plain.encPre.layer.fold).bind _ = _
    rw [mergeConvBn_fold]
    rfl

end Parameters

/-! ### Weights of a smallest network -/

/-- A norm that scales. -/
noncomputable def halving : BatchNorm ℝ channels :=
  ⟨⟨0, fun _ => 1, fun _ => 4⟩, fun _ => 1, fun _ => 3⟩

/-- A block of one row and one channel, with all its norms and parametrizations. -/
noncomputable def halvingBlock : BlockParameters ℝ 1 1 1 where
  rnnPreNorm := some halving.toRunningNorm
  rnn := ⟨.weightNorm (fun _ => 1) fun _ _ => 1, .weightNorm (fun _ => 1) fun _ _ => 1,
    fun _ => 0, fun _ => 0⟩
  rnnFc := .separate (fun _ _ => 1) halving
  attnPreNorm := some halving.toRunningNorm
  qkv := ⟨.weightNorm (fun _ => 1) fun _ _ => 1, none⟩
  attnFc := .separate (fun _ _ => 1) halving
  act := id
  pe := none
  weightNorm := true

/-- A convolution of one kernel with a norm. -/
noncomputable def halvingConv : SameConvNorm ℝ inp out := ⟨0, .separate (fun _ _ _ => 1) halving⟩

/-- A network of one bin, one channel and one block. -/
noncomputable def halvingParameters : Parameters ℝ 1 1 1 1 1 1 where
  inputCompression := 1
  encPre := ⟨1, 0, 1, .separate (fun _ _ _ => 1) halving⟩
  encoder := [halvingConv]
  rfPreLinear := ⟨.plain fun _ _ => 1, none⟩
  rfPre := halvingConv
  rfBlock := [halvingBlock]
  rfPostLinear := ⟨.plain fun _ _ => 1, none⟩
  rfPost := halvingConv
  decoder := [⟨halvingConv, halvingConv⟩]
  decPost := halvingConv
  upsample := ⟨1, 1, 0, true, fun _ _ _ => 1, fun _ => 0, some 2⟩
  act := id
  mask := id
  resnet := true
  weightNorm := true
  decoder_length := rfl

theorem halvingParameters_fresh : halvingParameters.Fresh where
  encPre := trivial
  encoder := List.forall_mem_singleton.mpr trivial
  rfPre := trivial
  rfBlock _ := List.forall_mem_singleton.mpr ⟨trivial, trivial⟩
  rfPost := trivial
  decoder := List.forall_mem_singleton.mpr ⟨trivial, trivial⟩
  decPost := trivial

theorem removeWeightReparameterizations_forward_halving :
    ∃ p', halvingParameters.removeWeightReparameterizations = .ok p' ∧
      (∀ (B T : ℕ) (spec : Fin B → Fin (1 + 1) → Fin T → Fin 2 → ℝ)
        (caches : List (Fin 1 → Fin (B * 1) → Fin (1 * 1) → ℝ)),
        p'.network.forward spec caches = halvingParameters.network.forward spec caches) ∧
      p'.removeWeightReparameterizations = .error "enc_pre" :=
  Parameters.removeWeightReparameterizations_forward halvingParameters_fresh

end Meaning

end VoxLattice.Upstream
