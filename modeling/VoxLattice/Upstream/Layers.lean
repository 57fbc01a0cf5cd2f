import VoxLattice.Upstream.Network

/-!
# The layers and their weights

The layers of the network with their weights, on one row, and the network that they make
(`Parameters.network`).  A weight may be parametrized: `weight_norm` keeps a length and a direction
for every row.  A norm may be merged into the layer before it: `LinearNorm` and `ConvNorm` are both,
so a layer with a bias of its own and a norm behind it cannot be built.

All convolutions but the first and the last have stride one and an odd kernel with padding on both
sides, so that they keep the width; the source takes any kernel, but an even one shrinks the width
and the skip connections do not fit.  The number of channels of a block is the number of its heads
times their width, which the source takes for granted.
-/

namespace VoxLattice.Upstream

variable {α : Type*} [Torch α]

/-! ## Layers on a row -/

section Layers

variable {inp out channels width width' : ℕ}

/-- A bias, where a layer has one. -/
def addBias (bias : Option (Fin out → α)) (y : Fin out → α) : Fin out → α := fun o =>
  match bias with
  | none => y o
  | some bias => y o + bias o

/-- `weight @ x`. -/
def matVec (weight : Fin out → Fin inp → α) (x : Fin inp → α) : Fin out → α := fun o =>
  sumOver fun i => weight o i * x i

/-- A weight and its parametrization. -/
inductive Weight (α : Type*) (out inp : ℕ) where
  | plain (weight : Fin out → Fin inp → α)
  /-- `weight_norm`: the lengths of the rows and their directions. -/
  | weightNorm (g : Fin out → α) (v : Fin out → Fin inp → α)

/-- The weight a layer reads. -/
def Weight.value : Weight α out inp → Fin out → Fin inp → α
  | .plain weight => weight
  | .weightNorm g v => fun o i => v o i * (g o / Torch.sqrt (sumOver fun i => v o i * v o i))

/-- `remove_parametrizations`. -/
def Weight.removeParametrizations (w : Weight α out inp) : Weight α out inp := .plain w.value

/-- `nn.Linear`. -/
structure Linear (α : Type*) (inp out : ℕ) where
  weight : Weight α out inp
  bias : Option (Fin out → α)

def Linear.forward (layer : Linear α inp out) (x : Fin inp → α) : Fin out → α :=
  addBias layer.bias (matVec layer.weight.value x)

/-- `nn.BatchNorm1d` in evaluation, with `affine=False`. -/
structure RunningNorm (α : Type*) (channels : ℕ) where
  eps : α
  runningMean : Fin channels → α
  runningVar : Fin channels → α

/-- `norm.running_var.add(norm.eps).sqrt()`. -/
def RunningNorm.std (norm : RunningNorm α channels) : Fin channels → α := fun c =>
  Torch.sqrt (norm.runningVar c + norm.eps)

def RunningNorm.forward (norm : RunningNorm α channels) (x : Fin channels → α) :
    Fin channels → α := fun c =>
  (x c - norm.runningMean c) / norm.std c

/-- `nn.BatchNorm1d` in evaluation. -/
structure BatchNorm (α : Type*) (channels : ℕ) extends RunningNorm α channels where
  weight : Fin channels → α
  bias : Fin channels → α

def BatchNorm.forward (norm : BatchNorm α channels) (x : Fin channels → α) : Fin channels → α :=
  fun c => norm.toRunningNorm.forward x c * norm.weight c + norm.bias c

/-- `nn.Linear` without a bias and the norm behind it, or the norm merged into it. -/
inductive LinearNorm (α : Type*) (inp out : ℕ) where
  | separate (weight : Fin out → Fin inp → α) (norm : BatchNorm α out)
  | merged (weight : Fin out → Fin inp → α) (bias : Fin out → α)

/-- The linear layer. -/
def LinearNorm.linear : LinearNorm α inp out → (Fin inp → α) → Fin out → α
  | .separate weight _ => matVec weight
  | .merged weight bias => fun x => addBias (some bias) (matVec weight x)

/-- The norm, or `nn.Identity`. -/
def LinearNorm.norm : LinearNorm α inp out → (Fin out → α) → Fin out → α
  | .separate _ norm => norm.forward
  | .merged _ _ => id

/-- A norm in front of a layer, or `nn.Identity`. -/
def preNorm (norm : Option (RunningNorm α channels)) : (Fin channels → α) → Fin channels → α :=
  match norm with
  | none => id
  | some norm => norm.forward

end Layers

/-! ## Convolutions -/

section Convolutions

variable {inp out kernel width width' : ℕ}

/-- A row with `padding` zeros before it and zeros behind it. -/
def padAt (padding : ℕ) (x : Fin width → α) (n : ℕ) : α :=
  if h : padding ≤ n ∧ n - padding < width then x ⟨n - padding, h.2⟩ else 0

/-- What a convolution of stride one makes of the padded rows at a place. -/
def column (weight : Fin out → Fin inp → Fin kernel → α) (x : Fin inp → ℕ → α) (j : ℕ) :
    Fin out → α := fun o =>
  sumOver fun i => sumOver fun k => weight o i k * x i (j + k)

/-- `nn.Conv1d` without a bias and the norm behind it, or the norm merged into it. -/
inductive ConvNorm (α : Type*) (inp out kernel : ℕ) where
  | separate (weight : Fin out → Fin inp → Fin kernel → α) (norm : BatchNorm α out)
  | merged (weight : Fin out → Fin inp → Fin kernel → α) (bias : Fin out → α)

/-- The two layers, or the one, at a place. -/
def ConvNorm.column (x : Fin inp → ℕ → α) (j : ℕ) : ConvNorm α inp out kernel → Fin out → α
  | .separate weight norm => norm.forward (Upstream.column weight x j)
  | .merged weight bias => addBias (some bias) (Upstream.column weight x j)

/-- `nn.Conv1d` with an odd kernel and as much padding as keeps the width, and a norm. -/
structure SameConvNorm (α : Type*) (inp out : ℕ) where
  padding : ℕ
  layer : ConvNorm α inp out (2 * padding + 1)

def SameConvNorm.forward (m : SameConvNorm α inp out) (x : Fin inp → Fin width → α) :
    Fin out → Fin width → α := fun o j =>
  m.layer.column (fun i => padAt m.padding (x i)) j o

/-- `StridedConv1d` and a norm.  The convolution inside has stride one; `kernel` is its kernel. -/
structure StridedConvNorm (α : Type*) (inp out : ℕ) where
  /-- `original_stride`. -/
  stride : ℕ
  /-- `original_padding`. -/
  padding : ℕ
  kernel : ℕ
  layer : ConvNorm α (stride * inp) out kernel

/-- The rows of `StridedConv1d.forward` behind its view, permutation and reshape. -/
def strided (stride padding : ℕ) (x : Fin inp → Fin width → α) : Fin (stride * inp) → ℕ → α :=
  merge fun s c t => padAt padding (x c) (t * stride + s)

def StridedConvNorm.forward (m : StridedConvNorm α inp out) (x : Fin inp → Fin width → α) :
    Fin out → Fin width' → α := fun o j =>
  m.layer.column (strided m.stride m.padding x) j o

/-- `ScaledConvTranspose1d`.  Without a `scale` its `weight_norm` is false. -/
structure ScaledConvTranspose1d (α : Type*) (inp out : ℕ) where
  kernel : ℕ
  stride : ℕ
  padding : ℕ
  normalize : Bool
  weight : Fin inp → Fin out → Fin kernel → α
  bias : Fin out → α
  scale : Option α

/-- The weight `forward` uses. -/
def ScaledConvTranspose1d.scaled (m : ScaledConvTranspose1d α inp out) :
    Fin inp → Fin out → Fin m.kernel → α :=
  match m.scale with
  | none => m.weight
  | some scale =>
    if m.normalize then
      let norm := Torch.sqrt (sumOver fun i => sumOver fun o => sumOver fun k =>
        m.weight i o k * m.weight i o k)
      let least : α := ((1 / 1000000000000 : ℚ) : α)
      fun i o k => m.weight i o k / Torch.clamp least norm * scale
    else fun i o k => m.weight i o k * scale

/-- `remove_weight_reparameterizations` of the layer. -/
def ScaledConvTranspose1d.removeWeightReparameterizations (m : ScaledConvTranspose1d α inp out) :
    ScaledConvTranspose1d α inp out :=
  { m with weight := m.scaled, scale := none }

def ScaledConvTranspose1d.forward (m : ScaledConvTranspose1d α inp out)
    (x : Fin inp → Fin width → α) : Fin out → Fin width' → α := fun o j =>
  (sumOver fun i => sumOver fun t : Fin width => sumOver fun k : Fin m.kernel =>
    if t * m.stride + k = j + m.padding then x i t * m.scaled i o k else 0) + m.bias o

end Convolutions

/-! ## The block -/

section Block

variable {freq channels heads headDim : ℕ}

/-- The weights of `nn.GRU` with one layer.  The rows are those of the reset gate, the update gate
and the new gate. -/
structure Gru (α : Type*) (channels : ℕ) where
  weightIh : Weight α (3 * channels) channels
  weightHh : Weight α (3 * channels) channels
  biasIh : Fin (3 * channels) → α
  biasHh : Fin (3 * channels) → α

/-- The gates of a GRU, from what the input and the hidden state give them. -/
def gates (gi gh : Fin (3 * channels) → α) (h : Fin channels → α) : Fin channels → α := fun c =>
  let r := Torch.sigmoid (split gi 0 c + split gh 0 c)
  let z := Torch.sigmoid (split gi 1 c + split gh 1 c)
  let n := Torch.tanh (split gi 2 c + r * split gh 2 c)
  (((1 : ℚ) : α) - z) * n + z * h c

/-- A step of the GRU. -/
def Gru.cell (gru : Gru α channels) (x h : Fin channels → α) : Fin channels → α :=
  gates (addBias (some gru.biasIh) (matVec gru.weightIh.value x))
    (addBias (some gru.biasHh) (matVec gru.weightHh.value h)) h

/-- `F.scaled_dot_product_attention` of one head. -/
def scaledDotProductAttention (q k v : Fin freq → Fin headDim → α) :
    Fin freq → Fin headDim → α := fun i c =>
  let score (j : Fin freq) : α :=
    (sumOver fun e => q i e * k j e) / Torch.sqrt ((headDim : ℚ) : α)
  let total := sumOver fun j => Torch.exp (score j)
  sumOver fun j => Torch.exp (score j) / total * v j c

/-- `Attention` behind its linear layer: the heads, and in each head the query, the key and the
value. -/
def attend (qkv : Fin freq → Fin (heads * (3 * headDim)) → α) :
    Fin freq → Fin (heads * headDim) → α := fun i =>
  merge fun head => scaledDotProductAttention (fun j => split (split (qkv j) head) 0)
    (fun j => split (split (qkv j) head) 1) (fun j => split (split (qkv j) head) 2) i

/-- The weights of `RNNFormerBlock`. -/
structure BlockParameters (α : Type*) (freq heads headDim : ℕ) where
  rnnPreNorm : Option (RunningNorm α (heads * headDim))
  rnn : Gru α (heads * headDim)
  /-- `rnn_fc` and `rnn_post_norm`. -/
  rnnFc : LinearNorm α (heads * headDim) (heads * headDim)
  attnPreNorm : Option (RunningNorm α (heads * headDim))
  /-- `attn.qkv`. -/
  qkv : Linear α (heads * headDim) (heads * (3 * headDim))
  /-- `attn_fc` and `attn_post_norm`. -/
  attnFc : LinearNorm α (heads * headDim) (heads * headDim)
  /-- `rnn_act` and `attn_act`, which are made alike. -/
  act : α → α
  pe : Option (Fin freq → Fin (heads * headDim) → α)
  weightNorm : Bool

/-- The block of these weights. -/
def BlockParameters.block (b : BlockParameters α freq heads headDim) :
    RNNFormerBlock α freq (heads * headDim) where
  rnnPreNorm := preNorm b.rnnPreNorm
  cell := b.rnn.cell
  rnnFc := b.rnnFc.linear
  rnnPostNorm := b.rnnFc.norm
  rnnAct := b.act
  pe := b.pe
  attnPreNorm := preNorm b.attnPreNorm
  attn x := attend fun f => b.qkv.forward (x f)
  attnFc := b.attnFc.linear
  attnPostNorm := b.attnFc.norm
  attnAct := b.act

end Block

/-! ## The network -/

section Parameters

variable {bins channels width rfFreq heads headDim : ℕ}

/-- One module of the decoder, but for its activations. -/
structure DecoderModule (α : Type*) (channels : ℕ) where
  first : SameConvNorm α (channels + channels) channels
  second : SameConvNorm α channels channels

/-- The weights of `ONNXModel`. -/
structure Parameters (α : Type*) (bins channels width rfFreq heads headDim : ℕ) where
  inputCompression : α
  encPre : StridedConvNorm α 2 channels
  encoder : List (SameConvNorm α channels channels)
  /-- The linear layers of `rf_pre_post_lin`. -/
  rfPreLinear : Linear α width rfFreq
  rfPre : SameConvNorm α channels (heads * headDim)
  rfBlock : List (BlockParameters α rfFreq heads headDim)
  rfPostLinear : Linear α rfFreq width
  rfPost : SameConvNorm α (heads * headDim) channels
  decoder : List (DecoderModule α channels)
  decPost : SameConvNorm α (channels + channels) channels
  upsample : ScaledConvTranspose1d α channels 2
  /-- `Act`. -/
  act : α → α
  mask : α → α
  resnet : Bool
  weightNorm : Bool
  decoder_length : decoder.length = encoder.length

/-- The activation behind a layer. -/
def activated (act : α → α) (x : Fin channels → Fin width → α) : Fin channels → Fin width → α :=
  fun c f => act (x c f)

/-- The network of these weights, by the `nn.Sequential`s of the constructor. -/
def Parameters.network (p : Parameters α bins channels width rfFreq heads headDim) :
    ONNXModel α bins channels width rfFreq (heads * headDim) where
  inputCompression := p.inputCompression
  encPre x := activated p.act (p.encPre.forward x)
  encoder := p.encoder.map fun m x => activated p.act (m.forward x)
  rfPre x := p.rfPre.forward fun c => p.rfPreLinear.forward (x c)
  rfBlock := p.rfBlock.map BlockParameters.block
  rfPost x := p.rfPost.forward fun c => p.rfPostLinear.forward (x c)
  decoder := p.decoder.map fun m x =>
    activated p.act (m.second.forward (activated p.act (m.first.forward x)))
  decPost x := p.upsample.forward (activated p.act (p.decPost.forward x))
  mask := p.mask
  resnet := p.resnet
  decoder_length := by rw [List.length_map, List.length_map, p.decoder_length]

end Parameters

end VoxLattice.Upstream
