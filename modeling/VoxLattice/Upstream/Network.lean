import VoxLattice.Lib.Mealy
import VoxLattice.Upstream.Torch

/-!
# The network

`ONNXModel` and `RNNFormerBlock` on a batch of streams and a number of frames, with every view,
permutation and reshape of the source.  A tensor is a function of its indices.

What acts on one row alone is a field of the network: a convolution with its norm and activation on
the channels of a frame, the cell of the GRU on a row and its hidden state, the attention on the
rows of a frame.  `Parameters.network` fills the fields with the layers.  The network is in
evaluation mode, so the dropout is left out.

The encoder's outputs are a stack, the last one first.  With `resnet` the source adds to a tensor in
place that is on the stack already, so the sum is what the decoder pops.  There is a decoder for
every encoder, so the stack never runs empty.
-/

namespace VoxLattice.Upstream

variable {α : Type*} [Torch α] {B T : ℕ}

/-! ## A block -/

section Block

/-- `RNNFormerBlock`. -/
structure RNNFormerBlock (α : Type*) (freq channels : ℕ) where
  /-- `rnn_pre_norm`. -/
  rnnPreNorm : (Fin channels → α) → Fin channels → α
  /-- `rnn`: the next hidden state, from the input and the hidden state. -/
  cell : (Fin channels → α) → (Fin channels → α) → Fin channels → α
  /-- `rnn_fc`. -/
  rnnFc : (Fin channels → α) → Fin channels → α
  /-- `rnn_post_norm`. -/
  rnnPostNorm : (Fin channels → α) → Fin channels → α
  /-- `rnn_act`. -/
  rnnAct : α → α
  /-- `pe`. -/
  pe : Option (Fin freq → Fin channels → α)
  /-- `attn_pre_norm`. -/
  attnPreNorm : (Fin channels → α) → Fin channels → α
  /-- `attn`, on the rows of a frame. -/
  attn : (Fin freq → Fin channels → α) → Fin freq → Fin channels → α
  /-- `attn_fc`. -/
  attnFc : (Fin channels → α) → Fin channels → α
  /-- `attn_post_norm`. -/
  attnPostNorm : (Fin channels → α) → Fin channels → α
  /-- `attn_act`. -/
  attnAct : α → α

variable {freq channels : ℕ}

/-- The step of a GRU of one layer: its output is its hidden state. -/
def gruStep (cell : (Fin channels → α) → (Fin channels → α) → Fin channels → α)
    (x h : Fin channels → α) : (Fin channels → α) × (Fin channels → α) :=
  (cell x h, cell x h)

/-- `nn.GRU` with the time first: the outputs and the hidden states at the end, row by row. -/
def gru {n : ℕ} (cell : (Fin channels → α) → (Fin channels → α) → Fin channels → α)
    (x : Fin T → Fin n → Fin channels → α) (h : Fin 1 → Fin n → Fin channels → α) :
    (Fin T → Fin n → Fin channels → α) × (Fin 1 → Fin n → Fin channels → α) :=
  (fun t i => Mealy.output (gruStep cell) (h 0 i) (fun t => x t i) t,
    fun _ i => Mealy.final (gruStep cell) (h 0 i) fun t => x t i)

/-- `forward`, on `[T, B, F, C]` and `[1, B * F, C]`. -/
def RNNFormerBlock.forward (block : RNNFormerBlock α freq channels)
    (x : Fin T → Fin B → Fin freq → Fin channels → α)
    (h : Fin 1 → Fin (B * freq) → Fin channels → α) :
    (Fin T → Fin B → Fin freq → Fin channels → α) × (Fin 1 → Fin (B * freq) → Fin channels → α) :=
  let xIn := x
  let x := fun t b f => block.rnnPreNorm (x t b f)
  let x := fun t => merge (x t)
  let (x, h) := gru block.cell x h
  let x := fun t => split (x t)
  let x := fun t b f => block.rnnFc (x t b f)
  let x := fun t b f => block.rnnPostNorm (x t b f)
  let x := fun t b f c => block.rnnAct (x t b f c)
  let x := fun t b f c => x t b f c + xIn t b f c
  let x := match block.pe with
    | none => x
    | some pe => fun t b f c => x t b f c + pe f c
  let xIn := x
  let x := fun t b f => block.attnPreNorm (x t b f)
  let x := merge x
  let x := fun i => block.attn (x i)
  let x := split x
  let x := fun t b f => block.attnFc (x t b f)
  let x := fun t b f => block.attnPostNorm (x t b f)
  let x := fun t b f c => block.attnAct (x t b f c)
  let x := fun t b f c => x t b f c + xIn t b f c
  (x, h)

/-- `initialize_cache`. -/
def RNNFormerBlock.initializeCache (_ : RNNFormerBlock α freq channels) :
    Fin 1 → Fin freq → Fin channels → α :=
  fun _ _ _ => 0

end Block

/-! ## The network -/

section Model

/-- `ONNXModel`, of the given widths: the bins of a spectrum without the last one, the channels of
the convolutions, the width behind their stride, and the rows and channels of the blocks. -/
structure ONNXModel (α : Type*) (bins channels width rfFreq rfCh : ℕ) where
  /-- `input_compression`. -/
  inputCompression : α
  /-- `enc_pre`. -/
  encPre : (Fin 2 → Fin bins → α) → Fin channels → Fin width → α
  encoder : List ((Fin channels → Fin width → α) → Fin channels → Fin width → α)
  /-- `rf_pre`. -/
  rfPre : (Fin channels → Fin width → α) → Fin rfCh → Fin rfFreq → α
  /-- `rf_block`. -/
  rfBlock : List (RNNFormerBlock α rfFreq rfCh)
  /-- `rf_post`. -/
  rfPost : (Fin rfCh → Fin rfFreq → α) → Fin channels → Fin width → α
  decoder : List ((Fin (channels + channels) → Fin width → α) → Fin channels → Fin width → α)
  /-- `dec_post`. -/
  decPost : (Fin (channels + channels) → Fin width → α) → Fin 2 → Fin bins → α
  mask : α → α
  resnet : Bool
  /-- Both lists are made in loops over `kernel_size`. -/
  decoder_length : decoder.length = encoder.length

variable {ι : Type*} {channels width : ℕ}

/-- `x.add_(x_in)` where the network is a ResNet. -/
def residual (resnet : Bool) (x xIn : ι → Fin channels → Fin width → α) :
    ι → Fin channels → Fin width → α :=
  if resnet then fun i c f => x i c f + xIn i c f else x

/-- The loop over `encoder`: the last output, and the stack of `encoder_outs`. -/
def encode (resnet : Bool) :
    List ((Fin channels → Fin width → α) → Fin channels → Fin width → α) →
    (ι → Fin channels → Fin width → α) → List (ι → Fin channels → Fin width → α) →
    (ι → Fin channels → Fin width → α) × List (ι → Fin channels → Fin width → α)
  | [], x, outs => (x, outs)
  | module :: rest, xIn, outs =>
    let x := fun i => module (xIn i)
    -- the output is on the stack when the input is added to it in place
    let x := residual resnet x xIn
    encode resnet rest x (x :: outs)

/-- `torch.cat([x, skip], dim=1)`. -/
def catChannels (x skip : ι → Fin channels → Fin width → α) :
    ι → Fin (channels + channels) → Fin width → α :=
  fun i => Fin.append (x i) (skip i)

/-- The loop over `decoder`, and the two lines after it up to `dec_post`. -/
def decode (resnet : Bool) :
    (modules : List ((Fin (channels + channels) → Fin width → α) →
      Fin channels → Fin width → α)) →
    (ι → Fin channels → Fin width → α) → (outs : List (ι → Fin channels → Fin width → α)) →
    modules.length < outs.length → ι → Fin (channels + channels) → Fin width → α
  | [], x, out :: _, _ => catChannels x out
  | module :: rest, xIn, out :: outs, h =>
    let x := fun i => module (catChannels xIn out i)
    let x := residual resnet x xIn
    decode resnet rest x outs (Nat.lt_of_succ_lt_succ h)

variable {bins rfFreq rfCh : ℕ}

/-- The loop over `rf_block` and its caches. -/
def runBlocks : List (RNNFormerBlock α rfFreq rfCh) →
    (Fin T → Fin B → Fin rfFreq → Fin rfCh → α) →
    List (Fin 1 → Fin (B * rfFreq) → Fin rfCh → α) →
    (Fin T → Fin B → Fin rfFreq → Fin rfCh → α) × List (Fin 1 → Fin (B * rfFreq) → Fin rfCh → α)
  | [], x, _ => (x, [])
  | _ :: _, x, [] => (x, [])
  | block :: rest, x, h :: hs =>
    let (x, h) := block.forward x h
    let (x, hs) := runBlocks rest x hs
    (x, h :: hs)

theorem encode_length (resnet : Bool)
    (modules : List ((Fin channels → Fin width → α) → Fin channels → Fin width → α))
    (x : ι → Fin channels → Fin width → α) (outs : List (ι → Fin channels → Fin width → α)) :
    (encode resnet modules x outs).2.length = modules.length + outs.length := by
  induction modules generalizing x outs with
  | nil => exact (Nat.zero_add _).symm
  | cons module rest ih =>
      rw [encode, ih, List.length_cons, List.length_cons]
      omega

namespace ONNXModel

variable (m : ONNXModel α bins channels width rfFreq rfCh)

/-- There is an output for every decoder, and one for what follows them. -/
theorem decoder_lt (x : ι → Fin channels → Fin width → α) :
    m.decoder.length < (encode m.resnet m.encoder x [x]).2.length := by
  rw [encode_length, m.decoder_length]
  exact Nat.lt_succ_self _

/-- `model_forward`, on `[B, F, T, 2]`. -/
def modelForward (spec : Fin B → Fin bins → Fin T → Fin 2 → α)
    (caches : List (Fin 1 → Fin (B * rfFreq) → Fin rfCh → α)) :
    (Fin B → Fin bins → Fin T → Fin 2 → α) × List (Fin 1 → Fin (B * rfFreq) → Fin rfCh → α) :=
  -- a GRU without a hidden state starts from zeros
  let caches := if caches.isEmpty then m.rfBlock.map fun _ _ _ _ => 0 else caches
  let x := fun b t c f => spec b f t c
  let x := merge x
  let x := fun i => m.encPre (x i)
  let first := x
  let encoded := encode m.resnet m.encoder x [x]
  let x := fun i => m.rfPre (encoded.1 i)
  let x := split x
  let x := fun t b f c => x b t c f
  let (x, cachesOut) := runBlocks m.rfBlock x caches
  let x := fun b t c f => x t b f c
  let x := merge x
  let x := fun i => m.rfPost (x i)
  let x := residual m.resnet x encoded.1
  let x := decode m.resnet m.decoder x encoded.2 (m.decoder_lt first)
  let x := fun i => m.decPost (x i)
  let x := split x
  (fun b f t c => m.mask (x b t c f), cachesOut)

/-- The compression of a bin in `forward`. -/
def compress (z : Fin 2 → α) : Fin 2 → α :=
  let mag := Torch.clamp ((1 / 100000 : ℚ) : α) (Torch.norm (z 0) (z 1))
  fun c => z c * Torch.pow mag (m.inputCompression - ((1 : ℚ) : α))

/-- The mask on a compressed bin. -/
def masked (z mask : Fin 2 → α) : Fin 2 → α :=
  ![z 0 * mask 0 - z 1 * mask 1, z 0 * mask 1 + z 1 * mask 0]

/-- The way back from a compressed bin. -/
def uncompress (z : Fin 2 → α) : Fin 2 → α :=
  let magCompressed := Torch.norm (z 0) (z 1)
  fun c => z c * Torch.pow magCompressed (((1 : ℚ) : α) / m.inputCompression - ((1 : ℚ) : α))

/-- `forward`, on `[B, n_fft // 2 + 1, T, 2]`. -/
def forward (spec : Fin B → Fin (bins + 1) → Fin T → Fin 2 → α)
    (caches : List (Fin 1 → Fin (B * rfFreq) → Fin rfCh → α)) :
    (Fin B → Fin (bins + 1) → Fin T → Fin 2 → α) ×
      List (Fin 1 → Fin (B * rfFreq) → Fin rfCh → α) :=
  let spec := fun b (f : Fin bins) t => spec b f.castSucc t
  let spec := fun b f t => m.compress (spec b f t)
  let (mask, cachesOut) := m.modelForward spec caches
  let specHat := fun b f t => masked (spec b f t) (mask b f t)
  let specHat := fun b f t => m.uncompress (specHat b f t)
  (fun b => Fin.snoc (specHat b) fun _ _ => 0, cachesOut)

/-- `initialize_cache`. -/
def initializeCache : List (Fin 1 → Fin rfFreq → Fin rfCh → α) :=
  m.rfBlock.map RNNFormerBlock.initializeCache

end ONNXModel

end Model

end VoxLattice.Upstream
