import VoxLattice.Upstream.Network

/-!
# A batch is its streams, and a stream its frames

`modelForward` puts the frames of all streams into one axis for the convolutions, the rows of all
streams into one axis for the GRU and the streams of all times into one axis for the attention.
`ONNXModel.step` is the network on one frame of one stream.

`forward_eq` says that the network on `B` streams of `T` frames is `B` runs of this step, over the
frames of a stream and from its rows of the caches.  So a stream gets the same from any batch it is
put in, and frame by frame what it gets from all its frames at once.
-/

namespace VoxLattice.Upstream

variable {α : Type*} [Torch α] {B T : ℕ}

/-! ## A block -/

section Block

variable {freq channels : ℕ} (block : RNNFormerBlock α freq channels)

/-- A block behind its GRU, on one frame. -/
def RNNFormerBlock.tail (xIn x : Fin freq → Fin channels → α) : Fin freq → Fin channels → α :=
  let x := fun f => block.rnnPostNorm (block.rnnFc (x f))
  let x := fun f c => block.rnnAct (x f c)
  let x := fun f c => x f c + xIn f c
  let x := match block.pe with
    | none => x
    | some pe => fun f c => x f c + pe f c
  let xIn := x
  let x := block.attn fun f => block.attnPreNorm (x f)
  let x := fun f => block.attnPostNorm (block.attnFc (x f))
  let x := fun f c => block.attnAct (x f c)
  fun f c => x f c + xIn f c

/-- A block on one frame of one stream. -/
def RNNFormerBlock.step : (Fin freq → Fin channels → α) → (Fin freq → Fin channels → α) →
    (Fin freq → Fin channels → α) × (Fin freq → Fin channels → α) :=
  Mealy.wrap (fun x f => block.rnnPreNorm (x f)) block.tail (Mealy.each (gruStep block.cell))

variable (x : Fin T → Fin B → Fin freq → Fin channels → α)
  (h : Fin 1 → Fin (B * freq) → Fin channels → α) (b : Fin B)

theorem RNNFormerBlock.forward_output (t : Fin T) : (block.forward x h).1 t b =
    Mealy.output block.step (split (h 0) b) (fun t => x t b) t := by
  have hgru : Mealy.output (Mealy.each (gruStep block.cell)) (split (h 0) b)
      (fun t f => block.rnnPreNorm (x t b f)) t =
      split ((gru block.cell (fun t => merge fun b f => block.rnnPreNorm (x t b f)) h).1 t) b := by
    funext f
    rw [Mealy.output_each]
    simp only [gru, split, merge_apply]
  rw [step, Mealy.output_wrap, hgru]
  simp only [forward, tail, split, merge_apply]
  cases block.pe with
  | none => rfl
  | some pe => rfl

theorem RNNFormerBlock.forward_final : split ((block.forward x h).2 0) b =
    Mealy.final block.step (split (h 0) b) fun t => x t b := by
  funext f
  rw [step, Mealy.final, Mealy.state_wrap, Mealy.state_each]
  simp only [forward, gru, split, merge_apply]
  rfl

end Block

section Blocks

variable {freq channels : ℕ}

/-- The rows of a stream in the cache of a block. -/
def rowsOf (b : Fin B) (h : Fin 1 → Fin (B * freq) → Fin channels → α) :
    Fin freq → Fin channels → α :=
  split (h 0) b

/-- The loop over the blocks is, for a stream, a chain of their steps. -/
theorem runBlocks_eq {blocks : List (RNNFormerBlock α freq channels)}
    {hs : List (Fin 1 → Fin (B * freq) → Fin channels → α)} (hlen : hs.length = blocks.length)
    (x : Fin T → Fin B → Fin freq → Fin channels → α) (b : Fin B) :
    (∀ t, (runBlocks blocks x hs).1 t b = Mealy.output
      (Mealy.chain (blocks.map RNNFormerBlock.step)) (hs.map (rowsOf b)) (fun t => x t b) t) ∧
    (runBlocks blocks x hs).2.map (rowsOf b) = Mealy.final
      (Mealy.chain (blocks.map RNNFormerBlock.step)) (hs.map (rowsOf b)) fun t => x t b := by
  induction blocks generalizing x hs with
  | nil =>
      obtain rfl := List.eq_nil_of_length_eq_zero hlen
      exact ⟨fun t => (Mealy.output_chain_nil [] (fun t => x t b) t).symm,
        (Mealy.final_chain_nil fun t => x t b).symm⟩
  | cons block rest ih =>
      cases hs with
      | nil => simp at hlen
      | cons h hs =>
          obtain ⟨hout, hfinal⟩ := ih (Nat.succ.inj hlen) (block.forward x h).1
          have hnext : (fun t => (block.forward x h).1 t b) =
              Mealy.output block.step (rowsOf b h) fun t => x t b :=
            funext fun t => block.forward_output x h b t
          rw [hnext] at hout hfinal
          simp only [List.map_cons, runBlocks]
          refine ⟨fun t => ?_, ?_⟩
          · rw [Mealy.output_chain_cons]
            exact hout t
          · rw [Mealy.final_chain_cons, hfinal]
            exact congrArg (· :: _) (block.forward_final x h b)

end Blocks

/-! ## The convolutions -/

section Convolutions

variable {ι κ : Type*} {channels width : ℕ} (resnet : Bool) (r : κ → ι)

theorem residual_reindex (x xIn : ι → Fin channels → Fin width → α) :
    residual resnet (fun i => x (r i)) (fun i => xIn (r i)) =
      fun i => residual resnet x xIn (r i) := by
  unfold residual
  split
  · rfl
  · rfl

/-- The encoder works row by row. -/
theorem encode_reindex
    (modules : List ((Fin channels → Fin width → α) → Fin channels → Fin width → α))
    (x : ι → Fin channels → Fin width → α) (outs : List (ι → Fin channels → Fin width → α)) :
    encode resnet modules (fun i => x (r i)) (outs.map fun out i => out (r i)) =
      (fun i => (encode resnet modules x outs).1 (r i),
        (encode resnet modules x outs).2.map fun out i => out (r i)) := by
  induction modules generalizing x outs with
  | nil => rfl
  | cons module rest ih =>
      rw [encode, encode, ← ih, List.map_cons,
        residual_reindex resnet r (fun i => module (x i)) x]

/-- The decoder works row by row. -/
theorem decode_reindex
    (modules : List ((Fin (channels + channels) → Fin width → α) → Fin channels → Fin width → α))
    (x : ι → Fin channels → Fin width → α) (outs : List (ι → Fin channels → Fin width → α))
    (h : modules.length < outs.length)
    (h' : modules.length < (outs.map fun out (i : κ) => out (r i)).length) :
    decode resnet modules (fun i => x (r i)) (outs.map fun out i => out (r i)) h' =
      fun i => decode resnet modules x outs h (r i) := by
  induction modules generalizing x outs with
  | nil =>
      cases outs with
      | nil => exact absurd h (Nat.not_lt_zero _)
      | cons out outs => rfl
  | cons module rest ih =>
      cases outs with
      | nil => exact absurd h (Nat.not_lt_zero _)
      | cons out outs =>
          have hx := residual_reindex resnet r (fun i => module (catChannels x out i)) x
          change decode resnet rest (residual resnet (fun i => module (catChannels x out (r i)))
            fun i => x (r i)) (outs.map fun out i => out (r i)) _ = _
          simp only [hx]
          exact ih _ _ (Nat.lt_of_succ_lt_succ h) _

theorem decode_congr {resnet : Bool}
    {modules : List ((Fin (channels + channels) → Fin width → α) → Fin channels → Fin width → α)}
    {x x' : ι → Fin channels → Fin width → α} {outs outs' : List (ι → Fin channels → Fin width → α)}
    (hx : x = x') (houts : outs = outs') (h : modules.length < outs.length)
    (h' : modules.length < outs'.length) :
    decode resnet modules x outs h = decode resnet modules x' outs' h' := by
  subst hx houts
  rfl

end Convolutions

/-! ## The network -/

namespace ONNXModel

variable {bins channels width rfFreq rfCh : ℕ} (m : ONNXModel α bins channels width rfFreq rfCh)

/-- The encoder on one frame. -/
def encoded (z : Fin bins → Fin 2 → α) :
    (Unit → Fin channels → Fin width → α) × List (Unit → Fin channels → Fin width → α) :=
  let x := fun _ : Unit => m.encPre fun c f => z f c
  encode m.resnet m.encoder x [x]

/-- What a frame gives to the blocks. -/
def blockInput (z : Fin bins → Fin 2 → α) : Fin rfFreq → Fin rfCh → α := fun f c =>
  m.rfPre ((m.encoded z).1 ()) c f

/-- The mask of a frame, from what the blocks answer. -/
def maskOf (z : Fin bins → Fin 2 → α) (y : Fin rfFreq → Fin rfCh → α) : Fin bins → Fin 2 → α :=
  let x := fun _ : Unit => m.rfPost fun c f => y f c
  let x := residual m.resnet x (m.encoded z).1
  let x := decode m.resnet m.decoder x (m.encoded z).2 (m.decoder_lt _)
  fun f c => m.mask (m.decPost (x ()) c f)

/-- `model_forward` on one frame of one stream. -/
def maskStep : (Fin bins → Fin 2 → α) → List (Fin rfFreq → Fin rfCh → α) →
    (Fin bins → Fin 2 → α) × List (Fin rfFreq → Fin rfCh → α) :=
  Mealy.wrap m.blockInput m.maskOf (Mealy.chain (m.rfBlock.map RNNFormerBlock.step))

/-- A frame behind its compression. -/
def compressFrame (z : Fin (bins + 1) → Fin 2 → α) : Fin bins → Fin 2 → α := fun f =>
  m.compress (z f.castSucc)

/-- A frame and its mask. -/
def applyMask (z : Fin (bins + 1) → Fin 2 → α) (mask : Fin bins → Fin 2 → α) :
    Fin (bins + 1) → Fin 2 → α :=
  Fin.snoc (fun f => m.uncompress (masked (m.compressFrame z f) (mask f))) fun _ => 0

/-- The network on one frame of one stream. -/
def step : (Fin (bins + 1) → Fin 2 → α) → List (Fin rfFreq → Fin rfCh → α) →
    (Fin (bins + 1) → Fin 2 → α) × List (Fin rfFreq → Fin rfCh → α) :=
  Mealy.wrap m.compressFrame m.applyMask m.maskStep

section Batch

variable (spec : Fin B → Fin bins → Fin T → Fin 2 → α)
  {caches : List (Fin 1 → Fin (B * rfFreq) → Fin rfCh → α)}
  (hlen : caches.length = m.rfBlock.length) (b : Fin B)

/-- The encoder on all the frames of a batch. -/
def encodedBatch : (Fin (B * T) → Fin channels → Fin width → α) ×
    List (Fin (B * T) → Fin channels → Fin width → α) :=
  let x := fun i => m.encPre (merge (fun b t c f => spec b f t c) i)
  encode m.resnet m.encoder x [x]

/-- A frame of the batch goes through the encoder alone. -/
theorem encoded_batch (t : Fin T) :
    m.encoded (fun f => spec b f t) =
      (fun _ => (m.encodedBatch spec).1 (finProdFinEquiv (b, t)),
        (m.encodedBatch spec).2.map fun out _ => out (finProdFinEquiv (b, t))) := by
  rw [encodedBatch, ← encode_reindex m.resnet fun _ : Unit => finProdFinEquiv (b, t)]
  simp only [encoded, List.map_cons, List.map_nil, merge_apply]

/-- A frame of the batch goes through the decoder alone. -/
theorem maskOf_batch (x : Fin (B * T) → Fin channels → Fin width → α) (t : Fin T)
    {y : Fin rfFreq → Fin rfCh → α}
    (hy : x (finProdFinEquiv (b, t)) = m.rfPost fun c f => y f c)
    (h : m.decoder.length < (m.encodedBatch spec).2.length) (f : Fin bins) :
    (fun c => m.mask (m.decPost (decode m.resnet m.decoder
      (residual m.resnet x (m.encodedBatch spec).1) (m.encodedBatch spec).2 h
        (finProdFinEquiv (b, t))) c f)) = m.maskOf (fun f => spec b f t) y f := by
  have h' : m.decoder.length <
      ((m.encodedBatch spec).2.map fun out (_ : Unit) => out (finProdFinEquiv (b, t))).length := by
    rwa [List.length_map]
  have hdecode := decode_reindex m.resnet (fun _ : Unit => finProdFinEquiv (b, t)) m.decoder
    (residual m.resnet x (m.encodedBatch spec).1) (m.encodedBatch spec).2 h h'
  rw [← residual_reindex, hy] at hdecode
  have hencoded := m.encoded_batch spec b t
  have hfirst : (residual m.resnet (fun _ : Unit => m.rfPost fun c f => y f c)
      fun _ => (m.encodedBatch spec).1 (finProdFinEquiv (b, t))) =
      residual m.resnet (fun _ => m.rfPost fun c f => y f c)
        (m.encoded fun f => spec b f t).1 := by
    rw [hencoded]
  have hrow := (congrFun hdecode ()).symm.trans (congrFun (decode_congr hfirst
    (congrArg Prod.snd hencoded).symm h' (m.decoder_lt _)) ())
  funext c
  rw [hrow]
  rfl

include hlen

theorem modelForward_eq :
    (∀ t f, (m.modelForward spec caches).1 b f t = Mealy.output m.maskStep
      (caches.map (rowsOf b)) (fun t f => spec b f t) t f) ∧
    (m.modelForward spec caches).2.map (rowsOf b) = Mealy.final m.maskStep
      (caches.map (rowsOf b)) fun t f => spec b f t := by
  have hcaches : (if caches.isEmpty then m.rfBlock.map fun _ _ _ _ => 0 else caches) = caches := by
    split
    · next hempty =>
        obtain rfl := List.isEmpty_iff.mp hempty
        rw [List.eq_nil_of_length_eq_zero hlen.symm]
        rfl
    · rfl
  have hinput (t : Fin T) : m.blockInput (fun f => spec b f t) = fun f c =>
      m.rfPre ((m.encodedBatch spec).1 (finProdFinEquiv (b, t))) c f := by
    funext f c
    rw [blockInput, encoded_batch]
  obtain ⟨hout, hfinal⟩ := runBlocks_eq hlen
    (fun t b f c => m.rfPre ((m.encodedBatch spec).1 (finProdFinEquiv (b, t))) c f) b
  refine ⟨fun t f => ?_, ?_⟩
  · rw [maskStep, Mealy.output_wrap]
    simp only [hinput]
    rw [← hout]
    simp only [modelForward, hcaches, split]
    refine m.maskOf_batch spec b _ t ?_ _ f
    rw [merge_apply]
    rfl
  · rw [maskStep, Mealy.final, Mealy.state_wrap]
    simp only [hinput]
    simp only [modelForward, hcaches, split]
    exact hfinal

end Batch

section Forward

variable (spec : Fin B → Fin (bins + 1) → Fin T → Fin 2 → α)
  {caches : List (Fin 1 → Fin (B * rfFreq) → Fin rfCh → α)}
  (hlen : caches.length = m.rfBlock.length) (b : Fin B)

include hlen in
/-- The network on a batch, by the step of one frame of one stream. -/
theorem forward_eq :
    (∀ t f, (m.forward spec caches).1 b f t = Mealy.output m.step (caches.map (rowsOf b))
      (fun t f => spec b f t) t f) ∧
    (m.forward spec caches).2.map (rowsOf b) = Mealy.final m.step (caches.map (rowsOf b))
      fun t f => spec b f t := by
  obtain ⟨hout, hfinal⟩ := m.modelForward_eq
    (fun b f t => m.compress (spec b f.castSucc t)) hlen b
  refine ⟨fun t f => ?_, ?_⟩
  · rw [step, Mealy.output_wrap]
    refine Fin.lastCases ?_ (fun f => ?_) f
    · simp only [forward, applyMask, Fin.snoc_last]
    · simp only [forward, applyMask, Fin.snoc_castSucc]
      rw [hout]
      rfl
  · rw [step, Mealy.final, Mealy.state_wrap]
    exact hfinal

omit hlen in
/-- A network without hidden states starts from zeros. -/
theorem forward_nil :
    m.forward spec [] = m.forward spec (m.rfBlock.map fun _ _ _ _ => (0 : α)) := by
  simp only [forward, modelForward, ite_self, List.isEmpty_nil, if_true]

/-- `forward` on a batch of one stream and one frame. -/
def single (z : Fin (bins + 1) → Fin 2 → α) (rows : List (Fin rfFreq → Fin rfCh → α)) :
    (Fin (bins + 1) → Fin 2 → α) × List (Fin rfFreq → Fin rfCh → α) :=
  let (y, caches) := m.forward (fun (_ : Fin 1) f (_ : Fin 1) => z f)
    (rows.map fun rows (_ : Fin 1) => merge fun _ : Fin 1 => rows)
  (fun f => y 0 f 0, caches.map (rowsOf 0))

theorem single_eq (z : Fin (bins + 1) → Fin 2 → α) {rows : List (Fin rfFreq → Fin rfCh → α)}
    (hrows : rows.length = m.rfBlock.length) : m.single z rows = m.step z rows := by
  have hlen : (rows.map fun rows (_ : Fin 1) => merge fun _ : Fin 1 => rows).length =
      m.rfBlock.length := by rwa [List.length_map]
  have hback : (rows.map fun rows (_ : Fin 1) => merge fun _ : Fin 1 => rows).map (rowsOf 0) =
      rows := by
    rw [List.map_map]
    refine (List.map_congr_left fun h _ => ?_).trans (List.map_id rows)
    funext f
    simp only [Function.comp_apply, rowsOf, split_apply, merge_apply, id]
  obtain ⟨hout, hfinal⟩ := m.forward_eq (fun (_ : Fin 1) f (_ : Fin 1) => z f) hlen 0
  rw [hback] at hout hfinal
  refine Prod.ext ?_ ?_
  · funext f
    exact (hout 0 f).trans (congrFun (Mealy.output_one m.step rows fun _ f => z f) f)
  · exact hfinal.trans (Mealy.final_one m.step rows fun _ f => z f)

theorem step_length (z : Fin (bins + 1) → Fin 2 → α) {rows : List (Fin rfFreq → Fin rfCh → α)}
    (hrows : rows.length = m.rfBlock.length) : (m.step z rows).2.length = m.rfBlock.length := by
  have hchain := Mealy.chain_length
    (hrows.trans (List.length_map (f := RNNFormerBlock.step) ..).symm)
    (m.blockInput (m.compressFrame z))
  rwa [List.length_map] at hchain

include hlen in
/-- A batch is its streams, and a stream its frames: what the network gives a stream of a batch is
what it gives the frames of the stream one by one, each in a batch of its own with the caches the
frame before it left. -/
theorem forward_single :
    (∀ t f, (m.forward spec caches).1 b f t = Mealy.output m.single (caches.map (rowsOf b))
      (fun t f => spec b f t) t f) ∧
    (m.forward spec caches).2.map (rowsOf b) = Mealy.final m.single (caches.map (rowsOf b))
      fun t f => spec b f t := by
  obtain ⟨hout, hfinal⟩ := m.forward_eq spec hlen b
  have hrows : (caches.map (rowsOf b)).length = m.rfBlock.length := by rwa [List.length_map]
  have hagree (z : Fin (bins + 1) → Fin 2 → α) (rows : List (Fin rfFreq → Fin rfCh → α))
      (h : rows.length = m.rfBlock.length) :
      m.step z rows = m.single z rows ∧ (m.step z rows).2.length = m.rfBlock.length :=
    ⟨(m.single_eq z h).symm, m.step_length z h⟩
  refine ⟨fun t f => ?_, ?_⟩
  · rw [hout, Mealy.output_congr hagree hrows]
  · rw [hfinal]
    exact (Mealy.state_congr hagree hrows _ _).1

end Forward

end ONNXModel

/-! ## A network that counts -/

section Counting

/-- A block that adds up its rows. -/
noncomputable def countingBlock {freq channels : ℕ} : RNNFormerBlock ℝ freq channels where
  rnnPreNorm x := x
  cell x h := fun c => x c + h c
  rnnFc x := x
  rnnPostNorm x := x
  rnnAct x := x
  pe := none
  attnPreNorm x := x
  attn x := x
  attnFc x := x
  attnPostNorm x := x
  attnAct x := x

/-- One bin, one channel, one layer on each side and one block. -/
noncomputable def countingModel : ONNXModel ℝ 1 1 1 1 1 where
  inputCompression := ((3 / 10 : ℚ) : ℝ)
  encPre z := fun _ f => z 0 f
  encoder := [id]
  rfPre x := x
  rfBlock := [countingBlock]
  rfPost x := x
  decoder := [fun x c => x (Fin.castAdd 1 c)]
  decPost x := fun _ f => x 0 f
  mask x := x
  resnet := false
  decoder_length := rfl

/-- Two streams of three frames. -/
theorem forward_single_two :
    (∀ t f, (countingModel.forward (fun (b : Fin 2) _ (t : Fin 3) _ => ((b : ℕ) + (t : ℕ) : ℝ))
        [fun _ _ _ => 0]).1 1 f t =
      Mealy.output countingModel.single [rowsOf (1 : Fin 2) fun _ _ _ => 0]
        (fun t _ _ => ((1 : Fin 2) : ℕ) + (t : ℕ)) t f) ∧
    (countingModel.forward (fun (b : Fin 2) _ (t : Fin 3) _ => ((b : ℕ) + (t : ℕ) : ℝ))
        [fun _ _ _ => 0]).2.map (rowsOf 1) =
      Mealy.final countingModel.single [rowsOf (1 : Fin 2) fun _ _ _ => 0]
        fun (t : Fin 3) _ _ => ((1 : Fin 2) : ℕ) + (t : ℕ) :=
  countingModel.forward_single _ rfl 1

end Counting

end VoxLattice.Upstream
