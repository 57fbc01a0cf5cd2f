import VoxLattice.Server.Session

/-!
# The single-stream pipeline

`StreamingPipeline` runs the model on one stream, hop by hop, and gives each enhanced hop the
interval of the source hop before it.  `infer` is what `infer_batch` returns for a batch of one
row: the row and the caches.

`advance` is `push` where it does not raise, and `run` feeds a list of hops to it.  `answers`
treats work items of the scheduler: a hop is pushed, and the item of a terminal flush flushes
the pipeline.
-/

namespace VoxLattice.Server

variable {κ : Type*}

/-- `EnhancedHop`. -/
structure EnhancedHop where
  startSample : Nat
  samples : Tensor
  validSamples : Nat

/-- The event the scheduler would emit for a hop. -/
def EnhancedHop.encode (hop : EnhancedHop) : OutputAudio :=
  ⟨hop.startSample, float32ToPcm16le hop.samples, hop.validSamples⟩

/-- `StreamingPipeline`. -/
structure StreamingPipeline (κ : Type*) where
  caches : κ
  /-- `_pending`. -/
  pending : Option SourceHop
  /-- `_closed`. -/
  closed : Bool

namespace StreamingPipeline

variable (infer : Tensor → κ → Tensor × κ)

/-- `StreamingPipeline.__init__`. -/
def new (initializeStream : κ) : StreamingPipeline κ := ⟨initializeStream, none, false⟩

/-- The enhanced hop of a delayed source hop, from the row of the model. -/
def enhanced (wav : Tensor) (previous : SourceHop) : EnhancedHop :=
  ⟨previous.startSample, wav.take previous.validSamples, previous.validSamples⟩

/-- `push`. -/
def push (p : StreamingPipeline κ) (source : SourceHop) :
    Except PyError (Option EnhancedHop × StreamingPipeline κ) :=
  if p.closed then .error (.runtime "pipeline is closed")
  else if source.samples.length ≠ hopSamples then
    .error (.value "source hop must contain exactly 256 padded samples")
  else
    let (wav, caches) := infer source.samples p.caches
    .ok (p.pending.map (enhanced wav), { p with caches, pending := some source })

/-- `flush`. -/
def flush (p : StreamingPipeline κ) : Option EnhancedHop × StreamingPipeline κ :=
  if p.closed then (none, p)
  else
    let p := { p with closed := true }
    match p.pending with
    | none => (none, p)
    | some pending =>
      let (wav, caches) := infer (List.replicate hopSamples 0) p.caches
      (some (enhanced wav pending), { p with caches, pending := none })

/-- Feed hops to `push`, in order, and collect what it returns. -/
def feed (p : StreamingPipeline κ) :
    List SourceHop → Except PyError (List EnhancedHop × StreamingPipeline κ)
  | [] => .ok ([], p)
  | source :: rest => do
    let (hop, p') ← p.push infer source
    let (hops, p'') ← feed p' rest
    return (hop.toList ++ hops, p'')

/-- `push` where it does not raise. -/
def advance (p : StreamingPipeline κ) (source : SourceHop) :
    Option EnhancedHop × StreamingPipeline κ :=
  (p.pending.map (enhanced (infer source.samples p.caches).1),
    { p with caches := (infer source.samples p.caches).2, pending := some source })

/-- `feed` where it does not raise. -/
def run (p : StreamingPipeline κ) : List SourceHop → List EnhancedHop × StreamingPipeline κ
  | [] => ([], p)
  | source :: rest =>
    ((p.advance infer source).1.toList ++ (run (p.advance infer source).2 rest).1,
      (run (p.advance infer source).2 rest).2)

/-- The step of the pipeline that corresponds to a work item. -/
def answer (p : StreamingPipeline κ) (work : ModelWork) :
    Option EnhancedHop × StreamingPipeline κ :=
  match work.source with
  | some source => p.advance infer source
  | none => p.flush infer

/-- The steps that correspond to the work items of a stream, in order. -/
def answers (p : StreamingPipeline κ) : List ModelWork → List EnhancedHop × StreamingPipeline κ
  | [] => ([], p)
  | work :: rest =>
    ((p.answer infer work).1.toList ++ (answers (p.answer infer work).2 rest).1,
      (answers (p.answer infer work).2 rest).2)

variable {infer}

/-- An open pipeline never raises on hops of the model's size. -/
theorem feed_eq_run {p : StreamingPipeline κ} (hopen : p.closed = false) {hops : List SourceHop}
    (hshape : ∀ hop ∈ hops, hop.samples.length = hopSamples) :
    p.feed infer hops = .ok (p.run infer hops) := by
  induction hops generalizing p with
  | nil => rfl
  | cons source rest ih =>
      have hsource : ¬ source.samples.length ≠ hopSamples :=
        not_not.mpr (hshape source List.mem_cons_self)
      have hpush : p.push infer source = .ok (p.advance infer source) := by
        simp only [push, hopen, Bool.false_eq_true, if_false, if_neg hsource, advance]
      have hrest := ih (p := (p.advance infer source).2) hopen fun hop hmem =>
        hshape hop (List.mem_cons_of_mem _ hmem)
      simp only [feed, hpush, bind, Except.bind, hrest]
      rfl

theorem answers_append (p : StreamingPipeline κ) (works works' : List ModelWork) :
    p.answers infer (works ++ works') =
      ((p.answers infer works).1 ++ ((p.answers infer works).2.answers infer works').1,
        ((p.answers infer works).2.answers infer works').2) := by
  induction works generalizing p with
  | nil => rfl
  | cons work rest ih => simp only [List.cons_append, answers, ih, List.append_assoc]

theorem answers_mono (p : StreamingPipeline κ) {works works' : List ModelWork}
    (h : works <+: works') : (p.answers infer works).1 <+: (p.answers infer works').1 := by
  obtain ⟨more, rfl⟩ := h
  rw [answers_append]
  exact List.prefix_append _ _

@[simp] theorem answers_singleton (p : StreamingPipeline κ) (work : ModelWork) :
    p.answers infer [work] = ((p.answer infer work).1.toList, (p.answer infer work).2) := by
  simp only [answers, List.append_nil]

/-- Hops are pushed. -/
theorem answers_ofSource (p : StreamingPipeline κ) (hops : List SourceHop) :
    p.answers infer (hops.map .ofSource) = p.run infer hops := by
  induction hops generalizing p with
  | nil => rfl
  | cons source rest ih =>
      simp only [List.map_cons, answers, ih]
      rfl

/-- The flush comes after the hops. -/
theorem answers_flushed (p : StreamingPipeline κ) (hops : List SourceHop) :
    (p.answers infer (hops.map .ofSource ++ [.flush])).1 =
      (p.run infer hops).1 ++ ((p.run infer hops).2.flush infer).1.toList := by
  rw [answers_append, answers_ofSource, answers_singleton]
  rfl

end StreamingPipeline

end VoxLattice.Server
