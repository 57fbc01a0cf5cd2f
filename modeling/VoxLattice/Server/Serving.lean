import VoxLattice.Server.Isolation
import VoxLattice.Server.Model
import VoxLattice.Server.Refinement

/-!
# The streaming model in the server

`FastEnhancerBStreamingModel` is a model the scheduler may run: its streams start with the caches of
`initialize_stream`, and what inference returns is what `infer_batch` returns.  It works row by row,
so that what holds of any such model holds of it.

`Served` is the invariant of the server with this model: the caches of every session are those the
model left, and they and the work items in inference have the shapes that `infer_batch` checks.  So
inference can fail on one check only, the one of the numbers it is about to return.

`offline` is the network on a whole signal: every frame of the signal in one batch of one stream.
`emitted_offline` says that the server, which runs the network hop by hop and in batches with other
streams, emits this.
-/

namespace VoxLattice.Server

open Tensors Upstream

variable {α : Type} [Elements α] {channels width : ℕ}

/-- The numbers of a row that `infer_batch` returns. -/
def numbers (row : List α) : Tensor := row.map fun x => (Elements.value x).getD 0

/-! ## What `infer_batch` was given -/

/-- A computation that returned, every part of it returned. -/
theorem bind_eq_ok {ε β γ : Type} {x : Except ε β} {f : β → Except ε γ} {c : γ}
    (h : x >>= f = .ok c) : ∃ b, x = .ok b ∧ f b = .ok c := by
  cases x with
  | error e => cases h
  | ok b => exact ⟨b, rfl, h⟩

omit [Elements α] in
theorem layout_of_forM {cs : List (StreamCaches α)}
    (h : cs.forM (StreamCaches.assertLayout 1) = .ok ()) : ∀ c ∈ cs, c.Layout 1 := by
  induction cs with
  | nil => exact fun c hc => absurd hc List.not_mem_nil
  | cons c cs ih =>
      change (StreamCaches.assertLayout 1 c >>= fun _ =>
        cs.forM (StreamCaches.assertLayout 1)) = _ at h
      obtain ⟨⟨⟩, hfirst, hrest⟩ := bind_eq_ok h
      exact List.forall_mem_cons.mpr ⟨StreamCaches.assertLayout_ok_iff.mp hfirst, ih hrest⟩

omit [Elements α] in
theorem combineStreamCaches_inv {cs : List (StreamCaches α)} {caches : StreamCaches α}
    (h : combineStreamCaches cs = .ok caches) : cs ≠ [] ∧ ∀ c ∈ cs, c.Layout 1 := by
  unfold combineStreamCaches at h
  dsimp only at h
  split at h
  · cases h
  · next hempty =>
      obtain ⟨⟨⟩, hlayout, -⟩ := bind_eq_ok h
      exact ⟨fun hnil => hempty (List.isEmpty_iff.mpr hnil), layout_of_forM hlayout⟩

namespace FastEnhancerBStreamingModel

variable (model : FastEnhancerBStreamingModel α channels width)

/-- Where `infer_batch` returned, it was given what it checks. -/
theorem shaped_of_ok {hops : List Tensor} {cs : List (StreamCaches α)}
    {result : List (List α) × List (StreamCaches α)} (h : model.inferBatch hops cs = .ok result) :
    Shaped hops cs := by
  unfold inferBatch at h
  dsimp only at h
  split at h
  · cases h
  · next hshape =>
      obtain ⟨caches, hcombine, -⟩ := bind_eq_ok h
      obtain ⟨hne, hlayout⟩ := combineStreamCaches_inv hcombine
      rw [not_or, not_not] at hshape
      exact ⟨hne, hshape.1, fun row hrow => by_contra fun hne => hshape.2 ⟨row, hrow, hne⟩,
        hlayout⟩

/-! ## A model of the scheduler -/

/-- What `infer_batch` does for one stream, in numbers. -/
def infer (hop : Tensor) (caches : StreamCaches α) : Tensor × StreamCaches α :=
  (numbers (model.rowStep hop caches).1, (model.rowStep hop caches).2)

/-- The model as the scheduler sees it. -/
def streamingModel : StreamingModel (StreamCaches α) where
  modelName := model.modelName
  modelRevision := model.modelRevision
  checkpointSha256 := model.checkpointSha256
  cudaDeviceName := model.cudaDeviceName
  initializeStream := model.initialCaches
  returns hops caches wav updated :=
    ∃ rows, model.inferBatch hops caches = .ok (rows, updated) ∧ wav = rows.map numbers

/-- What `infer_batch` returns for a batch, when it returns. -/
theorem returns_eq {hops wav : List Tensor} {cs updated : List (StreamCaches α)}
    (h : model.streamingModel.returns hops cs wav updated) :
    Shaped hops cs ∧ (∀ out ∈ model.rowSteps hops cs, ∀ x ∈ out.1, isFinite x = true) ∧
      wav = (model.rowSteps hops cs).map (fun out => numbers out.1) ∧
      updated = (model.rowSteps hops cs).map Prod.snd := by
  obtain ⟨rows, hok, rfl⟩ := h
  have hshaped := model.shaped_of_ok hok
  rw [model.inferBatch_eq hshaped] at hok
  split at hok
  · cases hok
  · next hfinite =>
      rw [List.unzip_eq_map] at hok
      obtain ⟨rfl, rfl⟩ := Prod.mk.inj (Except.ok.inj hok)
      refine ⟨hshaped, fun out hout x hx => ?_, by rw [List.map_map]; rfl, rfl⟩
      by_contra hbad
      exact hfinite ⟨out, hout, x, hx, Bool.not_eq_true _ ▸ hbad⟩

/-- The model gives a row of a hop's samples and caches for each stream of a batch. -/
theorem rowPerStream : model.streamingModel.RowPerStream := by
  intro hops cs wav updated _ hreturns
  obtain ⟨hshaped, -, rfl, rfl⟩ := model.returns_eq hreturns
  rw [List.length_map, List.length_map, model.rowSteps_length hshaped, hshaped.count]
  refine ⟨rfl, fun row hrow => ?_, rfl⟩
  obtain ⟨out, hout, rfl⟩ := List.mem_map.mp hrow
  rw [numbers, List.length_map]
  exact (model.rowSteps_layout hshaped out hout).1

/-- The model works row by row. -/
theorem rowwise : model.streamingModel.Rowwise model.infer := by
  intro hops cs wav updated _ hreturns
  obtain ⟨-, -, rfl, rfl⟩ := model.returns_eq hreturns
  constructor
  · rw [rowSteps, List.map_zipWith]
    rfl
  · rw [rowSteps, List.map_zipWith]
    rfl

end FastEnhancerBStreamingModel

/-! ## What a round does to the caches -/

section Caches

variable {κ : Type*}

/-- What a round does to the caches of a stream and to the work items that reached it. -/
inductive CacheRound (env : Env κ) (st : Stream κ) :
    Option (Flight κ) → Stream κ → Option (Flight κ) → Prop where
  | same {fl st' fl'} (hcaches : st'.session.caches = st.session.caches)
      (happlied : st'.history.applied = st.history.applied) (hfl : ∀ flight ∈ fl', flight ∈ fl) :
      CacheRound env st fl st' fl'
  | take {st' i work} (hcaches : st'.session.caches = st.session.caches)
      (happlied : st'.history.applied = st.history.applied) (halive : st.Alive)
      (hmem : work ∈ st.session.inputQueue.items) :
      CacheRound env st none st' (some ⟨i, work, st.session.caches⟩)
  | apply {st' flight row} (hres : env.answers flight row (some st'.session.caches))
      (halive : st.Alive) (happlied : st'.history.applied = st.history.applied ++ [flight.work]) :
      CacheRound env st (some flight) st' none

variable {settings : ServerSettings} {env : Env κ} {st st' : Stream κ}
  {fl fl' : Option (Flight κ)}

/-- A round that the scheduler's side does not see. -/
theorem CacheRound.off {st₁ : Stream κ} (h : st'.schedulerSide = st₁.schedulerSide)
    (hcaches : st₁.session.caches = st.session.caches)
    (happlied : st₁.history.applied = st.history.applied) : CacheRound env st fl st' fl :=
  .same ((congrArg SchedulerSide.caches h).trans hcaches)
    ((congrArg SchedulerSide.applied h).trans happlied) fun _ hmem => hmem

theorem alive_of_not {st : Stream κ}
    (h : (st.session.cancelled || st.session.ended) = false) : st.Alive :=
  ⟨(alive_iff.mp h).1, (alive_iff.mp h).2⟩

theorem finishHop_schedulerSide (work : ModelWork) (st : Stream κ) (m : Metrics) :
    (finishHop work st m).1.1.schedulerSide = st.schedulerSide := by
  unfold finishHop
  split
  · exact complete_schedulerSide true st m
  · rfl

theorem Landed.caches {work : ModelWork} {row : Option Bytes} {updated : Option κ}
    (hl : Landed work row updated st st') :
    st' = st ∨ st.Alive ∧ updated = some st'.session.caches ∧
      st'.history.applied = st.history.applied ++ [work] := by
  cases hl with
  | dead _ => exact .inl rfl
  | silent caches m h hu _ =>
      have hside := finishHop_schedulerSide work (st.advances work caches) m
      exact .inr ⟨alive_of_not h, hu.trans (congrArg (some ·.caches) hside).symm,
        congrArg SchedulerSide.applied hside⟩
  | full caches previous _ m h hu _ _ _ => exact .inr ⟨alive_of_not h, hu, rfl⟩
  | emitted caches previous bytes outputQueue m h hu _ _ _ =>
      have hside := finishHop_schedulerSide work
        ((st.advances work caches).emits (.ofRow previous bytes) outputQueue) m
      exact .inr ⟨alive_of_not h, hu.trans (congrArg (some ·.caches) hside).symm,
        congrArg SchedulerSide.applied hside⟩

/-- Every round, where the model returns a row and caches for every work item. -/
theorem StreamRound.caches (hres : ∀ flight row updated, env.answers flight row updated →
    row.isSome = true ∧ updated.isSome = true) (hr : StreamRound settings env st fl st' fl') :
    CacheRound env st fl st' fl' := by
  cases hr with
  | read message m _ => exact .off (readMessage_offReader _ _ message st m).schedulerSide rfl rfl
  | eof m _ => exact .off (readEof_offReader _ st m).schedulerSide rfl rfl
  | readFail failure m _ => exact .off (failReader_offReader failure st m).schedulerSide rfl rfl
  | put scheduled m _ _ => exact .off (afterPut_offReader _ m).schedulerSide rfl rfl
  | putOverflow scheduled m _ _ => exact .same rfl rfl fun _ hmem => hmem
  | afterAccepted m _ => exact .same rfl rfl fun _ hmem => hmem
  | afterAudio m _ => exact .same rfl rfl fun _ hmem => hmem
  | handle m m' _ hget hh =>
      exact .off (handleEvent_offGenerator hh).schedulerSide rfl rfl
  | handleRaise m m' _ _ _ => exact .same rfl rfl fun _ hmem => hmem
  | finish m _ => exact .same rfl rfl fun _ hmem => hmem
  | take m =>
      have ht := takeWork_taken st m
      generalize takeWork st m = next at ht ⊢
      obtain ⟨⟨st', m'⟩, work⟩ := next
      cases ht with
      | dead _ => exact .same rfl rfl fun _ hmem => hmem
      | idle _ _ => exact .same rfl rfl fun _ hmem => hmem
      | ends work inputQueue m _ _ _ =>
          exact .off (complete_schedulerSide false _ m) rfl rfl
      | joins work inputQueue h hget _ =>
          obtain ⟨hitems, -⟩ := BoundedQueue.getNowait_eq_some hget
          exact .take rfl rfl (alive_of_not h) (hitems ▸ List.mem_cons_self)
  | apply m hanswers ho scheduled =>
      obtain heq | ⟨halive, hu, happlied⟩ := (applyResult_landed ho).caches
      · refine .same ?_ ?_ ?_
        · rw [heq]
          rfl
        · rw [heq]
          rfl
        · rintro _ ⟨⟩
      · rw [hu] at hanswers
        exact .apply hanswers halive happlied
  | applyRaised m hanswers ho =>
      obtain ⟨hrow, hupdated⟩ := hres _ _ _ hanswers
      exact absurd ho (applyResult_ne_raised hrow hupdated st m)
  | fail m =>
      refine .same rfl rfl ?_
      rintro _ ⟨⟩

/-- A round under a stronger assumption on what the model returns. -/
theorem StreamRound.mono {env' : Env κ}
    (hle : ∀ flight row updated, env'.answers flight row updated → env.answers flight row updated)
    (hr : StreamRound settings env' st fl st' fl') : StreamRound settings env st fl st' fl' := by
  cases hr with
  | read message m hr => exact .read message m hr
  | eof m hr => exact .eof m hr
  | readFail failure m hr => exact .readFail failure m hr
  | put scheduled m hw hq => exact .put scheduled m hw hq
  | putOverflow scheduled m hw hq => exact .putOverflow scheduled m hw hq
  | afterAccepted m he => exact .afterAccepted m he
  | afterAudio m he => exact .afterAudio m he
  | handle m m' he hget hh => exact .handle m m' he hget hh
  | handleRaise m m' he hget hh => exact .handleRaise m m' he hget hh
  | finish m he => exact .finish m he
  | take m => exact .take m
  | apply m hres ho scheduled => exact .apply m (hle _ _ _ hres) ho scheduled
  | applyRaised m hres ho => exact .applyRaised m (hle _ _ _ hres) ho
  | fail m => exact .fail m

theorem LocalInvariant.mono {env' : Env κ} {model : StreamingModel κ}
    {P : Stream κ → Option (Flight κ) → Prop}
    (hle : ∀ flight row updated, env'.answers flight row updated → env.answers flight row updated)
    (h : LocalInvariant settings model env P) : LocalInvariant settings model env' P where
  admitted := h.admitted
  unannounced := h.unannounced
  refused := h.refused
  round st fl st' fl' hP hr := h.round st fl st' fl' hP (hr.mono hle)

end Caches

/-! ## The shapes and the numbers -/

namespace FastEnhancerBStreamingModel

variable (model : FastEnhancerBStreamingModel α channels width)

/-- The steps of the model over the work items of a stream. -/
def steps (works : List ModelWork) : List (List α) × StreamCaches α :=
  Mealy.run model.rowStep model.initialCaches (works.map ModelWork.samples)

theorem steps_concat (works : List ModelWork) (work : ModelWork) :
    model.steps (works ++ [work]) =
      ((model.steps works).1 ++ [(model.rowStep work.samples (model.steps works).2).1],
        (model.rowStep work.samples (model.steps works).2).2) := by
  rw [steps, List.map_append, Mealy.run_append]
  rfl

/-- A stream whose caches are those the model left, and whose work in inference has the shapes that
`infer_batch` checks.  Every row it got was finite. -/
structure Served (st : Stream (StreamCaches α)) (fl : Option (Flight (StreamCaches α))) : Prop where
  layout : st.session.caches.Layout 1
  flight : ∀ flight ∈ fl, flight.caches = st.session.caches ∧
    flight.work.samples.length = hopSamples
  state : (model.steps st.history.applied).2 = st.session.caches
  finite : ∀ row ∈ (model.steps st.history.applied).1, ∀ x ∈ row, isFinite x = true

/-- What `infer_batch` answers a work item. -/
def served : Env (StreamCaches α) where
  answers flight row updated := (Env.rowwise model.infer).answers flight row updated ∧
    model.Finite flight.work.samples flight.caches
  opens _ _ := True

theorem delivers : model.streamingModel.Delivers model.served := by
  intro active wav updated hreturns j flight hj
  obtain ⟨hshaped, hfinite, -, -⟩ := model.returns_eq hreturns
  refine ⟨model.rowwise.delivers active wav updated hreturns j flight hj, fun x hx => ?_⟩
  refine hfinite (model.rowStep flight.work.samples flight.caches) ?_ x hx
  refine List.mem_of_getElem? (i := j) ?_
  rw [rowSteps, List.getElem?_zipWith, List.getElem?_map, List.getElem?_map, hj]
  rfl

variable {model} {settings : ServerSettings} {st st' : Stream (StreamCaches α)}
  {fl fl' : Option (Flight (StreamCaches α))}

omit [Elements α] in
/-- The work that waits at a live stream is of the size of a hop. -/
theorem waiting_size {work : ModelWork} (hintake : Intake settings st) (hbacklog : Backlog st fl)
    (halive : st.Alive) (hmem : work ∈ st.session.inputQueue.items) :
    work.samples.length = hopSamples := by
  obtain ⟨before, after, last, hw⟩ := hbacklog.working halive.cancelled halive.ended
  have hwaiting : work ∈ after.map ModelWork.ofSource ++ ending last :=
    hw.waiting ▸ List.mem_append_right _ hmem
  rcases List.mem_append.mp hwaiting with hsource | hending
  · obtain ⟨hop, hhop, rfl⟩ := List.mem_map.mp hsource
    refine (hintake.shape hop ?_).1
    rw [hw.hops]
    exact List.mem_append_left _ (List.mem_append_right _ hhop)
  · cases last with
    | none => cases hending
    | some flush =>
        cases flush with
        | false =>
            obtain rfl := List.mem_singleton.mp hending
            exact List.length_replicate
        | true =>
            obtain rfl := List.mem_singleton.mp hending
            exact List.length_replicate

theorem Served.round (h : model.Served st fl) (hintake : Intake settings st)
    (hbacklog : Backlog st fl) (hr : CacheRound model.served st fl st' fl') :
    model.Served st' fl' := by
  cases hr with
  | same hcaches happlied hfl =>
      refine ⟨hcaches ▸ h.layout, fun flight hmem => ?_, ?_, ?_⟩
      · rw [hcaches]
        exact h.flight flight (hfl flight hmem)
      · rw [hcaches, happlied]
        exact h.state
      · rw [happlied]
        exact h.finite
  | take hcaches happlied halive hmem =>
      refine ⟨hcaches ▸ h.layout, fun flight hflight => ?_, ?_, ?_⟩
      · obtain rfl := Option.mem_some_iff.mp hflight
        exact ⟨hcaches.symm, waiting_size hintake hbacklog halive hmem⟩
      · rw [hcaches, happlied]
        exact h.state
      · rw [happlied]
        exact h.finite
  | @apply _ flight row hres halive happlied =>
      obtain ⟨⟨-, hupdated⟩, hfinite⟩ := hres
      obtain ⟨hcaches, hsize⟩ := h.flight flight rfl
      have hnext := Option.some.inj hupdated
      change st'.session.caches = (model.rowStep flight.work.samples flight.caches).2 at hnext
      have hsteps := model.steps_concat st.history.applied flight.work
      rw [h.state, ← hcaches] at hsteps
      refine ⟨?_, by rintro _ ⟨⟩, ?_, ?_⟩
      · rw [hnext]
        exact (model.rowStep_layout hsize (hcaches ▸ h.layout)).2
      · rw [happlied, hsteps, hnext]
      · rw [happlied, hsteps]
        refine List.forall_mem_append.mpr ⟨h.finite, fun row hrow => ?_⟩
        obtain rfl := List.mem_singleton.mp hrow
        exact hfinite

theorem served_start {st : Stream (StreamCaches α)}
    (hcaches : st.session.caches = model.initialCaches) (happlied : st.history.applied = []) :
    model.Served st none := by
  refine ⟨?_, by rintro _ ⟨⟩, ?_, ?_⟩
  · rw [hcaches]
    exact model.initialCaches_layout
  · rw [hcaches, happlied]
    rfl
  · rw [happlied]
    exact fun row hrow => absurd hrow List.not_mem_nil

variable (model settings) in
/-- The invariant of the server with the model, beside the simulation of the pipeline. -/
theorem served_invariant : LocalInvariant settings model.streamingModel model.served fun st fl =>
    ((Intake settings st ∧ Backlog st fl) ∧ Refines model.infer model.initialCaches st fl) ∧
      model.Served st fl := by
  have hrefines : LocalInvariant settings model.streamingModel model.served _ :=
    (refines_invariant settings model.streamingModel model.infer).mono fun _ _ _ h => h.1
  refine hrefines.and (fun start => served_start rfl rfl) (fun start => served_start rfl rfl)
    (fun start violation => served_start rfl rfl)
    fun st fl st' fl' hinv h hr => ?_
  exact h.round hinv.1.1 hinv.1.2 (hr.caches fun flight row updated hres => rowwise_answer hres.1)

end FastEnhancerBStreamingModel

/-! ## The batch in inference -/

section Batch

variable {κ : Type*} {settings : ServerSettings} {s : ServerState κ}

/-- A batch that is answered leaves the scheduler at its queue, or stopped. -/
theorem applyBatch_isInference (pcmHops : List Bytes) (updated : List κ) (index : Nat)
    (active : List (Flight κ)) (s : ServerState κ) :
    (applyBatch pcmHops updated index active s).loop.isInference = false := by
  induction active generalizing index s with
  | nil => rfl
  | cons flight rest ih =>
      rw [applyBatch]
      split
      · exact ih _ _
      · dsimp only
        split
        · exact ih _ _
        · rfl
        · split
          · exact ih _ _
          · rfl

/-- The scheduler runs no inference for nothing. -/
theorem inference_nonempty {model : StreamingModel κ} (h : (system settings model).Reachable s)
    {active : List (Flight κ)} (hloop : s.loop = .inference active) : active ≠ [] := by
  have hinv : s.loop ≠ .inference [] := by
    refine h.invariant (I := fun s => s.loop ≠ .inference []) (by rintro ⟨⟩)
      fun s e s' hs hstep => ?_
    have hstep : step settings model s e = some s' := hstep.eq
    cases step_cases hstep with
    | enhance first => rwa [enhance_loop]
    | deliver message _ _ => rwa [onStream_loop]
    | closeInput _ _ => rwa [onStream_loop]
    | idleTimeout _ _ => rwa [onStream_loop]
    | requestError _ _ => rwa [onStream_loop]
    | put h => rwa [(put_loop h).1]
    | resume h => rwa [(resume_loop h).1]
    | cancelCall _ _ => rwa [finish_loop]
    | gatherFirst _ _ => rintro ⟨⟩
    | gatherNext _ _ _ => rintro ⟨⟩
    | @dispatch sessions _ =>
        dsimp only [Loop.taken]
        split
        · rintro ⟨⟩
        · next hactive =>
            intro heq
            rw [Loop.inference.inj heq] at hactive
            exact hactive rfl
    | @inferenceReturned active wav updated _ =>
        intro heq
        have hnot := applyBatch_isInference (wav.map float32ToPcm16le) updated 0 active s
        rw [heq] at hnot
        cases hnot
    | inferenceRaised _ =>
        rw [failBatch_loop]
        rintro ⟨⟩
    | closeScheduler => rintro ⟨⟩
  rintro rfl
  exact hinv hloop

/-- A work item in inference is its stream's. -/
theorem flightOf_of_mem {flights : List (Flight κ)} (hnodup : (flights.map Flight.stream).Nodup)
    {flight : Flight κ} (hmem : flight ∈ flights) :
    flightOf flight.stream flights = some flight := by
  induction flights with
  | nil => cases hmem
  | cons first rest ih =>
      obtain ⟨hfirst, hrest⟩ := List.nodup_cons.mp hnodup
      rcases List.mem_cons.mp hmem with rfl | hmem
      · exact flightOf_cons_self
      · rw [flightOf_cons_ne, ih hrest hmem]
        intro heq
        exact hfirst (heq ▸ List.mem_map_of_mem hmem)

end Batch

namespace FastEnhancerBStreamingModel

variable (model : FastEnhancerBStreamingModel α channels width) {settings : ServerSettings}
  {s : ServerState (StreamCaches α)}

/-- The hops of a batch. -/
def batchHops (active : List (Flight (StreamCaches α))) : List Tensor :=
  active.map fun flight => flight.work.samples

/-- The caches of a batch. -/
def batchCaches (active : List (Flight (StreamCaches α))) : List (StreamCaches α) :=
  active.map fun flight => flight.caches

variable {model}

/-- Every batch of the server has the shapes that `infer_batch` checks. -/
theorem reachable_shaped (h : (system settings model.streamingModel).Reachable s)
    {active : List (Flight (StreamCaches α))} (hloop : s.loop = .inference active) :
    Shaped (batchHops active) (batchCaches active) := by
  have hall := reachable_streams model.delivers (fun _ _ => trivial)
    (served_invariant model settings) h
  have hnodup := (reachable_scheduling h).flights_nodup
  rw [hloop] at hall hnodup
  have hserved (flight : Flight (StreamCaches α)) (hmem : flight ∈ active) :
      flight.work.samples.length = hopSamples ∧ flight.caches.Layout 1 := by
    have hknown := hall.known flight hmem
    have hst := hall.each flight.stream _ (List.getElem?_eq_getElem hknown)
    obtain ⟨hcaches, hsize⟩ := hst.2.flight flight (flightOf_of_mem hnodup hmem)
    exact ⟨hsize, hcaches ▸ hst.2.layout⟩
  refine ⟨?_, by rw [batchHops, batchCaches, List.length_map, List.length_map], ?_, ?_⟩
  · intro hnil
    exact inference_nonempty h hloop (List.map_eq_nil_iff.mp hnil)
  · intro row hrow
    obtain ⟨flight, hmem, rfl⟩ := List.mem_map.mp hrow
    exact (hserved flight hmem).1
  · intro caches hcaches
    obtain ⟨flight, hmem, rfl⟩ := List.mem_map.mp hcaches
    exact (hserved flight hmem).2

variable (model) in
/-- What `infer_batch` answers a batch of the right shapes. -/
theorem inferBatch_flights {active : List (Flight (StreamCaches α))}
    (h : Shaped (batchHops active) (batchCaches active)) :
    model.inferBatch (batchHops active) (batchCaches active) =
      if ∀ flight ∈ active, model.Finite flight.work.samples flight.caches then
        .ok (active.map fun flight => (model.rowStep flight.work.samples flight.caches).1,
          active.map fun flight => (model.rowStep flight.work.samples flight.caches).2)
      else .error (.runtime "model produced NaN or infinity") := by
  have hsteps : model.rowSteps (batchHops active) (batchCaches active) =
      active.map fun flight => model.rowStep flight.work.samples flight.caches := by
    rw [rowSteps, batchHops, batchCaches, List.zipWith_map, List.zipWith_self]
  have hiff : (∃ out ∈ model.rowSteps (batchHops active) (batchCaches active),
      ∃ x ∈ out.1, isFinite x = false) ↔
      ¬ ∀ flight ∈ active, model.Finite flight.work.samples flight.caches := by
    rw [hsteps]
    simp only [List.mem_map, exists_exists_and_eq_and, Finite, not_forall, exists_prop,
      Bool.not_eq_true]
  rw [model.inferBatch_eq h]
  by_cases hall : ∀ flight ∈ active, model.Finite flight.work.samples flight.caches
  · rw [if_neg fun hbad => hiff.mp hbad hall, if_pos hall, hsteps, List.unzip_eq_map, List.map_map,
      List.map_map]
    rfl
  · rw [if_pos (hiff.mpr hall), if_neg hall]

/-- In every reachable state, `infer_batch` answers the batch in inference row by row, or it raises
that a number is not finite.  None of its other checks ever fails. -/
theorem reachable_inferBatch (h : (system settings model.streamingModel).Reachable s)
    {active : List (Flight (StreamCaches α))} (hloop : s.loop = .inference active) :
    model.inferBatch (batchHops active) (batchCaches active) =
      if ∀ flight ∈ active, model.Finite flight.work.samples flight.caches then
        .ok (active.map fun flight => (model.rowStep flight.work.samples flight.caches).1,
          active.map fun flight => (model.rowStep flight.work.samples flight.caches).2)
      else .error (.runtime "model produced NaN or infinity") :=
  model.inferBatch_flights (reachable_shaped h hloop)

/-! ## Runs with the model -/

variable (model)

/-- A row, place by place: its length is known before any of it is computed. -/
def spread (row : Tensor) : Tensor := (List.range hopSamples).map fun n => row.getD n 0

theorem spread_eq {row : Tensor} (h : row.length = hopSamples) : spread row = row := by
  refine List.ext_getElem (by simp [spread, h]) fun n hn hn' => ?_
  simp [spread, hn']

/-- Inference returns what the model answers the batch. -/
def answer (s : ServerState (StreamCaches α)) : Event (StreamCaches α) :=
  .inferenceReturned
    (s.loop.flights.map fun flight =>
      spread (numbers (model.rowStep flight.work.samples flight.caches).1))
    (s.loop.flights.map fun flight => (model.rowStep flight.work.samples flight.caches).2)

/-- No end of an inference but the answer of the model. -/
def chosen : ServerState (StreamCaches α) → Event (StreamCaches α) → Bool
  | _, .inferenceReturned _ _ | _, .inferenceRaised => false
  | _, _ => true

variable {model}

theorem allows_answer (hfinite : ∀ hop c, model.Finite hop c)
    (h : (system settings model.streamingModel).Reachable s)
    {s' : ServerState (StreamCaches α)}
    (hs : step settings model.streamingModel s (model.answer s) = some s') :
    allows model.streamingModel s (model.answer s) := by
  rw [answer] at hs ⊢
  cases step_cases hs with
  | @inferenceReturned active _ _ hloop =>
      rw [hloop]
      have hall : ∀ flight ∈ active, model.Finite flight.work.samples flight.caches :=
        fun flight _ => hfinite flight.work.samples flight.caches
      have hok := model.inferBatch_flights (reachable_shaped h hloop)
      rw [if_pos hall] at hok
      refine ⟨active.map fun flight =>
        (model.rowStep flight.work.samples flight.caches).1, ?_, ?_⟩
      · rw [hloop]
        exact hok
      · rw [List.map_map]
        have hshaped := reachable_shaped h hloop
        refine List.map_congr_left fun flight hflight => ?_
        have hlength := (model.rowStep_layout
          (hshaped.widths _ (List.mem_map_of_mem hflight))
          (hshaped.layout _ (List.mem_map_of_mem hflight))).1
        exact spread_eq ((List.length_map _).trans hlength)

variable (settings) in
/-- A run of the model that was evaluated. -/
theorem reachable_of_play (hfinite : ∀ hop c, model.Finite hop c)
    (es : List (Option (Event (StreamCaches α)))) (p : ServerState (StreamCaches α) → Bool)
    (h : (((system settings model.streamingModel).restrict fun _ e => e ≠ .inferenceRaised).play
      model.answer chosen (.init settings) es).any p = true) :
    ∃ s, ((system settings model.streamingModel).restrict
      fun _ e => e ≠ .inferenceRaised).Reachable s ∧ p s = true := by
  refine Lts.System.Reachable.of_play (fun s s' hs hstep => ?_) (fun s e he => ?_) es p h
  · exact ⟨allows_answer hfinite hs.of_restrict hstep, by rintro ⟨⟩⟩
  · cases e with
    | inferenceReturned _ _ => cases he
    | inferenceRaised => cases he
    | _ => exact ⟨trivial, by rintro ⟨⟩⟩

/-- A hop of each of two streams, one of them silent, up to their inference. -/
def twoHops : List (Option (Event (StreamCaches α))) :=
  let opens (j : ℕ) (streamId : String) (pcm : Bytes) : List (Event (StreamCaches α)) :=
    [.enhance (testStart streamId 0), .resume j, .deliver j (.audio ⟨0, 0, pcm⟩), .put j]
  let first := opens 0 "a" (List.replicate 512 64)
  let second := opens 1 "b" (List.replicate 512 0)
  let batch : List (Event (StreamCaches α)) := [.gather, .gather, .dispatch]
  (first ++ second ++ batch).map some

/-- The model answers a batch of two hops. -/
theorem reachable_inferBatch_two : ∃ (s : ServerState (StreamCaches ℝ))
    (active : List (Flight (StreamCaches ℝ))),
    s.loop = .inference active ∧ active.length = 2 ∧
    exactModel.inferBatch (batchHops active) (batchCaches active) =
      if ∀ flight ∈ active, exactModel.Finite flight.work.samples flight.caches then
        .ok (active.map fun flight => (exactModel.rowStep flight.work.samples flight.caches).1,
          active.map fun flight => (exactModel.rowStep flight.work.samples flight.caches).2)
      else .error (.runtime "model produced NaN or infinity") := by
  obtain ⟨s, hr, hp⟩ := reachable_of_play .defaults exactModel_finite twoHops
    (fun s => decide (s.loop.isInference = true ∧ s.loop.flights.length = 2)) (by decide +kernel)
  obtain ⟨hinference, hlength⟩ := of_decide_eq_true hp
  obtain ⟨active, hloop⟩ : ∃ active, s.loop = .inference active := by
    cases hl : s.loop with
    | inference active => exact ⟨active, rfl⟩
    | _ =>
        rw [hl] at hinference
        cases hinference
  rw [hloop] at hlength
  exact ⟨s, active, hloop, hlength, reachable_inferBatch hr.of_restrict hloop⟩

/-! ## Failures -/

variable (model) in
/-- `infer_batch` raises for the batch in inference. -/
def Raises (s : ServerState (StreamCaches α)) : Prop :=
  ∃ error, model.inferBatch (batchHops s.loop.flights) (batchCaches s.loop.flights) = .error error

variable (model) in
/-- The row of a work item is not finite. -/
def bad (hop : Tensor) (c : StreamCaches α) : Bool := !decide (model.Finite hop c)

theorem badBatch_iff : BadBatch model.bad s ↔
    ¬ ∀ flight ∈ s.loop.flights, model.Finite flight.work.samples flight.caches := by
  simp only [BadBatch, bad, Bool.not_eq_true', decide_eq_false_iff_not, not_forall, exists_prop]

/-- Inference ends as `infer_batch` does, and no batch with a work item of stream `i` has a row that
is not finite. -/
def FiniteBatches (model : FastEnhancerBStreamingModel α channels width) (i : ℕ)
    (s : ServerState (StreamCaches α)) (e : Event (StreamCaches α)) : Prop :=
  (e = .inferenceRaised → model.Raises s) ∧
    (InBatch i s → ∀ flight ∈ s.loop.flights, model.Finite flight.work.samples flight.caches)

/-- A stream is failed with a batch only if a row of one of its batches is not finite: no shape of
any stream, and no row of a batch that it is not in, ever fails it. -/
theorem finite_batches_not_failed {i : ℕ} {st : Stream (StreamCaches α)}
    (h : ((system settings model.streamingModel).restrict (model.FiniteBatches i)).Reachable s)
    (hst : s.streams[i]? = some st) : ¬ st.FailedByBatch := by
  have hspared : ((system settings model.streamingModel).restrict
      (Spared model.bad i)).Reachable s := h.restrict_of ?_
  · exact spared_not_failedByBatch hspared hst
  intro s e s' hr hs
  have hreachable := hr.of_restrict
  obtain ⟨⟨hallowed, hraises, hspared⟩, hstep⟩ := hs
  change step settings model.streamingModel s e = some s' at hstep
  refine ⟨?_, fun hin hbad => badBatch_iff.mp hbad (hspared hin)⟩
  cases step_cases hstep with
  | @inferenceReturned active wav updated hloop =>
      obtain ⟨rows, hok, -⟩ := hallowed
      rw [RaisesOnBadRow, badBatch_iff, not_not]
      change model.inferBatch (batchHops s.loop.flights) (batchCaches s.loop.flights) = _ at hok
      rw [hloop] at hok ⊢
      change model.inferBatch (batchHops active) (batchCaches active) = _ at hok
      by_contra hbad
      rw [model.inferBatch_flights (reachable_shaped hreachable hloop),
        if_neg (by exact hbad)] at hok
      cases hok
  | @inferenceRaised active hloop =>
      obtain ⟨error, herror⟩ := hraises rfl
      rw [RaisesOnBadRow, badBatch_iff]
      intro hall
      rw [hloop] at herror hall
      change model.inferBatch (batchHops active) (batchCaches active) = _ at herror
      change ∀ flight ∈ active, model.Finite flight.work.samples flight.caches at hall
      rw [model.inferBatch_flights (reachable_shaped hreachable hloop), if_pos hall] at herror
      cases herror
  | _ => trivial

/-- A batch of two hops fails neither stream. -/
theorem finite_batches_not_failed_two : ∃ (s : ServerState (StreamCaches ℝ))
    (st₀ st₁ : Stream (StreamCaches ℝ)), s.streams = [st₀, st₁] ∧
      st₀.history.applied.length = 1 ∧ st₁.history.applied.length = 1 ∧ ¬ st₀.FailedByBatch := by
  obtain ⟨s, hr, hp⟩ := reachable_of_play .defaults exactModel_finite
    (twoHops ++ [none]) (fun s => decide (s.streams.map (fun (st : Stream (StreamCaches ℝ)) =>
      st.history.applied.length) = [1, 1])) (by decide +kernel)
  have hp := of_decide_eq_true hp
  have hfinite : ((system .defaults exactModel.streamingModel).restrict
      (exactModel.FiniteBatches 0)).Reachable s := hr.restrict_of fun s e s' _ hs =>
    ⟨fun he => absurd he hs.allowed.2, fun _ flight _ =>
      exactModel_finite flight.work.samples flight.caches⟩
  obtain ⟨st₀, rest, hstreams, hfirst, hrest⟩ := List.map_eq_cons_iff.mp hp
  obtain ⟨st₁, rest, rfl, hsecond, hnil⟩ := List.map_eq_cons_iff.mp hrest
  obtain rfl := List.map_eq_nil_iff.mp hnil
  exact ⟨s, st₀, st₁, hstreams, hfirst, hsecond,
    finite_batches_not_failed hfinite (by rw [hstreams]; rfl)⟩

/-! ## The whole signal at once -/

variable (model)

/-- The network on a half spectrum of a stream. -/
def specStep (spec : List (α × α)) (rows : List (Fin rfFreq → Fin rfHidden → α)) :
    List (α × α) × List (Fin rfFreq → Fin rfHidden → α) :=
  let (specOut, rows) := model.network.step (specFrame spec) rows
  (specRow specOut, rows)

/-- The hops of a signal through the transform, the network and the inverse transform, one after
the other: the network gets the frames of the whole signal as one batch of one stream. -/
def offline (signal : List Tensor) : List (List α) :=
  let (stft, istft) := model.stft.initializeCache
  let spec := (model.stft.analyse stft (signal.map castHop)).1
  let (specOut, _) := model.network.forward
    (fun (_ : Fin 1) f (t : Fin spec.length) => specFrame (spec.get t) f) []
  (model.stft.synthesise istft (List.ofFn fun t => specRow fun f => specOut 0 f t)).1

/-- What the caches of a stream are to the three stages of the model. -/
def stages (c : StreamCaches α) : List α × List (Fin rfFreq → Fin rfHidden → α) × List α :=
  (onlyRow c.stft, c.hidden, onlyRow c.istft)

theorem hidden_blockCaches {stft istft : Tensor2 α}
    {rows : List (Fin rfFreq → Fin rfHidden → α)} (hrows : rows.length = rnnBlocks) :
    StreamCaches.hidden ⟨stft, istft, blockCaches rows⟩ = rows := by
  obtain ⟨row0, row1, row2, rfl⟩ := List.length_eq_three.mp hrows
  simp only [StreamCaches.hidden, StreamCaches.blocks, blockCaches, List.map_cons, List.map_nil,
    elements_ofElements]
  rfl

/-- A stream's step is the three stages one after the other. -/
theorem stages_rowStep (hop : Tensor) (c : StreamCaches α) :
    Mealy.cascade (fun hop => model.stft.forward (castHop hop))
      (Mealy.cascade model.specStep model.stft.inverse) hop (stages c) =
        ((model.rowStep hop c).1, stages (model.rowStep hop c).2) := by
  have hlen := model.network.step_length (specFrame (model.stft.forward (castHop hop)
    (onlyRow c.stft)).1) (model.hidden_length c)
  exact Prod.ext rfl (Prod.ext rfl
    (Prod.ext (hidden_blockCaches (hlen.trans model.blocks)).symm rfl))

theorem hidden_initialCaches : model.initialCaches.hidden =
    (model.network.rfBlock.map fun _ _ _ _ => 0).map (rowsOf (0 : Fin 1)) := by
  rw [initialCaches, hidden_blockCaches List.length_replicate, List.map_map, ← model.blocks,
    ← List.map_const']
  rfl

/-- The network over the spectra of a stream is the network on all of them. -/
theorem run_specStep (spec : List (List (α × α))) :
    (Mealy.run model.specStep model.initialCaches.hidden spec).1 =
      List.ofFn fun t : Fin spec.length => specRow fun f => (model.network.forward
        (fun (_ : Fin 1) f (t : Fin spec.length) => specFrame (spec.get t) f) []).1 0 f t := by
  have hrun : Mealy.run model.specStep model.initialCaches.hidden spec = _ :=
    Mealy.run_map (fun spec rows => model.network.step (specFrame spec) rows) _ specRow spec
  have hframes : spec.map specFrame = List.ofFn fun t => specFrame (spec.get t) :=
    calc spec.map specFrame = (List.ofFn spec.get).map specFrame := by rw [List.ofFn_get]
      _ = _ := List.map_ofFn ..
  have hout (t : Fin spec.length) : (fun f => (model.network.forward
      (fun (_ : Fin 1) f (t : Fin spec.length) => specFrame (spec.get t) f) []).1 0 f t) =
      Mealy.output model.network.step model.initialCaches.hidden
        (fun t => specFrame (spec.get t)) t := by
    funext f
    rw [ONNXModel.forward_nil, (model.network.forward_eq _ (List.length_map ..) 0).1,
      ← hidden_initialCaches]
  rw [hrun, Mealy.run_comap model.network.step, hframes, Mealy.run_ofFn, List.map_ofFn]
  refine congrArg List.ofFn (funext fun t => ?_)
  rw [Function.comp_apply, ← hout t]

/-- The steps over a signal are the three stages, each over all of it. -/
theorem steps_offline (signal : List Tensor) :
    (Mealy.run model.rowStep model.initialCaches signal).1 = model.offline signal := by
  have hstages := congrArg Prod.fst (Mealy.run_state_map stages
    (fun hop c => model.stages_rowStep hop c) model.initialCaches signal)
  rw [stages, Mealy.run_cascade, Mealy.run_cascade, Mealy.run_comap model.stft.forward,
    run_specStep] at hstages
  exact hstages.symm

end FastEnhancerBStreamingModel

/-! ## What the pipeline returns -/

section Pipeline

variable {κ : Type*} {infer : Tensor → κ → Tensor × κ}

/-- The work items of hops, with the flush after them. -/
def hopWorks (hops : List SourceHop) (flushed : Bool) : List ModelWork :=
  hops.map .ofSource ++ if flushed = true then [.flush] else []

/-- The rows of a machine over work items. -/
def rowsOver (infer : Tensor → κ → Tensor × κ) (caches : κ) (works : List ModelWork) :
    List Tensor :=
  (Mealy.run infer caches (works.map ModelWork.samples)).1

/-- A pipeline that holds a hop gives every row to the hop before the row's own. -/
theorem StreamingPipeline.answers_of_pending {p : StreamingPipeline κ} {previous : SourceHop}
    (hopen : p.closed = false) (hp : p.pending = some previous) (hops : List SourceHop)
    (flushed : Bool) :
    (p.answers infer (hopWorks hops flushed)).1 = List.zipWith StreamingPipeline.enhanced
      (rowsOver infer p.caches (hopWorks hops flushed)) (previous :: hops) := by
  induction hops generalizing p previous with
  | nil =>
      cases flushed with
      | false => rfl
      | true =>
          simp only [hopWorks, List.map_nil, List.nil_append, if_true, answers, answer,
            ModelWork.flush, flush, hopen, Bool.false_eq_true, if_false, hp]
          rfl
  | cons hop rest ih =>
      have hanswer : (p.answer infer (.ofSource hop)).1 =
          some (enhanced (infer hop.samples p.caches).1 previous) :=
        congrArg (Option.map _) hp
      change ((p.answer infer (.ofSource hop)).1.toList ++
        ((p.answer infer (.ofSource hop)).2.answers infer (hopWorks rest flushed)).1) = _
      rw [hanswer, ih (p := (p.answer infer (.ofSource hop)).2) hopen rfl]
      rfl

/-- A new pipeline gives no hop the first row. -/
theorem StreamingPipeline.answers_new (caches : κ) (hops : List SourceHop) (flushed : Bool) :
    ((StreamingPipeline.new caches).answers infer (hopWorks hops flushed)).1 =
      List.zipWith StreamingPipeline.enhanced
        (rowsOver infer caches (hopWorks hops flushed)).tail hops := by
  cases hops with
  | nil =>
      cases flushed with
      | false => rfl
      | true => rfl
  | cons hop rest =>
      exact StreamingPipeline.answers_of_pending
        (p := ((StreamingPipeline.new caches).answer infer (.ofSource hop)).2) rfl rfl rest flushed

end Pipeline

/-- Two lists side by side, for beginnings of both. -/
theorem zipWith_prefix {β γ δ : Type*} (f : β → γ → δ) {xs xs' : List β} {ys ys' : List γ}
    (hx : xs <+: xs') (hy : ys <+: ys') : List.zipWith f xs ys <+: List.zipWith f xs' ys' := by
  obtain ⟨more, rfl⟩ := hx
  obtain ⟨more', rfl⟩ := hy
  induction xs generalizing ys with
  | nil => exact List.nil_prefix
  | cons x xs ih =>
      cases ys with
      | nil => exact List.nil_prefix
      | cons y ys => exact List.cons_prefix_cons.mpr ⟨rfl, ih⟩

/-! ## The server and the whole signal -/

namespace FastEnhancerBStreamingModel

variable (model : FastEnhancerBStreamingModel α channels width) {settings : ServerSettings}
  {s : ServerState (StreamCaches α)} {i : ℕ} {st : Stream (StreamCaches α)}

omit [Elements α] in
/-- The work items of a signal are its hops, and silence for the flush. -/
theorem hopWorks_samples (hops : List SourceHop) (flushed : Bool) :
    (hopWorks hops flushed).map ModelWork.samples = hops.map SourceHop.samples ++
      if flushed = true then [List.replicate hopSamples 0] else [] := by
  rw [hopWorks, List.map_append, List.map_map]
  cases flushed with
  | false => rfl
  | true => rfl

theorem rowsOver_eq (works : List ModelWork) :
    rowsOver model.infer model.initialCaches works = (model.steps works).1.map numbers :=
  congrArg Prod.fst (Mealy.run_map model.rowStep model.initialCaches numbers _)

/-- The event of a hop, from a row of the network, if the row is finite. -/
def emitRow (row : List α) (hop : SourceHop) : Option OutputAudio :=
  (row.mapM Elements.value).map fun wav => (StreamingPipeline.enhanced wav hop).encode

theorem emitRow_eq {row : List α} (hfinite : ∀ x ∈ row, isFinite x = true) (hop : SourceHop) :
    emitRow row hop = some (StreamingPipeline.enhanced (numbers row) hop).encode := by
  have hvalues : row.mapM Elements.value = some (numbers row) := by
    induction row with
    | nil => rfl
    | cons x row ih =>
        obtain ⟨hx, hrow⟩ := List.forall_mem_cons.mp hfinite
        obtain ⟨q, hq⟩ := Option.isSome_iff_exists.mp hx
        rw [List.mapM_cons, ih hrow, hq, numbers, numbers, List.map_cons, hq]
        rfl
  rw [emitRow, hvalues]
  rfl

/-- The events for hops, from finite rows. -/
theorem zipWith_emitRow {rows : List (List α)}
    (hfinite : ∀ row ∈ rows, ∀ x ∈ row, isFinite x = true) (hops : List SourceHop) :
    List.zipWith emitRow rows hops = ((List.zipWith StreamingPipeline.enhanced
      (rows.map numbers) hops).map EnhancedHop.encode).map some := by
  induction rows generalizing hops with
  | nil => rfl
  | cons row rows ih =>
      obtain ⟨hrow, hrows⟩ := List.forall_mem_cons.mp hfinite
      cases hops with
      | nil => rfl
      | cons hop hops =>
          rw [List.zipWith_cons_cons, emitRow_eq hrow, ih hrows]
          rfl

/-- What the model gives the hops of a signal: to every hop the row of the hop after it, and to the
last one the row of a silent hop. -/
def enhanced (hops : List SourceHop) : List (Option OutputAudio) :=
  List.zipWith emitRow (model.offline
    (hops.map SourceHop.samples ++ [List.replicate hopSamples 0])).tail hops

theorem enhanced_eq (hops : List SourceHop) :
    model.enhanced hops = List.zipWith emitRow (model.steps (hopWorks hops true)).1.tail hops := by
  rw [enhanced, ← steps_offline, steps, hopWorks_samples]
  rfl

variable {model}

/-- What the server emits for a stream is a beginning of what the model gives its hops. -/
theorem emitted_begins (h : (system settings model.streamingModel).Reachable s)
    (hst : s.streams[i]? = some st) :
    st.history.emitted.map some <+: model.enhanced st.history.hops := by
  obtain ⟨⟨⟨-, hbacklog⟩, hrefines⟩, hserved⟩ := reachable_stream model.delivers
    (fun _ _ => trivial) (served_invariant model settings) h hst
  obtain ⟨before, flushed, happlied, hle, hflushed⟩ := hbacklog.inOrder
  have happlied : st.history.applied = hopWorks before flushed := happlied
  -- the rows so far are a beginning of the rows of the signal
  have hrows : (model.steps st.history.applied).1 <+:
      (model.steps (hopWorks st.history.hops true)).1 := by
    have hworks : st.history.applied.map ModelWork.samples <+:
        (hopWorks st.history.hops true).map ModelWork.samples := by
      rw [happlied, hopWorks_samples, hopWorks_samples]
      cases flushed with
      | false =>
          rw [if_neg Bool.false_ne_true, List.append_nil]
          exact (hle.map _).trans (List.prefix_append _ _)
      | true => rw [(hflushed rfl).1]
    obtain ⟨more, hmore⟩ := hworks
    rw [steps, steps, ← hmore, Mealy.run_append]
    exact List.prefix_append _ _
  have hemitted := hrefines.emitted
  rw [happlied, pipelineAudio, StreamingPipeline.answers_new, rowsOver_eq, ← List.map_tail,
    ← happlied] at hemitted
  have hfinite : ∀ row ∈ (model.steps st.history.applied).1.tail, ∀ x ∈ row,
      isFinite x = true := fun row hrow => hserved.finite row (List.mem_of_mem_tail hrow)
  have htail := hrows.drop 1
  rw [List.drop_one, List.drop_one] at htail
  rw [enhanced_eq]
  refine (hemitted.map some).trans ?_
  rw [← zipWith_emitRow hfinite]
  exact zipWith_prefix emitRow htail hle

/-- What the server emits for a stream, whatever else is in its batches and in every order of its
steps, is what the network gives the whole signal of the stream: a beginning of it, and all of it
once the stream has completed with a flush.  All numbers of it are finite. -/
theorem emitted_offline (h : (system settings model.streamingModel).Reachable s)
    (hst : s.streams[i]? = some st) :
    st.history.emitted.map some <+: model.enhanced st.history.hops ∧
      (st.Flushed → st.history.emitted.map some = model.enhanced st.history.hops) := by
  have hbegins := emitted_begins h hst
  obtain ⟨⟨-, hrefines⟩, -⟩ := reachable_stream model.delivers
    (fun _ _ => trivial) (served_invariant model settings) h hst
  refine ⟨hbegins, fun hf => hbegins.eq_of_length ?_⟩
  have hwhole := congrArg List.length (hrefines.flushed hf).2
  change st.history.emitted.length = (pipelineAudio model.infer model.initialCaches
    (hopWorks st.history.hops true)).length at hwhole
  rw [List.length_map, hwhole, pipelineAudio, StreamingPipeline.answers_new, List.length_map,
    enhanced_eq, rowsOver_eq, ← List.map_tail, List.length_zipWith, List.length_zipWith,
    List.length_map]

/-- The flush of the first stream and a second hop of the other, up to their answer. -/
def flushAndHop : List (Option (Event (StreamCaches α))) :=
  [some (.deliver 0 (.endStream true)), some (.put 0), some (.deliver 1 (testAudio 1 256 256)),
    some (.put 1), some .gather, some .gather, some .dispatch, none]

/-- Two streams share their batches, and the first one, which is not silent, is flushed. -/
theorem emitted_offline_two : ∃ (s : ServerState (StreamCaches ℝ))
    (st₀ st₁ : Stream (StreamCaches ℝ)), s.streams = [st₀, st₁] ∧
    st₀.history.hops.length = 1 ∧ st₁.history.hops.length = 2 ∧
    st₀.history.emitted.map some = exactModel.enhanced st₀.history.hops := by
  obtain ⟨s, hr, hp⟩ := reachable_of_play .defaults exactModel_finite
    (twoHops ++ [none] ++ flushAndHop)
    (fun s => decide (s.streams.map (fun (st : Stream (StreamCaches ℝ)) =>
      (st.history.hops.length, st.session.outputQueue.items.getLast?.any fun event =>
        decide (event = .completion ⟨256, 256, true⟩))) = [(1, true), (2, false)]))
    (by decide +kernel)
  have hp := of_decide_eq_true hp
  obtain ⟨st₀, rest, hstreams, hfirst, hrest⟩ := List.map_eq_cons_iff.mp hp
  obtain ⟨st₁, rest, rfl, hsecond, hnil⟩ := List.map_eq_cons_iff.mp hrest
  obtain rfl := List.map_eq_nil_iff.mp hnil
  obtain ⟨hhops, hended⟩ := Prod.mk.inj hfirst
  obtain ⟨event, hlast, hevent⟩ := (Option.any_eq_true _ _).mp hended
  obtain rfl := of_decide_eq_true hevent
  have hflushed : st₀.Flushed := .inl ⟨_, List.mem_of_getLast? hlast, rfl⟩
  exact ⟨s, st₀, st₁, hstreams, hhops, (Prod.mk.inj hsecond).1,
    (emitted_offline hr.of_restrict (i := 0) (by rw [hstreams]; rfl)).2 hflushed⟩

end FastEnhancerBStreamingModel

end VoxLattice.Server
