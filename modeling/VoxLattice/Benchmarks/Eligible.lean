import VoxLattice.Benchmarks.Probe

/-!
# When the probe accepts the plugin

For every delay and every duration there is a run of the probe that gets to each of its hops and to
its end (`exists_looping`, `exists_over`): the server accepts the connection of the worker before
each hop and breaks the call after it, and the queue is empty again.  With the closed form of what
the processor returns this says exactly when the probe and the plugin agree
(`probe_agrees_iff`).
-/

namespace VoxLattice.Benchmarks

open Intervals
open Plugin (AudioRequest GRPCWorker PluginEvent PluginMetrics PluginState ProcessorState
  RemoteFastEnhancerConfig RequestIterator Returned TransportConfig TransportState WorkerEvent)

/-! ## A turn of the worker -/

/-- A step of the worker that calls nothing back but the state of the transport. -/
inductive Quiet (config : TransportConfig) (w w' : GRPCWorker) : Prop where
  | silent (event : WorkerEvent) (internal : event.internal = true) (goes : event ≠ .closeStep)
      (step : w.step config event = some (w', none))
  | announces (event : WorkerEvent) (internal : event.internal = true)
      (goes : event ≠ .closeStep) (generation : Nat) (state : TransportState)
      (step : w.step config event = some (w', some (.onGeneration generation state)))

/-- The worker is about to try the server, and no request is on its way. -/
structure Rested (w : GRPCWorker) : Prop where
  run : w.run = .top
  stop : w.stop = false
  channelOpen : w.channelOpen = true
  closing : w.closing = .over
  sends : w.sends = []
  items : w.requests.items = []
  room : 1 < w.requests.maxsize
  pending : w.pendingSamples = 0
  call : w.call = none

/-- The worker is about to try the server, and one request is in its queue. -/
structure Loaded (w : GRPCWorker) : Prop where
  run : w.run = .top
  stop : w.stop = false
  channelOpen : w.channelOpen = true
  closing : w.closing = .over
  sends : w.sends = []
  items : ∃ request ended, w.requests.items = [⟨.audio request, ended⟩]
  room : 1 < w.requests.maxsize

section Turn

variable {config : TransportConfig} {w₀ w : GRPCWorker}

/-- A step of the thread of the worker. -/
theorem Quiet.work {w' : GRPCWorker} (h : w.step config .work = some (w', none)) :
    Quiet config w w' :=
  .silent .work rfl nofun h

theorem Quiet.work_announces {w' : GRPCWorker} (generation : Nat) (state : TransportState)
    (h : w.step config .work = some (w', some (.onGeneration generation state))) :
    Quiet config w w' :=
  .announces .work rfl nofun generation state h

/-- The connection is made. -/
theorem connects (hvalid : Plugin.validateAccepted config Plugin.testAccepted = .ok ())
    (hrun : w.run = .top) (hopen : w.channelOpen = true) :
    Relation.ReflTransGen (Quiet config) w { w with run := .receiving, call := none } := by
  have htop : Quiet config w { w with run := .connecting } :=
    .work_announces w.generation .connecting (by
      rw [GRPCWorker.step, GRPCWorker.work, hrun])
  have hconnecting : Quiet config { w with run := .connecting }
      { w with run := .waiting, call := some .capabilities } :=
    .work (if_pos hopen)
  have hwaiting : Quiet config { w with run := .waiting, call := some .capabilities }
      { w with run := .receiving, call := none } :=
    .silent (.ready (.capabilities Plugin.testAccepted)) rfl (by rintro ⟨⟩) (by
      rw [GRPCWorker.step, GRPCWorker.ready]
      dsimp only
      rw [hvalid]
      rfl)
  exact .head htop (.head hconnecting (.single hwaiting))

theorem modify_last {α : Type*} (l : List α) (a : α) (f : α → α) :
    (l ++ [a]).modify l.length f = l ++ [f a] := by
  induction l with
  | nil => rfl
  | cons b l ih => rw [List.cons_append, List.length_cons, List.modify_succ_cons, ih]; rfl

/-- The worker takes the request and makes a call. -/
theorem calls {request : AudioRequest} {ended : Nat}
    (hw : Relation.ReflTransGen (Quiet config) w₀ w) (hrun : w.run = .receiving)
    (hopen : w.channelOpen = true) (hitems : w.requests.items = [⟨.audio request, ended⟩]) :
    ∃ requests taken it, requests.items = [] ∧ requests.maxsize = w.requests.maxsize ∧
      it.status = .active ∧ Relation.ReflTransGen (Quiet config) w₀
        { w with
          requests
          taken
          iterators := w.iterators ++ [it]
          reset := false
          call := some (.enhance w.iterators.length)
          run := .streaming ⟨false, 0, it.first.startSample⟩ } := by
  obtain ⟨requests, hget, hempty, hmax⟩ := BoundedQueue.exists_getNowait hitems
  let taken := w.taken ++ [⟨⟨.audio request, ended⟩, .worker, w.ended⟩]
  let it : RequestIterator := { RequestIterator.new request with status := .active }
  let created :=
    { w with requests, taken, iterators := w.iterators ++ [RequestIterator.new request] }
  let opened := { w with requests, taken, iterators := w.iterators ++ [it], reset := false }
  have hlength : ∀ it, (w.iterators ++ [it]).length - 1 = w.iterators.length := fun it => by
    rw [List.length_append, List.length_singleton, Nat.add_sub_cancel]
  have hreceiving : Quiet config w { created with run := .clearing } :=
    .work (by
      rw [GRPCWorker.step, GRPCWorker.work, hrun]
      dsimp only
      rw [GRPCWorker.take, hget]
      rfl)
  have hclearing : Quiet config { created with run := .clearing }
      { created with run := .announcing, reset := false } :=
    .work rfl
  have hannouncing : Quiet config { created with run := .announcing, reset := false }
      { created with run := .calling, reset := false } :=
    .work_announces _ _ rfl
  have hcalling : Quiet config { created with run := .calling, reset := false }
      { opened with run := .storing } :=
    .work (by
      rw [GRPCWorker.step, GRPCWorker.work]
      dsimp only [created]
      rw [if_pos hopen, GRPCWorker.openCall, GRPCWorker.generation]
      dsimp only
      rw [hlength, modify_last])
  have hstoring : Quiet config { opened with run := .storing }
      { opened with
        call := some (.enhance w.iterators.length)
        run := .streaming ⟨false, 0, it.first.startSample⟩ } :=
    .work (by
      rw [GRPCWorker.step, GRPCWorker.work]
      dsimp only [opened]
      rw [GRPCWorker.generation, GRPCWorker.firstSample]
      dsimp only
      rw [hlength, List.getLast?_concat, Option.elim_some])
  refine ⟨requests, taken, it, hempty, hmax, rfl, ?_⟩
  exact ((((hw.tail hreceiving).tail hclearing).tail hannouncing).tail hcalling).tail hstoring

/-- The call ends, and the worker gives the generation up. -/
theorem gives_up {streaming : Plugin.Streaming} {it : RequestIterator}
    {iterators : List RequestIterator} (hw : Relation.ReflTransGen (Quiet config) w₀ w)
    (hrun : w.run = .streaming streaming) (hstop : w.stop = false)
    (hiterators : w.iterators = iterators ++ [it]) (hactive : it.status = .active)
    (hitems : w.requests.items = []) :
    ∃ iterators backoff, Relation.ReflTransGen (Quiet config) w₀
      { w with iterators, backoff, pendingSamples := 0, call := none, run := .top } := by
  let broken := { w with iterators := iterators ++ [{ it with status := .ended }] }
  have hended : broken.callEnded = true := by
    rw [GRPCWorker.callEnded]
    dsimp only [broken]
    rw [List.getLast?_concat]
    rfl
  have hempty : broken.requests.getNowait = none := BoundedQueue.getNowait_eq_none.mpr hitems
  have hcallEnds : Quiet config w broken :=
    .silent (.callEnds iterators.length) rfl (by rintro ⟨⟩) (by
      rw [GRPCWorker.step, GRPCWorker.endCall, hiterators, modify_last, RequestIterator.endCall,
        if_pos hactive])
  have hrpcError : Quiet config broken { broken with run := .draining } :=
    .silent .rpcError rfl (by rintro ⟨⟩) (by
      have hstreaming : broken.run = .streaming streaming := hrun
      rw [GRPCWorker.step, GRPCWorker.rpcError, hstreaming]
      dsimp only
      rw [if_pos hended]
      rfl)
  have hdraining : Quiet config { broken with run := .draining }
      { broken with run := .unpending } :=
    .work (by
      rw [GRPCWorker.step, GRPCWorker.work]
      dsimp only
      rw [GRPCWorker.take]
      dsimp only
      rw [hempty]
      rfl)
  have hunpending : Quiet config { broken with run := .unpending }
      { broken with run := .finalizing, pendingSamples := 0 } :=
    .work rfl
  have hfinalizing : Quiet config { broken with run := .finalizing, pendingSamples := 0 }
      { broken with run := .deciding, pendingSamples := 0, call := none } :=
    .work rfl
  have hdeciding : Quiet config { broken with run := .deciding, pendingSamples := 0, call := none }
      { broken with run := .resting, pendingSamples := 0, call := none } :=
    .work_announces _ .backoff (if_neg (by
      have hgoes : broken.stop = false := hstop
      rw [hgoes]
      rintro ⟨⟩))
  have hresting : Quiet config { broken with run := .resting, pendingSamples := 0, call := none }
      { broken with
        run := .top, pendingSamples := 0, call := none
        backoff := min (w.backoff * 2) config.reconnectMaxDelayS } :=
    .silent .backoffOver rfl (by rintro ⟨⟩) rfl
  exact ⟨_, _, ((((((hw.tail hcallEnds).tail hrpcError).tail hdraining).tail hunpending).tail
    hfinalizing).tail hdeciding).tail hresting⟩

/-- The worker takes the request and is back at the top of its loop. -/
theorem turns (hvalid : Plugin.validateAccepted config Plugin.testAccepted = .ok ())
    (h : Loaded w) : ∃ w', Relation.ReflTransGen (Quiet config) w w' ∧ Rested w' := by
  obtain ⟨request, ended, hitems⟩ := h.items
  have hconnects := connects hvalid h.run h.channelOpen
  obtain ⟨requests, taken, it, hempty, hmax, hactive, hcalls⟩ :=
    calls hconnects rfl h.channelOpen hitems
  obtain ⟨iterators, backoff, hgives⟩ := gives_up hcalls rfl h.stop rfl hactive hempty
  refine ⟨_, hgives, ?_⟩
  exact ⟨rfl, h.stop, h.channelOpen, h.closing, h.sends, hempty, hmax ▸ h.room, rfl, rfl⟩

end Turn

/-- A step of `close` that raises nothing. -/
structure Closes (w w' : GRPCWorker) : Prop where
  step : w.closeStep = some w'
  raises : closeRaises w = false

/-- The call of `close` returns. -/
theorem closes_rested {w : GRPCWorker} (h : Rested w) :
    ∃ w', Relation.ReflTransGen Closes { w with closing := .stopping } w' ∧
      w'.closing = .over := by
  have hroom : w.requests.items.length < w.requests.maxsize := by
    rw [h.items]
    exact Nat.zero_lt_of_lt h.room
  obtain ⟨withEnd, hend, hitems, hmax⟩ :=
    BoundedQueue.exists_putNowait hroom ⟨.endStream true, w.ended⟩
  rw [h.items, List.nil_append] at hitems
  have hroom' : withEnd.items.length < withEnd.maxsize := by
    rw [hitems, hmax]
    exact h.room
  let ended := { w with stop := true, requests := withEnd }
  obtain ⟨withStop, hstop, -⟩ :=
    BoundedQueue.exists_putNowait hroom' ⟨.stop true, ended.closeChannel.ended⟩
  have hstopping : Closes { w with closing := .stopping }
      { w with stop := true, closing := .puttingEnd } :=
    ⟨if_neg (by rw [h.stop]; nofun), rfl⟩
  have hputEnd : GRPCWorker.putNowait (.endStream true)
      { w with stop := true, closing := .puttingEnd } =
        some { ended with closing := .puttingEnd } := congrArg (Option.map _) hend
  have hputtingEnd : Closes { w with stop := true, closing := .puttingEnd }
      { ended with closing := .checkingAlive } := by
    constructor
    · rw [GRPCWorker.closeStep]
      dsimp only
      rw [hputEnd]
    · rw [closeRaises]
      dsimp only
      rw [hputEnd]
      rfl
  have halive : ended.run ≠ .stopped := by
    have hrun : ended.run = .top := h.run
    rw [hrun]
    nofun
  have hchecking : Closes { ended with closing := .checkingAlive }
      { ended with closing := .joining } := by
    refine ⟨?_, rfl⟩
    rw [GRPCWorker.closeStep]
    dsimp only
    rw [if_neg halive]
  have hjoining : Closes { ended with closing := .joining }
      { ended with closing := .reading } := by
    refine ⟨?_, rfl⟩
    rw [GRPCWorker.closeStep]
    dsimp only
    rw [if_neg halive]
  have hreading : Closes { ended with closing := .reading }
      { ended with closing := .cancelling none } := by
    refine ⟨?_, rfl⟩
    have hcall : ended.call = none := h.call
    rw [GRPCWorker.closeStep]
    dsimp only
    rw [hcall]
  have hcancelling : Closes { ended with closing := .cancelling none }
      { ended with closing := .closingChannel true } := ⟨rfl, rfl⟩
  have hclosingChannel : Closes { ended with closing := .closingChannel true }
      { ended.closeChannel with closing := .puttingStop } := ⟨rfl, rfl⟩
  have hputStop : GRPCWorker.putNowait (.stop true)
      { ended.closeChannel with closing := .puttingStop } =
        some { ended.closeChannel with requests := withStop, closing := .puttingStop } :=
    congrArg (Option.map _) hstop
  have hputtingStop : Closes { ended.closeChannel with closing := .puttingStop }
      { ended.closeChannel with requests := withStop, closing := .over } := by
    constructor
    · rw [GRPCWorker.closeStep]
      dsimp only
      rw [hputStop]
    · rw [closeRaises]
      dsimp only
      rw [hputStop]
      rfl
  exact ⟨_, .head hstopping (.head hputtingEnd (.head hchecking (.head hjoining (.head hreading
    (.head hcancelling (.head hclosingChannel (.single hputtingStop))))))), rfl⟩

/-! ## Runs of the probe -/

section Runs

variable {sine : Sine} {args : ProbeArguments} {p p' : PluginState} {outputSamples n : Nat}
  {place : ProbePlace}

theorem validates (args : ProbeArguments) :
    Plugin.validateAccepted args.config.transportConfig Plugin.testAccepted = .ok () :=
  if_pos ⟨rfl, rfl, rfl, rfl, rfl, rfl, rfl, rfl, rfl⟩

/-- A step of the plugin, with no put of `close` that raises. -/
theorem plugin_reachable (h : (probeSystem sine args).Reachable ⟨p, outputSamples, place⟩)
    {event : PluginEvent} (hs : p.step args.config event = some p')
    (hallowed : p.allows event) (he : ofCaller event = false)
    (hclose : ¬ (event = .worker .closeStep ∧ closeRaises p.worker = true)) :
    (probeSystem sine args).Reachable ⟨p', outputSamples, place⟩ := by
  have hstep : (probeSystem sine args).Step ⟨p, outputSamples, place⟩ (.plugin event)
      ⟨p', outputSamples, place⟩ := by
    refine ⟨hallowed, ?_⟩
    simp only [probeSystem, ProbeState.step, he, hs, if_neg hclose, Option.map_some,
      Bool.false_eq_true, if_false]
  exact h.step hstep

/-- Quiet steps of the worker. -/
theorem quiet_reachable (h : (probeSystem sine args).Reachable ⟨p, outputSamples, place⟩)
    {w' : GRPCWorker}
    (hw : Relation.ReflTransGen (Quiet args.config.transportConfig) p.worker w') :
    ∃ track, (probeSystem sine args).Reachable
      ⟨{ p with track, worker := w' }, outputSamples, place⟩ := by
  induction hw with
  | refl => exact ⟨p.track, h⟩
  | @tail w₁ w₂ _ hquiet ih =>
      obtain ⟨track, hreach⟩ := ih
      have hplugin : ∀ event track', event ≠ WorkerEvent.closeStep →
          PluginState.step args.config { p with track, worker := w₁ } (.worker event) =
            some { p with track := track', worker := w₂ } →
          ∃ track, (probeSystem sine args).Reachable
            ⟨{ p with track, worker := w₂ }, outputSamples, place⟩ := by
        intro event track' goes hs
        refine ⟨track', plugin_reachable hreach hs trivial rfl ?_⟩
        rintro ⟨heq, -⟩
        exact goes (PluginEvent.worker.inj heq)
      cases hquiet with
      | silent event internal goes step =>
          refine hplugin event track goes ?_
          rw [PluginState.step, if_pos internal, step]
          rfl
      | announces event internal goes generation state step =>
          refine hplugin event
            { track with processor := track.processor.generationChanged generation state } goes ?_
          rw [PluginState.step, if_pos internal, step]
          rfl

/-- A rested worker takes a request that its queue has room for. -/
theorem trySend_rested {config : TransportConfig} {w : GRPCWorker} (h : Rested w)
    {request : AudioRequest} (hroom : request.samples ≤ config.maxRequestQueueSamples) :
    w.trySend config request = ({ w with
      pendingSamples := w.pendingSamples + request.samples
      sends := w.sends ++ [request] }, true) := by
  refine if_neg ?_
  rw [h.stop, h.pending, Nat.zero_add, not_or]
  exact ⟨nofun, Nat.not_lt.mpr hroom⟩

/-- The queue of the worker has room for a hop. -/
theorem hop_fits (sine : Sine) (args : ProbeArguments) (index startSample : Nat) :
    AudioRequest.samples ⟨startSample, (probeFrame sine index).data⟩ ≤
      args.config.transportConfig.maxRequestQueueSamples := by
  have hlength : (probeFrame sine index).data.length = hopSamples * 2 :=
    sineHop_length sine 997 index
  have hqueue : args.config.maxRequestQueueMs = 500 := rfl
  rw [AudioRequest.samples, hlength, RemoteFastEnhancerConfig.transportConfig]
  dsimp only
  rw [RemoteFastEnhancerConfig.maxRequestQueueSamples, hqueue, hopSamples, Plugin.sampleRateHz]
  decide

/-- The request of a hop is put. -/
theorem put_loaded {w : GRPCWorker} (h : Rested w) (request : AudioRequest) :
    ∃ w', GRPCWorker.put 0 { w with
        pendingSamples := w.pendingSamples + request.samples, sends := w.sends ++ [request] } =
          some w' ∧ Loaded w' := by
  have hroom : w.requests.items.length < w.requests.maxsize := by
    rw [h.items]
    exact Nat.zero_lt_of_lt h.room
  obtain ⟨requests, hput, hitems, hmax⟩ :=
    BoundedQueue.exists_putNowait hroom ⟨.audio request, w.ended⟩
  have hsends : w.sends ++ [request] = [request] := by rw [h.sends, List.nil_append]
  rw [hsends]
  refine ⟨{ w with
      pendingSamples := w.pendingSamples + request.samples, sends := [], requests }, ?_, ?_⟩
  · exact congrArg (Option.map _) hput
  · rw [h.items, List.nil_append] at hitems
    exact ⟨h.run, h.stop, h.channelOpen, h.closing, rfl, ⟨request, w.ended, hitems⟩,
      hmax ▸ h.room⟩

/-- `_process` is called with a hop and sends it. -/
theorem hop_sent (h : (probeSystem sine args).Reachable ⟨p, outputSamples, .looping n⟩)
    (hlt : n < args.hopCount) (hrest : Rested p.worker) :
    ∃ track worker, (probeSystem sine args).Reachable
        ⟨{ p with track, worker }, outputSamples, .processing n⟩ ∧
      Fed args.config (n + 1) track ∧ track.call = some (.emitting (probeFrame sine n)) ∧
      Loaded worker := by
  cases reachable_follows h with
  | looping fed idle output le =>
      obtain ⟨hfed, hsending, -⟩ := fed.process idle
        (probeFrame_checked sine args n) (probeFrame_samples sine n)
      generalize ht : p.track.process args.config (probeFrame sine n) = t at hfed hsending
      have hcall : (probeSystem sine args).Step ⟨p, outputSamples, .looping n⟩ .call
          ⟨{ p with track := t }, outputSamples, .processing n⟩ := by
        refine ⟨trivial, ?_⟩
        simp only [probeSystem, ProbeState.step, if_pos hlt, PluginState.step, PluginState.onTrack,
          ProcessorState.step, idle, Option.isNone_none, if_true, ht, Option.map_some]
      let request : AudioRequest :=
        ⟨p.track.processor.inputCursor, (probeFrame sine n).data⟩
      let sending := { p.worker with
        pendingSamples := p.worker.pendingSamples + request.samples
        sends := p.worker.sends ++ [request] }
      have htrySend : PluginState.step args.config { p with track := t } .trySend =
          some { p with track := t, worker := sending } := by
        simp only [PluginState.step, hsending, hrest.sends, ne_eq, not_true_eq_false, if_false]
        rw [trySend_rested hrest (hop_fits sine args n _)]
      have hsent := plugin_reachable (h.step hcall) htrySend trivial rfl (by rintro ⟨⟨⟩, -⟩)
      obtain ⟨w, hput, hloaded⟩ := put_loaded hrest request
      replace hput : sending.put 0 = some w := hput
      let emitting := { t with call := some (.emitting (probeFrame sine n)) }
      have hgoes : t.step args.config (.trySend true) = some emitting := by
        simp only [ProcessorState.step, hsending, if_true, emitting]
      have hputs : PluginState.step args.config { p with track := t, worker := sending } .put =
          some { p with track := emitting, worker := w } := by
        simp only [PluginState.step]
        rw [hput]
        dsimp only
        rw [PluginState.onTrack, hgoes]
        rfl
      refine ⟨emitting, w, plugin_reachable hsent hputs trivial rfl (by rintro ⟨⟨⟩, -⟩), ?_, rfl,
        hloaded⟩
      exact (hfed.step hgoes rfl).resolve_right fun hfailed => by cases hfailed.1

/-- `_process` returns a frame, and the loop goes on. -/
theorem hop_returned (h : (probeSystem sine args).Reachable ⟨p, outputSamples, .processing n⟩)
    (hfed : Fed args.config (n + 1) p.track)
    (hemitting : p.track.call = some (.emitting (probeFrame sine n))) :
    ∃ track samples, (probeSystem sine args).Reachable
      ⟨{ p with track }, outputSamples + samples, .looping (n + 1)⟩ := by
  let emitted := p.track.emit args.config (probeFrame sine n)
  have hreturns : p.track.step args.config .emit = some emitted := by
    rw [ProcessorState.step, hemitting]
  have hemits : p.step args.config .emit = some { p with track := emitted } := by
    rw [PluginState.step, PluginState.onTrack, hreturns]
    rfl
  have hidle : emitted.call = none := by
    unfold emitted ProcessorState.emit
    split
    · rfl
    · rfl
  have hfed' : Fed args.config (n + 1) emitted :=
    (hfed.step hreturns rfl).resolve_right fun hfailed => by cases hfailed.1
  have hlast : n < emitted.returned.length := by
    rw [hfed'.returned_length hidle]
    exact Nat.lt_succ_self n
  have hreturned : (probeSystem sine args).Step
      ⟨{ p with track := emitted }, outputSamples, .processing n⟩ .returns
      ⟨{ p with track := emitted },
        outputSamples + emitted.returned[n].frame.samplesPerChannel, .looping (n + 1)⟩ := by
    refine ⟨trivial, ?_⟩
    simp only [probeSystem, ProbeState.step, hidle, Option.isSome_none, Bool.false_eq_true,
      if_false, List.getElem?_eq_getElem hlast]
  have hemitted := plugin_reachable h hemits trivial rfl (by rintro ⟨⟨⟩, -⟩)
  exact ⟨emitted, _, hemitted.step hreturned⟩

/-- The probe gets to each of its hops, and the worker is rested there. -/
theorem exists_looping (sine : Sine) (args : ProbeArguments) (n : Nat) (hn : n ≤ args.hopCount) :
    ∃ p outputSamples, (probeSystem sine args).Reachable ⟨p, outputSamples, .looping n⟩ ∧
      Rested p.worker := by
  induction n with
  | zero =>
      refine ⟨.init args.config, 0, .init, ⟨rfl, rfl, rfl, rfl, rfl, rfl, ?_, rfl, rfl⟩⟩
      exact Nat.le_add_left 2 _
  | succ n ih =>
      obtain ⟨p, outputSamples, hreach, hrest⟩ := ih (Nat.le_of_succ_le hn)
      obtain ⟨track, worker, hsent, hfed, hemitting, hloaded⟩ := hop_sent hreach hn hrest
      obtain ⟨track', samples, hreturned⟩ := hop_returned hsent hfed hemitting
      obtain ⟨worker', hturns, hrested⟩ := turns (validates args) hloaded
      obtain ⟨track'', hquiet⟩ := quiet_reachable hreturned hturns
      exact ⟨_, _, hquiet, hrested⟩

/-- The steps of `close`. -/
theorem closes_reachable (h : (probeSystem sine args).Reachable ⟨p, outputSamples, place⟩)
    {w' : GRPCWorker} (hw : Relation.ReflTransGen Closes p.worker w') :
    (probeSystem sine args).Reachable ⟨{ p with worker := w' }, outputSamples, place⟩ := by
  induction hw with
  | refl => exact h
  | @tail w₁ w₂ _ hcloses ih =>
      have hs : PluginState.step args.config { p with worker := w₁ } (.worker .closeStep) =
          some { p with worker := w₂ } := by
        have hinternal : WorkerEvent.closeStep.internal = true := rfl
        rw [PluginState.step, if_pos hinternal, GRPCWorker.step, hcloses.step]
        rfl
      refine plugin_reachable ih hs trivial rfl ?_
      rintro ⟨-, hraises⟩
      rw [hcloses.raises] at hraises
      cases hraises

/-- The probe gets to its end. -/
theorem exists_over (sine : Sine) (args : ProbeArguments) :
    ∃ p outputSamples metrics, (probeSystem sine args).Reachable
      ⟨p, outputSamples, .over (.checked (check args outputSamples metrics))⟩ := by
  obtain ⟨p, outputSamples, hreach, hrest⟩ := exists_looping sine args args.hopCount le_rfl
  cases reachable_follows hreach with
  | looping fed idle output le =>
      let metrics := p.track.processor.metrics
      have hmetrics : (probeSystem sine args).Step ⟨p, outputSamples, .looping args.hopCount⟩
          .metrics ⟨p, outputSamples, .leaving (some metrics)⟩ :=
        ⟨trivial, if_neg (Nat.lt_irrefl _)⟩
      let closed := { p.track with processor := { p.track.processor with closed := true } }
      have hbegin : p.track.processor.beginClose = (closed.processor, true) :=
        if_neg (by rw [fed.opened]; nofun)
      have hclose : (probeSystem sine args).Step ⟨p, outputSamples, .leaving (some metrics)⟩
          .close ⟨{ p with track := closed, worker := { p.worker with closing := .stopping } },
            outputSamples, .closing (some metrics)⟩ := by
        refine ⟨trivial, ?_⟩
        simp only [probeSystem, ProbeState.step, PluginState.step, PluginState.onTrack,
          ProcessorState.step, hbegin, if_true, GRPCWorker.close, hrest.closing, Option.getD_some,
          Option.map_some, closed]
      obtain ⟨w, hcloses, hover⟩ := closes_rested hrest
      have hreturns := closes_reachable ((hreach.step hmetrics).step hclose) hcloses
      have hclosed : (probeSystem sine args).Step
          ⟨{ p with track := closed, worker := w }, outputSamples, .closing (some metrics)⟩ .closed
          ⟨{ p with
            track := { closed with processor := closed.processor.endClose }, worker := w },
            outputSamples, .over (.checked (check args outputSamples metrics))⟩ := by
        refine ⟨trivial, ?_⟩
        simp only [probeSystem, ProbeState.step, PluginState.step, PluginState.onTrack,
          ProcessorState.step, hover, if_true, Option.map_some, closed, ProbeState.finish]
      exact ⟨_, _, _, hreturns.step hclosed⟩

end Runs

/-! ## Agreement -/

section Agreement

variable {sine : Sine} {args : ProbeArguments} {s : ProbeState}

/-- What the probe requires is there just if the delay rounds to no sample. -/
theorem Tallied.check_eq_mismatch {outputSamples : Nat} {metrics : PluginMetrics}
    (h : Tallied args outputSamples metrics) :
    check args outputSamples metrics = .error mismatch ↔ ¬ args.outputDelayMs ≤ 1 / 32 := by
  have hagrees : outputSamples = eligible args.hopCount ↔ args.outputDelayMs ≤ 1 / 32 := by
    have hfour := args.four_le_hopCount
    rw [h.output, eligible_eq_iff, args.responseWaitSamples_eq_zero]
    exact or_iff_right (by omega)
  rw [← hagrees, check]
  split
  · next hne => exact iff_of_true rfl hne
  · next heq => exact iff_of_false nofun heq

/-- Every run that gets to the check ends the same way. -/
theorem checked_eq_mismatch (h : (probeSystem sine args).Reachable s)
    {result : Except Server.PyError PluginProbe} (hover : s.place = .over (.checked result)) :
    result = .error mismatch ↔ ¬ args.outputDelayMs ≤ 1 / 32 := by
  cases reachable_follows h with
  | checked metrics tallied =>
      cases hover
      exact tallied.check_eq_mismatch
  | _ => cases hover

/-- After any number of hops, the probe requires what `_process` has returned just if there is no
more than one hop or the delay rounds to no sample.  The probe, which makes at least four calls,
raises in no run just if the delay does. -/
theorem probe_agrees_iff (sine : Sine) (args : ProbeArguments) :
    (∀ n ≤ args.hopCount,
      (∀ s, (probeSystem sine args).Reachable s → s.place = .looping n →
        total Returned.samples s.plugin.track.returned = eligible n) ↔
          n ≤ 1 ∨ args.outputDelayMs ≤ 1 / 32) ∧
    ((∀ s, (probeSystem sine args).Reachable s →
      s.place ≠ .over (.checked (.error mismatch))) ↔ args.outputDelayMs ≤ 1 / 32) := by
  constructor
  · intro n hn
    rw [← args.responseWaitSamples_eq_zero, ← eligible_eq_iff]
    constructor
    · intro hagrees
      obtain ⟨p, outputSamples, hreach, -⟩ := exists_looping sine args n hn
      have htotal := hagrees _ hreach rfl
      cases reachable_follows hreach with
      | looping fed idle output le => rw [← htotal, fed.total idle]
    · intro heligible s hreach hplace
      cases reachable_follows hreach with
      | looping fed idle output le =>
          cases hplace
          rw [fed.total idle, heligible]
      | _ => cases hplace
  · constructor
    · intro hnever
      obtain ⟨p, outputSamples, metrics, hreach⟩ := exists_over sine args
      by_contra hdelay
      have hmismatch := (checked_eq_mismatch hreach rfl).mpr hdelay
      rw [hmismatch] at hreach
      exact hnever _ hreach rfl
    · intro hdelay s hreach hover
      exact (checked_eq_mismatch hreach hover).mp rfl hdelay

/-- The arguments of a release benchmark with its defaults. -/
def releaseArguments : ProbeArguments := ⟨"127.0.0.1:50051", 3, 100, by decide +kernel⟩

/-- The probe of a release benchmark raises, whatever the sine. -/
theorem release_probe_raises :
    ¬ ∃ sine : Sine, ∀ s, (probeSystem sine releaseArguments).Reachable s →
      s.place ≠ .over (.checked (.error mismatch)) := by
  rintro ⟨sine, hnever⟩
  obtain ⟨p, outputSamples, metrics, hreach⟩ := exists_over sine releaseArguments
  have hdelay : ¬ releaseArguments.outputDelayMs ≤ 1 / 32 := by decide +kernel
  have hmismatch := (checked_eq_mismatch hreach rfl).mpr hdelay
  rw [hmismatch] at hreach
  exact hnever _ hreach rfl

/-- A report accounts for the samples it counts, and the ratio is one. -/
theorem report_accounts (h : (probeSystem sine args).Reachable s) {report : PluginProbe}
    (hover : s.place = .over (.checked (.ok report))) :
    report.outputSamples = report.eligibleSamples ∧
      report.metrics.enhancedSamples + report.metrics.rawFallbackSamples =
        report.outputSamples ∧
      0 ≤ report.fallbackRatio ∧ report.fallbackRatio ≤ 1 := by
  cases reachable_follows h with
  | @checked plugin outputSamples metrics tallied =>
      simp only [ProbePlace.over.injEq, ProbeEnd.checked.injEq, check] at hover
      split at hover
      · cases hover
      · next heq =>
          cases hover
          have heligible : outputSamples = eligible args.hopCount := Decidable.not_not.mp heq
          have hsources := tallied.sources
          have hpositive : eligible args.hopCount ≠ 0 := by
            have hfour := args.four_le_hopCount
            rw [eligible_eq]
            omega
          have hfallback : (metrics.rawFallbackSamples : ℚ) ≤ eligible args.hopCount := by
            rw [← heligible, ← hsources]
            exact_mod_cast Nat.le_add_left _ _
          refine ⟨heligible, hsources, ?_⟩
          dsimp only
          rw [if_pos hpositive]
          exact ⟨div_nonneg (Nat.cast_nonneg _) (Nat.cast_nonneg _),
            div_le_one_of_le₀ hfallback (Nat.cast_nonneg _)⟩
  | _ => cases hover

end Agreement

end VoxLattice.Benchmarks
