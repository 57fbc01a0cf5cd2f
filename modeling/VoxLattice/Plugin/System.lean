import VoxLattice.Plugin.Runs
import VoxLattice.Plugin.Steps

/-!
# The plugin

`RemoteFastEnhancer` with its `GRPCWorker`.  The thread of `_process` calls `try_send` and
`force_reset`, the setter of `enabled` calls `force_reset`, `_close` calls `close`, and the
worker calls the processor back.  A callback is part of the step of the worker that makes it.

The calls that `_process` makes have steps of their own, since other threads may come between:
`trySend` and `put` for `try_send`, `forceReset` and `resetReturns` for `force_reset`.

A step of the plugin is a step of the worker with its callback, a step of the processor's own, or
both (`step_parts`).  It does to the worker what a step of the worker does (`step_worker`), and to
the processor what a step of the processor does (`step_track`).
-/

namespace VoxLattice.Plugin

open Server (Bytes)

structure PluginState where
  /-- The processor, with the call of `_process` and its history. -/
  track : ProcessorState
  worker : GRPCWorker
  /-- The call of `force_reset` that `_process` waits for. -/
  resetting : Option Nat

inductive PluginEvent where
  /-- `_process` is called. -/
  | process (frame : AudioFrame)
  /-- The block of `try_send`. -/
  | trySend
  /-- The put of `try_send`. -/
  | put
  | overflow
  /-- `_process` calls `force_reset`. -/
  | forceReset
  /-- The `force_reset` of `_process` returns or raises. -/
  | resetReturns
  | emit
  | setEnabled (value : Bool)
  | beginClose
  | endClose
  | streamInfoUpdated (roomName participantIdentity publicationSid : String)
  | streamInfoCleared
  /-- A request iterator reads the metadata and the digits of a UUID. -/
  | begin (k : Nat) (uuid : String)
  /-- Any other step of the threads of the worker. -/
  | worker (event : WorkerEvent)
deriving DecidableEq

/-- The worker takes this step itself, and no caller is involved. -/
def WorkerEvent.internal : WorkerEvent → Bool
  | .trySend _ | .put _ | .forceReset | .close | .callbackReset | .begin _ _ _ => false
  | _ => true

namespace PluginState

/-- `RemoteFastEnhancer.__init__`. -/
def init (config : RemoteFastEnhancerConfig) : PluginState where
  track := .init config
  worker := .new config.transportConfig
  resetting := none

/-- An event of the processor. -/
def onTrack (config : RemoteFastEnhancerConfig) (e : ProcessorEvent) (s : PluginState) :
    Option PluginState :=
  (s.track.step config e).map fun track => { s with track }

/-- A callback of the worker. -/
def callback (config : RemoteFastEnhancerConfig) (s : PluginState) :
    Option Callback → Option PluginState
  | none => some s
  | some (.onGeneration generation state) =>
    s.onTrack config (.generationChanged generation state)
  | some (.onProtocolError generation _) => s.onTrack config (.protocolError generation)
  | some (.onAudio generation startSample pcmS16le) =>
    let received := (s.track.processor.receiveAudio generation startSample pcmS16le).2
    let s := if received.resets then
      { s with worker := s.worker.callbackReset.getD s.worker } else s
    s.onTrack config (.receiveAudio generation startSample pcmS16le)

/-- The effect of an event. -/
def step (config : RemoteFastEnhancerConfig) (s : PluginState) : PluginEvent → Option PluginState
  | .process frame => s.onTrack config (.process frame)
  | .trySend =>
    match s.track.call with
    | some (.sending frame startSample) =>
      if s.worker.sends ≠ [] then none
      else
        match s.worker.trySend config.transportConfig ⟨startSample, frame.data⟩ with
        | (worker, true) => some { s with worker }
        | (_, false) => s.onTrack config (.trySend false)
    | _ => none
  | .put =>
    match s.worker.put 0 with
    | some worker => { s with worker }.onTrack config (.trySend true)
    | none => none
  | .overflow => s.onTrack config .overflow
  | .forceReset =>
    match s.track.call, s.resetting with
    | some (.resetting _), none =>
      some { s with
        worker := s.worker.forceReset
        resetting := some s.worker.resets.length }
    | _, _ => none
  | .resetReturns =>
    match s.resetting with
    | some k =>
      match s.worker.resets[k]? with
      | some .returned => { s with resetting := none }.onTrack config .forceReset
      | some .raised => { s with resetting := none }.onTrack config .resetRaised
      | _ => none
    | none => none
  | .emit => s.onTrack config .emit
  | .setEnabled value =>
    let s := if (s.track.processor.setEnabled value).2 then
      { s with worker := s.worker.forceReset } else s
    s.onTrack config (.setEnabled value)
  | .beginClose =>
    let s := if s.track.processor.beginClose.2 then
      { s with worker := s.worker.close.getD s.worker } else s
    s.onTrack config .beginClose
  | .endClose => if s.worker.closing = .over then s.onTrack config .endClose else none
  | .streamInfoUpdated room participant publication =>
    s.onTrack config (.streamInfoUpdated room participant publication)
  | .streamInfoCleared => s.onTrack config .streamInfoCleared
  | .begin k uuid =>
    (s.worker.begin k s.track.processor.metadata uuid).map fun worker => { s with worker }
  | .worker event =>
    if event.internal then
      match s.worker.step config.transportConfig event with
      | some (worker, made) => { s with worker }.callback config made
      | none => none
    else none

/-- The digits of a UUID are 32 characters of ASCII. -/
def allows (_ : PluginState) : PluginEvent → Prop
  | .begin _ uuid => uuid.utf8ByteSize = 32
  | _ => True

instance (s : PluginState) (e : PluginEvent) : Decidable (s.allows e) := by
  cases e <;> unfold allows <;> infer_instance

end PluginState

/-- The plugin as a transition system. -/
def pluginSystem (config : RemoteFastEnhancerConfig) : Lts.System PluginState PluginEvent where
  init := .init config
  step := PluginState.step config
  allows := PluginState.allows

instance (config : RemoteFastEnhancerConfig) (s : PluginState) (e : PluginEvent) :
    Decidable ((pluginSystem config).allows s e) :=
  inferInstanceAs (Decidable (s.allows e))

/-! ## The parts of a step -/

namespace PluginState

variable {config : RemoteFastEnhancerConfig} {s s' : PluginState} {e : PluginEvent}

/-- The events of the worker that a step of the plugin may consist of. -/
def Offers (s : PluginState) : WorkerEvent → Prop
  | .trySend request => ∃ frame, s.track.call = some (.sending frame request.startSample) ∧
      request.pcmS16le = frame.data
  | .begin _ metadata uuid => metadata = s.track.processor.metadata ∧ uuid.utf8ByteSize = 32
  | _ => True

theorem onTrack_eq_some {event : ProcessorEvent} (h : s.onTrack config event = some s') :
    ∃ track, s.track.step config event = some track ∧ s' = { s with track } := by
  obtain ⟨track, htrack, rfl⟩ := Option.map_eq_some_iff.mp h
  exact ⟨track, htrack, rfl⟩

theorem onTrack_worker {event : ProcessorEvent} (h : s.onTrack config event = some s') :
    s'.worker = s.worker := by
  obtain ⟨_, -, rfl⟩ := onTrack_eq_some h
  rfl

/-- A step of the worker that a step of the plugin is made of. -/
structure Works (config : RemoteFastEnhancerConfig) (e : PluginEvent) (s : PluginState)
    (event : WorkerEvent) (worker : GRPCWorker) (made : Option Callback) : Prop where
  step : s.worker.step config.transportConfig event = some (worker, made)
  offers : s.Offers event
  internal : event.internal = true → e = .worker event
  reset : event ≠ .callbackReset
  close : event = .close → e = .beginClose

/-- The parts of a step. -/
inductive Parts (config : RemoteFastEnhancerConfig) (e : PluginEvent) (s s' : PluginState) :
    Prop where
  /-- A step of the processor's own. -/
  | track (event : ProcessorEvent) (resetting : Option Nat) (own : event.callback = false)
      (hs : { s with resetting }.onTrack config event = some s')
  /-- A step of the worker with its callback. -/
  | worker (event : WorkerEvent) (worker : GRPCWorker) (made : Option Callback)
      (resetting : Option Nat) (works : Works config e s event worker made)
      (hs : { s with worker, resetting }.callback config made = some s')
  /-- A step of the worker, and one of the processor's own. -/
  | both (event : WorkerEvent) (worker : GRPCWorker) (action : ProcessorEvent)
      (works : Works config e s event worker none) (own : action.callback = false)
      (hs : { s with worker }.onTrack config action = some s')

/-- Every step has these parts. -/
theorem step_parts (hs : (pluginSystem config).Step s e s') : Parts config e s s' := by
  obtain ⟨hallowed, hs⟩ := hs
  cases e with
  | trySend =>
      simp only [pluginSystem, step] at hs
      split at hs
      · next frame start hcall =>
          split at hs
          · cases hs
          · split at hs
            · next worker htry =>
                refine .worker (.trySend ⟨start, frame.data⟩) worker none s.resetting
                  ⟨?_, ⟨frame, hcall, rfl⟩, nofun, nofun, nofun⟩ hs
                rw [GRPCWorker.step, htry]
            · exact .track _ s.resetting rfl hs
      · cases hs
  | put =>
      simp only [pluginSystem, step] at hs
      split at hs
      · next worker hput =>
          refine .both (.put 0) worker _ ⟨?_, trivial, nofun, nofun, nofun⟩ rfl hs
          rw [GRPCWorker.step, hput]
          rfl
      · cases hs
  | forceReset =>
      simp only [pluginSystem, step] at hs
      split at hs
      · exact .worker .forceReset _ none _ ⟨rfl, trivial, nofun, nofun, nofun⟩ hs
      · cases hs
  | resetReturns =>
      simp only [pluginSystem, step] at hs
      split at hs
      · split at hs
        · exact .track _ none rfl hs
        · exact .track _ none rfl hs
        · cases hs
      · cases hs
  | setEnabled value =>
      simp only [pluginSystem, step] at hs
      split at hs
      · exact .both .forceReset _ _ ⟨rfl, trivial, nofun, nofun, nofun⟩ rfl hs
      · exact .track _ s.resetting rfl hs
  | beginClose =>
      simp only [pluginSystem, step] at hs
      split at hs
      · cases hclose : s.worker.close with
        | none =>
            rw [hclose] at hs
            exact .track _ s.resetting rfl hs
        | some worker =>
            rw [hclose] at hs
            refine .both .close worker _ ⟨?_, trivial, nofun, nofun, fun _ => rfl⟩ rfl hs
            rw [GRPCWorker.step, hclose]
            rfl
      · exact .track _ s.resetting rfl hs
  | endClose =>
      simp only [pluginSystem, step] at hs
      split at hs
      · exact .track _ s.resetting rfl hs
      · cases hs
  | begin k uuid =>
      obtain ⟨worker, hbegin, rfl⟩ := Option.map_eq_some_iff.mp hs
      refine .worker (.begin k s.track.processor.metadata uuid) worker none s.resetting
        ⟨?_, ⟨rfl, hallowed⟩, nofun, nofun, nofun⟩ rfl
      rw [GRPCWorker.step, hbegin]
      rfl
  | worker event =>
      simp only [pluginSystem, step] at hs
      split at hs
      · next hinternal =>
          split at hs
          · next worker made hstep =>
              refine .worker event worker made s.resetting
                ⟨hstep, ?_, fun _ => rfl, ?_, ?_⟩ hs
              · cases event <;> trivial
              · rintro rfl
                cases hinternal
              · rintro rfl
                cases hinternal
          · cases hs
      · cases hs
  | process frame => exact .track (.process frame) s.resetting rfl hs
  | overflow => exact .track .overflow s.resetting rfl hs
  | emit => exact .track .emit s.resetting rfl hs
  | streamInfoUpdated room participant publication =>
      exact .track (.streamInfoUpdated room participant publication) s.resetting rfl hs
  | streamInfoCleared => exact .track .streamInfoCleared s.resetting rfl hs

section Worker

variable {Q : GRPCWorker → Prop}

theorem callbackReset_worker
    (hQ : ∀ w event w' made, Q w → s.Offers event →
      w.step config.transportConfig event = some (w', made) → Q w')
    {w : GRPCWorker} (h : Q w) : Q (w.callbackReset.getD w) := by
  cases hreset : w.callbackReset with
  | none => exact h
  | some w' => exact hQ w .callbackReset w' none h trivial (by rw [GRPCWorker.step, hreset]; rfl)

theorem callback_worker
    (hQ : ∀ w event w' made, Q w → s.Offers event →
      w.step config.transportConfig event = some (w', made) → Q w')
    {s₁ : PluginState} {made : Option Callback} (h : Q s₁.worker)
    (hs : s₁.callback config made = some s') : Q s'.worker := by
  cases made with
  | none =>
      cases hs
      exact h
  | some made =>
      cases made with
      | onGeneration generation state =>
          rw [onTrack_worker hs]
          exact h
      | onAudio generation startSample pcmS16le =>
          simp only [callback] at hs
          rw [onTrack_worker hs]
          split
          · exact callbackReset_worker hQ h
          · exact h
      | onProtocolError generation detail =>
          rw [onTrack_worker hs]
          exact h

/-- What every step of the worker keeps is kept by every step of the plugin. -/
theorem step_worker
    (hQ : ∀ w event w' made, Q w → s.Offers event →
      w.step config.transportConfig event = some (w', made) → Q w')
    (h : Q s.worker) (hs : (pluginSystem config).Step s e s') : Q s'.worker := by
  cases step_parts hs with
  | track event resetting _ hs =>
      rw [onTrack_worker hs]
      exact h
  | worker event worker made resetting works hs =>
      have hworker : Q worker := hQ _ event worker made h works.offers works.step
      exact callback_worker hQ hworker hs
  | both event worker action works _ hs =>
      rw [onTrack_worker hs]
      exact hQ _ event worker none h works.offers works.step

end Worker

section Track

variable {Q : ProcessorState → Prop}

theorem onTrack_track
    (hQ : ∀ t event t', Q t → ProcessorState.step config t event = some t' → Q t')
    {event : ProcessorEvent} {p : PluginState} (h : Q p.track)
    (hs : p.onTrack config event = some s') : Q s'.track := by
  obtain ⟨track, hstep, rfl⟩ := onTrack_eq_some hs
  exact hQ _ _ _ h hstep

theorem callback_track
    (hQ : ∀ t event t', Q t → ProcessorState.step config t event = some t' → Q t')
    {made : Option Callback} {p : PluginState} (h : Q p.track)
    (hs : p.callback config made = some s') : Q s'.track := by
  cases made with
  | none =>
      cases hs
      exact h
  | some made =>
      cases made with
      | onGeneration generation state => exact onTrack_track hQ h hs
      | onAudio generation startSample pcmS16le =>
          simp only [callback] at hs
          refine onTrack_track hQ ?_ hs
          split <;> exact h
      | onProtocolError generation detail => exact onTrack_track hQ h hs

/-- What every step of the processor keeps is kept by every step of the plugin. -/
theorem step_track
    (hQ : ∀ t event t', Q t → ProcessorState.step config t event = some t' → Q t')
    (h : Q s.track) (hs : (pluginSystem config).Step s e s') : Q s'.track := by
  cases step_parts hs with
  | track event resetting _ hs => exact onTrack_track (p := { s with resetting }) hQ h hs
  | worker event worker made resetting _ hs =>
      exact callback_track (p := { s with worker, resetting }) hQ h hs
  | both event worker action _ _ hs => exact onTrack_track (p := { s with worker }) hQ h hs

end Track

end PluginState

end VoxLattice.Plugin
