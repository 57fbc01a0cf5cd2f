import VoxLattice.Plugin.Cursors
import VoxLattice.Plugin.Places

/-!
# What the callbacks meet

The processor's own steps leave alone what decides how `_receive_audio` deals with a response
(`OffWorker`), and a response behind what is stored and within the input is stored or too late
(`receiveAudio_inOrder`).

Every request is about input that the processor has already taken (`reachable_behind`).
-/

namespace VoxLattice.Plugin

open Server (Bytes)

/-! ## The processor's own steps -/

/-- A change that no callback of the worker makes. -/
structure OffWorker (p p' : RemoteFastEnhancer) : Prop where
  generation : p'.remoteGeneration = p.remoteGeneration
  mismatches : p'.metrics.protocolMismatches = p.metrics.protocolMismatches
  below : ∀ bound, p.enhanced.Below bound → p'.enhanced.Below bound

section OffWorker

variable {config : RemoteFastEnhancerConfig} {t t' : ProcessorState} {p : RemoteFastEnhancer}

theorem OffWorker.refl (p : RemoteFastEnhancer) : OffWorker p p := ⟨rfl, rfl, fun _ h => h⟩

theorem takeFrame_offWorker (frame : AudioFrame) : OffWorker p (p.takeFrame frame).1 := by
  unfold RemoteFastEnhancer.takeFrame
  split
  · exact .refl p
  · dsimp only
    split
    · exact ⟨rfl, rfl, fun _ h => h⟩
    · split <;> exact ⟨rfl, rfl, fun _ h => h⟩

theorem emitFrame_offWorker (frame : AudioFrame) :
    OffWorker p (p.emitFrame config frame).1 := by
  unfold RemoteFastEnhancer.emitFrame
  dsimp only
  split
  · exact .refl p
  · exact ⟨rfl, rfl, fun _ h => h.discardBefore _⟩

theorem setEnabled_offWorker (value : Bool) : OffWorker p (p.setEnabled value).1 := by
  unfold RemoteFastEnhancer.setEnabled
  split
  · exact .refl p
  · split
    · exact .refl p
    · exact ⟨rfl, rfl, fun bound _ => p.enhanced.below_clear bound⟩

theorem process_offWorker (frame : AudioFrame) :
    OffWorker t.processor (t.process config frame).processor := by
  have htake := takeFrame_offWorker (p := t.processor) frame
  unfold ProcessorState.process
  split
  · exact .refl _
  · dsimp only
    split
    all_goals
      next heq =>
        rw [heq] at htake
        exact htake

theorem emit_offWorker (frame : AudioFrame) :
    OffWorker t.processor (t.emit config frame).processor := by
  have hemit : OffWorker t.processor (t.processor.emitFrame config frame).1 :=
    emitFrame_offWorker frame
  unfold ProcessorState.emit
  split
  all_goals
    next heq =>
      rw [heq] at hemit
      exact hemit

theorem step_offWorker {event : ProcessorEvent} (hs : t.step config event = some t')
    (he : event.callback = false) : OffWorker t.processor t'.processor := by
  cases ProcessorState.step_stepped hs with
  | process frame _ => exact process_offWorker frame
  | trySend sent _ => exact .refl _
  | overflow _ => exact ⟨rfl, rfl, fun bound _ => t.processor.enhanced.below_clear bound⟩
  | forceReset _ => exact .refl _
  | resetRaised _ => exact .refl _
  | emit _ => exact emit_offWorker _
  | setEnabled value => exact setEnabled_offWorker value
  | beginClose =>
      unfold RemoteFastEnhancer.beginClose
      split <;> exact ⟨rfl, rfl, fun _ h => h⟩
  | endClose _ => exact ⟨rfl, rfl, fun bound _ => t.processor.enhanced.below_clear bound⟩
  | streamInfoUpdated room participant publication => exact ⟨rfl, rfl, fun _ h => h⟩
  | streamInfoCleared => exact ⟨rfl, rfl, fun _ h => h⟩
  | generationChanged generation state => cases he
  | protocolError generation => cases he
  | receiveAudio generation start pcm => cases he

end OffWorker

/-- `_generation_changed` clears what an older generation has sent. -/
theorem generationChanged_spec (generation : Nat) (state : TransportState)
    (p : RemoteFastEnhancer) :
    (p.generationChanged generation state).metrics.protocolMismatches =
        p.metrics.protocolMismatches ∧
      (p.generationChanged generation state).remoteGeneration =
        max p.remoteGeneration generation ∧
      ∀ bound, p.remoteGeneration < generation ∨ p.enhanced.Below bound →
        (p.generationChanged generation state).enhanced.Below bound := by
  unfold RemoteFastEnhancer.generationChanged
  dsimp only
  split
  · next hlt =>
      refine ⟨?_, (Nat.max_eq_right (Nat.le_of_lt hlt)).symm, fun bound _ =>
        p.enhanced.below_clear bound⟩
      dsimp only
      split <;> rfl
  · next hle =>
      refine ⟨rfl, (Nat.max_eq_left (Nat.le_of_not_lt hle)).symm, fun bound hbelow => ?_⟩
      exact hbelow.resolve_left hle

/-! ## Callbacks and responses -/

namespace PluginState

variable {config : RemoteFastEnhancerConfig} {s s' : PluginState} {e : PluginEvent}

/-- No callback is part of `close`. -/
theorem callback_offClose {made : Option Callback} (h : s.callback config made = some s') :
    GRPCWorker.OffClose s.worker s'.worker := by
  cases made with
  | none =>
      cases h
      exact ⟨rfl, rfl⟩
  | some made =>
      cases made with
      | onGeneration generation state =>
          rw [onTrack_worker h]
          exact ⟨rfl, rfl⟩
      | onProtocolError generation detail =>
          rw [onTrack_worker h]
          exact ⟨rfl, rfl⟩
      | onAudio generation start pcm =>
          simp only [callback] at h
          rw [onTrack_worker h]
          split
          · cases hreset : s.worker.callbackReset with
            | none => exact ⟨rfl, rfl⟩
            | some worker =>
                unfold GRPCWorker.callbackReset at hreset
                split at hreset <;> cases hreset
                exact ⟨rfl, rfl⟩
          · exact ⟨rfl, rfl⟩

theorem step_channelOpen (hs : (pluginSystem config).Step s e s')
    (hopen : s'.worker.channelOpen = true) : s.worker.channelOpen = true :=
  step_worker (Q := fun w => w.channelOpen = true → s.worker.channelOpen = true)
    (fun _ _ _ _ hQ _ hstep hopen' => hQ (GRPCWorker.step_channelOpen hstep hopen')) id hs hopen

/-- What a response does to the plugin, by how the loop of `_run_generation` deals with it. -/
inductive Responded (config : RemoteFastEnhancerConfig) (message : Server.ServerMessage)
    (s s' : PluginState) (streaming : Streaming) : Prop where
  | accepted (streaming' : Streaming)
      (handled : streaming.handle config.transportConfig message = .accepted streaming')
      (worker : s'.worker = { s.worker with run := .streaming streaming' })
      (processor : s'.track.processor =
        s.track.processor.generationChanged s.worker.generation .active)
  | audio (streaming' : Streaming) (start : Nat) (pcm : Bytes)
      (handled : streaming.handle config.transportConfig message = .audio streaming' start pcm)
      (worker : (s.track.processor.receiveAudio s.worker.generation start pcm).2.resets = false →
        s'.worker = { s.worker with run := .streaming streaming' })
      (processor : s'.track.processor =
        (s.track.processor.receiveAudio s.worker.generation start pcm).1)
  | returned (handled : streaming.handle config.transportConfig message = .returned)
      (worker : s'.worker = s.worker.returned config.transportConfig) (track : s'.track = s.track)
  | raised (detail : String)
      (handled : streaming.handle config.transportConfig message = .raised detail)

theorem response_step {message : Server.ServerMessage}
    (hs : (pluginSystem config).Step s (.worker (.response message)) s') :
    ∃ streaming, s.worker.run = .streaming streaming ∧
      Responded config message s s' streaming := by
  replace hs := hs.eq
  simp only [pluginSystem, step, WorkerEvent.internal, if_true, GRPCWorker.step,
    GRPCWorker.response] at hs
  split at hs
  · next worker made hstep =>
      split at hstep
      · next streaming hrun =>
          refine ⟨streaming, hrun, ?_⟩
          split at hstep
          · next streaming' hhandled =>
              cases hstep
              obtain ⟨track, htrack, rfl⟩ := onTrack_eq_some hs
              cases htrack
              exact .accepted streaming' hhandled rfl rfl
          · next streaming' start pcm hhandled =>
              cases hstep
              simp only [callback] at hs
              split at hs
              · next hresets =>
                  obtain ⟨track, htrack, rfl⟩ := onTrack_eq_some hs
                  cases htrack
                  exact .audio streaming' start pcm hhandled
                    (fun hfalse => by cases hresets.symm.trans hfalse) rfl
              · obtain ⟨track, htrack, rfl⟩ := onTrack_eq_some hs
                cases htrack
                exact .audio streaming' start pcm hhandled (fun _ => rfl) rfl
          · next hhandled =>
              cases hstep
              cases hs
              exact .returned hhandled rfl rfl
          · next detail hhandled => exact .raised detail hhandled
      · cases hstep
  · cases hs

/-! ### The channel -/

/-- A closed processor stays closed. -/
theorem stepTrack_closed {t t' : ProcessorState} {event : ProcessorEvent}
    (hs : t.step config event = some t') (hclosed : t'.processor.closed = false) :
    t.processor.closed = false := by
  cases step_moves hs with
  | steady h => exact h.closed.symm.trans hclosed
  | stored start pcm enhanced _ _ _ h => exact h.closed.symm.trans hclosed
  | passed frame closed => exact closed
  | appended frame raw _ closed => exact closed
  | refused frame error _ closed => exact closed
  | emitted frame output _ emit => exact (emitFrame_emits emit).closed.symm.trans hclosed
  | stuck frame error _ emit => exact (emitFrame_error emit).1 ▸ hclosed
  | raised _ processor => exact processor ▸ hclosed
  | toggled value _ flips processor =>
      rw [processor] at hclosed
      unfold RemoteFastEnhancer.setEnabled at hclosed
      split at hclosed
      · exact hclosed
      · split at hclosed <;> exact hclosed
  | closing _ processor =>
      rw [processor] at hclosed
      unfold RemoteFastEnhancer.beginClose at hclosed
      split at hclosed
      · exact hclosed
      · cases hclosed
  | cleared _ _ processor =>
      rw [processor] at hclosed
      exact hclosed

theorem callback_closed {made : Option Callback} (h : s.callback config made = some s')
    (hclosed : s'.track.processor.closed = false) : s.track.processor.closed = false :=
  callback_track (Q := fun t => t.processor.closed = false → s.track.processor.closed = false)
    (fun _ _ _ hQ hstep hclosed' => hQ (stepTrack_closed hstep hclosed')) id h hclosed

/-- Unless `_close` has been called, the channel is open. -/
def Unclosed (s : PluginState) : Prop :=
  s.track.processor.closed = false → s.worker.closing = .over ∧ s.worker.channelOpen = true

theorem Works.unclosed {event : WorkerEvent} {worker : GRPCWorker} {made : Option Callback}
    (works : Works config e s event worker made) (hclose : event ≠ .close)
    (h : s.worker.closing = .over ∧ s.worker.channelOpen = true) :
    worker.closing = .over ∧ worker.channelOpen = true := by
  have hstep : event ≠ .closeStep := by
    rintro rfl
    obtain ⟨_, hcloses, ⟨⟩⟩ := Option.map_eq_some_iff.mp works.step
    exact GRPCWorker.closeStep_at hcloses h.1
  have hoff := GRPCWorker.step_offClose works.step hclose hstep
  exact ⟨hoff.closing.trans h.1, hoff.channelOpen.trans h.2⟩

theorem Unclosed.step (h : Unclosed s) (hs : (pluginSystem config).Step s e s') :
    Unclosed s' := by
  by_cases hbegin : e = .beginClose
  · subst hbegin
    intro hclosed
    have hprocessor : s'.track.processor = s.track.processor.beginClose.1 := by
      have heq := hs.eq
      simp only [pluginSystem, PluginState.step] at heq
      split at heq
      all_goals
        obtain ⟨track, hstep, rfl⟩ := onTrack_eq_some heq
        cases hstep
        rfl
    rw [hprocessor] at hclosed
    unfold RemoteFastEnhancer.beginClose at hclosed
    split at hclosed
    · next htrue => cases htrue.symm.trans hclosed
    · cases hclosed
  · intro hclosed
    cases step_parts hs with
    | track event resetting _ hs =>
        obtain ⟨track, hstep, rfl⟩ := onTrack_eq_some hs
        exact h (stepTrack_closed hstep hclosed)
    | worker event worker made resetting works hs =>
        have hbefore : s.track.processor.closed = false :=
          callback_closed (s := { s with worker, resetting }) hs hclosed
        have hoff := callback_offClose hs
        obtain ⟨hover, hopen⟩ := works.unclosed (fun heq => hbegin (works.close heq)) (h hbefore)
        exact ⟨hoff.closing.trans hover, hoff.channelOpen.trans hopen⟩
    | both event worker action works _ hs =>
        obtain ⟨track, hstep, rfl⟩ := onTrack_eq_some hs
        exact works.unclosed (fun heq => hbegin (works.close heq))
          (h (stepTrack_closed hstep hclosed))

/-- The channel stays open until `_close` is called. -/
theorem reachable_unclosed (h : (pluginSystem config).Reachable s) : Unclosed s :=
  Lts.System.Reachable.invariant (I := Unclosed) (fun _ => ⟨rfl, rfl⟩)
    (fun _ _ _ hI hs => hI.step hs) h

end PluginState

/-! ## Responses in order -/

/-- A response behind what is stored and within the input is stored or too late. -/
theorem receiveAudio_inOrder {p p' : RemoteFastEnhancer} {received : RemoteFastEnhancer.Received}
    {generation start samples : Nat} {pcm : Bytes}
    (hreceive : p.receiveAudio generation start pcm = (p', received))
    (hbelow : p.enhanced.Below start) (hlength : pcm.length = samples * 2) (hpos : 0 < samples)
    (hwithin : start + samples ≤ p.inputCursor) :
    received.resets = false ∧ p'.remoteGeneration = p.remoteGeneration ∧
      p'.metrics.protocolMismatches = p.metrics.protocolMismatches ∧
      p'.enhanced.Below (start + samples) := by
  have hsamples : pcm.length / 2 = samples := by omega
  have hlater : p.enhanced.Below (start + samples) := hbelow.mono (Nat.le_add_right _ _)
  unfold RemoteFastEnhancer.receiveAudio at hreceive
  dsimp only at hreceive
  split at hreceive
  · cases hreceive
    exact ⟨rfl, rfl, rfl, hlater⟩
  · split at hreceive
    · cases hreceive
      exact ⟨rfl, rfl, rfl, hlater⟩
    · next hdue =>
        -- what is left of the response starts at the output cursor or later
        have hleft : (pcm.drop ((p.outputCursor - start) * 2)).length =
            (samples - (p.outputCursor - start)) * 2 := by
          rw [List.length_drop, hlength]
          omega
        have hend : max start p.outputCursor +
            (pcm.drop ((p.outputCursor - start) * 2)).length / 2 = start + samples := by
          rw [hleft]
          omega
        have hbehind : (p.countLate (p.outputCursor - start)).enhanced.Below
            (max start p.outputCursor) := hbelow.mono (Nat.le_max_left _ _)
        have hne : (pcm.drop ((p.outputCursor - start) * 2)).length ≠ 0 := by omega
        obtain ⟨enhanced, hinsert, hbound⟩ := hbehind.insert hne (by omega)
        have hfits : ¬ p.inputCursor < max start p.outputCursor +
            (pcm.drop ((p.outputCursor - start) * 2)).length / 2 := by
          rw [hend]
          exact Nat.not_lt.mpr hwithin
        split at hreceive
        · next hbeyond => exact absurd hbeyond hfits
        · split at hreceive
          · next enhanced' hstored =>
              obtain rfl := Except.ok.inj (hinsert.symm.trans hstored)
              cases hreceive
              exact ⟨rfl, rfl, rfl, hend ▸ hbound⟩
          · next herror => exact absurd (hinsert.symm.trans herror) nofun

/-! ## The requests and the input -/

/-- The request is about input up to the cursor. -/
def Behind (cursor : Nat) (request : AudioRequest) : Prop :=
  request.startSample + request.samples ≤ cursor

/-- `_process` sends the frame it has taken. -/
def SendsBehind (t : ProcessorState) : Prop :=
  ∀ frame start, t.call = some (.sending frame start) →
    Behind t.processor.inputCursor ⟨start, frame.data⟩

section Behind

variable {config : RemoteFastEnhancerConfig} {t t' : ProcessorState} {s s' : PluginState}
  {e : PluginEvent}

/-- The first block of `_process` moves the input cursor to the end of the frame. -/
theorem takeFrame_inputCursor (frame : AudioFrame) (p : RemoteFastEnhancer) :
    p.inputCursor ≤ (p.takeFrame frame).1.inputCursor ∧
      ∀ start, (p.takeFrame frame).2 = .appended start →
        start + frame.samplesPerChannel = (p.takeFrame frame).1.inputCursor := by
  unfold RemoteFastEnhancer.takeFrame
  split
  · exact ⟨le_rfl, nofun⟩
  · dsimp only
    split
    · exact ⟨Nat.le_add_right _ _, nofun⟩
    · split
      · exact ⟨Nat.le_add_right _ _, nofun⟩
      · refine ⟨Nat.le_add_right _ _, fun start heq => ?_⟩
        cases heq
        rfl

theorem SendsBehind.process (h : SendsBehind t) (config : RemoteFastEnhancerConfig)
    (frame : AudioFrame) :
    t.processor.inputCursor ≤ (t.process config frame).processor.inputCursor ∧
      (t.call = none → SendsBehind (t.process config frame)) := by
  obtain ⟨hle, hend⟩ := takeFrame_inputCursor frame t.processor
  unfold ProcessorState.process
  split
  · exact ⟨le_rfl, fun _ => h⟩
  · next hcheck =>
      dsimp only
      split
      · next processor start heq =>
          rw [heq] at hle hend
          refine ⟨hle, fun _ => ?_⟩
          rintro frame' start' hcall
          cases hcall
          have hsamples := hend start rfl
          have hlength := checkFrame_ok hcheck
          rw [Behind, AudioRequest.samples]
          dsimp only at hsamples ⊢
          omega
      · next processor heq =>
          rw [heq] at hle
          exact ⟨hle, fun hidle frame' start' hcall => absurd (hidle.symm.trans hcall) nofun⟩
      · next processor error heq =>
          rw [heq] at hle
          exact ⟨hle, fun hidle frame' start' hcall => absurd (hidle.symm.trans hcall) nofun⟩

/-- A change that leaves the input cursor where it is and sends nothing new. -/
theorem SendsBehind.frame (h : SendsBehind t)
    (hcursor : t'.processor.inputCursor = t.processor.inputCursor)
    (hcall : ∀ frame start, t'.call = some (.sending frame start) →
      t.call = some (.sending frame start)) :
    t.processor.inputCursor ≤ t'.processor.inputCursor ∧ SendsBehind t' := by
  refine ⟨hcursor.ge, fun frame start hsending => ?_⟩
  rw [hcursor]
  exact h frame start (hcall frame start hsending)

theorem emit_inputCursor (config : RemoteFastEnhancerConfig) (t : ProcessorState)
    (frame : AudioFrame) :
    (t.emit config frame).processor.inputCursor = t.processor.inputCursor ∧
      (t.emit config frame).call = none := by
  cases hemit : t.processor.emitFrame config frame with
  | mk processor result =>
      simp only [ProcessorState.emit, hemit]
      unfold RemoteFastEnhancer.emitFrame at hemit
      dsimp only at hemit
      split at hemit
      · cases hemit
        exact ⟨rfl, rfl⟩
      · cases hemit
        exact ⟨rfl, rfl⟩

theorem receiveAudio_inputCursor (generation start : Nat) (pcm : Bytes) :
    (t.receiveAudio generation start pcm).processor.inputCursor = t.processor.inputCursor := by
  change (t.processor.receiveAudio generation start pcm).1.inputCursor = _
  unfold RemoteFastEnhancer.receiveAudio
  dsimp only
  split
  · rfl
  · split
    · rfl
    · split
      · rfl
      · split <;> rfl

/-- The input cursor never moves back. -/
theorem SendsBehind.step {event : ProcessorEvent} (h : SendsBehind t)
    (hs : t.step config event = some t') :
    t.processor.inputCursor ≤ t'.processor.inputCursor ∧ SendsBehind t' := by
  cases ProcessorState.step_stepped hs with
  | process frame idle =>
      obtain ⟨hle, hsends⟩ := h.process config frame
      exact ⟨hle, hsends idle⟩
  | trySend sent _ =>
      refine h.frame rfl fun frame start hcall => ?_
      cases sent <;> cases hcall
  | overflow _ => exact h.frame rfl nofun
  | forceReset _ => exact h.frame rfl nofun
  | resetRaised _ => exact h.frame rfl nofun
  | emit _ =>
      obtain ⟨hcursor, hcall⟩ := emit_inputCursor config t _
      exact h.frame hcursor fun frame start hsending => absurd (hcall.symm.trans hsending) nofun
  | setEnabled value =>
      refine h.frame ?_ fun _ _ => id
      dsimp only [RemoteFastEnhancer.setEnabled]
      split
      · rfl
      · split <;> rfl
  | beginClose =>
      refine h.frame ?_ fun _ _ => id
      dsimp only [RemoteFastEnhancer.beginClose]
      split <;> rfl
  | endClose _ => exact h.frame rfl fun _ _ => id
  | streamInfoUpdated room participant publication => exact h.frame rfl fun _ _ => id
  | streamInfoCleared => exact h.frame rfl fun _ _ => id
  | generationChanged generation state =>
      refine h.frame ?_ fun _ _ => id
      dsimp only [RemoteFastEnhancer.generationChanged]
      split <;> rfl
  | protocolError generation =>
      refine h.frame ?_ fun _ _ => id
      dsimp only [RemoteFastEnhancer.protocolError]
      split <;> rfl
  | receiveAudio generation start pcm =>
      exact h.frame (receiveAudio_inputCursor generation start pcm) fun _ _ => id

theorem sendsBehind_init (config : RemoteFastEnhancerConfig) :
    SendsBehind (PluginState.init config).track := by
  intro frame start hcall
  cases hcall

theorem reachable_sendsBehind (h : (pluginSystem config).Reachable s) : SendsBehind s.track :=
  Lts.System.Reachable.invariant (I := fun s : PluginState => SendsBehind s.track)
    (sendsBehind_init config)
    (fun _ _ _ hI hs => PluginState.step_track (fun _ _ _ hQ hstep => (hQ.step hstep).2) hI hs) h

/-- Every request of the worker is about input that was taken. -/
theorem reachable_behind (h : (pluginSystem config).Reachable s) :
    Requests (Behind s.track.processor.inputCursor) s.worker := by
  refine Lts.System.Reachable.invariant₂
    (I := fun s : PluginState => Requests (Behind s.track.processor.inputCursor) s.worker)
    Requests.init ?_ h
  intro s e s' hreach hI hs
  have hsends : SendsBehind s.track := reachable_sendsBehind hreach
  have hcursor : s.track.processor.inputCursor ≤ s'.track.processor.inputCursor :=
    (PluginState.step_track (Q := fun t => SendsBehind t ∧
        s.track.processor.inputCursor ≤ t.processor.inputCursor)
      (fun t event t' hQ hstep => ⟨(hQ.1.step hstep).2, hQ.2.trans (hQ.1.step hstep).1⟩)
      ⟨hsends, le_rfl⟩ hs).2
  have hrequests : Requests (Behind s.track.processor.inputCursor) s'.worker := by
    refine PluginState.step_worker (fun w event w' made hQ hoffers hstep => hQ.step hstep ?_ ?_)
      hI hs
    · rintro request rfl
      obtain ⟨frame, hcall, hdata⟩ := hoffers
      have hbehind := hsends frame _ hcall
      rwa [← hdata] at hbehind
    · rintro k metadata uuid rfl
      exact hoffers.2
  exact hrequests.mono fun request hbehind => Nat.le_trans hbehind hcursor

end Behind

end VoxLattice.Plugin
