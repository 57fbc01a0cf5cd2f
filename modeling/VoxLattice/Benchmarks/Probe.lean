import VoxLattice.Benchmarks.Load
import VoxLattice.Plugin.Latency
import VoxLattice.Server.Conversion

/-!
# What the probe requires and what the plugin returns

`plugin_probe` requires all samples but the algorithmic delay.  The processor holds back
`output_delay_ms` besides, so what `_process` has returned after `n` hops is
`n * 256 - 256 - round(output_delay_ms * 16)` samples, or none (`Passes.total`).  The two agree
after at most one hop, or if the delay rounds to no sample, and the probe makes at least four
calls (`probe_agrees_iff`).
-/

namespace VoxLattice.Benchmarks

open Intervals
open Plugin (AudioFrame Call Cursors GRPCWorker Lags PluginEvent PluginMetrics PluginState
  ProcessorEvent ProcessorState RemoteFastEnhancer RemoteFastEnhancerConfig Returned Timeline)

/-! ## The delay -/

theorem ProbeArguments.four_le_hopCount (args : ProbeArguments) : 4 ≤ args.hopCount := by
  rw [ProbeArguments.hopCount]
  omega

/-- The delay rounds to no sample up to the half of one. -/
theorem ProbeArguments.responseWaitSamples_eq_zero (args : ProbeArguments) :
    args.config.responseWaitSamples = 0 ↔ args.outputDelayMs ≤ 1 / 32 := by
  have hsamples : args.config.outputDelayMs * Plugin.sampleRateHz / 1000 =
      args.outputDelayMs * 16 := by
    have hdelay : args.config.outputDelayMs = args.outputDelayMs := rfl
    rw [hdelay, Plugin.sampleRateHz]
    push_cast
    linarith
  have hnearest := Server.roundHalfEven_nearest (args.outputDelayMs * 16)
  rw [RemoteFastEnhancerConfig.responseWaitSamples, hsamples, Int.toNat_eq_zero,
    hnearest.le_iff Even.zero, Int.cast_zero]
  constructor
  · intro h
    linarith
  · intro h
    linarith

theorem eligible_eq (n : Nat) : eligible n = n * 256 - 256 := rfl

/-- The total the probe requires is the one the processor can return just if there is no more
than one hop, or no delay. -/
theorem eligible_eq_iff (config : RemoteFastEnhancerConfig) (n : Nat) :
    n * hopSamples - config.lag = eligible n ↔ n ≤ 1 ∨ config.responseWaitSamples = 0 := by
  have hlag : config.lag = 256 + config.responseWaitSamples := rfl
  have hinput : n * hopSamples = n * 256 := rfl
  rw [hlag, eligible_eq, hinput]
  omega

/-! ## The processor between two calls of the probe -/

/-- The event is inside a call or a callback of the worker. -/
def within : ProcessorEvent → Bool
  | .process _ | .setEnabled _ | .beginClose | .endClose | .streamInfoUpdated _ _ _
  | .streamInfoCleared => false
  | _ => true

/-- The processor has been given so many hops. -/
structure Fed (config : RemoteFastEnhancerConfig) (n : Nat) (t : ProcessorState) : Prop where
  lags : Lags config ⟨t, 0, 0⟩
  enabled : t.processor.enabled = true
  opened : t.processor.closed = false
  input : t.processor.inputCursor = n * hopSamples
  count : t.returned.length + t.call.toList.length = n
  hop : ∀ call, t.call = some call → call.frame.samplesPerChannel = hopSamples
  samplesOut : t.processor.metrics.samplesOut = total Returned.samples t.returned

/-- The last of so many calls has raised. -/
structure Failed (n : Nat) (t : ProcessorState) : Prop where
  idle : t.call = none
  count : t.returned.length + 1 = n

section Track

variable {config : RemoteFastEnhancerConfig} {t t' : ProcessorState} {event : ProcessorEvent}
  {n : Nat}

theorem calls_map (h : t'.call.map Call.frame = t.call.map Call.frame) :
    t'.call.toList.length = t.call.toList.length := by
  have hmap : ∀ t : ProcessorState, t.call.toList.length =
      (t.call.map Call.frame).toList.length := by
    intro t
    cases t.call with
    | none => rfl
    | some call => rfl
  rw [hmap, hmap, h]

/-- Nothing within a call begins one. -/
theorem step_idle (hs : t.step config event = some t') (he : within event = true)
    (hidle : t.call = none) : t'.call = none ∧ t'.returned = t.returned := by
  have hbusy : ∀ {call : Call} {P : Prop}, t.call = some call → P := by
    intro call P hcall
    rw [hidle] at hcall
    cases hcall
  cases ProcessorState.step_stepped hs with
  | process frame idle => cases he
  | trySend sent call => exact hbusy call
  | overflow call => exact hbusy call
  | forceReset call => exact hbusy call
  | resetRaised call => exact hbusy call
  | emit call => exact hbusy call
  | setEnabled value => cases he
  | beginClose => cases he
  | endClose closed => cases he
  | streamInfoUpdated room participant publication => cases he
  | streamInfoCleared => cases he
  | generationChanged generation state => exact ⟨hidle, rfl⟩
  | protocolError generation => exact ⟨hidle, rfl⟩
  | receiveAudio generation start pcm =>
      unfold ProcessorState.receiveAudio
      exact ⟨hidle, rfl⟩

/-- What has been returned stays. -/
theorem step_returned (hs : t.step config event = some t') (he : within event = true) :
    t.returned <+: t'.returned := by
  cases ProcessorState.step_stepped hs with
  | emit call =>
      unfold ProcessorState.emit
      split
      · exact List.prefix_append _ _
      · exact List.prefix_rfl
  | receiveAudio generation start pcm =>
      unfold ProcessorState.receiveAudio
      exact List.prefix_rfl
  | process frame idle => cases he
  | setEnabled value => cases he
  | beginClose => cases he
  | endClose closed => cases he
  | streamInfoUpdated room participant publication => cases he
  | streamInfoCleared => cases he
  | _ => exact List.prefix_rfl

theorem Failed.step (h : Failed n t) (hs : t.step config event = some t')
    (he : within event = true) : Failed n t' := by
  obtain ⟨hidle, hreturned⟩ := step_idle hs he h.idle
  refine ⟨hidle, ?_⟩
  rw [hreturned]
  exact h.count

/-- The timeline begins with the processor and goes on while it is enabled. -/
theorem lags_step (h : Lags config ⟨t, 0, 0⟩) (henabled : t.processor.enabled = true)
    (hs : t.step config event = some t') (hordinary : event.ordinary = true)
    (htoggle : ∀ value, event ≠ .setEnabled value) : Lags config ⟨t', 0, 0⟩ := by
  refine h.step ⟨⟨hordinary, ?_⟩, ?_⟩
  · rintro ⟨value, heq⟩
    exact absurd heq (htoggle value)
  · change (t.step config event).map _ = _
    rw [hs, Option.map_some, henabled, Bool.not_true, Bool.and_false]
    rfl

theorem fed_init (config : RemoteFastEnhancerConfig) : Fed config 0 (.init config) where
  lags := Plugin.lags_init config
  enabled := rfl
  opened := rfl
  input := rfl
  count := rfl
  hop := nofun
  samplesOut := rfl

/-- A call with a hop. -/
theorem Fed.process (h : Fed config n t) (hidle : t.call = none) {frame : AudioFrame}
    (hcheck : RemoteFastEnhancer.checkFrame config frame = .ok ())
    (hsamples : frame.samplesPerChannel = hopSamples) :
    Fed config (n + 1) (t.process config frame) ∧
      (t.process config frame).call = some (.sending frame t.processor.inputCursor) ∧
      (t.process config frame).returned = t.returned := by
  have hstep : t.step config (.process frame) = some (t.process config frame) := by
    rw [ProcessorState.step, hidle, Option.isNone_none, if_pos rfl]
  have hlags := lags_step h.lags h.enabled hstep rfl (by rintro _ ⟨⟩)
  obtain ⟨p, happends, hprocess⟩ :=
    Plugin.process_appends h.lags.cursors h.opened h.enabled hcheck
  rw [hprocess] at hlags ⊢
  have hcount := h.count
  rw [hidle] at hcount
  refine ⟨⟨hlags, happends.enabled, happends.closed, ?_, ?_, ?_, ?_⟩, rfl, rfl⟩
  · rw [happends.inputCursor, h.input, hsamples, Nat.succ_mul]
  · exact congrArg (· + 1) hcount
  · intro call hcall
    cases hcall
    exact hsamples
  · rw [happends.samplesOut]
    exact h.samplesOut

/-- What happens within a call keeps it, but that the call may raise in `force_reset`. -/
theorem Fed.step (h : Fed config n t) (hs : t.step config event = some t')
    (he : within event = true) : Fed config n t' ∨ event = .resetRaised ∧ Failed n t' := by
  by_cases hraised : event = .resetRaised
  · subst hraised
    right
    have hcount := h.count
    cases ProcessorState.step_stepped hs with
    | resetRaised call =>
        rw [call] at hcount
        exact ⟨rfl, rfl, hcount⟩
  · left
    have hordinary : event.ordinary = true := by
      cases event with
      | beginClose => cases he
      | endClose => cases he
      | resetRaised => exact absurd rfl hraised
      | _ => rfl
    have hlags := lags_step h.lags h.enabled hs hordinary (by rintro value rfl; cases he)
    cases Plugin.step_moves hs with
    | steady hsteady call returned =>
        refine ⟨hlags, hsteady.enabled.trans h.enabled, hsteady.closed.trans h.opened,
          hsteady.inputCursor.trans h.input, ?_, fun c hc => ?_, ?_⟩
        · rw [returned, calls_map call]
          exact h.count
        · rw [hc, Option.map_some] at call
          obtain ⟨c', hc', hframe⟩ := Option.map_eq_some_iff.mp call.symm
          rw [← hframe]
          exact h.hop c' hc'
        · rw [hsteady.samplesOut, returned]
          exact h.samplesOut
    | stored start pcm enhanced insert low high hsteady call returned =>
        refine ⟨hlags, hsteady.enabled.trans h.enabled, hsteady.closed.trans h.opened,
          hsteady.inputCursor.trans h.input, ?_, fun c hc => h.hop c (call ▸ hc), ?_⟩
        · rw [returned, call]
          exact h.count
        · rw [hsteady.samplesOut, returned]
          exact h.samplesOut
    | passed frame closed enabled =>
        rw [h.enabled] at enabled
        cases enabled
    | appended frame raw checked closed enabled append take idle call =>
        rw [(step_idle hs he idle).1] at call
        cases call
    | refused frame error checked closed enabled append =>
        rw [h.lags.cursors.append_eq_ok enabled (Plugin.checkFrame_ok checked)] at append
        cases append
    | emitted frame output calling emit call returned =>
        have hemits := Plugin.emitFrame_emits emit
        have hcount := h.count
        rw [calling] at hcount
        refine ⟨hlags, hemits.enabled.trans h.enabled, hemits.closed.trans h.opened,
          hemits.inputCursor.trans h.input, ?_, fun c hc => ?_, ?_⟩
        · rw [returned, call, List.length_append]
          exact hcount
        · rw [call] at hc
          cases hc
        · rw [hemits.samplesOut, h.samplesOut, returned, total_append]
          rfl
    | stuck frame error calling emit =>
        obtain ⟨p, output, hok⟩ := h.lags.cursors.emitFrame_ok config frame
        rw [hok] at emit
        cases emit
    | raised event => exact absurd event hraised
    | toggled value event =>
        subst event
        cases he
    | closing event =>
        subst event
        cases he
    | cleared event =>
        subst event
        cases he

theorem Fed.returned_length (h : Fed config n t) (hidle : t.call = none) :
    t.returned.length = n := by
  have hcount := h.count
  rw [hidle] at hcount
  exact hcount

/-- Between two calls, all samples that are older than the lag have been returned. -/
theorem Fed.total (h : Fed config n t) (hidle : t.call = none) :
    total Returned.samples t.returned = n * hopSamples - config.lag := by
  have htotal := h.lags.latency.total h.enabled hidle
  rw [Timeline.emitted, List.drop_zero, h.input] at htotal
  rw [htotal]
  exact Nat.zero_max _

end Track

section Plugin

variable {config : RemoteFastEnhancerConfig} {p p' : PluginState} {e : PluginEvent} {n : Nat}

/-- A step of the plugin that is not the caller's does to the processor one thing within a call,
or nothing. -/
theorem step_within (hs : p.step config e = some p') (he : ofCaller e = false) :
    p'.track = p.track ∨
      ∃ event, within event = true ∧ p.track.step config event = some p'.track := by
  have htrack : ∀ (q : PluginState) (event : ProcessorEvent), q.track = p.track →
      within event = true → q.onTrack config event = some p' → p'.track = p.track ∨
        ∃ event, within event = true ∧ p.track.step config event = some p'.track := by
    intro q event hq hwithin hq'
    obtain ⟨track, hstep, rfl⟩ := PluginState.onTrack_eq_some hq'
    exact .inr ⟨event, hwithin, hq ▸ hstep⟩
  cases e with
  | trySend =>
      simp only [PluginState.step] at hs
      split at hs
      · split at hs
        · cases hs
        · split at hs
          · cases hs
            exact .inl rfl
          · exact htrack p _ rfl rfl hs
      · cases hs
  | put =>
      simp only [PluginState.step] at hs
      split at hs
      · exact htrack _ _ (by rfl) rfl hs
      · cases hs
  | overflow => exact htrack p .overflow rfl rfl hs
  | forceReset =>
      simp only [PluginState.step] at hs
      split at hs
      · cases hs
        exact .inl rfl
      · cases hs
  | resetReturns =>
      simp only [PluginState.step] at hs
      split at hs
      · split at hs
        · exact htrack _ _ (by rfl) rfl hs
        · exact htrack _ _ (by rfl) rfl hs
        · cases hs
      · cases hs
  | emit => exact htrack p .emit rfl rfl hs
  | begin k uuid =>
      obtain ⟨worker, -, rfl⟩ := Option.map_eq_some_iff.mp hs
      exact .inl rfl
  | worker event =>
      simp only [PluginState.step] at hs
      split at hs
      · split at hs
        · next worker made _ =>
            cases made with
            | none =>
                cases hs
                exact .inl rfl
            | some made =>
                cases made with
                | onGeneration generation state => exact htrack _ _ (by rfl) rfl hs
                | onProtocolError generation detail => exact htrack _ _ (by rfl) rfl hs
                | onAudio generation start pcm =>
                    simp only [PluginState.callback] at hs
                    refine htrack _ (.receiveAudio generation start pcm) ?_ rfl hs
                    split
                    · rfl
                    · rfl
        · cases hs
      · cases hs
  | process frame => cases he
  | setEnabled value => cases he
  | beginClose => cases he
  | endClose => cases he
  | streamInfoUpdated room participant publication => cases he
  | streamInfoCleared => cases he

/-- During a call of the probe the call goes on or has returned, or has raised. -/
theorem step_during (h : Fed config n p.track ∨ Failed n p.track)
    (hs : p.step config e = some p') (he : ofCaller e = false) :
    (Fed config n p'.track ∨ Failed n p'.track) ∧ p.track.returned <+: p'.track.returned := by
  obtain hsame | ⟨event, hwithin, hstep⟩ := step_within hs he
  · rw [hsame]
    exact ⟨h, List.prefix_rfl⟩
  · refine ⟨?_, step_returned hstep hwithin⟩
    obtain hfed | hfailed := h
    · exact (hfed.step hstep hwithin).imp_right And.right
    · exact .inr (hfailed.step hstep hwithin)

/-- Between two calls the processor returns nothing. -/
theorem step_between (h : Fed config n p.track) (hidle : p.track.call = none)
    (hs : p.step config e = some p') (he : ofCaller e = false) :
    Fed config n p'.track ∧ p'.track.call = none ∧ p'.track.returned = p.track.returned := by
  obtain hsame | ⟨event, hwithin, hstep⟩ := step_within hs he
  · rw [hsame]
    exact ⟨h, hidle, rfl⟩
  · obtain hfed | ⟨rfl, -⟩ := h.step hstep hwithin
    · exact ⟨hfed, step_idle hstep hwithin hidle⟩
    · rw [ProcessorState.step, hidle] at hstep
      cases hstep

end Plugin

/-! ## The loop of the probe -/

/-- What the probe knows when it leaves the loop. -/
structure Tallied (args : ProbeArguments) (outputSamples : Nat) (metrics : PluginMetrics) :
    Prop where
  output : outputSamples = args.hopCount * hopSamples - args.config.lag
  sources : metrics.enhancedSamples + metrics.rawFallbackSamples = outputSamples

/-- The invariant of the probe. -/
inductive Follows (args : ProbeArguments) : ProbeState → Prop where
  | looping {plugin : PluginState} {outputSamples index : Nat}
      (fed : Fed args.config index plugin.track) (idle : plugin.track.call = none)
      (output : outputSamples = total Returned.samples plugin.track.returned)
      (le : index ≤ args.hopCount) : Follows args ⟨plugin, outputSamples, .looping index⟩
  | processing {plugin : PluginState} {outputSamples index : Nat}
      (fed : Fed args.config (index + 1) plugin.track ∨ Failed (index + 1) plugin.track)
      (output : outputSamples = total Returned.samples (plugin.track.returned.take index))
      (lt : index < args.hopCount) : Follows args ⟨plugin, outputSamples, .processing index⟩
  | leaving {plugin : PluginState} {outputSamples : Nat} {metrics : Option PluginMetrics}
      (tallied : ∀ m, metrics = some m → Tallied args outputSamples m) :
      Follows args ⟨plugin, outputSamples, .leaving metrics⟩
  | closing {plugin : PluginState} {outputSamples : Nat} {metrics : Option PluginMetrics}
      (tallied : ∀ m, metrics = some m → Tallied args outputSamples m) :
      Follows args ⟨plugin, outputSamples, .closing metrics⟩
  | escaped {plugin : PluginState} {outputSamples : Nat} :
      Follows args ⟨plugin, outputSamples, .over .escaped⟩
  | checked {plugin : PluginState} {outputSamples : Nat} (metrics : PluginMetrics)
      (tallied : Tallied args outputSamples metrics) :
      Follows args ⟨plugin, outputSamples, .over (.checked (check args outputSamples metrics))⟩

section Loop

variable {sine : Sine} {args : ProbeArguments} {s s' : ProbeState} {e : ProbeEvent}

theorem sineHop_length (sine : Sine) (streamIndex hopIndex : Nat) :
    (sineHop sine streamIndex hopIndex).length = hopSamples * 2 := by
  rw [sineHop, List.length_flatMap]
  simp only [Server.int16Bytes_length, List.map_const', List.length_range, List.sum_replicate_nat]

/-- A hop is a frame `_process` accepts. -/
theorem probeFrame_checked (sine : Sine) (args : ProbeArguments) (index : Nat) :
    RemoteFastEnhancer.checkFrame args.config (probeFrame sine index) = .ok () := by
  have hlength : (probeFrame sine index).data.length =
      (probeFrame sine index).samplesPerChannel * 2 := sineHop_length sine 997 index
  have hmono : ¬ ((probeFrame sine index).sampleRate ≠ Plugin.sampleRateHz ∨
      (probeFrame sine index).numChannels ≠ 1) := not_or.mpr ⟨not_not.mpr rfl, not_not.mpr rfl⟩
  have hfits : ¬ args.config.maxBufferSamples < (probeFrame sine index).samplesPerChannel := by
    have hbuffer : args.config.maxBufferMs = 500 := rfl
    have hsamples : (probeFrame sine index).samplesPerChannel = 256 := rfl
    rw [Plugin.maxBufferSamples_eq, hbuffer, hsamples]
    decide
  rw [RemoteFastEnhancer.checkFrame, if_neg hmono, if_neg (not_not.mpr hlength), if_neg hfits]

theorem probeFrame_samples (sine : Sine) (index : Nat) :
    (probeFrame sine index).samplesPerChannel = hopSamples := rfl

/-- All calls but the last one in progress have returned. -/
theorem returned_le {config : RemoteFastEnhancerConfig} {t : ProcessorState} {index : Nat}
    (h : Fed config (index + 1) t ∨ Failed (index + 1) t) : index ≤ t.returned.length := by
  obtain hfed | hfailed := h
  · have hcount := hfed.count
    have hone := t.call.length_toList_le
    omega
  · exact (Nat.succ.inj hfailed.count).ge

theorem follows_init (args : ProbeArguments) : Follows args (.init args) :=
  .looping (fed_init args.config) rfl rfl (Nat.zero_le _)

/-- A step within a call, or of another thread. -/
theorem Follows.within (h : Follows args s) {event : PluginEvent}
    (hs : (probeSystem sine args).step s (.plugin event) = some s') : Follows args s' := by
  simp only [probeSystem, ProbeState.step] at hs
  split at hs
  · cases hs
  · next hcaller =>
      have he : ofCaller event = false := Bool.eq_false_of_not_eq_true hcaller
      obtain ⟨plugin, hstep, rfl⟩ := Option.map_eq_some_iff.mp hs
      split
      · exact .escaped
      · cases h with
        | looping fed idle output le =>
            obtain ⟨hfed, hidle, hreturned⟩ := step_between fed idle hstep he
            exact .looping hfed hidle (by rw [hreturned]; exact output) le
        | processing fed output lt =>
            obtain ⟨hfed, more, hmore⟩ := step_during fed hstep he
            refine .processing hfed ?_ lt
            rw [← hmore, List.take_append_of_le_length (returned_le fed)]
            exact output
        | leaving tallied => exact .leaving tallied
        | closing tallied => exact .closing tallied
        | escaped => exact .escaped
        | checked metrics tallied => exact .checked metrics tallied

/-- Every step of the probe and of the plugin keeps the invariant. -/
theorem Follows.step (h : Follows args s) (hs : (probeSystem sine args).Step s e s') :
    Follows args s' := by
  obtain ⟨-, hs⟩ := hs
  cases e with
  | plugin event => exact h.within hs
  | call =>
      cases h with
      | @looping plugin outputSamples index fed idle output le =>
          simp only [probeSystem, ProbeState.step] at hs
          split at hs
          · next hlt =>
              obtain ⟨plugin', hstep, rfl⟩ := Option.map_eq_some_iff.mp hs
              obtain ⟨track, htrack, rfl⟩ := PluginState.onTrack_eq_some hstep
              rw [ProcessorState.step, idle, Option.isNone_none, if_pos rfl] at htrack
              obtain rfl := Option.some.inj htrack
              obtain ⟨hfed, -, hreturned⟩ := fed.process idle
                (probeFrame_checked sine args index) (probeFrame_samples sine index)
              refine .processing ?_ ?_ hlt
              · dsimp only
                exact .inl hfed
              · dsimp only
                rw [hreturned, List.take_of_length_le (fed.returned_length idle).le]
                exact output
          · cases hs
      | _ => cases hs
  | returns =>
      cases h with
      | @processing plugin outputSamples index fed output lt =>
          simp only [probeSystem, ProbeState.step] at hs
          split at hs
          · cases hs
          · next hcall =>
              have hidle : plugin.track.call = none := by
                rwa [Option.not_isSome_iff_eq_none] at hcall
              split at hs
              · next returned hreturned =>
                  cases hs
                  obtain ⟨hlt, hlast⟩ := List.getElem?_eq_some_iff.mp hreturned
                  obtain hfed | hfailed := fed
                  · refine .looping hfed hidle ?_ lt
                    have hlength := hfed.returned_length hidle
                    have hall := List.take_of_length_le hlength.le
                    rw [List.take_add_one, hreturned] at hall
                    have htotal := congrArg (total Returned.samples) hall
                    rw [total_append, ← output] at htotal
                    exact htotal
                  · have hcount := hfailed.count
                    omega
              · cases hs
                exact .leaving (by rintro _ ⟨⟩)
      | _ => cases hs
  | metrics =>
      cases h with
      | @looping plugin outputSamples index fed idle output le =>
          simp only [probeSystem, ProbeState.step] at hs
          split at hs
          · cases hs
          · next hlt =>
              cases hs
              have hindex : index = args.hopCount := by omega
              refine .leaving fun m hm => ?_
              cases hm
              constructor
              · rw [output, fed.total idle, hindex]
              · rw [output, ← fed.samplesOut]
                exact fed.lags.counted.symm
      | _ => cases hs
  | close =>
      cases h with
      | leaving tallied =>
          simp only [probeSystem, ProbeState.step] at hs
          obtain ⟨plugin, -, rfl⟩ := Option.map_eq_some_iff.mp hs
          exact .closing tallied
      | _ => cases hs
  | closed =>
      cases h with
      | @closing plugin outputSamples metrics tallied =>
          simp only [probeSystem, ProbeState.step] at hs
          obtain ⟨plugin', -, rfl⟩ := Option.map_eq_some_iff.mp hs
          cases metrics with
          | none => exact .escaped
          | some metrics => exact .checked metrics (tallied metrics rfl)
      | _ => cases hs

theorem reachable_follows (h : (probeSystem sine args).Reachable s) : Follows args s :=
  Lts.System.Reachable.invariant (follows_init args) (fun _ _ _ hI hs => hI.step hs) h

end Loop

end VoxLattice.Benchmarks
