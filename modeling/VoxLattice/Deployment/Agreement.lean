import VoxLattice.Deployment.Calls

/-!
# The plugin does not mistake the server

The messages a generator has yielded are the acceptance, its audio in order and the end
(`Transcript`), and the plugin gets an initial segment of them.  `Hearing` says where it leaves
the loop of `_run_generation`: the next message is the one the loop expects
(`Hearing.accepts`).

The audio of a stream ends within the chunks the stream got, hence within the input the
processor has taken, and begins where the audio stored before it ends.  Hence `_receive_audio`
stores it, or finds it late (`Follows`).
-/

namespace VoxLattice

open Intervals
open Server (Bytes EnhancedAudio OutputAudio ServerMessage ServerSettings ServerState Stream
  StreamAccepted StreamingModel capabilities)
open Plugin (GRPCWorker OffWorker PluginEvent PluginState RemoteFastEnhancer
  RemoteFastEnhancerConfig RunPlace Streaming)

namespace Deployment

variable {κ : Type*} {config : RemoteFastEnhancerConfig} {settings : ServerSettings}
  {model : StreamingModel κ}

/-! ## The loop over the responses -/

/-- Where the messages received so far leave the loop of `_run_generation`. -/
inductive Hearing (link : Link) (streams : List (Stream κ)) (first : Nat) :
    Streaming → Prop where
  | nothing (received : link.received = 0) : Hearing link streams first ⟨false, 0, first⟩
  /-- The acceptance and so much of the audio. -/
  | audio (n j : Nat) (st : Stream κ) (stream : link.stream = some j)
      (here : streams[j]? = some st) (received : link.received = n + 1)
      (emitted : n ≤ st.history.emitted.length) :
      Hearing link streams first
        ⟨true, n, first + total OutputAudio.validSamples (st.history.emitted.take n)⟩

/-- The calls and the streams go on. -/
structure GoesOn (link link' : Link) (streams streams' : List (Stream κ)) : Prop where
  received : link'.received = link.received
  stream : ∀ j, link.stream = some j → link'.stream = some j
  emitted : ∀ (j : Nat) (st : Stream κ), streams[j]? = some st →
    ∃ st' : Stream κ, streams'[j]? = some st' ∧ st.history.emitted <+: st'.history.emitted

theorem Hearing.goesOn {link link' : Link} {streams streams' : List (Stream κ)} {first : Nat}
    {streaming : Streaming} (h : Hearing link streams first streaming)
    (hon : GoesOn link link' streams streams') : Hearing link' streams' first streaming := by
  cases h with
  | nothing received => exact .nothing (hon.received.trans received)
  | audio n j st stream here received emitted =>
      obtain ⟨st', here', more, hmore⟩ := hon.emitted j st here
      have htake : (st.history.emitted ++ more).take n = st.history.emitted.take n :=
        List.take_append_of_le_length emitted
      rw [← htake, hmore]
      refine .audio n j st' (hon.stream j stream) here' (hon.received.trans received) ?_
      rw [← hmore, List.length_append]
      omega

/-- What the loop needs to know of a stream. -/
structure Speaks (accepted : StreamAccepted) (first cursor : Nat) (st : Stream κ) : Prop where
  transcript : Server.Transcript accepted st.history st.session.ended
  tiles : Tiles OutputAudio.startSample OutputAudio.validSamples first st.history.emitted
  bytes : ∀ audio ∈ st.history.emitted, audio.pcmS16le.length = 2 * audio.validSamples
  within : ∀ audio ∈ st.history.emitted, audio.startSample + audio.validSamples ≤ cursor

/-- The loop goes on with a message, or ends with the last one. -/
inductive Accepts (config : Plugin.TransportConfig) (link : Link) (streams : List (Stream κ))
    (first cursor : Nat) (message : ServerMessage) (streaming : Streaming) : Prop where
  | accepted (streaming' : Streaming)
      (handled : streaming.handle config message = .accepted streaming')
      (expected : streaming'.expectedOutput = streaming.expectedOutput)
      (hearing : Hearing link.receive streams first streaming')
  | audio (streaming' : Streaming) (samples : Nat) (pcm : Bytes)
      (handled : streaming.handle config message =
        .audio streaming' streaming.expectedOutput pcm)
      (expected : streaming'.expectedOutput = streaming.expectedOutput + samples)
      (hearing : Hearing link.receive streams first streaming')
      (length : pcm.length = samples * 2) (pos : 0 < samples)
      (within : streaming.expectedOutput + samples ≤ cursor)
  | returned (handled : streaming.handle config message = .returned)

/-- The message at a place of the transcript, after the acceptance. -/
theorem transcript_get {accepted : StreamAccepted} {st : Stream κ} {n : Nat}
    {message : ServerMessage} (h : Server.Transcript accepted st.history st.session.ended)
    (hmessage : st.history.yielded[n + 1]? = some message) :
    (∃ audio : EnhancedAudio, message = .audio audio ∧
      st.history.emitted[n]? = some audio.event ∧ audio.outputSequence.toNat = n) ∨
    ∃ ended, message = .ended ended := by
  have haudio : ∀ messages : List EnhancedAudio, Server.Sent st.history.emitted messages →
      (messages.map ServerMessage.audio)[n]? = some message →
      ∃ audio : EnhancedAudio, message = .audio audio ∧
        st.history.emitted[n]? = some audio.event ∧ audio.outputSequence.toNat = n := by
    intro messages hsent hget
    rw [List.getElem?_map, Option.map_eq_some_iff] at hget
    obtain ⟨audio, haudio, rfl⟩ := hget
    have hlt : n < messages.length := (List.getElem?_eq_some_iff.mp haudio).1
    refine ⟨audio, rfl, ?_, ?_⟩
    · have hevents := congrArg (fun l : List OutputAudio => l[n]?) hsent.events
      simpa only [List.getElem?_map, haudio, Option.map_some, List.getElem?_take, hlt, if_true]
        using hevents.symm
    · have hnumbered := congrArg (fun l : List Nat => l[n]?) hsent.numbered
      simpa only [List.getElem?_map, haudio, Option.map_some, List.getElem?_range hlt,
        Option.some.injEq] using hnumbered
  cases h with
  | nothing h =>
      rw [h] at hmessage
      cases hmessage
  | running messages hsent h =>
      rw [h, List.getElem?_cons_succ] at hmessage
      exact .inl (haudio messages hsent hmessage)
  | ended messages ended completion hsent _ _ _ _ h =>
      rw [h, List.cons_append, List.getElem?_cons_succ] at hmessage
      by_cases hlt : n < messages.length
      · rw [List.getElem?_append_left (by rw [List.length_map]; exact hlt)] at hmessage
        exact .inl (haudio messages hsent hmessage)
      · rw [List.getElem?_append_right (by rw [List.length_map]; omega)] at hmessage
        have hmem := List.mem_of_getElem? hmessage
        exact .inr ⟨ended, List.mem_singleton.mp hmem⟩

/-- The first message is the acceptance. -/
theorem transcript_first {accepted : StreamAccepted} {st : Stream κ} {message : ServerMessage}
    (h : Server.Transcript accepted st.history st.session.ended)
    (hmessage : st.history.yielded[0]? = some message) : message = .accepted accepted := by
  cases h with
  | nothing h =>
      rw [h] at hmessage
      cases hmessage
  | running messages _ h =>
      rw [h] at hmessage
      exact (Option.some.inj hmessage).symm
  | ended messages ended completion _ _ _ _ _ h =>
      rw [h] at hmessage
      exact (Option.some.inj hmessage).symm

/-- The next message is one the loop expects. -/
theorem Hearing.accepts {transport : Plugin.TransportConfig} {accepted : StreamAccepted}
    {link : Link} {streams : List (Stream κ)} {first cursor j : Nat} {streaming : Streaming}
    {st : Stream κ} {message : ServerMessage} (h : Hearing link streams first streaming)
    (hvalid : Plugin.validateAccepted transport accepted = .ok ())
    (hlink : link.stream = some j) (hst : streams[j]? = some st)
    (hspeaks : Speaks accepted first cursor st)
    (hmessage : st.history.yielded[link.received]? = some message) :
    Accepts transport link streams first cursor message streaming := by
  cases h with
  | nothing received =>
      rw [received] at hmessage
      obtain rfl := transcript_first hspeaks.transcript hmessage
      refine .accepted ⟨true, 0, first⟩ ?_ rfl ?_
      · simp [Streaming.handle, hvalid]
      · exact .audio 0 j st hlink hst (congrArg (· + 1) received) (Nat.zero_le _)
  | audio n j' st' stream here received emitted =>
      obtain rfl := Option.some.inj (hlink.symm.trans stream)
      obtain rfl := Option.some.inj (hst.symm.trans here)
      rw [received] at hmessage
      rcases transcript_get hspeaks.transcript hmessage with ⟨audio, rfl, haudio, hsequence⟩ |
        ⟨ended, rfl⟩
      · obtain ⟨hlt, heq⟩ := List.getElem?_eq_some_iff.mp haudio
        have hsplit : st.history.emitted = st.history.emitted.take n ++
            audio.event :: st.history.emitted.drop (n + 1) := by
          rw [← heq, ← List.drop_eq_getElem_cons hlt, List.take_append_drop]
        have hmem : audio.event ∈ st.history.emitted := List.mem_of_getElem? haudio
        have hstart : audio.outputStartSample.toNat =
            first + total OutputAudio.validSamples (st.history.emitted.take n) :=
          Tiles.start_eq (hsplit ▸ hspeaks.tiles)
        have hpos : 0 < audio.validSamples.toNat := (hspeaks.tiles.mem_bounds hmem).2.2
        have hbytes : audio.pcmS16le.length = 2 * audio.validSamples.toNat :=
          hspeaks.bytes _ hmem
        have hlength : audio.pcmS16le.length = audio.validSamples.toNat * 2 :=
          hbytes.trans (Nat.mul_comm _ _)
        have hne : audio.validSamples ≠ 0 := by
          intro hzero
          rw [hzero] at hpos
          exact absurd hpos (by decide)
        have htotal : total OutputAudio.validSamples (st.history.emitted.take (n + 1)) =
            total OutputAudio.validSamples (st.history.emitted.take n) +
              audio.validSamples.toNat := by
          rw [List.take_add_one, haudio, Option.toList_some, total_append, total_cons, total_nil,
            Nat.add_zero]
          rfl
        refine .audio ⟨true, n + 1, first + total OutputAudio.validSamples
          (st.history.emitted.take (n + 1))⟩ audio.validSamples.toNat audio.pcmS16le ?_ ?_ ?_
          hlength hpos ?_
        · simp [Streaming.handle, hsequence, hstart, hne, hlength, htotal, Nat.add_assoc]
        · rw [htotal, Nat.add_assoc]
        · exact .audio (n + 1) j st hlink hst (congrArg (· + 1) received) hlt
        · have hend := hspeaks.within _ hmem
          rw [← hstart]
          exact hend
      · exact .returned rfl

/-! ## The plugin between two responses -/

/-- What holds of the processor and of the current call at each place of `_run`. -/
def Placed (link : Link) (streams : List (Stream κ)) (w : GRPCWorker) (p : RemoteFastEnhancer) :
    Prop :=
  match w.run with
  | .clearing | .announcing => p.remoteGeneration < w.generation ∧ link.received = 0
  | .calling | .storing => p.enhanced.Below 0 ∧ link.received = 0
  | .streaming streaming =>
    p.enhanced.Below streaming.expectedOutput ∧ Hearing link streams w.firstSample streaming
  | run => run.faulty = false

/-- The plugin has found nothing wrong so far. -/
structure Follows (links : Nat → Link) (streams : List (Stream κ)) (s : PluginState) : Prop where
  mismatches : s.track.processor.metrics.protocolMismatches = 0
  generation : s.track.processor.remoteGeneration ≤ s.worker.generation
  later : ∀ k, s.worker.generation ≤ k → (links k).received = 0
  placed : Placed (links (s.worker.generation - 1)) streams s.worker s.track.processor

section Placed

variable {link link' : Link} {streams streams' : List (Stream κ)} {w w' : GRPCWorker}
  {p p' : RemoteFastEnhancer}

theorem Placed.sound (h : Placed link streams w p) : w.run.faulty = false := by
  unfold Placed at h
  split at h
  all_goals first | exact h | (next hrun => rw [hrun]; rfl)

theorem Placed.outside (hrun : w.run.inGeneration = false) (hsound : w.run.faulty = false) :
    Placed link streams w p := by
  unfold Placed
  split
  all_goals first | exact hsound | (next heq => rw [heq] at hrun; cases hrun)

/-- A change elsewhere. -/
theorem Placed.stays (h : Placed link streams w p) (hrun : w'.run = w.run)
    (hgeneration : w'.generation = w.generation) (hfirst : w'.firstSample = w.firstSample)
    (hoff : OffWorker p p') : Placed link streams w' p' := by
  unfold Placed at h ⊢
  rw [hrun, hgeneration, hfirst, hoff.generation]
  split at h
  · exact h
  · exact h
  · exact ⟨hoff.below _ h.1, h.2⟩
  · exact ⟨hoff.below _ h.1, h.2⟩
  · exact ⟨hoff.below _ h.1, h.2⟩
  · exact h

theorem Placed.goesOn (h : Placed link streams w p) (hon : GoesOn link link' streams streams') :
    Placed link' streams' w p := by
  unfold Placed at h ⊢
  split at h
  · exact ⟨h.1, hon.received.trans h.2⟩
  · exact ⟨h.1, hon.received.trans h.2⟩
  · exact ⟨h.1, hon.received.trans h.2⟩
  · exact ⟨h.1, hon.received.trans h.2⟩
  · exact ⟨h.1, h.2.goesOn hon⟩
  · exact h

end Placed

section Follows

variable {links links' : Nat → Link} {streams streams' : List (Stream κ)} {s s' : PluginState}

/-- A step of the processor's own. -/
theorem Follows.own (h : Follows links streams s) {event : Plugin.ProcessorEvent}
    (he : event.callback = false) (hs : s.onTrack config event = some s') :
    Follows links streams s' := by
  obtain ⟨track, hstep, rfl⟩ := PluginState.onTrack_eq_some hs
  have hoff := Plugin.step_offWorker hstep he
  exact ⟨hoff.mismatches.trans h.mismatches, hoff.generation.trans_le h.generation, h.later,
    h.placed.stays rfl rfl rfl hoff⟩

/-- `_run` goes on without a callback. -/
theorem Follows.silent (h : Follows links streams s) {worker : GRPCWorker}
    (hgeneration : worker.generation = s.worker.generation)
    (hplaced : Placed (links (s.worker.generation - 1)) streams worker s.track.processor) :
    Follows links streams { s with worker } where
  mismatches := h.mismatches
  generation := hgeneration ▸ h.generation
  later k hk := h.later k (hgeneration ▸ hk)
  placed := hgeneration ▸ hplaced

/-- `_run` announces its generation. -/
theorem Follows.announces (h : Follows links streams s) {worker : GRPCWorker}
    {state : Plugin.TransportState} (hgeneration : worker.generation = s.worker.generation)
    (hplaced : ∀ p' : RemoteFastEnhancer,
      p' = s.track.processor.generationChanged s.worker.generation state →
      Placed (links (s.worker.generation - 1)) streams worker p')
    (hs : { s with worker }.callback config (some (.onGeneration s.worker.generation state)) =
      some s') : Follows links streams s' := by
  obtain ⟨track, hstep, rfl⟩ := PluginState.onTrack_eq_some hs
  cases hstep
  obtain ⟨hmismatches, hremote, -⟩ := Plugin.generationChanged_spec s.worker.generation state
    s.track.processor
  refine ⟨hmismatches.trans h.mismatches, ?_, fun k hk => h.later k (hgeneration ▸ hk), ?_⟩
  · change (s.track.processor.generationChanged _ _).remoteGeneration ≤ worker.generation
    rw [hremote, hgeneration]
    exact max_le h.generation le_rfl
  · change Placed (links (worker.generation - 1)) streams worker _
    rw [hgeneration]
    exact hplaced _ rfl

/-- A step of the worker that is not about a response, with its callback. -/
theorem Follows.worker (h : Follows links streams s) {event : Plugin.WorkerEvent}
    {worker : GRPCWorker} {made : Option Plugin.Callback}
    (hstep : s.worker.step config.transportConfig event = some (worker, made))
    (hgoes : GRPCWorker.Goes s.worker worker made)
    (hs : { s with worker }.callback config made = some s') : Follows links streams s' := by
  have hplaced := h.placed
  cases hgoes with
  | stays run generation =>
      cases hs
      exact h.silent generation (hplaced.stays run generation
        ((GRPCWorker.step_effect hstep).firstSample generation) (.refl _))
  | begins run run' generation =>
      cases hs
      refine ⟨h.mismatches, ?_, fun k hk => h.later k ?_, ?_⟩
      · exact generation ▸ h.generation.trans (Nat.le_succ _)
      · change worker.generation ≤ k at hk
        omega
      · simp only [Placed, run', generation]
        exact ⟨Nat.lt_succ_of_le h.generation, h.later _ le_rfl⟩
  | clears run run' generation =>
      cases hs
      refine h.silent generation ?_
      simp only [Placed, run] at hplaced
      simp only [Placed, run', generation]
      exact hplaced
  | announces run run' generation =>
      refine h.announces generation ?_ hs
      rintro p' rfl
      simp only [Placed, run] at hplaced
      simp only [Placed, run']
      exact ⟨(Plugin.generationChanged_spec _ _ _).2.2 0 (.inl hplaced.1), hplaced.2⟩
  | calls run run' generation =>
      cases hs
      refine h.silent generation ?_
      simp only [Placed, run] at hplaced
      simp only [Placed, run']
      exact hplaced
  | streams run run' generation =>
      cases hs
      refine h.silent generation ?_
      simp only [Placed, run] at hplaced
      simp only [Placed, run', (GRPCWorker.step_effect hstep).firstSample generation]
      exact ⟨hplaced.1.mono (Nat.zero_le _), .nothing hplaced.2⟩
  | outside run' sound generation =>
      cases hs
      exact h.silent generation (.outside run' sound)
  | reports state run' sound generation =>
      exact h.announces generation (fun _ _ => .outside run' sound) hs

/-- A step of the plugin that is not about a response. -/
theorem Follows.plugin (h : Follows links streams s) {event : PluginEvent}
    (hs : (Plugin.pluginSystem config).Step s event s') (hopen : s'.worker.channelOpen = true)
    (hvalid : ∀ accepted, event = .worker (.ready (.capabilities accepted)) →
      Plugin.validateAccepted config.transportConfig accepted = .ok ())
    (hresponse : ∀ message, event ≠ .worker (.response message)) :
    Follows links streams s' := by
  have hgoes : ∀ {event' : Plugin.WorkerEvent} {worker : GRPCWorker}
      {made : Option Plugin.Callback}, PluginState.Works config event s event' worker made →
      worker.channelOpen = true → GRPCWorker.Goes s.worker worker made := by
    intro event' worker made works hopen
    refine GRPCWorker.step_goes works.step hopen h.placed.sound ?_ ?_ works.reset
    · rintro accepted rfl
      exact hvalid accepted (works.internal rfl)
    · rintro message rfl
      exact hresponse message (works.internal rfl)
  cases PluginState.step_parts hs with
  | track action resetting own hs =>
      have hresetting : Follows links streams { s with resetting } :=
        ⟨h.mismatches, h.generation, h.later, h.placed⟩
      exact hresetting.own own hs
  | worker event' worker made resetting works hs =>
      rw [(PluginState.callback_offClose hs).channelOpen] at hopen
      have hresetting : Follows links streams { s with resetting } :=
        ⟨h.mismatches, h.generation, h.later, h.placed⟩
      exact hresetting.worker works.step (hgoes works hopen) hs
  | both event' worker action works own hs =>
      rw [PluginState.onTrack_worker hs] at hopen
      exact (h.worker works.step (hgoes works hopen) rfl).own own hs

/-- The calls and the streams go on. -/
theorem Follows.goesOn (h : Follows links streams s)
    (hon : ∀ k, GoesOn (links k) (links' k) streams streams') : Follows links' streams' s where
  mismatches := h.mismatches
  generation := h.generation
  later k hk := (hon k).received.trans (h.later k hk)
  placed := h.placed.goesOn (hon _)

/-- The loop over the responses goes on. -/
theorem Follows.heard (h : Follows links streams s)
    (hcurrent : s.worker.generation - 1 < s.worker.generation) {streaming : Streaming}
    (hworker : s'.worker = { s.worker with run := .streaming streaming })
    (hmismatches : s'.track.processor.metrics.protocolMismatches =
      s.track.processor.metrics.protocolMismatches)
    (hremote : s'.track.processor.remoteGeneration ≤ s.worker.generation)
    (hbelow : s'.track.processor.enhanced.Below streaming.expectedOutput)
    (hhearing : Hearing (links (s.worker.generation - 1)).receive streams s.worker.firstSample
      streaming) :
    Follows (Function.update links (s.worker.generation - 1)
      (links (s.worker.generation - 1)).receive) streams s' := by
  have hgeneration : s'.worker.generation = s.worker.generation := by
    rw [hworker]
    rfl
  refine ⟨hmismatches.trans h.mismatches, hgeneration ▸ hremote, fun k hk => ?_, ?_⟩
  · rw [Function.update_of_ne (by omega)]
    exact h.later k (hgeneration ▸ hk)
  · rw [hgeneration, Function.update_self]
    simp only [Placed, hworker]
    exact ⟨hbelow, hhearing⟩

/-- A response that the loop accepts. -/
theorem Follows.responds (h : Follows links streams s) {message : ServerMessage}
    (hs : (Plugin.pluginSystem config).Step s (.worker (.response message)) s')
    (hcurrent : s.worker.generation - 1 < s.worker.generation)
    (haccepts : ∀ streaming, s.worker.run = .streaming streaming →
      Hearing (links (s.worker.generation - 1)) streams s.worker.firstSample streaming →
      Accepts config.transportConfig (links (s.worker.generation - 1)) streams
        s.worker.firstSample s.track.processor.inputCursor message streaming) :
    Follows (Function.update links (s.worker.generation - 1)
      (links (s.worker.generation - 1)).receive) streams s' := by
  obtain ⟨streaming, hrun, hresponded⟩ := PluginState.response_step hs
  have hplaced := h.placed
  simp only [Placed, hrun] at hplaced
  obtain ⟨hbelow, hhearing⟩ := hplaced
  cases haccepts streaming hrun hhearing with
  | accepted streaming' handled expected hearing =>
      cases hresponded with
      | accepted streaming'' handled' worker processor =>
          cases handled.symm.trans handled'
          obtain ⟨hmismatches, hremote, hclears⟩ := Plugin.generationChanged_spec
            s.worker.generation .active s.track.processor
          refine h.heard hcurrent worker ?_ ?_ ?_ hearing
          · rw [processor, hmismatches]
          · rw [processor, hremote]
            exact max_le h.generation le_rfl
          · rw [processor, expected]
            exact hclears _ (.inr hbelow)
      | audio _ _ _ handled' => cases handled.symm.trans handled'
      | returned handled' => cases handled.symm.trans handled'
      | raised _ handled' => cases handled.symm.trans handled'
  | audio streaming' samples pcm handled expected hearing length pos within =>
      cases hresponded with
      | accepted _ handled' => cases handled.symm.trans handled'
      | audio streaming'' start pcm' handled' worker processor =>
          cases handled.symm.trans handled'
          obtain ⟨hresets, hremote, hmismatches, hstored⟩ :=
            Plugin.receiveAudio_inOrder Prod.mk.eta.symm hbelow length pos within
          refine h.heard hcurrent (worker hresets) ?_ ?_ ?_ hearing
          · rw [processor, hmismatches]
          · rw [processor, hremote]
            exact h.generation
          · rw [processor, expected]
            exact hstored
      | returned handled' => cases handled.symm.trans handled'
      | raised _ handled' => cases handled.symm.trans handled'
  | returned handled =>
      cases hresponded with
      | accepted _ handled' => cases handled.symm.trans handled'
      | audio _ _ _ handled' => cases handled.symm.trans handled'
      | returned handled' worker track =>
          have hgeneration : s'.worker.generation = s.worker.generation := by
            rw [worker]
            rfl
          refine ⟨by rw [track, h.mismatches], ?_, fun k hk => ?_, ?_⟩
          · rw [track, hgeneration]
            exact h.generation
          · rw [Function.update_of_ne (by omega)]
            exact h.later k (hgeneration ▸ hk)
          · rw [worker]
            exact .outside rfl rfl
      | raised _ handled' => cases handled.symm.trans handled'

end Follows

/-! ## Every run -/

/-- The server has the model that the plugin is locked to. -/
structure Matching (config : RemoteFastEnhancerConfig) (model : StreamingModel κ) : Prop where
  modelName : model.modelName = "FastEnhancer-B"
  modelRevision : model.modelRevision = config.expectedModelRevision
  modelSha256 : model.checkpointSha256 = config.expectedModelSha256

theorem Matching.valid (h : Matching config model) (settings : ServerSettings) :
    Plugin.validateAccepted config.transportConfig (capabilities settings model) = .ok () :=
  if_pos ⟨rfl, h.modelName, h.modelRevision, h.modelSha256, rfl, rfl, rfl, rfl, rfl⟩

section Runs

variable {d d' : Deployment κ} {e : DeploymentEvent κ}

/-- A stream of the plugin speaks as the loop needs it. -/
theorem reachable_speaks (hmodel : model.RowPerStream)
    (h : (deployment config settings model).Reachable d) {k j : Nat} {it : Plugin.RequestIterator}
    {st : Stream κ} (hlink : (d.links k).stream = some j)
    (hit : d.plugin.worker.iterators[k]? = some it) (hst : d.server.streams[j]? = some st) :
    Speaks (capabilities settings model) it.first.startSample d.plugin.track.processor.inputCursor
      st := by
  have hserver := reachable_server h
  obtain ⟨-, haccounts⟩ := Server.reachable_stream hmodel.delivers (fun _ _ => trivial)
    (Server.ledger_invariant settings model) hserver hst
  have hfed := (reachable_calls h).fed k j it st hlink hit hst
  refine ⟨haccounts.log.transcript, hfed.start ▸ haccounts.outputs.tiles,
    haccounts.outputs.bytes, fun audio hmem => ?_⟩
  obtain ⟨chunk, hchunk, hend⟩ := (Server.reachable_sourced hmodel hserver hst).emitted_end hmem
  have hbehind := ((Plugin.reachable_behind (reachable_plugin h)).iterators it
    (List.mem_of_getElem? hit)).made chunk (hfed.accepted chunk hchunk)
  exact hend.trans hbehind

/-- The streams go on while the server takes a step. -/
theorem streams_goOn (hreach : (Server.system settings model).Reachable d.server)
    {event : Server.Event κ} {server : ServerState κ}
    (hs : (Server.system settings model).Step d.server event server) {link link' : Link}
    (hreceived : link'.received = link.received)
    (hstream : ∀ j, link.stream = some j → link'.stream = some j) :
    GoesOn link link' d.server.streams server.streams where
  received := hreceived
  stream := hstream
  emitted j st hst := by
    obtain ⟨st', hst', heff⟩ := Server.step_effect model.delivers_any
      (Server.reachable_scheduling hreach) hs hst
    exact ⟨st', hst', heff.grows.emitted⟩

/-- A message reaches the server, which changes nothing the plugin has received. -/
theorem update_link {links : Nat → Link} {k : Nat} (link : Link)
    (hreceived : link.received = (links k).received)
    (hstream : ∀ j, (links k).stream = some j → link.stream = some j) (k' : Nat) :
    (Function.update links k link k').received = (links k').received ∧
      ∀ j, (links k').stream = some j → (Function.update links k link k').stream = some j := by
  by_cases heq : k' = k
  · rw [heq, Function.update_self]
    exact ⟨hreceived, hstream⟩
  · rw [Function.update_of_ne heq]
    exact ⟨rfl, fun _ => id⟩

/-- The next message of the server is one the loop accepts. -/
theorem answer_accepts (hmodel : model.RowPerStream) (hmatching : Matching config model)
    (h : (deployment config settings model).Reachable d) {message : ServerMessage}
    (hanswer : d.answer = some message) {streaming : Streaming}
    (hhearing : Hearing (d.links d.current) d.server.streams d.plugin.worker.firstSample
      streaming) :
    Accepts config.transportConfig (d.links d.current) d.server.streams
      d.plugin.worker.firstSample d.plugin.track.processor.inputCursor message streaming := by
  obtain ⟨j, st, hlink, hst, hmessage⟩ := answer_link hanswer
  have hlt : d.current < d.plugin.worker.iterators.length := (reachable_calls h).lt hlink
  have hit := List.getElem?_eq_getElem hlt
  have hspeaks := reachable_speaks hmodel h hlink hit hst
  rw [← GRPCWorker.firstSample_eq hit] at hspeaks
  exact hhearing.accepts (hmatching.valid settings) hlink hst hspeaks hmessage

theorem follows_init (config : RemoteFastEnhancerConfig) (settings : ServerSettings) :
    Follows (init config settings : Deployment κ).links
      (init config settings : Deployment κ).server.streams
      (init config settings : Deployment κ).plugin :=
  ⟨rfl, le_rfl, fun _ _ => rfl, .outside rfl rfl⟩

/-- As long as the channel is open, the plugin finds nothing wrong. -/
theorem reachable_follows (hmodel : model.RowPerStream) (hmatching : Matching config model)
    (h : (deployment config settings model).Reachable d)
    (hopen : d.plugin.worker.channelOpen = true) :
    Follows d.links d.server.streams d.plugin := by
  refine Lts.System.Reachable.invariant₂
    (I := fun d => d.plugin.worker.channelOpen = true →
      Follows d.links d.server.streams d.plugin)
    (fun _ => follows_init config settings) ?_ h hopen
  intro d e d' hreach hfollows hs hopen
  have hserver := reachable_server hreach
  cases step_effect hs with
  | plugin event plugin hplugin hresponse hready =>
      refine (hfollows (PluginState.step_channelOpen hplugin hopen)).plugin hplugin hopen ?_
        hresponse
      intro accepted heq
      rw [hready accepted heq]
      exact hmatching.valid settings
  | server event server hstep _ =>
      exact (hfollows hopen).goesOn fun k => streams_goOn hserver hstep rfl fun _ => id
  | connect k received first hlink _ =>
      refine (hfollows hopen).goesOn fun k' => ?_
      obtain ⟨hreceived, hstream⟩ := update_link
        ⟨opened d.server (Server.enhance settings model first d.server), 1, received⟩
        (congrArg Link.received hlink).symm
        (fun j hj => absurd ((congrArg Link.stream hlink).symm.trans hj) nofun) k'
      exact streams_goOn hserver (step_enhance first _) hreceived hstream
  | deliver k j delivered received message server hlink _ hstep =>
      refine (hfollows hopen).goesOn fun k' => ?_
      obtain ⟨hreceived, hstream⟩ := update_link ⟨some j, delivered + 1, received⟩
        (congrArg Link.received hlink).symm
        (fun j' hj => (congrArg Link.stream hlink).symm.trans hj) k'
      exact streams_goOn hserver hstep hreceived hstream
  | respond message plugin hanswer hplugin =>
      obtain ⟨j, st, hlink, -, -⟩ := answer_link hanswer
      refine (hfollows (PluginState.step_channelOpen hplugin hopen)).responds hplugin
        ((reachable_calls hreach).lt hlink) fun streaming _ hhearing => ?_
      exact answer_accepts hmodel hmatching hreach hanswer hhearing

/-- The plugin has not mistaken the server for a broken one, and does not do so with the message
that comes next. -/
structure Trusts (config : RemoteFastEnhancerConfig) (d : Deployment κ) : Prop where
  mismatches : d.plugin.track.processor.metrics.protocolMismatches = 0
  /-- No `ValueError` has been raised, and no `force_reset` is due to a response. -/
  sound : d.plugin.worker.run.faulty = false
  /-- `_run_generation` does not raise. -/
  handles : ∀ streaming message, d.plugin.worker.run = .streaming streaming →
    d.answer = some message → ∀ detail,
      streaming.handle config.transportConfig message ≠ .raised detail
  /-- `_receive_audio` does not find the audio beyond the input, and `insert` does not raise. -/
  receives : ∀ streaming streaming' message start pcm,
    d.plugin.worker.run = .streaming streaming → d.answer = some message →
    streaming.handle config.transportConfig message = .audio streaming' start pcm →
      (d.plugin.track.processor.receiveAudio d.plugin.worker.generation start pcm).2 ≠ .beyond ∧
      (d.plugin.track.processor.receiveAudio d.plugin.worker.generation start pcm).2 ≠
        .overlapping

/-- In every run of a plugin and a server with the locked model, until a call of `_close` closes
the channel, the plugin does not mistake the server for a broken one. -/
theorem plugin_trusts_server (hmodel : model.RowPerStream) (hmatching : Matching config model)
    (h : (deployment config settings model).Reachable d)
    (hclose : d.plugin.track.processor.closed = true → d.plugin.worker.channelOpen = true) :
    Trusts config d := by
  have hopen : d.plugin.worker.channelOpen = true := by
    cases hclosed : d.plugin.track.processor.closed with
    | true => exact hclose hclosed
    | false => exact (PluginState.reachable_unclosed (reachable_plugin h) hclosed).2
  have hfollows := reachable_follows hmodel hmatching h hopen
  have haccepts : ∀ streaming message, d.plugin.worker.run = .streaming streaming →
      d.answer = some message → d.plugin.track.processor.enhanced.Below
        streaming.expectedOutput ∧ Accepts config.transportConfig (d.links d.current)
        d.server.streams d.plugin.worker.firstSample d.plugin.track.processor.inputCursor message
        streaming := by
    intro streaming message hrun hanswer
    have hplaced := hfollows.placed
    simp only [Placed, hrun] at hplaced
    exact ⟨hplaced.1, answer_accepts hmodel hmatching h hanswer hplaced.2⟩
  refine ⟨hfollows.mismatches, hfollows.placed.sound, ?_, ?_⟩
  · intro streaming message hrun hanswer detail hraised
    cases (haccepts streaming message hrun hanswer).2 with
    | accepted _ handled => cases handled.symm.trans hraised
    | audio _ _ _ handled => cases handled.symm.trans hraised
    | returned handled => cases handled.symm.trans hraised
  · intro streaming streaming' message start pcm hrun hanswer haudio
    obtain ⟨hbelow, haccepted⟩ := haccepts streaming message hrun hanswer
    cases haccepted with
    | accepted _ handled => cases handled.symm.trans haudio
    | returned handled => cases handled.symm.trans haudio
    | audio streaming'' samples pcm' handled _ _ length pos within =>
        cases handled.symm.trans haudio
        have hresets : (d.plugin.track.processor.receiveAudio d.plugin.worker.generation
            streaming.expectedOutput pcm).2.resets = false :=
          (Plugin.receiveAudio_inOrder Prod.mk.eta.symm hbelow length pos within).1
        constructor
        · intro hbeyond
          rw [hbeyond] at hresets
          cases hresets
        · intro hoverlapping
          rw [hoverlapping] at hresets
          cases hresets

end Runs

/-- The silent model, under the name that the plugin is locked to. -/
def lockedSilence : StreamingModel Unit :=
  { Server.silenceModel with
    modelRevision := Plugin.testConfig.expectedModelRevision
    checkpointSha256 := Plugin.testConfig.expectedModelSha256 }

instance (hops : List Server.Tensor) (caches : List Unit) (wav : List Server.Tensor)
    (updated : List Unit) : Decidable (lockedSilence.returns hops caches wav updated) :=
  inferInstanceAs (Decidable (Server.silenceModel.returns hops caches wav updated))

theorem lockedSilence_rowPerStream : lockedSilence.RowPerStream :=
  Server.silenceModel_rowPerStream

/-- A frame of two hops is sent and accepted, and the first hop comes back. -/
def answeredFrame : List (DeploymentEvent Unit) :=
  let batch : List (DeploymentEvent Unit) := [.server .gather, .server .dispatch,
    .server (.inferenceReturned [List.replicate Server.hopSamples 0] [()])]
  [.plugin (.worker .work), .plugin (.worker .work),
    .plugin (.worker (.ready (.capabilities (capabilities .defaults lockedSilence)))),
    .plugin (.process (Plugin.testFrame 512 1)), .plugin .trySend, .plugin .put] ++
  Plugin.testCalls.map (fun event => .plugin (.worker event)) ++
  [.plugin (.worker (.pull 0)), .plugin (.begin 0 "0123456789abcdef0123456789abcdef"),
    .connect 0, .server (.resume 0), .respond, .plugin (.worker (.pull 0)),
    .plugin (.worker (.iterate 0)), .deliver 0, .server (.put 0), .server (.put 0)] ++
  batch ++ batch ++ [.server (.resume 0), .respond]

/-- The plugin stores the first hop. -/
theorem plugin_trusts_server_frame :
    ∃ d, (deployment Plugin.testConfig .defaults lockedSilence).run
        (.init Plugin.testConfig .defaults) answeredFrame = some d ∧
      d.plugin.track.stored.length = 1 ∧ Trusts Plugin.testConfig d := by
  obtain ⟨d, hrun, hreach, hp⟩ := Lts.System.Reachable.of_run
    (deployment Plugin.testConfig .defaults lockedSilence) answeredFrame
    (fun (d : Deployment Unit) => decide (d.plugin.track.stored.length = 1) &&
      !d.plugin.track.processor.closed)
    (by decide +kernel) (by decide +kernel)
  obtain ⟨hstored, hclosed⟩ := Bool.and_eq_true_iff.mp hp
  rw [Bool.not_eq_true'] at hclosed
  exact ⟨d, hrun, of_decide_eq_true hstored,
    plugin_trusts_server lockedSilence_rowPerStream ⟨rfl, rfl, rfl⟩ hreach
      fun htrue => absurd (hclosed.symm.trans htrue) nofun⟩

end Deployment

end VoxLattice
