import VoxLattice.Plugin.Yielded
import VoxLattice.Server.Intake

/-!
# The audio the server accepts

The plugin sends a frame as one chunk, whatever its size is.  `_process` refuses a frame of more
than `max_buffer_ms`; the server refuses a chunk without samples, one beyond
`max_audio_chunk_samples`, and one that does not fit its rechunker beside what the full hops left
over.  The two sides do not agree: `generation_accepted_iff` says for which frames the messages
of a generation pass the checks of the server, and `empty_frame_refused` is a generation that
fails them.
-/

namespace VoxLattice.Plugin

open Intervals
open Server (AudioChunk ClientMessage Bytes ProtocolViolation ServerSettings StreamingModel Stream
  Metrics Tensor hopSamples acceptAudio acceptAudio_ok_iff acceptAudio_ok validateStart)

/-! ## The checks of the server -/

section Checks

variable {κ : Type*}

/-- `_accept_audio` for one chunk after the other. -/
def acceptChunks (settings : ServerSettings) :
    List AudioChunk → Stream κ → Metrics → Except ProtocolViolation Unit
  | [], _, _ => .ok ()
  | chunk :: rest, st, m =>
    match acceptAudio settings chunk st m with
    | ((st, m), .ok ()) => acceptChunks settings rest st m
    | (_, .error violation) => .error violation

/-- The checks of the server for the messages of a call: `_validate_start` for the first one,
`_accept_audio` for the chunks that follow. -/
def checkMessages (settings : ServerSettings) (model : StreamingModel κ) (m : Metrics) :
    List ClientMessage → Except ProtocolViolation Unit
  | [] => .ok ()
  | first :: rest =>
    match validateStart first with
    | .ok start => acceptChunks settings (chunks rest) (.admitted settings model start) m
    | .error violation => .error violation

/-- Every frame has samples, no more than a chunk may have, and fits the rechunker beside what
the full hops left over of the samples sent before. -/
def FramesFit (settings : ServerSettings) : Nat → List AudioFrame → Prop
  | _, [] => True
  | sent, frame :: rest =>
    0 < frame.samplesPerChannel ∧ frame.samplesPerChannel ≤ settings.maxAudioChunkSamples ∧
      sent % hopSamples + frame.samplesPerChannel ≤ settings.queueHops * hopSamples ∧
      FramesFit settings (sent + frame.samplesPerChannel) rest

/-- The limits of the default settings. -/
example : ServerSettings.defaults.maxAudioChunkSamples = 16000 ∧
    ServerSettings.queueHops .defaults * hopSamples = 7936 := by decide

/-- The chunk carries the audio of a frame that `_process` accepts. -/
structure Carries (config : RemoteFastEnhancerConfig) (chunk : AudioChunk) (frame : AudioFrame) :
    Prop where
  checked : RemoteFastEnhancer.checkFrame config frame = .ok ()
  data : chunk.pcmS16le = frame.data

theorem Carries.length {config : RemoteFastEnhancerConfig} {chunk : AudioChunk}
    {frame : AudioFrame} (h : Carries config chunk frame) :
    chunk.pcmS16le.length = frame.samplesPerChannel * 2 := by
  rw [h.data]
  exact checkFrame_ok h.checked

theorem Carries.samples {config : RemoteFastEnhancerConfig} {chunk : AudioChunk}
    {frame : AudioFrame} (h : Carries config chunk frame) :
    chunk.samples = frame.samplesPerChannel := by
  rw [AudioChunk.samples, h.length]
  exact Nat.mul_div_cancel _ (by decide)

/-- A stream that has received so many samples and waits for the next chunk. -/
structure Awaits (settings : ServerSettings) (st : Stream κ) (sequence offset sent : Nat) :
    Prop where
  sequence : st.session.expectedSequence = sequence
  offset : st.session.expectedInputSample = offset
  settled : st.session.rechunker.Settled
  bound : st.session.rechunker.maxPendingSamples = settings.queueHops * hopSamples
  pending : st.session.rechunker.pendingSamples = sent % hopSamples

theorem awaits_admitted (settings : ServerSettings) (model : StreamingModel κ)
    (start : Server.StartStream) :
    Awaits settings (.admitted settings model start) 0 start.inputStartSample.toNat 0 where
  sequence := rfl
  offset := rfl
  settled := ⟨rfl, (by decide : 0 < hopSamples)⟩
  bound := Nat.max_eq_right (Nat.le_mul_of_pos_left _ settings.queueHops_pos)
  pending := rfl

variable {settings : ServerSettings} {st : Stream κ} {sequence offset sent : Nat}

/-- The rechunker keeps the samples that make no full hop. -/
theorem Awaits.accepts (h : Awaits settings st sequence offset sent) {chunk : AudioChunk}
    {hops : List Server.SourceHop} {rechunker : Server.PCMRechunker}
    (hd : Server.PCMRechunker.Drained { st.session.rechunker with
      parts := st.session.rechunker.parts ++ [Server.decodeSamples chunk.pcmS16le]
      pendingSamples := st.session.rechunker.pendingSamples + chunk.samples } hops rechunker) :
    Awaits settings (st.accepts chunk hops rechunker) (sequence + 1) (offset + chunk.samples)
      (sent + chunk.samples) where
  sequence := congrArg (· + 1) h.sequence
  offset := congrArg (· + chunk.samples) h.offset
  settled := hd.settled
  bound := hd.bound.trans h.bound
  pending := by
    change rechunker.pendingSamples = (sent + chunk.samples) % hopSamples
    have hfull := total_of_forall_eq hd.full
    have hpending := hd.pending
    have hresidue := hd.settled.residue
    have hbefore := h.pending
    dsimp only at hpending
    rw [hfull, hbefore] at hpending
    rw [← Nat.mod_add_mod, ← hpending, Nat.add_comm, Nat.add_mul_mod_self_right,
      Nat.mod_eq_of_lt hresidue]

/-- The chunks of frames pass exactly if the frames fit. -/
theorem Awaits.acceptChunks_ok_iff {config : RemoteFastEnhancerConfig} {l : List AudioChunk}
    {frames : List AudioFrame} (h : Awaits settings st sequence offset sent)
    (hframes : List.Forall₂ (Carries config) l frames) (hnumbered : Numbered sequence l)
    (hadjacent : Adjacent (·.inputStartSample.toNat) AudioChunk.samples offset l) (m : Metrics) :
    acceptChunks settings l st m = .ok () ↔ FramesFit settings sent frames := by
  induction hframes generalizing st sequence offset sent m with
  | nil => exact ⟨fun _ => trivial, fun _ => rfl⟩
  | @cons chunk frame l frames hcarries hrest ih =>
      obtain ⟨hsequence, hnumbered⟩ := hnumbered
      obtain ⟨hoffset, hadjacent⟩ := hadjacent
      have hsamples := hcarries.samples
      have hlength := hcarries.length
      have hiff : (acceptAudio settings chunk st m).2 = .ok () ↔ _ :=
        acceptAudio_ok_iff h.settled.counted m
      have hfits : Server.ChunkFits settings st.session chunk ↔
          0 < frame.samplesPerChannel ∧
            frame.samplesPerChannel ≤ settings.maxAudioChunkSamples := by
        constructor
        · intro hfits
          have hsize := hfits.size
          exact ⟨by omega, hsamples ▸ hfits.limit⟩
        · rintro ⟨hpos, hlimit⟩
          exact ⟨by omega, hsamples.trans_le hlimit, hsequence.trans h.sequence.symm,
            hoffset.trans h.offset.symm⟩
      rw [hfits, h.pending, h.bound, hsamples] at hiff
      rw [FramesFit, acceptChunks]
      by_cases hgood : (0 < frame.samplesPerChannel ∧
          frame.samplesPerChannel ≤ settings.maxAudioChunkSamples) ∧
          sent % hopSamples + frame.samplesPerChannel ≤ settings.queueHops * hopSamples
      · obtain ⟨hops, rechunker, m', haccept, hd⟩ := acceptAudio_ok (hfits.mpr hgood.1)
          h.settled.counted (by rw [h.pending, h.bound, hsamples]; exact hgood.2) m
        rw [haccept]
        have hnext := ih (h.accepts hd) hnumbered hadjacent m'
        rw [hsamples] at hnext
        exact hnext.trans ⟨fun hrest => ⟨hgood.1.1, hgood.1.2, hgood.2, hrest⟩,
          fun hall => hall.2.2.2⟩
      · have herror : ∃ violation, (acceptAudio settings chunk st m).2 = .error violation := by
          cases hresult : (acceptAudio settings chunk st m).2 with
          | error violation => exact ⟨violation, rfl⟩
          | ok _ => exact absurd (hiff.mp hresult) hgood
        obtain ⟨violation, herror⟩ := herror
        constructor
        · intro hok
          split at hok
          · next haccept =>
              rw [haccept] at herror
              cases herror
          · cases hok
        · rintro ⟨hpos, hlimit, hroom, -⟩
          exact absurd ⟨⟨hpos, hlimit⟩, hroom⟩ hgood

end Checks

/-! ## Generations -/

section Generations

variable {config : RemoteFastEnhancerConfig} {s s' : PluginState} {e : PluginEvent}

/-- The request carries a frame that `_process` accepts. -/
def FromFrame (config : RemoteFastEnhancerConfig) (request : AudioRequest) : Prop :=
  ∃ frame, RemoteFastEnhancer.checkFrame config frame = .ok () ∧ request.pcmS16le = frame.data

/-- `_process` sends only frames that passed its checks. -/
def SendsChecked (config : RemoteFastEnhancerConfig) (t : ProcessorState) : Prop :=
  ∀ frame start, t.call = some (.sending frame start) →
    RemoteFastEnhancer.checkFrame config frame = .ok ()

theorem SendsChecked.process {t : ProcessorState} (h : SendsChecked config t)
    (frame : AudioFrame) : SendsChecked config (t.process config frame) := by
  intro frame' start hcall
  unfold ProcessorState.process at hcall
  split at hcall
  · exact h frame' start hcall
  · next hcheck =>
      dsimp only at hcall
      split at hcall
      · cases hcall
        exact hcheck
      · exact h frame' start hcall
      · exact h frame' start hcall

theorem SendsChecked.step {t t' : ProcessorState} {event : ProcessorEvent}
    (h : SendsChecked config t) (hs : t.step config event = some t') : SendsChecked config t' := by
  cases ProcessorState.step_stepped hs with
  | process frame _ => exact h.process frame
  | trySend sent _ =>
      intro frame start hcall
      cases sent <;> cases hcall
  | overflow _ => nofun
  | forceReset _ => nofun
  | resetRaised _ => nofun
  | emit _ =>
      unfold ProcessorState.emit
      split <;> nofun
  | setEnabled value => exact h
  | beginClose => exact h
  | endClose _ => exact h
  | streamInfoUpdated room participant publication => exact h
  | streamInfoCleared => exact h
  | generationChanged generation state => exact h
  | protocolError generation => exact h
  | receiveAudio generation start pcm => exact h

theorem sendsChecked_init (config : RemoteFastEnhancerConfig) :
    SendsChecked config (PluginState.init config).track := by
  intro frame start hcall
  cases hcall

theorem reachable_sendsChecked (h : (pluginSystem config).Reachable s) :
    SendsChecked config s.track :=
  Lts.System.Reachable.invariant (I := fun s : PluginState => SendsChecked config s.track)
    (sendsChecked_init config)
    (fun _ _ _ hI hs => PluginState.step_track (fun _ _ _ hQ hstep => hQ.step hstep) hI hs) h

/-- Every request of the worker carries a frame that `_process` accepted. -/
theorem reachable_requests (h : (pluginSystem config).Reachable s) :
    Requests (FromFrame config) s.worker := by
  refine Lts.System.Reachable.invariant₂
    (I := fun s : PluginState => Requests (FromFrame config) s.worker) Requests.init ?_ h
  intro s e s' hreach hI hs
  refine PluginState.step_worker (fun w event w' made hQ hoffers hstep => hQ.step hstep ?_ ?_) hI hs
  · rintro request rfl
    obtain ⟨frame, hcall, hdata⟩ := hoffers
    exact ⟨frame, reachable_sendsChecked hreach frame _ hcall, hdata⟩
  · rintro k metadata uuid rfl
    exact hoffers.2

theorem exists_frames {l : List AudioChunk} (h : ∀ chunk ∈ l, FromFrame config (requestOf chunk)) :
    ∃ frames, List.Forall₂ (Carries config) l frames := by
  induction l with
  | nil => exact ⟨[], .nil⟩
  | cons chunk rest ih =>
      obtain ⟨frame, hcheck, hdata⟩ := h chunk List.mem_cons_self
      obtain ⟨frames, hframes⟩ := ih fun chunk hmem => h chunk (List.mem_cons_of_mem _ hmem)
      exact ⟨frame :: frames, .cons ⟨hcheck, hdata⟩ hframes⟩

/-- In every run of the plugin, the chunks a generation yields carry frames that `_process`
accepted, and the messages of the generation pass the checks of a server with the default
settings exactly if these frames fit. -/
theorem generation_accepted_iff {κ : Type*} (h : (pluginSystem config).Reachable s)
    {it : RequestIterator} (hit : it ∈ s.worker.iterators) (model : StreamingModel κ)
    (m : Metrics) : ∃ frames, List.Forall₂ (Carries config) (chunks it.yielded) frames ∧
      (checkMessages .defaults model m it.yielded = .ok () ↔ FramesFit .defaults 0 frames) := by
  have hyields := (reachable_requests h).iterators it hit
  obtain ⟨frames, hframes⟩ := exists_frames hyields.made
  refine ⟨frames, hframes, ?_⟩
  have hcall : ∀ start tail, Opens it.first start → chunks tail = chunks it.yielded →
      (checkMessages .defaults model m (.start start :: tail) = .ok () ↔
        FramesFit .defaults 0 frames) := by
    intro start tail hopens htail
    have hawaits := awaits_admitted .defaults model start
    rw [hopens.origin] at hawaits
    rw [checkMessages, hopens.valid, htail]
    exact hawaits.acceptChunks_ok_iff hframes hyields.numbered hyields.adjacent m
  obtain hnone | ⟨start, hopens, heq⟩ | ⟨start, flush, hopens, heq⟩ := hyields.wellformed
  · rw [hnone] at hframes ⊢
    cases hframes
    exact ⟨fun _ => trivial, fun _ => rfl⟩
  · have htail := hcall start ((chunks it.yielded).map .audio) hopens (chunks_map_audio _)
    rwa [← heq] at htail
  · have htail := hcall start ((chunks it.yielded).map .audio ++ [.endStream flush]) hopens (by
      rw [chunks_append, chunks_map_audio]
      exact List.append_nil _)
    rwa [← heq] at htail

/-- The plugin sends a frame, and the first chunk of a generation carries it. -/
def framePasses (frame : AudioFrame) : List PluginEvent :=
  testConnects.map .worker ++ [.process frame, .trySend, .put] ++ testCalls.map .worker ++
    [.worker (.pull 0), .begin 0 "0123456789abcdef0123456789abcdef", .worker (.pull 0),
      .worker (.iterate 0)]

/-- A generation of one frame of 160 samples. -/
theorem generation_accepted_iff_160 :
    ∃ s it frames, (pluginSystem testConfig).run (.init testConfig)
        (framePasses (testFrame 160 1)) = some s ∧ it ∈ s.worker.iterators ∧
      (chunks it.yielded).length = 1 ∧
      List.Forall₂ (Carries testConfig) (chunks it.yielded) frames ∧
      (checkMessages .defaults Server.identityDelayModel ⟨0, 0, 0, 0, 0⟩ it.yielded = .ok () ↔
        FramesFit .defaults 0 frames) := by
  obtain ⟨s, hrun, hreach, hp⟩ := Lts.System.Reachable.of_run (pluginSystem testConfig)
    (framePasses (testFrame 160 1))
    (fun (s : PluginState) => s.worker.iterators.any fun (it : RequestIterator) =>
      decide ((chunks it.yielded).length = 1))
    (by decide +kernel) (by decide +kernel)
  obtain ⟨it, hit, hlen⟩ := List.any_eq_true.mp hp
  obtain ⟨frames, hframes, hiff⟩ :=
    generation_accepted_iff hreach hit Server.identityDelayModel ⟨0, 0, 0, 0, 0⟩
  exact ⟨s, it, frames, hrun, hit, of_decide_eq_true hlen, hframes, hiff⟩

/-- `_process` accepts a frame without samples, and the server refuses the chunk that carries
it. -/
theorem empty_frame_refused :
    ¬ ∀ s, (pluginSystem testConfig).Reachable s → ∀ it ∈ s.worker.iterators,
      checkMessages .defaults Server.identityDelayModel ⟨0, 0, 0, 0, 0⟩ it.yielded = .ok () := by
  intro haccepted
  obtain ⟨s, -, hreach, hp⟩ := Lts.System.Reachable.of_run (pluginSystem testConfig)
    (framePasses (testFrame 0 0))
    (fun (s : PluginState) => s.worker.iterators.any fun (it : RequestIterator) =>
      !(checkMessages .defaults Server.identityDelayModel ⟨0, 0, 0, 0, 0⟩ it.yielded).isOk)
    (by decide +kernel) (by decide +kernel)
  obtain ⟨it, hit, hrefused⟩ := List.any_eq_true.mp hp
  rw [haccepted s hreach it hit] at hrefused
  cases hrefused

end Generations

end VoxLattice.Plugin
