import VoxLattice.Deployment.Agreement
import VoxLattice.Plugin.Excerpts
import VoxLattice.Server.Signal

/-!
# From the input of the plugin to its output

A plugin and a server that runs the network, end to end.  The plugin sends excerpts of its input,
which a stream of the server accepts as adjacent chunks, so that the signal of the stream is a piece
of the input (`reachable_signal`).  What the stream emits is the enhanced signal.  Every response
that the plugin stores is audio that the stream of its call has emitted (`reachable_answered`), at
the positions it was emitted for.  A frame that the plugin returns is put together from the stored
responses of one generation, hence it is the enhanced signal at the positions of the frame, or it
is the input there (`returned_offline`).
-/

namespace VoxLattice

open Intervals Samples
open Server (Bytes Elements EnhancedAudio FastEnhancerBStreamingModel ServerMessage ServerSettings
  Stream StreamCaches StreamingModel capabilities decodeSamples pcmOf)
open Plugin (PluginState ReceivedAudio RemoteFastEnhancerConfig RequestIterator Returned Streaming)

namespace Deployment

/-! ## What is stored -/

section Answered

variable {κ : Type*} {config : RemoteFastEnhancerConfig} {settings : ServerSettings}
  {model : StreamingModel κ} {d d' : Deployment κ} {e : DeploymentEvent κ}

/-- A step takes no stream from a call, and nothing that a stream has emitted. -/
structure Persists (d d' : Deployment κ) : Prop where
  stream : ∀ k j, (d.links k).stream = some j → (d'.links k).stream = some j
  emitted : ∀ (j : Nat) (st : Stream κ), d.server.streams[j]? = some st →
    ∃ st' : Stream κ, d'.server.streams[j]? = some st' ∧ st.history.emitted <+: st'.history.emitted

theorem step_persists (h : (deployment config settings model).Reachable d)
    (hs : (deployment config settings model).Step d e d') : Persists d d' := by
  have hserver := reachable_server h
  have hstays (j : Nat) (st : Stream κ) (hst : d.server.streams[j]? = some st) :
      ∃ st' : Stream κ, d.server.streams[j]? = some st' ∧
        st.history.emitted <+: st'.history.emitted := ⟨st, hst, List.prefix_rfl⟩
  have hgrows {event : Server.Event κ} {server : Server.ServerState κ}
      (hstep : (Server.system settings model).Step d.server event server) (j : Nat) (st : Stream κ)
      (hst : d.server.streams[j]? = some st) : ∃ st' : Stream κ, server.streams[j]? = some st' ∧
        st.history.emitted <+: st'.history.emitted := by
    obtain ⟨st', hst', heff⟩ := Server.step_effect model.delivers_any
      (Server.reachable_scheduling hserver) hstep hst
    exact ⟨st', hst', heff.grows.emitted⟩
  cases step_effect hs with
  | plugin event plugin _ _ _ => exact ⟨fun _ _ => id, hstays⟩
  | server event server hstep _ => exact ⟨fun _ _ => id, hgrows hstep⟩
  | connect k received first hlink _ =>
      have hnone : (d.links k).stream = none := congrArg Link.stream hlink
      refine ⟨fun k' => (update_link ⟨_, 1, received⟩ (congrArg Link.received hlink).symm
        (fun j hj => ?_) k').2, hgrows (step_enhance first d.server)⟩
      cases hnone.symm.trans hj
  | deliver k j delivered received message server hlink _ hstep =>
      refine ⟨fun k' => (update_link ⟨some j, delivered + 1, received⟩
        (congrArg Link.received hlink).symm (fun j' hj => ?_) k').2, hgrows hstep⟩
      exact (congrArg Link.stream hlink).symm.trans hj
  | respond message plugin _ _ =>
      refine ⟨fun k j hlink => ?_, hstays⟩
      change (Function.update d.links d.current _ k).stream = _
      by_cases heq : k = d.current
      · rw [heq, Function.update_self, ← heq]
        exact hlink
      · rw [Function.update_of_ne heq]
        exact hlink

/-- The response is audio that the stream of its call has emitted. -/
def Answered (d : Deployment κ) (audio : ReceivedAudio) : Prop :=
  ∃ (k j : Nat) (st : Stream κ), audio.generation = k + 1 ∧ (d.links k).stream = some j ∧
    d.server.streams[j]? = some st ∧ ∃ out ∈ st.history.emitted,
      out.startSample = audio.startSample ∧ out.pcmS16le = audio.pcmS16le

theorem Answered.persists {audio : ReceivedAudio} (h : Answered d audio) (hp : Persists d d') :
    Answered d' audio := by
  obtain ⟨k, j, st, hgeneration, hlink, hst, out, hmem, hout⟩ := h
  obtain ⟨st', hst', hemitted⟩ := hp.emitted j st hst
  exact ⟨k, j, st', hgeneration, hp.stream k j hlink, hst', out, hemitted.subset hmem, hout⟩

/-- The loop of `_run_generation` hands on the audio of the message. -/
theorem handle_audio {transport : Plugin.TransportConfig} {streaming streaming' : Streaming}
    {message : ServerMessage} {start : Nat} {pcm : Bytes}
    (h : streaming.handle transport message = .audio streaming' start pcm) :
    ∃ audio : EnhancedAudio, message = .audio audio ∧ start = audio.outputStartSample.toNat ∧
      pcm = audio.pcmS16le ∧ pcm.length = audio.validSamples.toNat * 2 := by
  unfold Streaming.handle at h
  split at h
  · split at h
    · split at h <;> cases h
    · cases h
  · split at h
    · next audio =>
        split at h
        · cases h
        · split at h
          · cases h
          · split at h
            · cases h
            · next hbytes =>
                cases h
                exact ⟨audio, rfl, rfl, rfl, not_not.mp (not_or.mp hbytes).2⟩
    · cases h
    · cases h

/-- Every audio message that a generator has yielded is about an event of its stream. -/
theorem transcript_audio {accepted : Server.StreamAccepted} {st : Stream κ} {audio : EnhancedAudio}
    (h : Server.Transcript accepted st.history st.session.ended)
    (hmem : .audio audio ∈ st.history.yielded) : audio.event ∈ st.history.emitted := by
  have hsent {messages : List EnhancedAudio} (hs : Server.Sent st.history.emitted messages)
      (hin : audio ∈ messages) : audio.event ∈ st.history.emitted := by
    have htake : audio.event ∈ st.history.emitted.take messages.length := by
      rw [← hs.events]
      exact List.mem_map_of_mem hin
    exact List.mem_of_mem_take htake
  cases h with
  | nothing hyielded =>
      rw [hyielded] at hmem
      cases hmem
  | running messages hs hyielded =>
      simp only [hyielded, List.mem_cons, reduceCtorEq, List.mem_map,
        Server.ServerMessage.audio.injEq, exists_eq_right, false_or] at hmem
      exact hsent hs hmem
  | ended messages message completion hs _ _ _ _ hyielded =>
      simp only [hyielded, List.cons_append, List.mem_cons, reduceCtorEq, List.mem_append,
        List.mem_map, Server.ServerMessage.audio.injEq, exists_eq_right, List.not_mem_nil, or_false,
        false_or] at hmem
      exact hsent hs hmem

/-- An answer that is stored is audio that the stream of the current call has emitted. -/
theorem answer_answered (hmodel : model.RowPerStream)
    (h : (deployment config settings model).Reachable d) {message : ServerMessage}
    (hanswer : d.answer = some message) {streaming streaming' : Streaming} {start : Nat}
    {pcm : Bytes}
    (hhandled : streaming.handle config.transportConfig message = .audio streaming' start pcm) :
    Answered d ⟨d.plugin.worker.generation, start, pcm⟩ := by
  obtain ⟨audio, rfl, rfl, rfl, -⟩ := handle_audio hhandled
  obtain ⟨j, st, hlink, hst, hmessage⟩ := answer_link hanswer
  have hlt : d.current < d.plugin.worker.generation := (reachable_calls h).lt hlink
  have hit := List.getElem?_eq_getElem hlt
  have hspeaks := reachable_speaks hmodel h hlink hit hst
  have hemitted := transcript_audio hspeaks.transcript (List.mem_of_getElem? hmessage)
  refine ⟨d.current, j, st, ?_, hlink, hst, audio.event, hemitted, rfl, rfl⟩
  change d.plugin.worker.generation = d.plugin.worker.generation - 1 + 1
  change d.plugin.worker.generation - 1 < d.plugin.worker.generation at hlt
  omega

/-- Every response that was stored is audio that the stream of its call has emitted. -/
theorem reachable_answered (hmodel : model.RowPerStream)
    (h : (deployment config settings model).Reachable d) :
    ∀ audio ∈ d.plugin.track.stored, Answered d audio := by
  refine Lts.System.Reachable.invariant₂
    (I := fun d => ∀ audio ∈ d.plugin.track.stored, Answered d audio)
    (fun _ hmem => absurd hmem List.not_mem_nil) ?_ h
  intro d e d' hreach hstored hs audio hmem
  have hpersists := step_persists hreach hs
  cases step_effect hs with
  | plugin event plugin hplugin hresponse _ =>
      rcases PluginState.step_stored hplugin with heq | ⟨message, _, _, _, _, heq, -⟩
      · exact (hstored audio (heq ▸ hmem)).persists hpersists
      · exact absurd heq (hresponse message)
  | respond message plugin hanswer hplugin =>
      rcases PluginState.step_stored hplugin with heq |
        ⟨message', streaming, streaming', start, pcm, heq, hhandled, hadded⟩
      · exact (hstored audio (heq ▸ hmem)).persists hpersists
      · cases heq
        change audio ∈ plugin.track.stored at hmem
        rw [hadded] at hmem
        rcases List.mem_append.mp hmem with hmem | hmem
        · exact (hstored audio hmem).persists hpersists
        · obtain rfl := List.mem_singleton.mp hmem
          exact (answer_answered hmodel hreach hanswer hhandled).persists hpersists
  | _ => exact (hstored audio hmem).persists hpersists

/-- The signal of the stream of a call is a piece of the input that was taken. -/
theorem reachable_signal (h : (deployment config settings model).Reachable d) {k j : Nat}
    {it : RequestIterator} {st : Stream κ} (hlink : (d.links k).stream = some j)
    (hit : d.plugin.worker.iterators[k]? = some it) (hst : d.server.streams[j]? = some st) {n : Nat}
    (hn : n ≤ (pcmOf st.history.accepted).length) :
    (pcmOf st.history.accepted).take n =
        decodeSamples (slice 2 d.plugin.track.input it.first.startSample n) ∧
      it.first.startSample + n ≤ d.plugin.track.processor.inputCursor := by
  have hfed := (reachable_calls h).fed k j it st hlink hit hst
  have hplugin := reachable_plugin h
  have hyields := (Plugin.reachable_excerpts hplugin).iterators it (List.mem_of_getElem? hit)
  have hsignal : pcmOf st.history.accepted = decodeSamples
      (slice 2 d.plugin.track.input it.first.startSample (pcmOf st.history.accepted).length) := by
    rw [Server.pcmOf_length, ← hfed.start]
    refine (Server.reachable_adjacent (reachable_server h) hst).pcmOf_eq fun chunk hmem => ?_
    have hexcerpt := hyields.made chunk (hfed.accepted chunk hmem)
    exact ⟨hexcerpt.length, hexcerpt.eq⟩
  constructor
  · rw [hsignal, ← Server.decodeSamples_take, take_slice hn]
  · have hlength := congrArg List.length hsignal
    have hwithin := hyields.first.within
    have hinput := (Plugin.reachable_recorded hplugin).aligned.buffers.length
    rw [Server.decodeSamples_length, slice, List.length_take, List.length_drop] at hlength
    omega

end Answered

/-! ## What is returned -/

section Enhancement

variable {α : Type} [Elements α] {channels width : ℕ}
  {model : FastEnhancerBStreamingModel α channels width} {config : RemoteFastEnhancerConfig}
  {settings : ServerSettings} {d : Deployment (StreamCaches α)}

/-- The samples of the responses that a generation has stored are those of one enhanced signal: what
the model makes offline of the input from the first sample of the generation on. -/
theorem reachable_sentFor (h : (deployment config settings model.streamingModel).Reachable d)
    {k : Nat} {audio : ReceivedAudio} (haudio : audio ∈ d.plugin.track.stored)
    (hgeneration : audio.generation = k + 1) :
    ∃ (it : RequestIterator) (n : Nat), d.plugin.worker.iterators[k]? = some it ∧
      it.first.startSample + n ≤ d.plugin.track.processor.inputCursor ∧
      ∀ position x, Plugin.SentFor d.plugin.track.stored (k + 1) position x →
        model.EnhancedAt it.first.startSample
          (decodeSamples (slice 2 d.plugin.track.input it.first.startSample n)) position x := by
  have hmodel := model.rowPerStream
  have hanswered := reachable_answered hmodel h
  obtain ⟨k', j, st, hk, hlink, hst, -⟩ := hanswered audio haudio
  obtain rfl : k = k' := by omega
  have hlt : k < d.plugin.worker.iterators.length := (reachable_calls h).lt hlink
  have hit := List.getElem?_eq_getElem hlt
  obtain ⟨n, hn, henhanced⟩ := FastEnhancerBStreamingModel.emitted_enhancedAt
    (reachable_server h) hst
  obtain ⟨hsignal, hcursor⟩ := reachable_signal h hlink hit hst hn
  rw [((reachable_calls h).fed k j _ st hlink hit hst).start, hsignal] at henhanced
  refine ⟨_, n, hit, hcursor, ?_⟩
  rintro position x ⟨other, hother, hsame, hgives⟩
  obtain ⟨k', j', st', hk', hlink', hst', out, hout, hstart, hpcm⟩ := hanswered other hother
  obtain rfl : k = k' := by omega
  obtain rfl := Option.some.inj (hlink.symm.trans hlink')
  obtain rfl := Option.some.inj (hst.symm.trans hst')
  have hvalid : out.pcmS16le.length / 2 = out.validSamples := by
    rw [(reachable_speaks hmodel h hlink hit hst).bytes out hout, Nat.mul_div_cancel_left]
    decide
  have hhigh := hgives.high
  rw [← hstart, ← hpcm, hvalid] at hhigh
  rw [← hgives.eq, ← hstart, ← hpcm]
  exact henhanced out hout position (hstart ▸ hgives.low) hhigh

/-- The frame is what the model makes offline, in one piece, of the input from the first sample of a
call on, at the positions of the frame. -/
def EnhancedFrame (model : FastEnhancerBStreamingModel α channels width)
    (d : Deployment (StreamCaches α)) (r : Returned) : Prop :=
  ∃ (k : Nat) (it : RequestIterator) (n : Nat), r.generation = k + 1 ∧
    d.plugin.worker.iterators[k]? = some it ∧ it.first.startSample ≤ r.start ∧
    it.first.startSample + n ≤ d.plugin.track.processor.inputCursor ∧
    r.frame.data = slice 2 (model.enhancedPcm it.first.startSample
        (decodeSamples (slice 2 d.plugin.track.input it.first.startSample n)))
      (r.start - it.first.startSample) r.frame.samplesPerChannel

/-- In every run of a plugin and a server, whatever the connection between them and the other
streams do, a frame that the plugin returns while it is enabled is the input at the positions of the
frame, or it is what the model makes of the input there. -/
theorem returned_offline (h : (deployment config settings model.streamingModel).Reachable d)
    {r : Returned} (hr : r ∈ d.plugin.track.returned) (hpass : r.passthrough = false) :
    r.frame.data.length = r.frame.samplesPerChannel * 2 ∧
      (r.frame.data = slice 2 d.plugin.track.input r.start r.frame.samplesPerChannel ∨
        EnhancedFrame model d r) := by
  obtain ⟨haligned, -, hsnapshots⟩ := Plugin.reachable_recorded (reachable_plugin h)
  obtain ⟨hlength, hsource⟩ := haligned.returned r hr hpass
  refine ⟨hlength, hsource.elim .inl fun hsent => ?_⟩
  rcases Nat.eq_zero_or_pos r.frame.samplesPerChannel with hzero | hpos
  · left
    rw [hzero, Nat.zero_mul, List.length_eq_zero_iff] at hlength
    rw [hlength, hzero, slice, Nat.zero_mul, List.take_zero]
  · right
    obtain ⟨audio, haudio, hgeneration, -⟩ := hsent 0 hpos
    obtain ⟨k, -, -, hk, -⟩ := reachable_answered model.rowPerStream h audio
      ((hsnapshots r hr).subset haudio)
    obtain ⟨it, n, hit, hcursor, henhanced⟩ := reachable_sentFor h
      ((hsnapshots r hr).subset haudio) hk
    have hat (i : Nat) (hi : i < r.frame.samplesPerChannel) :=
      henhanced (r.start + i) (sample 2 r.frame.data i) (by
        obtain ⟨other, hother, hsame, hgives⟩ := hsent i hi
        exact ⟨other, (hsnapshots r hr).subset hother, by omega, hgives⟩)
    have hlow := (hat 0 hpos).low
    have hsplit (i : Nat) : r.start + i - it.first.startSample =
        r.start - it.first.startSample + i := by omega
    refine ⟨k, it, n, by omega, hit, hlow, hcursor, eq_slice hlength ?_ fun i hi => ?_⟩
    · have hhigh := (hat (r.frame.samplesPerChannel - 1) (by omega)).high
      rw [hsplit] at hhigh
      have hlast : r.start - it.first.startSample + (r.frame.samplesPerChannel - 1) + 1 =
          r.start - it.first.startSample + r.frame.samplesPerChannel := by omega
      rwa [hlast] at hhigh
    · rw [← hsplit]
      exact (hat i hi).eq.symm

end Enhancement

/-! ## A frame that comes back -/

section Play

variable {κ : Type*} {config : RemoteFastEnhancerConfig} {settings : ServerSettings}
  {d : Deployment κ}

/-- The environment offers the event, and inference does not end with it. -/
def chosen (settings : ServerSettings) (model : StreamingModel κ) (d : Deployment κ) :
    DeploymentEvent κ → Bool
  | .plugin (.worker (.response _)) => false
  | .plugin (.worker (.ready (.capabilities accepted))) =>
    decide (accepted = capabilities settings model)
  | .plugin event => decide (d.plugin.allows event)
  | .server (.inferenceReturned _ _) => false
  | .server (.deliver j _) => decide (d.Foreign j)
  | .server _ | .connect _ | .deliver _ | .respond => true

theorem allows_of_chosen {model : StreamingModel κ} {e : DeploymentEvent κ}
    (h : chosen settings model d e = true) : (deployment config settings model).allows d e := by
  cases e with
  | plugin event =>
      cases event with
      | worker event =>
          cases event with
          | response message => cases h
          | ready ready =>
              cases ready with
              | capabilities accepted =>
                  exact (of_decide_eq_true h : accepted = capabilities settings model)
              | _ => trivial
          | _ => trivial
      | begin k uuid => exact (of_decide_eq_true h : uuid.utf8ByteSize = 32)
      | _ => trivial
  | server event =>
      cases event with
      | inferenceReturned wav updated => cases h
      | deliver j message => exact (of_decide_eq_true h : d.Foreign j)
      | _ => trivial
  | _ => trivial

/-- A batch is inferred. -/
def inferred : List (Option (DeploymentEvent κ)) :=
  [some (.server .gather), some (.server .dispatch), none]

/-- The plugin takes a frame of two hops and makes a call. -/
def sentFrame (model : StreamingModel κ) : List (DeploymentEvent κ) :=
  let sends : List (DeploymentEvent κ) := [.plugin (.worker .work), .plugin (.worker .work),
    .plugin (.worker (.ready (.capabilities (capabilities .defaults model)))),
    .plugin (.process (Plugin.testFrame 512 1)), .plugin .trySend, .plugin .put]
  let calls : List (DeploymentEvent κ) :=
    Plugin.testCalls.map fun event => .plugin (.worker event)
  let opens : List (DeploymentEvent κ) := [.plugin (.worker (.pull 0)),
    .plugin (.begin 0 "0123456789abcdef0123456789abcdef"), .connect 0, .server (.resume 0),
    .respond, .plugin (.worker (.pull 0)), .plugin (.worker (.iterate 0)), .deliver 0,
    .server (.put 0), .server (.put 0)]
  sends ++ calls ++ opens

/-- The first hop of the frame comes back, and a frame is returned. -/
def returnedFrame (model : StreamingModel κ) : List (Option (DeploymentEvent κ)) :=
  let returns : List (Option (DeploymentEvent κ)) :=
    [some (.server (.resume 0)), some .respond, some (.plugin .emit)]
  (sentFrame model).map some ++ inferred ++ inferred ++ returns

end Play

section Enhancement

variable {α : Type} [Elements α] {channels width : ℕ}
  {model : FastEnhancerBStreamingModel α channels width}

variable (model) in
/-- Inference returns what the model answers the batch. -/
def inference (d : Deployment (StreamCaches α)) : DeploymentEvent (StreamCaches α) :=
  .server (model.answer d.server)

/-- A run of a plugin and the model that was evaluated. -/
theorem reachable_of_play (config : RemoteFastEnhancerConfig) (settings : ServerSettings)
    (hfinite : ∀ hop c, model.Finite hop c)
    (es : List (Option (DeploymentEvent (StreamCaches α))))
    (p : Deployment (StreamCaches α) → Bool)
    (h : ((deployment config settings model.streamingModel).play (inference model)
      (chosen settings model.streamingModel) (.init config settings) es).any p = true) :
    ∃ d, (deployment config settings model.streamingModel).Reachable d ∧ p d = true := by
  refine Lts.System.Reachable.of_play (fun d d' hd hstep => ?_)
    (fun d e he => allows_of_chosen he) es p h
  obtain ⟨server, hserver, -⟩ := Option.map_eq_some_iff.mp hstep
  exact FastEnhancerBStreamingModel.allows_answer hfinite (reachable_server hd) hserver

/-- The first frame that comes back is enhanced in part. -/
theorem returned_offline_frame : ∃ (d : Deployment (StreamCaches ℝ)) (r : Returned),
    r ∈ d.plugin.track.returned ∧ d.plugin.track.processor.metrics.enhancedSamples = 64 ∧
      r.frame.data.length = r.frame.samplesPerChannel * 2 ∧
      (r.frame.data = slice 2 d.plugin.track.input r.start r.frame.samplesPerChannel ∨
        EnhancedFrame Server.exactModel d r) := by
  obtain ⟨d, hreach, hp⟩ := reachable_of_play Plugin.testConfig .defaults
    Server.exactModel_finite (returnedFrame Server.exactModel.streamingModel)
    (fun (d : Deployment (StreamCaches ℝ)) =>
      decide (d.plugin.track.processor.metrics.enhancedSamples = 64) &&
        d.plugin.track.returned.head?.any fun r => !r.passthrough) (by decide +kernel)
  obtain ⟨henhanced, hreturned⟩ := Bool.and_eq_true_iff.mp hp
  obtain ⟨r, hr, hpass⟩ := (Option.any_eq_true _ _).mp hreturned
  have hmem := List.mem_of_head? hr
  rw [Bool.not_eq_true'] at hpass
  exact ⟨d, r, hmem, of_decide_eq_true henhanced, returned_offline hreach hmem hpass⟩

end Enhancement

end Deployment

end VoxLattice
