import VoxLattice.Plugin.Alignment
import VoxLattice.Plugin.Callbacks
import VoxLattice.Plugin.Loop

/-!
# What the plugin sends and keeps

Every request carries the input at its positions (`reachable_excerpts`), and the history of the
processor only grows: the input, and the responses that were stored (`History`).

A response is stored in a step in which the server answers, and in no other
(`PluginState.step_stored`).
-/

namespace VoxLattice.Plugin

open Server (Bytes)
open Samples

/-! ## The history of the processor -/

section History

variable {config : RemoteFastEnhancerConfig} {t t' : ProcessorState} {event : ProcessorEvent}

theorem step_input (hs : t.step config event = some t') : t.input <+: t'.input := by
  cases ProcessorState.step_stepped hs with
  | process frame _ =>
      have hgrows : t.input <+: if t.processor.closed then t.input else t.input ++ frame.data := by
        split
        · exact List.prefix_rfl
        · exact List.prefix_append _ _
      unfold ProcessorState.process
      split
      · exact List.prefix_rfl
      · dsimp only
        split <;> exact hgrows
  | emit _ =>
      unfold ProcessorState.emit
      split <;> exact List.prefix_rfl
  | _ => exact List.prefix_rfl

/-- Only `_receive_audio` stores anything. -/
theorem step_stored (hs : t.step config event = some t') : t'.stored = t.stored ∨
    ∃ generation start pcm, event = .receiveAudio generation start pcm ∧
      t'.stored = t.stored ++ [⟨generation, start, pcm⟩] := by
  cases ProcessorState.step_stepped hs with
  | process frame _ =>
      left
      unfold ProcessorState.process
      split
      · rfl
      · dsimp only
        split <;> rfl
  | emit _ =>
      left
      unfold ProcessorState.emit
      split <;> rfl
  | receiveAudio generation start pcm =>
      by_cases hstored : (t.processor.receiveAudio generation start pcm).2 = .stored
      · exact .inr ⟨generation, start, pcm, rfl, if_pos hstored⟩
      · exact .inl (if_neg hstored)
  | _ => exact .inl rfl

/-- A frame is returned with the responses that are stored at that time. -/
theorem step_returned (hs : t.step config event = some t') {r : Returned}
    (hr : r ∈ t'.returned) : r ∈ t.returned ∨ r.stored = t.stored := by
  cases ProcessorState.step_stepped hs with
  | process frame _ =>
      unfold ProcessorState.process at hr
      split at hr
      · exact .inl hr
      · dsimp only at hr
        split at hr
        · exact .inl hr
        · rcases List.mem_append.mp hr with hr | hr
          · exact .inl hr
          · exact .inr (congrArg Returned.stored (List.mem_singleton.mp hr))
        · exact .inl hr
  | emit _ =>
      unfold ProcessorState.emit at hr
      split at hr
      · rcases List.mem_append.mp hr with hr | hr
        · exact .inl hr
        · exact .inr (congrArg Returned.stored (List.mem_singleton.mp hr))
      · exact .inl hr
  | _ => exact .inl hr

/-- A frame was returned with responses that are stored. -/
def Snapshots (t : ProcessorState) : Prop := ∀ r ∈ t.returned, r.stored <+: t.stored

theorem Snapshots.step (h : Snapshots t) (hs : t.step config event = some t') :
    Snapshots t' := by
  intro r hr
  have hgrows : t.stored <+: t'.stored := by
    rcases step_stored hs with heq | ⟨generation, start, pcm, -, heq⟩
    · rw [heq]
    · rw [heq]
      exact List.prefix_append _ _
  rcases step_returned hs hr with hold | hnew
  · exact (h r hold).trans hgrows
  · rw [hnew]
    exact hgrows

end History

/-! ## The requests and the input -/

/-- The request carries the input at its positions. -/
structure Excerpt (input : Bytes) (request : AudioRequest) : Prop where
  within : (request.startSample + request.samples) * 2 ≤ input.length
  eq : request.pcmS16le = slice 2 input request.startSample request.samples

theorem Excerpt.grow {input input' : Bytes} {request : AudioRequest} (h : Excerpt input request)
    (hgrows : input <+: input') : Excerpt input' request := by
  obtain ⟨rest, rfl⟩ := hgrows
  refine ⟨h.within.trans ?_, ?_⟩
  · rw [List.length_append]
    exact Nat.le_add_right _ _
  · rw [slice_append_left h.within]
    exact h.eq

/-- The request has whole samples. -/
theorem Excerpt.length {input : Bytes} {request : AudioRequest} (h : Excerpt input request) :
    request.pcmS16le.length = request.samples * 2 := by
  rw [h.eq]
  exact length_slice h.within

/-- `_process` sends the input at its positions. -/
def SendsExcerpt (t : ProcessorState) : Prop :=
  ∀ frame start, t.call = some (.sending frame start) → Excerpt t.input ⟨start, frame.data⟩

section Excerpts

variable {config : RemoteFastEnhancerConfig} {t t' : ProcessorState} {s s' : PluginState}
  {e : PluginEvent}

/-- The first block of `_process` appends the frame at the input cursor. -/
theorem takeFrame_appended {p : RemoteFastEnhancer} {frame : AudioFrame} {start : Nat}
    (h : (p.takeFrame frame).2 = .appended start) :
    p.closed = false ∧ start = p.inputCursor := by
  unfold RemoteFastEnhancer.takeFrame at h
  split at h
  · cases h
  · next hclosed =>
      refine ⟨Bool.eq_false_iff.mpr hclosed, ?_⟩
      dsimp only at h
      split at h
      · cases h
      · split at h
        · cases h
        · cases h
          rfl

theorem SendsExcerpt.process (h : SendsExcerpt t) (haligned : Aligned t) (frame : AudioFrame)
    (idle : t.call = none) : SendsExcerpt (t.process config frame) := by
  have hcall : ∀ {frame' start}, t.call ≠ some (.sending frame' start) := by
    intro frame' start hcall
    cases idle.symm.trans hcall
  unfold ProcessorState.process
  split
  · exact h
  · next hcheck =>
      dsimp only
      split
      · next processor start htake =>
          obtain ⟨hclosed, hstart⟩ := takeFrame_appended (congrArg Prod.snd htake)
          rintro frame' start' ⟨⟩
          have hlength := checkFrame_ok hcheck
          have hinput := haligned.buffers.length
          have hsamples : frame.data.length / 2 = frame.samplesPerChannel := by omega
          simp only [hclosed, Bool.false_eq_true, if_false]
          constructor
          · change (start + frame.data.length / 2) * 2 ≤ (t.input ++ frame.data).length
            rw [List.length_append, hinput, hsamples, hstart, hlength, Nat.add_mul]
          · change frame.data = slice 2 (t.input ++ frame.data) start (frame.data.length / 2)
            rw [slice, hstart, ← hinput, List.drop_left, hsamples, ← hlength, List.take_length]
      · exact fun frame' start' hsending => absurd hsending hcall
      · exact fun frame' start' hsending => absurd hsending hcall

/-- `_process` sends nothing else. -/
theorem SendsExcerpt.step {event : ProcessorEvent} (h : SendsExcerpt t) (haligned : Aligned t)
    (hs : t.step config event = some t') : SendsExcerpt t' := by
  have hkeeps : (∀ frame start, t'.call = some (.sending frame start) →
      t.call = some (.sending frame start)) → SendsExcerpt t' := by
    intro hcall frame start hsending
    exact (h frame start (hcall frame start hsending)).grow (step_input hs)
  cases ProcessorState.step_stepped hs with
  | process frame idle => exact h.process haligned frame idle
  | trySend sent _ =>
      refine hkeeps fun frame start hcall => ?_
      cases sent <;> cases hcall
  | overflow _ => exact hkeeps fun frame start hcall => by cases hcall
  | forceReset _ => exact hkeeps fun frame start hcall => by cases hcall
  | resetRaised _ => exact hkeeps fun frame start hcall => by cases hcall
  | emit _ =>
      refine hkeeps fun frame start hcall => ?_
      cases (emit_inputCursor config t _).2.symm.trans hcall
  | _ => exact hkeeps fun _ _ => id

/-- What holds of the processor in every run. -/
structure Recorded (t : ProcessorState) : Prop where
  aligned : Aligned t
  sends : SendsExcerpt t
  snapshots : Snapshots t

theorem Recorded.step {event : ProcessorEvent} (h : Recorded t)
    (hs : t.step config event = some t') : Recorded t' :=
  ⟨h.aligned.step hs, h.sends.step h.aligned hs, h.snapshots.step hs⟩

theorem recorded_init (config : RemoteFastEnhancerConfig) : Recorded (.init config) where
  aligned := aligned_init
  sends _ _ hcall := by cases hcall
  snapshots _ hr := absurd hr List.not_mem_nil

theorem reachable_recorded (h : (pluginSystem config).Reachable s) : Recorded s.track :=
  Lts.System.Reachable.invariant (I := fun s : PluginState => Recorded s.track)
    (recorded_init config)
    (fun _ _ _ hI hs => PluginState.step_track (fun _ _ _ hQ hstep => hQ.step hstep) hI hs) h

/-- Every request of the worker carries the input at its positions. -/
theorem reachable_excerpts (h : (pluginSystem config).Reachable s) :
    Requests (Excerpt s.track.input) s.worker := by
  refine Lts.System.Reachable.invariant₂
    (I := fun s : PluginState => Requests (Excerpt s.track.input) s.worker) Requests.init ?_ h
  intro s e s' hreach hI hs
  have hsends : SendsExcerpt s.track := (reachable_recorded hreach).sends
  have hgrows : s.track.input <+: s'.track.input :=
    PluginState.step_track (Q := fun t => s.track.input <+: t.input)
      (fun t event t' hQ hstep => hQ.trans (step_input hstep)) List.prefix_rfl hs
  have hrequests : Requests (Excerpt s.track.input) s'.worker := by
    refine PluginState.step_worker (fun w event w' made hQ hoffers hstep => hQ.step hstep ?_ ?_)
      hI hs
    · rintro request rfl
      obtain ⟨frame, hcall, hdata⟩ := hoffers
      have hexcerpt := hsends frame _ hcall
      rwa [← hdata] at hexcerpt
    · rintro k metadata uuid rfl
      exact hoffers.2
  exact hrequests.mono fun request hexcerpt => hexcerpt.grow hgrows

end Excerpts

/-! ## Answers -/

namespace PluginState

variable {config : RemoteFastEnhancerConfig} {s s' : PluginState} {e : PluginEvent}

/-- The processor's own events store nothing. -/
theorem onTrack_stored {event : ProcessorEvent} (hs : s.onTrack config event = some s')
    (hevent : ∀ generation start pcm, event ≠ .receiveAudio generation start pcm) :
    s'.track.stored = s.track.stored := by
  obtain ⟨track, hstep, rfl⟩ := onTrack_eq_some hs
  rcases step_stored hstep with heq | ⟨generation, start, pcm, heq, -⟩
  · exact heq
  · exact absurd heq (hevent generation start pcm)

/-- Something is stored only while the loop of `_run_generation` deals with audio of the server, and
then it is that audio, under the current generation. -/
theorem step_stored (hs : (pluginSystem config).Step s e s') :
    s'.track.stored = s.track.stored ∨
    ∃ (message : Server.ServerMessage) (streaming streaming' : Streaming) (start : Nat)
      (pcm : Bytes), e = .worker (.response message) ∧
      streaming.handle config.transportConfig message = .audio streaming' start pcm ∧
      s'.track.stored = s.track.stored ++ [⟨s.worker.generation, start, pcm⟩] := by
  cases step_parts hs with
  | track event resetting own hs =>
      refine .inl (onTrack_stored (s := { s with resetting }) hs ?_)
      rintro generation start pcm rfl
      cases own
  | both event worker action works own hs =>
      refine .inl (onTrack_stored (s := { s with worker }) hs ?_)
      rintro generation start pcm rfl
      cases own
  | worker event worker made resetting works hs =>
      cases made with
      | none =>
          cases hs
          exact .inl rfl
      | some made =>
          cases made with
          | onGeneration generation state =>
              refine .inl (onTrack_stored (s := { s with worker, resetting })
                (show onTrack config (.generationChanged generation state) _ = _ from hs) ?_)
              rintro _ _ _ ⟨⟩
          | onProtocolError generation detail =>
              refine .inl (onTrack_stored (s := { s with worker, resetting })
                (show onTrack config (.protocolError generation) _ = _ from hs) ?_)
              rintro _ _ _ ⟨⟩
          | onAudio generation start pcm =>
              cases GRPCWorker.step_moves works.step with
              | outside _ _ _ _ _ _ _ _ quiet => cases quiet
              | audio message streaming streaming' _ _ event before handled eq =>
                  subst event
                  simp only [callback] at hs
                  obtain ⟨track, hstep, rfl⟩ := onTrack_eq_some hs
                  rcases Plugin.step_stored hstep with heq | ⟨_, _, _, ⟨⟩, heq⟩
                  · left
                    rw [heq]
                    split <;> rfl
                  · refine .inr ⟨message, streaming, streaming', start, pcm, works.internal rfl,
                      handled, heq.trans ?_⟩
                    split <;> rfl

end PluginState

end VoxLattice.Plugin
