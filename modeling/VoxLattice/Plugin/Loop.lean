import VoxLattice.Plugin.Steps

/-!
# The worker thread

What a step does to the place of the worker thread, to the delay of its next wait and to
`_stop` (`step_moves`).  The place changes in the worker thread alone; `Moves` has one case for
each way in, through and out of the loop over the responses, one for the end of a wait, and one
for everything else the thread does.
-/

namespace VoxLattice.Plugin

open Server (Bytes ServerMessage)

/-- The response of the event, if it is one. -/
def WorkerEvent.response? : WorkerEvent → Option ServerMessage
  | .response message => some message
  | _ => none

/-- The local variables of the loop over the responses, inside it. -/
def RunPlace.streaming? : RunPlace → Option Streaming
  | .streaming vars | .resetting _ vars => some vars
  | _ => none

/-- The iteration of a generation is over, or the thread is. -/
def RunPlace.ending : RunPlace → Bool
  | .finalizing | .deciding | .closing | .stopped => true
  | _ => false

/-- The thread has ended, or is about to. -/
def RunPlace.dead : RunPlace → Bool
  | .dying | .stopped => true
  | _ => false

/-- The loop over the responses makes this callback. -/
def Callback.ofLoop : Callback → Bool
  | .onGeneration _ .active | .onAudio _ _ _ => true
  | _ => false

namespace GRPCWorker

/-- Where a step takes the worker thread. -/
inductive Moves (config : TransportConfig) (e : WorkerEvent) (w w' : GRPCWorker) :
    Option Callback → Prop
  /-- Another thread moves. -/
  | other (run : w'.run = w.run) (backoff : w'.backoff = w.backoff)
      (stop : w.stop = true → w'.stop = true) (response : e.response? = none)
      (event : e ≠ .backoffOver) : Moves config e w w' none
  /-- The thread moves outside the loop. -/
  | outside {made : Option Callback} (before : w.run.streaming? = none)
      (after : w'.run.streaming? = none) (resting : w.run ≠ .resting)
      (rests : w'.run = .resting → w.run = .deciding ∧ w.stop = false)
      (ending : w.run.ending = true → w.stop = true → w'.run.ending = true)
      (dead : w.run.dead = true → w'.run.dead = true)
      (backoff : w'.backoff = w.backoff) (stop : w'.stop = w.stop)
      (quiet : made.any Callback.ofLoop = false) (response : e.response? = none)
      (event : e ≠ .backoffOver)
      (drains : w.run.drains = true → w'.run.drains = true ∨ w.zeroes e = true)
      (opens : w.run.unopened = true →
        w'.run.inGeneration = true ∨ ∃ detail, e = .channelError detail) : Moves config e w w' made
  | enters (event : e = .work) (before : w.run = .storing)
      (eq : w' = { w with
        call := some (.enhance (w.generation - 1))
        run := .streaming ⟨false, 0, w.firstSample⟩ }) : Moves config e w w' none
  /-- `_on_audio` calls `force_reset`. -/
  | resets (k : Nat) (streaming : Streaming) (event : e = .callbackReset)
      (before : w.run = .streaming streaming) (after : w'.run = .resetting k streaming)
      (backoff : w'.backoff = w.backoff) (stop : w'.stop = w.stop) : Moves config e w w' none
  /-- The `force_reset` returns. -/
  | resumes (k : Nat) (streaming : Streaming) (event : e = .work)
      (before : w.run = .resetting k streaming)
      (eq : w' = { w with run := .streaming streaming }) : Moves config e w w' none
  /-- The `force_reset` raises. -/
  | dies (k : Nat) (streaming : Streaming) (event : e = .work)
      (before : w.run = .resetting k streaming) (eq : w' = { w with run := .dying }) :
      Moves config e w w' none
  | accepted (message : ServerMessage) (streaming streaming' : Streaming)
      (event : e = .response message) (before : w.run = .streaming streaming)
      (handled : streaming.handle config message = .accepted streaming')
      (eq : w' = { w with run := .streaming streaming' }) :
      Moves config e w w' (some (.onGeneration w.generation .active))
  | audio (message : ServerMessage) (streaming streaming' : Streaming) (startSample : Nat)
      (pcmS16le : Bytes) (event : e = .response message) (before : w.run = .streaming streaming)
      (handled : streaming.handle config message = .audio streaming' startSample pcmS16le)
      (eq : w' = { w with run := .streaming streaming' }) :
      Moves config e w w' (some (.onAudio w.generation startSample pcmS16le))
  /-- The generation returns. -/
  | returned (streaming : Streaming) (before : w.run = .streaming streaming)
      (eq : w' = w.returned config)
      (how : (∃ message, e = .response message ∧ streaming.handle config message = .returned) ∨
        e = .responsesEnd ∧ w.stop = true) : Moves config e w w' none
  /-- A message is refused. -/
  | refused (message : ServerMessage) (streaming : Streaming) (detail : String)
      (event : e = .response message) (before : w.run = .streaming streaming)
      (handled : streaming.handle config message = .raised detail)
      (eq : w' = { w with run := .mismatched detail }) : Moves config e w w' none
  /-- The responses stop too early. -/
  | broken (streaming : Streaming) (before : w.run = .streaming streaming)
      (eq : w' = { w with run := .draining })
      (how : e = .responsesEnd ∧ w.stop = false ∨ e = .rpcError) : Moves config e w w' none
  | rested (event : e = .backoffOver) (before : w.run = .resting)
      (eq : w' = { w with
        run := .top
        backoff := min (w.backoff * 2) config.reconnectMaxDelayS }) : Moves config e w w' none

variable {config : TransportConfig} {w w' : GRPCWorker} {e : WorkerEvent}
  {made : Option Callback}

/-! ## The threads that are not the worker's -/

/-- The place, the delay and `_stop` stay. -/
structure Idle (w w' : GRPCWorker) : Prop where
  run : w'.run = w.run
  backoff : w'.backoff = w.backoff
  stop : w.stop = true → w'.stop = true

theorem Idle.moves (h : Idle w w') (response : e.response? = none := by rfl)
    (event : e ≠ .backoffOver := by nofun) : Moves config e w w' none :=
  .other h.run h.backoff h.stop response event

theorem Beside.idle (h : Beside w w') : Idle w w' := ⟨h.run, h.backoff, h.stop.trans⟩

theorem close_idle (h : w.close = some w') : Idle w w' := by
  unfold close at h
  split at h
  · cases h
    exact ⟨rfl, rfl, id⟩
  · cases h

theorem closeStep_idle (h : w.closeStep = some w') : Idle w w' := by
  unfold closeStep at h
  split at h
  · split at h
    · cases h
      exact ⟨rfl, rfl, id⟩
    · cases h
      exact ⟨rfl, rfl, fun _ => rfl⟩
  · split at h
    · next w₁ hput =>
        cases h
        obtain ⟨hrun, hbackoff, hstop⟩ := (putNowait_beside hput).idle
        exact ⟨hrun, hbackoff, hstop⟩
    · cases h
      exact ⟨rfl, rfl, id⟩
  · cases h
    exact ⟨rfl, rfl, id⟩
  · cases h
    exact ⟨rfl, rfl, id⟩
  · cases h
    exact ⟨rfl, rfl, id⟩
  · next call _ =>
      cases h
      obtain ⟨hrun, hbackoff, hstop⟩ : Idle w (w.cancel call) := (cancel_beside call).idle
      exact ⟨hrun, hbackoff, hstop⟩
  · cases h
    exact ⟨rfl, rfl, id⟩
  · split at h
    · next w₁ hput =>
        cases h
        obtain ⟨hrun, hbackoff, hstop⟩ := (putNowait_beside hput).idle
        exact ⟨hrun, hbackoff, hstop⟩
    · cases h
      exact ⟨rfl, rfl, id⟩
  · cases h

/-! ## The worker thread -/

/-- A step from one place outside the loop to another. -/
theorem walks {place : RunPlace} (hrun : w.run = place) (hbackoff : w'.backoff = w.backoff)
    (hstop : w'.stop = w.stop) (response : e.response? = none) (event : e ≠ .backoffOver)
    (before : place.streaming? = none ∧ place ≠ .resting := by exact ⟨rfl, nofun⟩)
    (after : w'.run.streaming? = none ∧ w'.run ≠ .resting := by exact ⟨rfl, nofun⟩)
    (ending : place.ending = true → w'.run.ending = true := by first | exact fun _ => rfl | nofun)
    (dead : place.dead = true → w'.run.dead = true := by first | exact fun _ => rfl | nofun)
    (quiet : made.any Callback.ofLoop = false := by rfl)
    (drains : place.drains = true → w'.run.drains = true ∨ w.zeroes e = true := by
      first | exact fun _ => .inl rfl | exact fun _ => .inr (decide_eq_true ‹_›) | nofun)
    (opens : place.unopened = true →
        w'.run.inGeneration = true ∨ ∃ detail, e = .channelError detail := by
      first | exact fun _ => .inl rfl | exact fun _ => .inr ⟨_, rfl⟩ | nofun) :
    Moves config e w w' made :=
  .outside (by rw [hrun]; exact before.1) after.1 (by rw [hrun]; exact before.2)
    (fun h => absurd h after.2) (fun h _ => ending (hrun ▸ h)) (fun h => dead (hrun ▸ h)) hbackoff
    hstop quiet response event (fun h => drains (hrun ▸ h)) fun h => opens (hrun ▸ h)

theorem receive_moves (request : Request) (h : w.run = .receiving) :
    (w.receive request).run.streaming? = none ∧ (w.receive request).run ≠ .resting ∧
      (w.receive request).backoff = w.backoff ∧ (w.receive request).stop = w.stop := by
  unfold receive
  split
  · exact ⟨rfl, nofun, rfl, rfl⟩
  · exact ⟨by rw [h]; rfl, by rw [h]; nofun, rfl, rfl⟩
  · exact ⟨rfl, nofun, rfl, rfl⟩

theorem work_moves (h : w.work = some (w', made)) : Moves config .work w w' made := by
  unfold work at h
  split at h
  · next hrun =>
      cases h
      exact walks hrun rfl rfl rfl nofun
  · next hrun =>
      split at h
      · cases h
        exact walks hrun rfl rfl rfl nofun
      · cases h
  · next hrun =>
      cases h
      exact walks hrun rfl rfl rfl nofun
  · next hrun =>
      obtain ⟨⟨request, w₁⟩, htake, heq⟩ := Option.map_eq_some_iff.mp h
      cases heq
      have hidle := take_beside htake
      obtain ⟨hafter, hresting, hbackoff, hstop⟩ :=
        receive_moves request (hidle.run.trans hrun)
      exact walks hrun (hbackoff.trans hidle.backoff) (hstop.trans hidle.stop) rfl nofun
        ⟨rfl, nofun⟩ ⟨hafter, hresting⟩
  · next hrun =>
      cases h
      exact walks hrun rfl rfl rfl nofun
  · next hrun =>
      cases h
      exact walks hrun rfl rfl rfl nofun
  · next hrun =>
      split at h
      · cases h
        exact walks hrun rfl rfl rfl nofun
      · cases h
  · next hrun =>
      cases h
      exact .enters rfl hrun rfl
  · next k streaming hrun =>
      split at h
      · cases h
        exact .resumes k streaming rfl hrun rfl
      · cases h
        exact .dies k streaming rfl hrun rfl
      · cases h
  · next hrun =>
      cases h
      exact walks hrun rfl rfl rfl nofun
  · next hrun =>
      split at h
      · next request w₁ htake =>
          cases h
          have hidle := take_beside htake
          have hrun' := hidle.run.trans hrun
          exact walks hrun hidle.backoff hidle.stop rfl nofun ⟨rfl, nofun⟩
            ⟨by rw [hrun']; rfl, by rw [hrun']; nofun⟩ nofun nofun rfl
            fun _ => .inl (by rw [hrun']; rfl)
      · cases h
        exact walks hrun rfl rfl rfl nofun
  · next hrun =>
      cases h
      exact walks hrun rfl rfl rfl nofun
  · next hrun =>
      cases h
      exact walks hrun rfl rfl rfl nofun
  · next hrun =>
      split at h
      · cases h
        exact walks hrun rfl rfl rfl nofun
      · next hstop =>
          cases h
          exact .outside (by rw [hrun]; rfl) rfl (by rw [hrun]; nofun)
            (fun _ => ⟨hrun, Bool.eq_false_iff.mpr hstop⟩) (fun _ h => absurd h hstop)
            (by rw [hrun]; nofun) rfl rfl rfl rfl nofun (by rw [hrun]; nofun)
            (by rw [hrun]; nofun)
  · next hrun =>
      cases h
      exact walks hrun rfl rfl rfl nofun
  · next hrun =>
      cases h
      exact walks hrun rfl rfl rfl nofun
  · cases h
  · cases h
  · cases h
  · cases h

theorem ready_moves {readiness : Readiness} (h : w.ready config readiness = some w') :
    Moves config (.ready readiness) w w' none := by
  unfold ready at h
  split at h
  · next hrun =>
      split at h
      · split at h
        · cases h
          exact walks hrun rfl rfl rfl nofun
        · cases h
          exact walks hrun rfl rfl rfl nofun
      · cases h
        exact walks hrun rfl rfl rfl nofun
  · cases h

theorem channelError_moves {detail : String} (h : w.channelError detail = some w') :
    Moves config (.channelError detail) w w' none := by
  unfold channelError at h
  split at h
  · cases h
  · split at h
    · next hrun =>
        cases h
        exact walks hrun rfl rfl rfl nofun
    · next hrun =>
        cases h
        exact walks hrun rfl rfl rfl nofun
    · cases h

theorem response_moves {message : ServerMessage} (h : w.response config message = some (w', made)) :
    Moves config (.response message) w w' made := by
  unfold response at h
  split at h
  · next streaming hrun =>
      split at h
      · next streaming' hhandled =>
          cases h
          exact .accepted message streaming streaming' rfl hrun hhandled rfl
      · next streaming' start pcm hhandled =>
          cases h
          exact .audio message streaming streaming' start pcm rfl hrun hhandled rfl
      · next hhandled =>
          cases h
          exact .returned streaming hrun rfl (.inl ⟨message, rfl, hhandled⟩)
      · next detail hhandled =>
          cases h
          exact .refused message streaming detail rfl hrun hhandled rfl
  · cases h

theorem responsesEnd_moves (h : w.responsesEnd config = some w') :
    Moves config .responsesEnd w w' none := by
  unfold responsesEnd at h
  split at h
  · next streaming hrun =>
      split at h
      · cases h
      · split at h
        · next hstop =>
            cases h
            exact .returned streaming hrun rfl (.inr ⟨rfl, hstop⟩)
        · next hstop =>
            cases h
            exact .broken streaming hrun rfl (.inl ⟨rfl, Bool.eq_false_iff.mpr hstop⟩)
  · cases h

theorem rpcError_moves (h : w.rpcError = some w') : Moves config .rpcError w w' none := by
  unfold rpcError at h
  split at h
  · next streaming hrun =>
      split at h
      · cases h
        exact .broken streaming hrun rfl (.inr rfl)
      · cases h
  · cases h

theorem callbackReset_moves (h : w.callbackReset = some w') :
    Moves config .callbackReset w w' none := by
  unfold callbackReset at h
  split at h
  · next streaming hrun =>
      cases h
      exact .resets w.resets.length streaming rfl hrun rfl rfl rfl
  · cases h

theorem backoffOver_moves (h : w.backoffOver config = some w') :
    Moves config .backoffOver w w' none := by
  unfold backoffOver at h
  split at h
  · next hrun =>
      cases h
      exact .rested rfl hrun rfl
  · cases h

/-- Every step moves the worker thread in one of these ways. -/
theorem step_moves (h : w.step config e = some (w', made)) : Moves config e w w' made := by
  cases e with
  | trySend request =>
      cases h
      exact (trySend_beside request).idle.moves
  | put k =>
      obtain ⟨w₁, hstep, heq⟩ := Option.map_eq_some_iff.mp h
      cases heq
      exact (put_beside hstep).idle.moves
  | forceReset =>
      cases h
      exact .other rfl rfl id rfl nofun
  | resetStep k =>
      obtain ⟨w₁, hstep, heq⟩ := Option.map_eq_some_iff.mp h
      cases heq
      exact (resetStep_beside hstep).idle.moves
  | close =>
      obtain ⟨w₁, hstep, heq⟩ := Option.map_eq_some_iff.mp h
      cases heq
      exact (close_idle hstep).moves
  | closeStep =>
      obtain ⟨w₁, hstep, heq⟩ := Option.map_eq_some_iff.mp h
      cases heq
      exact (closeStep_idle hstep).moves
  | work => exact work_moves h
  | ready readiness =>
      obtain ⟨w₁, hstep, heq⟩ := Option.map_eq_some_iff.mp h
      cases heq
      exact ready_moves hstep
  | channelError detail =>
      obtain ⟨w₁, hstep, heq⟩ := Option.map_eq_some_iff.mp h
      cases heq
      exact channelError_moves hstep
  | response message => exact response_moves h
  | responsesEnd =>
      obtain ⟨w₁, hstep, heq⟩ := Option.map_eq_some_iff.mp h
      cases heq
      exact responsesEnd_moves hstep
  | rpcError =>
      obtain ⟨w₁, hstep, heq⟩ := Option.map_eq_some_iff.mp h
      cases heq
      exact rpcError_moves hstep
  | callbackReset =>
      obtain ⟨w₁, hstep, heq⟩ := Option.map_eq_some_iff.mp h
      cases heq
      exact callbackReset_moves hstep
  | backoffOver =>
      obtain ⟨w₁, hstep, heq⟩ := Option.map_eq_some_iff.mp h
      cases heq
      exact backoffOver_moves hstep
  | callEnds k =>
      cases h
      exact .other rfl rfl id rfl nofun
  | pull k =>
      obtain ⟨w₁, hstep, heq⟩ := Option.map_eq_some_iff.mp h
      cases heq
      exact (pull_beside hstep).idle.moves
  | begin k metadata uuid =>
      obtain ⟨w₁, hstep, heq⟩ := Option.map_eq_some_iff.mp h
      cases heq
      exact (begin_beside hstep).idle.moves
  | iterate k =>
      obtain ⟨w₁, hstep, heq⟩ := Option.map_eq_some_iff.mp h
      cases heq
      exact (iterate_beside hstep).idle.moves

end GRPCWorker

end VoxLattice.Plugin
