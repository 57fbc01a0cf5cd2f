import VoxLattice.Plugin.Yielded

/-!
# Where the worker thread goes

Seen from `_run`, the steps of the other threads change nothing but whether the channel is open,
and `_run` itself goes through a generation in one order (`step_goes`).  While the channel is
open and the server answers as it should, no step of `_run` leads to an error of the protocol.
-/

namespace VoxLattice.Plugin

open Server (Bytes ClientMessage)

/-! ## What the iterators have yielded -/

/-- An iterator only yields more. -/
structure RequestIterator.Grows (it it' : RequestIterator) : Prop where
  first : it'.first = it.first
  yielded : it.yielded <+: it'.yielded

theorem RequestIterator.Grows.refl (it : RequestIterator) : it.Grows it :=
  ⟨rfl, List.prefix_refl _⟩

theorem RequestIterator.Grows.trans {it it' it'' : RequestIterator} (h : it.Grows it')
    (h' : it'.Grows it'') : it.Grows it'' :=
  ⟨h'.first.trans h.first, h.yielded.trans h'.yielded⟩

/-- Nothing is yielded. -/
theorem RequestIterator.Grows.same {it it' : RequestIterator} (hfirst : it'.first = it.first)
    (hyielded : it'.yielded = it.yielded) : it.Grows it' :=
  ⟨hfirst, by rw [hyielded]⟩

theorem RequestIterator.grows_endCall (it : RequestIterator) : it.Grows it.endCall := by
  unfold endCall
  split <;> exact .same rfl rfl

theorem RequestIterator.grows_raise (it : RequestIterator) : it.Grows it.raise :=
  have hgrows := grows_endCall { it with place := .finished }
  ⟨hgrows.first, hgrows.yielded⟩

theorem RequestIterator.grows_yieldMessage (message : ClientMessage) (place : IteratorPlace)
    (it : RequestIterator) : it.Grows (it.yieldMessage message place) :=
  ⟨rfl, List.prefix_append _ _⟩

theorem RequestIterator.grows_loop (reset : Bool) (request : Request) (it : RequestIterator) :
    it.Grows (it.loop reset request) := by
  cases request with
  | audio request =>
      simp only [loop]
      split
      · exact .same rfl rfl
      · split
        · exact it.grows_yieldMessage _ _
        · exact it.grows_raise
  | endStream flush =>
      simp only [loop]
      split
      · exact .same rfl rfl
      · exact it.grows_yieldMessage _ _
  | stop final => exact .same rfl rfl
  | reset reconnect => exact .same rfl rfl

theorem Iterates.grows {e : WorkerEvent} {reset : Bool} {it it' : RequestIterator}
    (h : Iterates e reset it it') : it.Grows it' := by
  cases h with
  | pull h =>
      unfold RequestIterator.pull at h
      split at h
      · split at h <;> cases h <;> exact .same rfl rfl
      · cases h
  | begin k metadata uuid _ _ =>
      unfold RequestIterator.begin
      split
      · exact it.grows_raise
      · exact it.grows_yieldMessage _ _
  | loop _ => exact it.grows_loop reset _
  | account _ => exact .same rfl rfl

namespace GRPCWorker

variable {config : TransportConfig} {w w' : GRPCWorker} {e : WorkerEvent}

theorem Effect.grows (h : Effect e w w') {k : Nat} {it : RequestIterator}
    (hit : w.iterators[k]? = some it) : ∃ it', w'.iterators[k]? = some it' ∧ it.Grows it' := by
  have hset : ∀ {j : Nat} {here new : RequestIterator}, w.iterators[j]? = some here →
      here.Grows new → ∃ it', (w.iterators.set j new)[k]? = some it' ∧ it.Grows it' := by
    intro j here new hhere hgrows
    by_cases hkj : j = k
    · subst hkj
      obtain rfl := Option.some.inj (hhere.symm.trans hit)
      exact ⟨new, List.getElem?_set_self (List.getElem?_eq_some_iff.mp hit).1, hgrows⟩
    · rw [List.getElem?_set_ne hkj]
      exact ⟨it, hit, .refl it⟩
  cases h with
  | quiet hquiet => exact ⟨it, hquiet.iterators ▸ hit, .refl it⟩
  | reserved request _ _ _ _ iterators => exact ⟨it, iterators ▸ hit, .refl it⟩
  | put request _ _ _ _ iterators => exact ⟨it, iterators ▸ hit, .refl it⟩
  | took taker queued _ _ iterators => exact ⟨it, iterators ▸ hit, .refl it⟩
  | received queued first _ _ iterators =>
      refine ⟨it, ?_, .refl it⟩
      rw [iterators, List.getElem?_append_left (List.getElem?_eq_some_iff.mp hit).1, hit]
  | resumed j here queued hhere _ _ iterators =>
      rw [iterators]
      exact hset hhere ⟨rfl, List.prefix_refl _⟩
  | moved j here new hhere move iterators =>
      rw [iterators]
      exact hset hhere move.grows
  | callsEnd iterators =>
      rcases ends_cases (iterators k) with hsame | hends
      · exact ⟨it, hsame.trans hit, .refl it⟩
      · refine ⟨it.endCall, ?_, it.grows_endCall⟩
        rw [hends, hit]
        rfl
  | callBegins _ _ iterators =>
      rw [iterators, openCall, List.getElem?_modify, hit]
      refine ⟨_, rfl, ?_⟩
      split <;> exact ⟨rfl, List.prefix_refl _⟩

/-- The number of generations stays, or a generation begins. -/
theorem Effect.generation_cases (h : Effect e w w') : w'.generation = w.generation ∨
    w.run = .receiving ∧ w'.run = .clearing ∧ w'.generation = w.generation + 1 := by
  have hsame : w'.iterators = w.iterators → w'.generation = w.generation := congrArg List.length
  cases h with
  | quiet hquiet => exact .inl (hsame hquiet.iterators)
  | reserved request _ _ _ _ iterators => exact .inl (hsame iterators)
  | put request _ _ _ _ iterators => exact .inl (hsame iterators)
  | took taker queued _ _ iterators => exact .inl (hsame iterators)
  | received queued first _ _ iterators run run' =>
      refine .inr ⟨run, run', ?_⟩
      rw [generation, iterators, List.length_append]
      rfl
  | resumed j here queued _ _ _ iterators =>
      rw [generation, iterators, List.length_set]
      exact .inl rfl
  | moved j here new _ _ iterators =>
      rw [generation, iterators, List.length_set]
      exact .inl rfl
  | callsEnd _ _ _ _ generation => exact .inl generation
  | callBegins _ _ iterators =>
      rw [generation, iterators, openCall, List.length_modify]
      exact .inl rfl

theorem firstSample_eq {it : RequestIterator} (h : w.iterators[w.generation - 1]? = some it) :
    w.firstSample = it.first.startSample := by
  rw [firstSample, List.getLast?_eq_getElem?]
  change (w.iterators[w.generation - 1]?).elim 0 _ = _
  rw [h]
  rfl

/-- The first request of a generation stays. -/
theorem Effect.firstSample (h : Effect e w w') (hgeneration : w'.generation = w.generation) :
    w'.firstSample = w.firstSample := by
  cases hit : w.iterators[w.generation - 1]? with
  | none =>
      have hlen : w.iterators.length ≤ w.generation - 1 := List.getElem?_eq_none_iff.mp hit
      have hnil : w.iterators = [] := by
        rw [generation] at hlen
        exact List.eq_nil_of_length_eq_zero (by omega)
      have hnil' : w'.iterators = [] := by
        rw [generation, generation, hnil] at hgeneration
        exact List.eq_nil_of_length_eq_zero hgeneration
      rw [GRPCWorker.firstSample, GRPCWorker.firstSample, hnil, hnil']
  | some it =>
      obtain ⟨it', hit', hgrows⟩ := h.grows hit
      rw [← hgeneration] at hit'
      rw [firstSample_eq hit, firstSample_eq hit', hgrows.first]

end GRPCWorker

/-! ## The places of the worker thread -/

/-- The worker thread has found an error of the protocol, or dies. -/
def RunPlace.faulty : RunPlace → Bool
  | .reporting _ | .resetting _ _ | .mismatched _ | .dying => true
  | _ => false

/-- A change that `close` is not part of. -/
structure GRPCWorker.OffClose (w w' : GRPCWorker) : Prop where
  channelOpen : w'.channelOpen = w.channelOpen
  closing : w'.closing = w.closing

/-- A change that neither `close` nor `_run` is part of. -/
structure GRPCWorker.Stays (w w' : GRPCWorker) : Prop extends OffClose w w' where
  run : w'.run = w.run
  generation : w'.generation = w.generation

/-- Where a step takes `_run`, and the callback it makes, while nothing goes wrong. -/
inductive GRPCWorker.Goes (w w' : GRPCWorker) : Option Callback → Prop where
  | stays (run : w'.run = w.run) (generation : w'.generation = w.generation) : Goes w w' none
  /-- A generation begins. -/
  | begins (run : w.run = .receiving) (run' : w'.run = .clearing)
      (generation : w'.generation = w.generation + 1) : Goes w w' none
  | clears (run : w.run = .clearing) (run' : w'.run = .announcing)
      (generation : w'.generation = w.generation) : Goes w w' none
  | announces (run : w.run = .announcing) (run' : w'.run = .calling)
      (generation : w'.generation = w.generation) :
      Goes w w' (some (.onGeneration w.generation .connecting))
  | calls (run : w.run = .calling) (run' : w'.run = .storing)
      (generation : w'.generation = w.generation) : Goes w w' none
  | streams (run : w.run = .storing) (run' : w'.run = .streaming ⟨false, 0, w.firstSample⟩)
      (generation : w'.generation = w.generation) : Goes w w' none
  /-- `_run` is outside of a generation. -/
  | outside (run' : w'.run.inGeneration = false) (sound : w'.run.faulty = false)
      (generation : w'.generation = w.generation) : Goes w w' none
  | reports (state : TransportState) (run' : w'.run.inGeneration = false)
      (sound : w'.run.faulty = false) (generation : w'.generation = w.generation) :
      Goes w w' (some (.onGeneration w.generation state))

namespace GRPCWorker

variable {config : TransportConfig} {w w' : GRPCWorker} {e : WorkerEvent}

theorem Beside.stays (h : Beside w w') : Stays w w' :=
  ⟨⟨h.channelOpen, h.closing⟩, h.run, h.generation⟩

theorem close_goes (h : w.close = some w') :
    w'.channelOpen = w.channelOpen ∧ Goes w w' none := by
  unfold close at h
  split at h <;> cases h
  exact ⟨rfl, .stays rfl rfl⟩

theorem closeStep_at (h : w.closeStep = some w') : w.closing ≠ .over := by
  intro hover
  rw [closeStep, hover] at h
  cases h

/-- `close` is at work, and may close the channel. -/
theorem closeStep_goes (h : w.closeStep = some w') :
    (w'.channelOpen = true → w.channelOpen = true) ∧ Goes w w' none := by
  unfold closeStep at h
  split at h
  · split at h <;> cases h <;> exact ⟨id, .stays rfl rfl⟩
  · split at h
    · next hput =>
        cases h
        obtain ⟨requests, rfl, -⟩ := putNowait_eq_some hput
        exact ⟨id, .stays rfl rfl⟩
    · cases h
      exact ⟨id, .stays rfl rfl⟩
  · cases h
    exact ⟨id, .stays rfl rfl⟩
  · cases h
    exact ⟨id, .stays rfl rfl⟩
  · cases h
    exact ⟨id, .stays rfl rfl⟩
  · next call _ =>
      cases h
      have hstays : Stays w (w.cancel call) := (cancel_beside call).stays
      exact ⟨hstays.channelOpen.symm.trans, .stays hstays.run hstays.generation⟩
  · cases h
    exact ⟨nofun, .stays rfl (List.length_map _)⟩
  · split at h
    · next hput =>
        cases h
        obtain ⟨requests, rfl, -⟩ := putNowait_eq_some hput
        exact ⟨id, .stays rfl rfl⟩
    · cases h
      exact ⟨id, .stays rfl rfl⟩
  · cases h

theorem Stays.goes (h : Stays w w') : Goes w w' none := .stays h.run h.generation

theorem receive_goes {w₁ : GRPCWorker} {request : Request} (hstays : Stays w w₁)
    (hrun : w.run = .receiving) : Goes w (w₁.receive request) none := by
  cases request with
  | audio first =>
      refine .begins hrun rfl ?_
      rw [← hstays.generation, generation, receive, List.length_append]
      rfl
  | endStream flush => exact .outside rfl rfl hstays.generation
  | stop final => exact .outside rfl rfl hstays.generation
  | reset reconnect => exact .stays hstays.run hstays.generation

theorem receive_offClose {w₁ : GRPCWorker} (hoff : OffClose w w₁) (request : Request) :
    OffClose w (w₁.receive request) := by
  cases request <;> exact ⟨hoff.channelOpen, hoff.closing⟩

theorem work_offClose {made : Option Callback} (h : w.work = some (w', made)) :
    OffClose w w' := by
  unfold work at h
  split at h
  · cases h
    exact ⟨rfl, rfl⟩
  · split at h <;> cases h
    exact ⟨rfl, rfl⟩
  · cases h
    exact ⟨rfl, rfl⟩
  · obtain ⟨⟨request, w₁⟩, htake, heq⟩ := Option.map_eq_some_iff.mp h
    obtain ⟨queued, requests, -, rfl, -⟩ := take_eq_some htake
    cases heq
    exact receive_offClose (by exact ⟨rfl, rfl⟩) request
  · cases h
    exact ⟨rfl, rfl⟩
  · cases h
    exact ⟨rfl, rfl⟩
  · split at h <;> cases h
    exact ⟨rfl, rfl⟩
  · cases h
    exact ⟨rfl, rfl⟩
  · split at h <;> cases h <;> exact ⟨rfl, rfl⟩
  · cases h
    exact ⟨rfl, rfl⟩
  · split at h
    · next htake =>
        cases h
        obtain ⟨queued, requests, -, rfl, -⟩ := take_eq_some htake
        exact ⟨rfl, rfl⟩
    · cases h
      exact ⟨rfl, rfl⟩
  · cases h
    exact ⟨rfl, rfl⟩
  · cases h
    exact ⟨rfl, rfl⟩
  · split at h <;> cases h <;> exact ⟨rfl, rfl⟩
  · cases h
    exact ⟨rfl, rfl⟩
  · cases h
    exact ⟨rfl, rfl⟩
  all_goals cases h

theorem work_goes {made : Option Callback} (h : w.work = some (w', made))
    (hsound : w.run.faulty = false) : Goes w w' made := by
  unfold work at h
  split at h
  · cases h
    exact .reports _ rfl rfl rfl
  · split at h
    · cases h
      exact .outside rfl rfl rfl
    · cases h
  · next hrun =>
      rw [hrun] at hsound
      cases hsound
  · next hrun =>
      obtain ⟨⟨request, w₁⟩, htake, heq⟩ := Option.map_eq_some_iff.mp h
      obtain ⟨queued, requests, -, rfl, -⟩ := take_eq_some htake
      cases heq
      exact receive_goes ⟨⟨rfl, rfl⟩, rfl, rfl⟩ hrun
  · next hrun =>
      cases h
      exact .clears hrun rfl rfl
  · next hrun =>
      cases h
      exact .announces hrun rfl rfl
  · next hrun =>
      split at h
      · cases h
        exact .calls hrun rfl (List.length_modify _ _ _)
      · cases h
  · next hrun =>
      cases h
      exact .streams hrun rfl rfl
  · next hrun =>
      rw [hrun] at hsound
      cases hsound
  · next hrun =>
      rw [hrun] at hsound
      cases hsound
  · split at h
    · next htake =>
        cases h
        obtain ⟨queued, requests, -, rfl, -⟩ := take_eq_some htake
        exact .stays rfl rfl
    · cases h
      exact .outside rfl rfl rfl
  · cases h
    exact .outside rfl rfl rfl
  · cases h
    exact .outside rfl rfl rfl
  · split at h
    · cases h
      exact .outside rfl rfl rfl
    · cases h
      exact .reports _ rfl rfl rfl
  · cases h
    exact .reports _ rfl rfl rfl
  · next hrun =>
      rw [hrun] at hsound
      cases hsound
  all_goals cases h

/-- The server says of itself what it should. -/
theorem ready_goes {readiness : Readiness} (h : w.ready config readiness = some w')
    (hvalid : ∀ accepted, readiness = .capabilities accepted →
      validateAccepted config accepted = .ok ()) : Goes w w' none := by
  unfold ready at h
  split at h
  · cases readiness with
    | capabilities accepted =>
        simp only [hvalid accepted rfl] at h
        cases h
        exact .outside rfl rfl rfl
    | unavailable =>
        cases h
        exact .outside rfl rfl rfl
  · cases h

theorem responsesEnd_goes (h : w.responsesEnd config = some w') : Goes w w' none := by
  unfold responsesEnd at h
  split at h
  · split at h
    · cases h
    · split at h <;> cases h <;> exact .outside rfl rfl rfl
  · cases h

theorem rpcError_goes (h : w.rpcError = some w') : Goes w w' none := by
  unfold rpcError at h
  split at h
  · split at h <;> cases h
    exact .outside rfl rfl rfl
  · cases h

theorem backoffOver_goes (h : w.backoffOver config = some w') : Goes w w' none := by
  unfold backoffOver at h
  split at h <;> cases h
  exact .outside rfl rfl rfl

theorem ready_offClose {readiness : Readiness} (h : w.ready config readiness = some w') :
    OffClose w w' := by
  unfold ready at h
  split at h
  · split at h
    · split at h <;> cases h <;> exact ⟨rfl, rfl⟩
    · cases h
      exact ⟨rfl, rfl⟩
  · cases h

/-- Only `close` closes the channel. -/
theorem step_offClose {made : Option Callback} (h : w.step config e = some (w', made))
    (hclose : e ≠ .close) (hstep : e ≠ .closeStep) : OffClose w w' := by
  cases e with
  | trySend request =>
      cases h
      exact (trySend_beside request).stays.toOffClose
  | put k =>
      obtain ⟨_, hput, ⟨⟩⟩ := Option.map_eq_some_iff.mp h
      exact (put_beside hput).stays.toOffClose
  | forceReset =>
      cases h
      exact ⟨rfl, rfl⟩
  | resetStep k =>
      obtain ⟨_, hreset, ⟨⟩⟩ := Option.map_eq_some_iff.mp h
      exact (resetStep_beside hreset).stays.toOffClose
  | close => exact absurd rfl hclose
  | closeStep => exact absurd rfl hstep
  | work => exact work_offClose h
  | ready readiness =>
      obtain ⟨_, hready, ⟨⟩⟩ := Option.map_eq_some_iff.mp h
      exact ready_offClose hready
  | channelError detail =>
      obtain ⟨_, herror, ⟨⟩⟩ := Option.map_eq_some_iff.mp h
      unfold channelError at herror
      split at herror
      · cases herror
      · split at herror <;> cases herror <;> exact ⟨rfl, rfl⟩
  | response message =>
      rw [step, response] at h
      split at h
      · split at h <;> cases h <;> exact ⟨rfl, rfl⟩
      · cases h
  | responsesEnd =>
      obtain ⟨_, hend, ⟨⟩⟩ := Option.map_eq_some_iff.mp h
      unfold responsesEnd at hend
      split at hend
      · split at hend
        · cases hend
        · split at hend <;> cases hend <;> exact ⟨rfl, rfl⟩
      · cases hend
  | rpcError =>
      obtain ⟨_, herror, ⟨⟩⟩ := Option.map_eq_some_iff.mp h
      unfold rpcError at herror
      split at herror
      · split at herror <;> cases herror
        exact ⟨rfl, rfl⟩
      · cases herror
  | callbackReset =>
      obtain ⟨_, hreset, ⟨⟩⟩ := Option.map_eq_some_iff.mp h
      unfold callbackReset at hreset
      split at hreset <;> cases hreset
      exact ⟨rfl, rfl⟩
  | backoffOver =>
      obtain ⟨_, hover, ⟨⟩⟩ := Option.map_eq_some_iff.mp h
      unfold backoffOver at hover
      split at hover <;> cases hover
      exact ⟨rfl, rfl⟩
  | callEnds k =>
      cases h
      exact ⟨rfl, rfl⟩
  | pull k =>
      obtain ⟨_, hpull, ⟨⟩⟩ := Option.map_eq_some_iff.mp h
      exact (pull_beside hpull).stays.toOffClose
  | begin k metadata uuid =>
      obtain ⟨_, hbegin, ⟨⟩⟩ := Option.map_eq_some_iff.mp h
      exact (begin_beside hbegin).stays.toOffClose
  | iterate k =>
      obtain ⟨_, hiterate, ⟨⟩⟩ := Option.map_eq_some_iff.mp h
      exact (iterate_beside hiterate).stays.toOffClose

/-- A closed channel stays closed. -/
theorem step_channelOpen {made : Option Callback} (h : w.step config e = some (w', made))
    (hopen : w'.channelOpen = true) : w.channelOpen = true := by
  by_cases hclose : e = .close
  · subst hclose
    obtain ⟨_, hclose, ⟨⟩⟩ := Option.map_eq_some_iff.mp h
    exact (close_goes hclose).1.symm.trans hopen
  · by_cases hstep : e = .closeStep
    · subst hstep
      obtain ⟨_, hstep, ⟨⟩⟩ := Option.map_eq_some_iff.mp h
      exact (closeStep_goes hstep).1 hopen
    · exact (step_offClose h hclose hstep).channelOpen.symm.trans hopen

/-- While the channel is open, the steps that are not about a response go through the places in
their order. -/
theorem step_goes {made : Option Callback} (h : w.step config e = some (w', made))
    (hopen : w'.channelOpen = true) (hsound : w.run.faulty = false)
    (hvalid : ∀ accepted, e = .ready (.capabilities accepted) →
      validateAccepted config accepted = .ok ())
    (hresponse : ∀ message, e ≠ .response message) (hreset : e ≠ .callbackReset) :
    Goes w w' made := by
  have hbefore := step_channelOpen h hopen
  cases e with
  | trySend request =>
      cases h
      exact (trySend_beside request).stays.goes
  | put k =>
      obtain ⟨_, hput, ⟨⟩⟩ := Option.map_eq_some_iff.mp h
      exact (put_beside hput).stays.goes
  | forceReset =>
      cases h
      exact .stays rfl rfl
  | resetStep k =>
      obtain ⟨_, hstep, ⟨⟩⟩ := Option.map_eq_some_iff.mp h
      exact (resetStep_beside hstep).stays.goes
  | close =>
      obtain ⟨_, hclose, ⟨⟩⟩ := Option.map_eq_some_iff.mp h
      exact (close_goes hclose).2
  | closeStep =>
      obtain ⟨_, hclose, ⟨⟩⟩ := Option.map_eq_some_iff.mp h
      exact (closeStep_goes hclose).2
  | work => exact work_goes h hsound
  | ready readiness =>
      obtain ⟨_, hready, ⟨⟩⟩ := Option.map_eq_some_iff.mp h
      exact ready_goes hready fun accepted heq => hvalid accepted (by rw [heq])
  | channelError detail =>
      obtain ⟨_, herror, ⟨⟩⟩ := Option.map_eq_some_iff.mp h
      rw [channelError, if_pos hbefore] at herror
      cases herror
  | response message => exact absurd rfl (hresponse message)
  | responsesEnd =>
      obtain ⟨_, hend, ⟨⟩⟩ := Option.map_eq_some_iff.mp h
      exact responsesEnd_goes hend
  | rpcError =>
      obtain ⟨_, herror, ⟨⟩⟩ := Option.map_eq_some_iff.mp h
      exact rpcError_goes herror
  | callbackReset => exact absurd rfl hreset
  | backoffOver =>
      obtain ⟨_, hover, ⟨⟩⟩ := Option.map_eq_some_iff.mp h
      exact backoffOver_goes hover
  | callEnds k =>
      cases h
      exact .stays rfl (w.endCall_generation k)
  | pull k =>
      obtain ⟨_, hpull, ⟨⟩⟩ := Option.map_eq_some_iff.mp h
      exact (pull_beside hpull).stays.goes
  | begin k metadata uuid =>
      obtain ⟨_, hbegin, ⟨⟩⟩ := Option.map_eq_some_iff.mp h
      exact (begin_beside hbegin).stays.goes
  | iterate k =>
      obtain ⟨_, hiterate, ⟨⟩⟩ := Option.map_eq_some_iff.mp h
      exact (iterate_beside hiterate).stays.goes

end GRPCWorker

end VoxLattice.Plugin
