import VoxLattice.Plugin.Loop

/-!
# Drains

A drain is under way from the call of `force_reset`, or from the failure of a generation, to the
step that zeroes the counter of samples.  It ends in no other way (`step_drains`).
-/

namespace VoxLattice.Plugin

open Server (ServerMessage)

namespace GRPCWorker

variable {config : TransportConfig} {w w' : GRPCWorker} {e : WorkerEvent}
  {made : Option Callback}

/-! ## The calls of `force_reset` -/

theorem putNowait_resets {request : Request} (h : w.putNowait request = some w') :
    w'.resets = w.resets := by
  obtain ⟨requests, rfl, -⟩ := putNowait_eq_some h
  rfl

theorem take_resets {taker : Taker} {request : Request}
    (h : w.take taker = some (request, w')) : w'.resets = w.resets := by
  obtain ⟨queued, requests, -, rfl, -⟩ := take_eq_some h
  rfl

theorem cancel_resets (call : Option CallRef) : (w.cancel call).resets = w.resets := by
  unfold cancel
  split <;> rfl

theorem receive_resets (request : Request) : (w.receive request).resets = w.resets := by
  unfold receive
  split <;> rfl

theorem closeStep_resets (h : w.closeStep = some w') : w'.resets = w.resets := by
  unfold closeStep at h
  split at h
  · split at h <;> cases h <;> rfl
  · split at h
    · next hput =>
        cases h
        have hresets := putNowait_resets hput
        exact hresets
    · cases h
      rfl
  · cases h
    rfl
  · cases h
    rfl
  · cases h
    rfl
  · next call _ =>
      cases h
      exact cancel_resets call
  · cases h
    rfl
  · split at h
    · next hput =>
        cases h
        have hresets := putNowait_resets hput
        exact hresets
    · cases h
      rfl
  · cases h

theorem work_resets (h : w.work = some (w', made)) : w'.resets = w.resets := by
  unfold work at h
  split at h
  · cases h
    rfl
  · split at h <;> cases h
    rfl
  · cases h
    rfl
  · obtain ⟨⟨request, w₁⟩, htake, heq⟩ := Option.map_eq_some_iff.mp h
    cases heq
    exact (receive_resets request).trans (take_resets htake)
  · cases h
    rfl
  · cases h
    rfl
  · split at h <;> cases h
    rfl
  · cases h
    rfl
  · split at h <;> cases h <;> rfl
  · cases h
    rfl
  · split at h
    · next htake =>
        cases h
        exact take_resets htake
    · cases h
      rfl
  · cases h
    rfl
  · cases h
    rfl
  · split at h <;> cases h <;> rfl
  · cases h
    rfl
  · cases h
    rfl
  all_goals cases h

theorem ready_resets {readiness : Readiness} (h : w.ready config readiness = some w') :
    w'.resets = w.resets := by
  unfold ready at h
  split at h
  · split at h
    · split at h <;> cases h <;> rfl
    · cases h
      rfl
  · cases h

theorem response_resets {message : ServerMessage}
    (h : w.response config message = some (w', made)) : w'.resets = w.resets := by
  unfold response at h
  split at h
  · split at h <;> cases h <;> rfl
  · cases h

theorem iterate_resets {k : Nat} (h : w.iterate k = some w') : w'.resets = w.resets := by
  unfold iterate at h
  split at h
  · split at h
    · cases h
      rfl
    · cases h
      rfl
    · obtain ⟨⟨request, w₁⟩, htake, rfl⟩ := Option.map_eq_some_iff.mp h
      have hresets := take_resets htake
      exact hresets
    · cases h
  · cases h

/-- Only its own steps move a call of `force_reset`. -/
theorem step_resets (h : w.step config e = some (w', made)) (hreset : ∀ k, e ≠ .resetStep k) :
    w.resets <+: w'.resets := by
  have hsame (heq : w'.resets = w.resets) : w.resets <+: w'.resets := heq ▸ List.prefix_rfl
  cases e with
  | resetStep k => exact absurd rfl (hreset k)
  | trySend request =>
      cases h
      refine hsame ?_
      unfold trySend
      split <;> rfl
  | put k =>
      obtain ⟨w₁, hput, heq⟩ := Option.map_eq_some_iff.mp h
      cases heq
      unfold put at hput
      split at hput
      · obtain ⟨requests, rfl, -⟩ := putNowait_eq_some hput
        exact hsame rfl
      · cases hput
  | forceReset =>
      cases h
      exact List.prefix_append _ _
  | close =>
      obtain ⟨w₁, hclose, heq⟩ := Option.map_eq_some_iff.mp h
      cases heq
      unfold close at hclose
      split at hclose <;> cases hclose
      exact hsame rfl
  | closeStep =>
      obtain ⟨w₁, hclose, heq⟩ := Option.map_eq_some_iff.mp h
      cases heq
      exact hsame (closeStep_resets hclose)
  | work => exact hsame (work_resets h)
  | ready readiness =>
      obtain ⟨w₁, hready, heq⟩ := Option.map_eq_some_iff.mp h
      cases heq
      exact hsame (ready_resets hready)
  | channelError detail =>
      obtain ⟨w₁, herror, heq⟩ := Option.map_eq_some_iff.mp h
      cases heq
      unfold channelError at herror
      split at herror
      · cases herror
      · split at herror <;> cases herror <;> exact hsame rfl
  | response message => exact hsame (response_resets h)
  | responsesEnd =>
      obtain ⟨w₁, hend, heq⟩ := Option.map_eq_some_iff.mp h
      cases heq
      unfold responsesEnd at hend
      split at hend
      · split at hend
        · cases hend
        · split at hend <;> cases hend <;> exact hsame rfl
      · cases hend
  | rpcError =>
      obtain ⟨w₁, herror, heq⟩ := Option.map_eq_some_iff.mp h
      cases heq
      unfold rpcError at herror
      split at herror
      · split at herror <;> cases herror
        exact hsame rfl
      · cases herror
  | callbackReset =>
      obtain ⟨w₁, hcall, heq⟩ := Option.map_eq_some_iff.mp h
      cases heq
      unfold callbackReset at hcall
      split at hcall <;> cases hcall
      exact List.prefix_append _ _
  | backoffOver =>
      obtain ⟨w₁, hover, heq⟩ := Option.map_eq_some_iff.mp h
      cases heq
      unfold backoffOver at hover
      split at hover <;> cases hover
      exact hsame rfl
  | callEnds k =>
      cases h
      exact hsame rfl
  | pull k =>
      obtain ⟨w₁, hpull, heq⟩ := Option.map_eq_some_iff.mp h
      cases heq
      unfold pull at hpull
      split at hpull
      · obtain ⟨it, -, rfl⟩ := Option.map_eq_some_iff.mp hpull
        exact hsame rfl
      · cases hpull
  | begin k metadata uuid =>
      obtain ⟨w₁, hbegin, heq⟩ := Option.map_eq_some_iff.mp h
      cases heq
      unfold begin at hbegin
      split at hbegin
      · split at hbegin <;> cases hbegin
        exact hsame rfl
      · cases hbegin
  | iterate k =>
      obtain ⟨w₁, hiterate, heq⟩ := Option.map_eq_some_iff.mp h
      cases heq
      exact hsame (iterate_resets hiterate)

/-! ## A drain goes on -/

theorem resetStep_drains {k : Nat} (h : w.resetStep k = some w')
    (hzeroes : w.zeroes (.resetStep k) = false) (hdrains : w.resets.any ResetPlace.drains = true) :
    w'.resets.any ResetPlace.drains = true := by
  have hmoves {place place' : ResetPlace} (hplace : w.resets[k]? = some place)
      (hdrains' : place'.drains = true) :
      (w.resets.set k place').any ResetPlace.drains = true :=
    List.any_eq_true.mpr
      ⟨place', List.mem_set (List.getElem?_eq_some_iff.mp hplace).1 place', hdrains'⟩
  -- another call drains
  have hother {place : ResetPlace} (hplace : w.resets[k]? = some .putting) :
      (w.resets.set k place).any ResetPlace.drains = true := by
    obtain ⟨place', hmem, hplace'⟩ := List.any_eq_true.mp hdrains
    obtain ⟨j, hj⟩ := List.mem_iff_getElem?.mp hmem
    have hne : k ≠ j := by
      rintro rfl
      rw [hplace] at hj
      cases hj
      cases hplace'
    rw [← List.getElem?_set_ne hne] at hj
    exact List.any_eq_true.mpr ⟨place', List.mem_of_getElem? hj, hplace'⟩
  unfold resetStep at h
  split at h
  · next hplace =>
      cases h
      exact hmoves hplace rfl
  · next hplace =>
      cases h
      exact hmoves hplace rfl
  · next call hplace =>
      cases h
      have hresets := cancel_resets (w := w) call
      rw [setReset, hresets]
      exact hmoves hplace rfl
  · next hplace =>
      split at h
      · next htake =>
          cases h
          rw [take_resets htake]
          exact hdrains
      · cases h
        exact hmoves hplace rfl
  · next hplace =>
      rw [zeroes, hplace] at hzeroes
      cases hzeroes
  · next hplace =>
      split at h
      · next hput =>
          cases h
          rw [setReset, putNowait_resets hput]
          exact hother hplace
      · cases h
        exact hother hplace
  · cases h

/-- The worker thread leaves a drain at its end, and the beginning of a generation for its call,
unless gRPC refuses to make it. -/
theorem Moves.early (h : Moves config e w w' made) : w'.run = w.run ∨
    (w.run.drains = true → w'.run.drains = true ∨ w.zeroes e = true) ∧
      (w.run.unopened = true →
        w'.run.inGeneration = true ∨ ∃ detail, e = .channelError detail) := by
  have hlate {place : RunPlace} (hrun : w.run = place)
      (hplace : place.drains = false ∧ place.unopened = false) : w'.run = w.run ∨
      (w.run.drains = true → w'.run.drains = true ∨ w.zeroes e = true) ∧
        (w.run.unopened = true →
          w'.run.inGeneration = true ∨ ∃ detail, e = .channelError detail) := by
    rw [hrun, hplace.1, hplace.2]
    exact .inr ⟨nofun, nofun⟩
  cases h with
  | other run => exact .inl run
  | outside _ _ _ _ _ _ _ _ _ _ _ drains opens => exact .inr ⟨drains, opens⟩
  | enters _ before => exact hlate before ⟨rfl, rfl⟩
  | resets _ _ _ before => exact hlate before ⟨rfl, rfl⟩
  | resumes _ _ _ before => exact hlate before ⟨rfl, rfl⟩
  | dies _ _ _ before => exact hlate before ⟨rfl, rfl⟩
  | accepted _ _ _ _ before => exact hlate before ⟨rfl, rfl⟩
  | audio _ _ _ _ _ _ before => exact hlate before ⟨rfl, rfl⟩
  | returned _ before => exact hlate before ⟨rfl, rfl⟩
  | refused _ _ _ _ before => exact hlate before ⟨rfl, rfl⟩
  | broken _ before => exact hlate before ⟨rfl, rfl⟩
  | rested _ before => exact hlate before ⟨rfl, rfl⟩

/-- A drain goes on until the counter is zeroed. -/
theorem step_drains (h : w.step config e = some (w', made)) (hzeroes : w.zeroes e = false)
    (hdrains : w.drains = true) : w'.drains = true := by
  rw [drains, Bool.or_eq_true] at hdrains
  obtain hrun | hresets := hdrains
  · obtain hsame | ⟨hgoes, -⟩ := (step_moves h).early
    · exact drains_of_run (hsame ▸ hrun)
    · refine drains_of_run ((hgoes hrun).resolve_right ?_)
      rw [hzeroes]
      exact Bool.false_ne_true
  · have hresets' : w'.resets.any ResetPlace.drains = true := by
      by_cases hreset : ∃ k, e = .resetStep k
      · obtain ⟨k, rfl⟩ := hreset
        obtain ⟨w₁, hstep, heq⟩ := Option.map_eq_some_iff.mp h
        cases heq
        exact resetStep_drains hstep hzeroes hresets
      · obtain ⟨place, hmem, hplace⟩ := List.any_eq_true.mp hresets
        have hprefix := step_resets h fun k hk => hreset ⟨k, hk⟩
        exact List.any_eq_true.mpr ⟨place, hprefix.subset hmem, hplace⟩
    rw [drains, hresets', Bool.or_true]

theorem inGeneration_of_unopened {run : RunPlace} (h : run.unopened = true) :
    run.inGeneration = true := by
  cases run <;> first | rfl | cases h

/-- Before its call a generation does not end, unless gRPC refuses to make the call. -/
theorem step_unopened (h : w.step config e = some (w', made)) (hrun : w.run.unopened = true) :
    w'.run.inGeneration = true ∨ ∃ detail, e = .channelError detail := by
  obtain hsame | ⟨-, hopens⟩ := (step_moves h).early
  · rw [hsame]
    exact .inl (inGeneration_of_unopened hrun)
  · exact hopens hrun

end GRPCWorker

end VoxLattice.Plugin
