import VoxLattice.Plugin.Steps

/-!
# Who takes the requests

The queue of the transport has a consumer for each generation: the request iterator of its call.
A generation that fails leaves its iterator behind, and when it waits in `_requests.get()` only
a request releases it.  `force_reset` puts a `ResetRequest` for that; `_run`, which drains the
queue after an `RpcError`, a `ConnectionError` or a `ValueError`, does not.  The next request
may then go to the iterator of the dead call (`abandoned_iterator_takes`).

`Orderly` says of a run that this cannot happen: no generation ends and no request is put while
an iterator that is left behind could still take it.  In such a run every request reaches the
worker, a drain or the iterator of a generation that is not over (`requests_reach_live_streams`).
-/

namespace VoxLattice.Plugin

/-- Once its generation is over, the iterator takes nothing from the queue any more. -/
def RequestIterator.released (it : RequestIterator) : Bool :=
  match it.place with
  | .accounting _ | .getting => false
  | .yieldedEnd | .finished => true
  | .looping request => it.status ≠ .active || !request.isAudio
  | .created | .begun | .yieldedStart | .yieldedAudio _ => it.status ≠ .active

/-- A request went to the worker, to a drain or to an iterator whose generation was not over,
neither when it was put nor when it was taken.  A `ResetRequest` may go anywhere. -/
def Taken.Served (t : Taken) : Prop :=
  t.queued.request.isReset = false → ∀ generation, t.taker = .iterator generation →
    t.queued.ended < generation ∧ t.ended < generation

namespace GRPCWorker

/-- The iterators of the generations that are over are released. -/
def overReleased (w : GRPCWorker) : Bool :=
  (w.iterators.take w.ended).all RequestIterator.released

/-- The iterator of the latest generation is released. -/
def latestReleased (w : GRPCWorker) : Bool := w.iterators.getLast?.all RequestIterator.released

/-- Every request in the queue is a `ResetRequest`. -/
def onlyResets (w : GRPCWorker) : Bool := w.requests.items.all fun queued => queued.request.isReset

/-- The event ends a generation. -/
def endsGeneration (config : TransportConfig) (w : GRPCWorker) (e : WorkerEvent) : Bool :=
  (w.step config e).any fun result => w.ended < result.1.ended

/-- A generation ends only when its iterator is released or nothing but `ResetRequest`s is
queued, and any other request is put only when all the iterators left behind are released. -/
def Orderly (config : TransportConfig) (w : GRPCWorker) (e : WorkerEvent) : Prop :=
  (w.endsGeneration config e = true → (w.latestReleased || w.onlyResets) = true) ∧
    (w.puts e = true → w.overReleased = true)

instance (config : TransportConfig) (w : GRPCWorker) (e : WorkerEvent) :
    Decidable (w.Orderly config e) :=
  inferInstanceAs (Decidable (_ ∧ _))

end GRPCWorker

/-! ## Released iterators -/

namespace RequestIterator

variable {it it' : RequestIterator}

theorem endCall_place (it : RequestIterator) : it.endCall.place = it.place := by
  unfold endCall
  split <;> rfl

theorem endCall_inactive (it : RequestIterator) : it.endCall.status ≠ .active := by
  unfold endCall
  split
  · nofun
  · next h => exact h

theorem released_of_inactive (hstatus : it.status ≠ .active) (hplace : it.place ≠ .getting)
    (haccounting : ∀ samples, it.place ≠ .accounting samples) : it.released = true := by
  unfold released
  split
  · next h => exact absurd h (haccounting _)
  · next h => exact absurd h hplace
  all_goals simp [hstatus]

theorem released_finished (hplace : it.place = .finished) : it.released = true := by
  unfold released
  rw [hplace]

theorem released_endCall (h : it.released = true) : it.endCall.released = true := by
  refine released_of_inactive it.endCall_inactive ?_ ?_
  · intro hplace
    rw [endCall_place] at hplace
    simp [released, hplace] at h
  · intro samples hplace
    rw [endCall_place] at hplace
    simp [released, hplace] at h

theorem released_raise (it : RequestIterator) : it.raise.released = true :=
  released_finished (endCall_place _)

theorem pull_active (h : it.pull = some it') : it.status = .active := by
  unfold pull at h
  split at h
  · next hactive => exact hactive
  · cases h

/-- An iterator that is released stays so, whatever it does. -/
theorem released_iterates {e : WorkerEvent} {reset : Bool} (h : it.released = true)
    (hmove : Iterates e reset it it') :
    it'.released = true := by
  cases hmove with
  | pull hpull =>
      have hactive := pull_active hpull
      unfold pull at hpull
      rw [if_pos hactive] at hpull
      split at hpull
      · next hplace => simp [released, hplace, hactive] at h
      · next hplace => simp [released, hplace, hactive] at h
      · next hplace => simp [released, hplace, hactive] at h
      · cases hpull
        exact released_finished rfl
      · cases hpull
  | begin k metadata uuid _ hplace =>
      unfold begin
      split
      · exact it.released_raise
      · unfold released at h
        rw [hplace] at h
        exact h
  | @loop request hplace =>
      unfold loop
      split
      · have hstatus : it.status ≠ .active := by simpa [released, hplace, Request.isAudio] using h
        split
        · exact released_finished rfl
        · split
          · exact released_of_inactive hstatus nofun nofun
          · exact it.released_raise
      · split
        · exact released_finished rfl
        · rfl
      · exact released_finished rfl
  | account hplace => simp [released, hplace] at h

end RequestIterator

namespace GRPCWorker

variable {config : TransportConfig} {w w' : GRPCWorker} {e : WorkerEvent}

/-! ## Generations that are over -/

theorem Quiet.ended (h : Quiet w w') : w'.ended = w.ended ∨
    w'.ended = w.ended + 1 ∧ w.generation = w.ended + 1 := by
  have hlen : w'.generation = w.generation := congrArg List.length h.iterators
  have hrun := h.run
  rw [GRPCWorker.ended, GRPCWorker.ended, hlen]
  cases hin : w.run.inGeneration with
  | false =>
      rw [hrun hin]
      exact .inl rfl
  | true =>
      cases hin' : w'.run.inGeneration with
      | true => exact .inl rfl
      | false =>
          simp only [if_true, Bool.false_eq_true, if_false]
          omega

theorem ended_of_inGeneration (hlen : w'.generation = w.generation)
    (hrun : w'.run.inGeneration = w.run.inGeneration) : w'.ended = w.ended := by
  rw [ended, ended, hlen, hrun]

theorem ended_le_generation (w : GRPCWorker) : w.ended ≤ w.generation := Nat.sub_le _ _

/-- A step ends the latest generation or none. -/
theorem Effect.ended (h : Effect e w w') : w'.ended = w.ended ∨
    Quiet w w' ∧ w'.ended = w.ended + 1 ∧ w.generation = w.ended + 1 := by
  cases h with
  | quiet h => exact h.ended.imp_right fun hended => ⟨h, hended⟩
  | reserved _ _ _ _ _ iterators run =>
      exact .inl (ended_of_inGeneration (congrArg List.length iterators) (congrArg _ run))
  | put _ _ _ _ _ iterators run =>
      exact .inl (ended_of_inGeneration (congrArg List.length iterators) (congrArg _ run))
  | took _ _ _ _ iterators run =>
      exact .inl (ended_of_inGeneration (congrArg List.length iterators) run)
  | received _ _ _ _ iterators run run' =>
      left
      rw [GRPCWorker.ended, GRPCWorker.ended, generation, generation, iterators, run, run',
        List.length_append]
      rfl
  | resumed k _ _ _ _ _ iterators run =>
      refine .inl (ended_of_inGeneration ?_ (congrArg _ run))
      rw [generation, generation, iterators, List.length_set]
  | moved k _ _ _ _ iterators _ _ _ run =>
      refine .inl (ended_of_inGeneration ?_ (congrArg _ run))
      rw [generation, generation, iterators, List.length_set]
  | callsEnd _ _ _ _ generation run =>
      exact .inl (ended_of_inGeneration generation (congrArg _ run))
  | callBegins run run' iterators =>
      refine .inl (ended_of_inGeneration ?_ (by rw [run, run']; rfl))
      rw [generation, generation, iterators, openCall, List.length_modify]

theorem Effect.ended_le (h : Effect e w w') : w.ended ≤ w'.ended := by
  obtain hended | ⟨_, hended, _⟩ := h.ended
  · exact hended.ge
  · exact hended.ge.trans' (Nat.le_succ _)

/-- The iterators of the generations that are over, as a statement about each. -/
def OverReleased (w : GRPCWorker) : Prop :=
  ∀ k it, k < w.ended → w.iterators[k]? = some it → it.released = true

theorem overReleased_iff : w.overReleased = true ↔ w.OverReleased := by
  rw [overReleased, List.all_eq_true]
  constructor
  · intro h k it hk hit
    exact h it (List.mem_of_getElem? (i := k) (by rw [List.getElem?_take_of_lt hk, hit]))
  · intro h it hit
    obtain ⟨k, hk⟩ := List.mem_iff_getElem?.mp hit
    rw [List.getElem?_take] at hk
    split at hk
    · next hlt => exact h k it hlt hk
    · cases hk

/-- The generation that just ended, with those before it. -/
theorem OverReleased.succ (h : w.OverReleased) (hlast : w.latestReleased = true)
    (hgeneration : w.generation = w.ended + 1) {k : Nat} {it : RequestIterator}
    (hk : k < w.ended + 1) (hit : w.iterators[k]? = some it) : it.released = true := by
  obtain hlt | rfl := Nat.lt_succ_iff_lt_or_eq.mp hk
  · exact h k it hlt hit
  · have hindex : w.iterators.length - 1 = w.ended := by
      rw [generation] at hgeneration
      omega
    rw [latestReleased, List.getLast?_eq_getElem?, hindex, hit] at hlast
    exact hlast

/-- The iterators of earlier generations move as the step allows. -/
theorem Effect.over_iterator (h : Effect e w w') {k : Nat} {it' : RequestIterator}
    (hk : k < w.ended) (hit' : w'.iterators[k]? = some it') :
    ∃ it, w.iterators[k]? = some it ∧ (it' = it ∨ it' = it.endCall ∨ Iterates e w.reset it it' ∨
      it.place = .getting ∧ ∃ queued ∈ w.requests.items,
        it' = { it with place := .looping queued.request }) := by
  cases h with
  | quiet h => exact ⟨it', h.iterators ▸ hit', .inl rfl⟩
  | reserved _ _ _ _ _ iterators => exact ⟨it', iterators ▸ hit', .inl rfl⟩
  | put _ _ _ _ _ iterators => exact ⟨it', iterators ▸ hit', .inl rfl⟩
  | took _ _ _ _ iterators => exact ⟨it', iterators ▸ hit', .inl rfl⟩
  | received _ _ _ _ iterators =>
      have hlt : k < w.iterators.length := hk.trans_le w.ended_le_generation
      rw [iterators, List.getElem?_append_left hlt] at hit'
      exact ⟨it', hit', .inl rfl⟩
  | resumed j it queued here place takes iterators =>
      rw [iterators, List.getElem?_set] at hit'
      split at hit'
      · next hjk =>
          subst hjk
          split at hit'
          · cases hit'
            refine ⟨it, here, .inr (.inr (.inr ⟨place, queued, ?_, rfl⟩))⟩
            rw [takes.items]
            exact List.mem_cons_self
          · cases hit'
      · exact ⟨it', hit', .inl rfl⟩
  | moved j it it₁ here move iterators =>
      rw [iterators, List.getElem?_set] at hit'
      split at hit'
      · next hjk =>
          subst hjk
          split at hit'
          · cases hit'
            exact ⟨it, here, .inr (.inr (.inl move))⟩
          · cases hit'
      · exact ⟨it', hit', .inl rfl⟩
  | callsEnd iterators =>
      obtain hsame | hends := ends_cases (iterators k)
      · exact ⟨it', hsame ▸ hit', .inl rfl⟩
      · rw [hends, Option.map_eq_some_iff] at hit'
        obtain ⟨it, hit, rfl⟩ := hit'
        exact ⟨it, hit, .inr (.inl rfl)⟩
  | callBegins run _ iterators =>
      have hne : w.generation - 1 ≠ k := by
        rw [GRPCWorker.ended, run] at hk
        exact Nat.ne_of_gt hk
      rw [iterators] at hit'
      exact ⟨it', (List.getElem?_modify_ne _ _ hne).symm.trans hit', .inl rfl⟩

theorem OverReleased.step (h : w.OverReleased) (heffect : Effect e w w')
    (hended : w'.ended = w.ended) : w'.OverReleased := by
  intro k it' hk hit'
  rw [hended] at hk
  obtain ⟨it, hit, rfl | rfl | hmove | ⟨hplace, _⟩⟩ := heffect.over_iterator hk hit'
  · exact h k it' hk hit
  · exact RequestIterator.released_endCall (h k it hk hit)
  · exact RequestIterator.released_iterates (h k it hk hit) hmove
  · have hreleased := h k it hk hit
    simp [RequestIterator.released, hplace] at hreleased

/-- A queued request was queued before or is put now. -/
theorem Effect.mem_requests (h : Effect e w w') {queued : Queued}
    (hmem : queued ∈ w'.requests.items) : queued ∈ w.requests.items ∨
      queued.ended = w.ended ∧ (queued.request.isReset = true ∨ w.puts e = true) := by
  cases h with
  | quiet h => exact .inl (h.requests ▸ hmem)
  | reserved _ _ _ requests => exact .inl (requests ▸ hmem)
  | put request event items =>
      rw [items, List.mem_append, List.mem_singleton] at hmem
      obtain hold | rfl := hmem
      · exact .inl hold
      · exact .inr ⟨rfl, event⟩
  | took _ _ takes =>
      left
      rw [takes.items]
      exact List.mem_cons_of_mem _ hmem
  | received _ _ takes =>
      left
      rw [takes.items]
      exact List.mem_cons_of_mem _ hmem
  | resumed _ _ _ _ _ takes =>
      left
      rw [takes.items]
      exact List.mem_cons_of_mem _ hmem
  | moved _ _ _ _ _ _ requests => exact .inl (requests ▸ hmem)
  | callsEnd _ requests => exact .inl (requests ▸ hmem)
  | callBegins _ _ _ requests => exact .inl (requests ▸ hmem)

/-- The request that is taken was in the queue, and an iterator that takes it waits for it. -/
theorem Takes.mem_taken {taker : Taker} {queued : Queued} (h : Takes w w' taker queued)
    (htaker : ∀ generation, taker = .iterator generation →
      ∃ k it, generation = k + 1 ∧ w.iterators[k]? = some it ∧ it.place = .getting)
    {t : Taken} (hmem : t ∈ w'.taken) : t ∈ w.taken ∨
      t.queued ∈ w.requests.items ∧ t.ended = w.ended ∧
        ∀ generation, t.taker = .iterator generation →
          ∃ k it, generation = k + 1 ∧ w.iterators[k]? = some it ∧ it.place = .getting := by
  rw [h.taken, List.mem_append, List.mem_singleton] at hmem
  obtain hold | rfl := hmem
  · exact .inl hold
  · refine .inr ⟨?_, rfl, htaker⟩
    rw [h.items]
    exact List.mem_cons_self

theorem Effect.mem_taken (h : Effect e w w') {t : Taken} (hmem : t ∈ w'.taken) : t ∈ w.taken ∨
    t.queued ∈ w.requests.items ∧ t.ended = w.ended ∧
      ∀ generation, t.taker = .iterator generation →
        ∃ k it, generation = k + 1 ∧ w.iterators[k]? = some it ∧ it.place = .getting := by
  cases h with
  | quiet h => exact .inl (h.taken ▸ hmem)
  | reserved _ _ _ _ taken => exact .inl (taken ▸ hmem)
  | put _ _ _ _ taken => exact .inl (taken ▸ hmem)
  | took _ _ takes other =>
      refine takes.mem_taken ?_ hmem
      obtain rfl | rfl := other
      · nofun
      · nofun
  | received _ _ takes => exact takes.mem_taken nofun hmem
  | resumed k it _ here place takes =>
      refine takes.mem_taken ?_ hmem
      rintro _ ⟨⟩
      exact ⟨k, it, rfl, here, place⟩
  | moved _ _ _ _ _ _ _ taken => exact .inl (taken ▸ hmem)
  | callsEnd _ _ taken => exact .inl (taken ▸ hmem)
  | callBegins _ _ _ _ taken => exact .inl (taken ▸ hmem)

/-! ## Orderly runs -/

/-- The queue holds nothing that a released iterator would miss. -/
def OnlyResets (w : GRPCWorker) : Prop :=
  ∀ queued ∈ w.requests.items, queued.request.isReset = true

theorem onlyResets_iff : w.onlyResets = true ↔ w.OnlyResets := List.all_eq_true

/-- The invariant of an orderly run. -/
structure Undisturbed (w : GRPCWorker) : Prop where
  abandoned : w.OverReleased ∨ w.OnlyResets
  queued : ∀ queued ∈ w.requests.items, queued.ended ≤ w.ended
  taken : ∀ t ∈ w.taken, t.Served

theorem Undisturbed.over_step (h : Undisturbed w) (heffect : Effect e w w')
    (hputs : w.puts e = true → w.OverReleased)
    (hends : w.ended < w'.ended → w.latestReleased = true ∨ w.OnlyResets) :
    w'.OverReleased ∨ w'.OnlyResets := by
  obtain hended | ⟨hquiet, hended, hgeneration⟩ := heffect.ended
  · obtain hover | hresets := h.abandoned
    · exact .inl (hover.step heffect hended)
    · cases hput : w.puts e with
      | true => exact .inl ((hputs hput).step heffect hended)
      | false =>
          right
          intro queued hmem
          obtain hold | ⟨_, hreset | hput'⟩ := heffect.mem_requests hmem
          · exact hresets queued hold
          · exact hreset
          · rw [hput] at hput'
            cases hput'
  · obtain hlast | hresets := hends (hended ▸ Nat.lt_succ_self _)
    · refine h.abandoned.imp ?_ ?_
      · intro hover k it hk hit
        rw [hended] at hk
        exact hover.succ hlast hgeneration hk (hquiet.iterators ▸ hit)
      · intro hresets queued hmem
        exact hresets queued (hquiet.requests ▸ hmem)
    · right
      intro queued hmem
      exact hresets queued (hquiet.requests ▸ hmem)

theorem Undisturbed.taken_step (h : Undisturbed w) (heffect : Effect e w w') :
    ∀ t ∈ w'.taken, t.Served := by
  intro t hmem
  obtain hold | ⟨hqueued, hended, htaker⟩ := heffect.mem_taken hmem
  · exact h.taken t hold
  · intro hreset generation hiterator
    obtain ⟨k, it, rfl, hit, hplace⟩ := htaker generation hiterator
    have hlive : w.ended < k + 1 := by
      by_contra hover
      obtain hreleased | hresets := h.abandoned
      · have hit := hreleased k it (Nat.lt_of_succ_le (Nat.le_of_not_lt hover)) hit
        simp [RequestIterator.released, hplace] at hit
      · rw [hresets t.queued hqueued] at hreset
        cases hreset
    exact ⟨(h.queued t.queued hqueued).trans_lt hlive, hended ▸ hlive⟩

theorem Undisturbed.step (h : Undisturbed w)
    (hs : ((workerSystem config).restrict (Orderly config)).Step w e w') : Undisturbed w' := by
  obtain ⟨⟨w₁, callback⟩, hstep, rfl⟩ := Option.map_eq_some_iff.mp hs.eq
  obtain ⟨hends, hputs⟩ := hs.allowed.2
  have heffect := step_effect hstep
  refine ⟨h.over_step heffect (fun hput => overReleased_iff.mp (hputs hput)) ?_, ?_,
    h.taken_step heffect⟩
  · intro hlt
    have horderly := hends (by
      rw [endsGeneration, hstep]
      exact decide_eq_true hlt)
    rw [Bool.or_eq_true, onlyResets_iff] at horderly
    exact horderly
  · intro queued hmem
    obtain hold | ⟨hended, _⟩ := heffect.mem_requests hmem
    · exact (h.queued queued hold).trans heffect.ended_le
    · exact hended.trans_le heffect.ended_le

theorem undisturbed_init : Undisturbed (.new config) where
  abandoned := .inr fun _ hmem => absurd hmem List.not_mem_nil
  queued _ hmem := absurd hmem List.not_mem_nil
  taken _ hmem := absurd hmem List.not_mem_nil

/-- In an orderly run every request that is no `ResetRequest` is taken by the worker, by a drain
or by the iterator of a generation that was not over, neither when the request was put nor when
it was taken. -/
theorem requests_reach_live_streams
    (h : ((workerSystem config).restrict (Orderly config)).Reachable w) {t : Taken}
    (ht : t ∈ w.taken) : t.Served := by
  have hundisturbed : Undisturbed w :=
    Lts.System.Reachable.invariant undisturbed_init (fun _ _ _ h hs => h.step hs) h
  exact hundisturbed.taken t ht

/-- The first call fails before gRPC asks for audio, and the next one takes two requests. -/
def orderlyEvents : List WorkerEvent :=
  testConnects ++ testSends 0 256 ++ testCalls ++ [.pull 0, .begin 0 [] "c0ffee"] ++
    testFails 0 ++ [.backoffOver] ++ testConnects ++ testSends 256 256 ++ testCalls ++
    testYields 1 ++ testSends 512 256 ++ [.iterate 1]

theorem requests_reach_live_streams_second :
    ∃ w t, (workerSystem testConfig.transportConfig).run (.new testConfig.transportConfig)
        orderlyEvents = some w ∧
      t ∈ w.taken ∧ t.taker = .iterator 2 ∧ t.queued.ended = 1 ∧ t.Served := by
  obtain ⟨w, hrun, hreach, hp⟩ := Lts.System.Reachable.of_run
    ((workerSystem testConfig.transportConfig).restrict (Orderly testConfig.transportConfig))
    orderlyEvents
    (fun (w : GRPCWorker) => w.taken.any fun (t : Taken) =>
      decide (t.taker = .iterator 2 ∧ t.queued.ended = 1))
    (by decide +kernel) (by decide +kernel)
  obtain ⟨t, hmem, ht⟩ := List.any_eq_true.mp hp
  obtain ⟨htaker, hended⟩ := of_decide_eq_true ht
  exact ⟨w, t, hrun, hmem, htaker, hended, requests_reach_live_streams hreach hmem⟩

/-- The first call fails while its iterator waits for a request, and the iterator takes the
request that is sent next. -/
theorem abandoned_iterator_takes :
    ¬ ∀ w, (workerSystem testConfig.transportConfig).Reachable w → ∀ t ∈ w.taken, t.Served := by
  intro hserved
  obtain ⟨w, _, hreach, hp⟩ := Lts.System.Reachable.of_run
    (workerSystem testConfig.transportConfig)
    (testConnects ++ testSends 0 256 ++ testCalls ++ testYields 0 ++ testFails 0 ++
      testSends 256 256 ++ [.iterate 0])
    (fun (w : GRPCWorker) => w.taken.any fun (t : Taken) => !t.queued.request.isReset &&
      decide (t.taker = .iterator 1 ∧ t.queued.ended = 1))
    (by decide +kernel) (by decide +kernel)
  obtain ⟨t, hmem, ht⟩ := List.any_eq_true.mp hp
  rw [Bool.and_eq_true, Bool.not_eq_true', decide_eq_true_eq] at ht
  obtain ⟨hreset, htaker, hended⟩ := ht
  have hlt := (hserved w hreach t hmem hreset 1 htaker).1
  rw [hended] at hlt
  exact Nat.lt_irrefl 1 hlt

end GRPCWorker

end VoxLattice.Plugin
