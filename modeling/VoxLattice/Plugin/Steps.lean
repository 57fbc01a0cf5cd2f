import VoxLattice.Plugin.Transport

/-!
# What a step of the transport does

Whatever the event is, a step of the worker does one of a few things to the requests, to the
iterators and to the calls of `try_send` before their put (`step_effect`).  The invariants of
the transport use this lemma and do not look at the events again.
-/

namespace VoxLattice.Plugin

open Server (ServerMessage)

/-- The `AudioRequest`, unless the request is another one. -/
def Request.audio? : Request → Option AudioRequest
  | .audio request => some request
  | _ => none

/-- The samples of an `AudioChunk` that the iterator is about to account for. -/
def RequestIterator.accounting (it : RequestIterator) : Nat :=
  match it.place with
  | .accounting samples => samples
  | _ => 0

/-- What an iterator does on its own. -/
inductive Iterates (e : WorkerEvent) (reset : Bool) (it : RequestIterator) :
    RequestIterator → Prop where
  | pull {it'} (h : it.pull = some it') (event : ∃ k, e = .pull k := by exact ⟨_, rfl⟩) :
      Iterates e reset it it'
  | begin (k : Nat) (metadata : Metadata) (uuid : String) (event : e = .begin k metadata uuid)
      (h : it.place = .begun) : Iterates e reset it (it.begin metadata uuid)
  | loop {request} (h : it.place = .looping request)
      (event : ∃ k, e = .iterate k := by exact ⟨_, rfl⟩) :
      Iterates e reset it (it.loop reset request)
  | account {samples} (h : it.place = .accounting samples)
      (event : ∃ k, e = .iterate k := by exact ⟨_, rfl⟩) :
      Iterates e reset it (it.account samples)

/-- The call of `force_reset` will zero the counter. -/
def ResetPlace.drains : ResetPlace → Bool
  | .setting | .reading | .cancelling _ | .draining | .unpending => true
  | _ => false

/-- The worker thread will zero the counter. -/
def RunPlace.drains : RunPlace → Bool
  | .mismatched _ | .draining | .unpending => true
  | _ => false

/-- The iterator that runs at the event. -/
def WorkerEvent.iterator? : WorkerEvent → Option Nat
  | .pull k | .begin k _ _ | .iterate k => some k
  | _ => none

namespace GRPCWorker

/-- The requests, the iterators and the sends stay, and no generation begins. -/
structure Quiet (w w' : GRPCWorker) : Prop where
  requests : w'.requests = w.requests
  taken : w'.taken = w.taken
  sends : w'.sends = w.sends
  iterators : w'.iterators = w.iterators
  run : w.run.inGeneration = false → w'.run.inGeneration = false
  unopened : w'.run.unopened = true → w.run.unopened = true
  opened : w.run.unopened = true → w'.run.inGeneration = true → w'.run.unopened = true

/-- The same, and the counter stays. -/
structure Still (w w' : GRPCWorker) : Prop extends Quiet w w' where
  pending : w'.pendingSamples = w.pendingSamples

/-- The head of the queue is taken. -/
structure Takes (w w' : GRPCWorker) (taker : Taker) (queued : Queued) : Prop where
  items : w.requests.items = queued :: w'.requests.items
  taken : w'.taken = w.taken ++ [⟨queued, taker, w.ended⟩]
  sends : w'.sends = w.sends

/-- The event puts a request that is no `ResetRequest`, if there is room. -/
def puts (w : GRPCWorker) : WorkerEvent → Bool
  | .put _ => true
  | .closeStep => w.closing = .puttingEnd || w.closing = .puttingStop
  | _ => false

/-- The samples the event accounts for as sent. -/
def accountedSamples (w : GRPCWorker) : WorkerEvent → Nat
  | .iterate k => w.iterators[k]?.elim 0 RequestIterator.accounting
  | _ => 0

/-- The event ends the call of an iterator. -/
def endsCall (w : GRPCWorker) (k : Nat) : WorkerEvent → Bool
  | .callEnds j => j = k
  | .resetStep j => w.resets[j]? = some (.cancelling (some (.enhance k)))
  | .closeStep =>
    match w.closing with
    | .cancelling call => call = some (.enhance k)
    | .closingChannel _ => true
    | _ => false
  | _ => false

/-- The event is no step of an iterator and ends no call. -/
structure Apart (w : GRPCWorker) (e : WorkerEvent) : Prop where
  iterator : e.iterator? = none
  calls : ∀ k, w.endsCall k e = false

/-- The counter of samples stays. -/
structure Keeps (e : WorkerEvent) (w w' : GRPCWorker) : Prop where
  pending : w'.pendingSamples = w.pendingSamples
  accounted : w.accountedSamples e = 0

/-- The event is the last step of a drain, which zeroes the counter. -/
def zeroes (w : GRPCWorker) : WorkerEvent → Bool
  | .resetStep k => w.resets[k]? = some .unpending
  | .work => w.run = .unpending
  | _ => false

/-- A drain is under way, in a call of `force_reset` or in the worker thread. -/
def drains (w : GRPCWorker) : Bool := w.run.drains || w.resets.any ResetPlace.drains

/-- What a step can do. -/
inductive Effect (e : WorkerEvent) (w w' : GRPCWorker) : Prop where
  | quiet (h : Quiet w w')
      (keeps : Keeps e w w' ∨ w.zeroes e = true ∧ w'.pendingSamples = 0 := by
        exact .inl ⟨rfl, rfl⟩)
      (apart : Apart w e := by exact ⟨rfl, fun _ => rfl⟩)
  | reserved (request : AudioRequest) (event : e = .trySend request)
      (sends : w'.sends = w.sends ++ [request])
      (requests : w'.requests = w.requests) (taken : w'.taken = w.taken)
      (iterators : w'.iterators = w.iterators) (run : w'.run = w.run)
      (pending : w'.pendingSamples = w.pendingSamples + request.samples := by rfl)
  | put (request : Request) (event : request.isReset = true ∨ w.puts e = true)
      (items : w'.requests.items = w.requests.items ++ [⟨request, w.ended⟩])
      (sends : w.sends.Perm (request.audio?.toList ++ w'.sends))
      (taken : w'.taken = w.taken) (iterators : w'.iterators = w.iterators)
      (run : w'.run = w.run) (keeps : Keeps e w w' := by exact ⟨rfl, rfl⟩)
      (apart : Apart w e := by exact ⟨rfl, fun _ => rfl⟩)
  /-- The worker or a drain takes a request, and no generation begins. -/
  | took (taker : Taker) (queued : Queued) (takes : Takes w w' taker queued)
      (other : taker = .worker ∨ taker = .drain) (iterators : w'.iterators = w.iterators)
      (run : w'.run.inGeneration = w.run.inGeneration)
      (unopened : w'.run.unopened = true → w.run.unopened = true := by exact id)
      (keeps : Keeps e w w' := by exact ⟨rfl, rfl⟩)
      (apart : Apart w e := by exact ⟨rfl, fun _ => rfl⟩)
      (audio : taker = .worker → queued.request.audio? = none := by rintro ⟨⟩)
      (opened : w.run.unopened = true → w'.run.inGeneration = true → w'.run.unopened = true := by
        exact fun h _ => h)
      (drain : taker = .drain → w.drains = true := by rintro ⟨⟩)
  /-- The worker takes the first request of a generation. -/
  | received (queued : Queued) (first : AudioRequest) (takes : Takes w w' .worker queued)
      (request : queued.request = .audio first)
      (iterators : w'.iterators = w.iterators ++ [.new first])
      (run : w.run = .receiving) (run' : w'.run = .clearing)
      (keeps : Keeps e w w' := by exact ⟨rfl, rfl⟩)
      (apart : Apart w e := by exact ⟨rfl, fun _ => rfl⟩)
  | resumed (k : Nat) (it : RequestIterator) (queued : Queued) (here : w.iterators[k]? = some it)
      (place : it.place = .getting) (takes : Takes w w' (.iterator (k + 1)) queued)
      (iterators : w'.iterators = w.iterators.set k { it with place := .looping queued.request })
      (run : w'.run = w.run) (keeps : Keeps e w w' := by exact ⟨rfl, rfl⟩)
      (event : e = .iterate k := by rfl)
  | moved (k : Nat) (it it' : RequestIterator) (here : w.iterators[k]? = some it)
      (move : Iterates e w.reset it it') (iterators : w'.iterators = w.iterators.set k it')
      (requests : w'.requests = w.requests) (taken : w'.taken = w.taken)
      (sends : w'.sends = w.sends) (run : w'.run = w.run)
      (pending : w'.pendingSamples = w.pendingSamples - it.accounting)
      (accounted : w.accountedSamples e = it.accounting) (event : e.iterator? = some k := by rfl)
  /-- The calls of some iterators end. -/
  | callsEnd (iterators : ∀ k : Nat, w'.iterators[k]? =
        w.iterators[k]?.map fun it => if w.endsCall k e then it.endCall else it)
      (requests : w'.requests = w.requests) (taken : w'.taken = w.taken)
      (sends : w'.sends = w.sends) (generation : w'.generation = w.generation)
      (run : w'.run = w.run) (keeps : Keeps e w w' := by exact ⟨rfl, rfl⟩)
      (iterator : e.iterator? = none := by rfl)
  /-- The call of the current generation is made. -/
  | callBegins (run : w.run = .calling) (run' : w'.run = .storing)
      (iterators : w'.iterators = w.openCall.iterators)
      (requests : w'.requests = w.requests) (taken : w'.taken = w.taken)
      (sends : w'.sends = w.sends) (keeps : Keeps e w w' := by exact ⟨rfl, rfl⟩)
      (apart : Apart w e := by exact ⟨rfl, fun _ => rfl⟩)

variable {config : TransportConfig} {w w' : GRPCWorker} {e : WorkerEvent}

/-! ## Queue operations -/

theorem putNowait_eq_some {request : Request} (h : w.putNowait request = some w') :
    ∃ requests, w' = { w with requests } ∧
      requests.items = w.requests.items ++ [⟨request, w.ended⟩] := by
  unfold putNowait at h
  cases hput : w.requests.putNowait ⟨request, w.ended⟩ with
  | none =>
      rw [hput] at h
      cases h
  | some requests =>
      rw [hput] at h
      cases h
      exact ⟨requests, rfl, (BoundedQueue.putNowait_eq_some hput).2.1⟩

theorem take_eq_some {taker : Taker} {request : Request} (h : w.take taker = some (request, w')) :
    ∃ queued requests, queued.request = request ∧
      w' = { w with requests, taken := w.taken ++ [⟨queued, taker, w.ended⟩] } ∧
      w.requests.items = queued :: requests.items := by
  unfold take at h
  cases hget : w.requests.getNowait with
  | none =>
      rw [hget] at h
      cases h
  | some result =>
      obtain ⟨queued, requests⟩ := result
      rw [hget] at h
      cases h
      exact ⟨queued, requests, rfl, rfl, (BoundedQueue.getNowait_eq_some hget).1⟩

/-! ## Calls -/

theorem endCall_iterators (w : GRPCWorker) (k j : Nat) :
    (w.endCall k).iterators[j]? =
      w.iterators[j]?.map fun it => if k = j then it.endCall else it := by
  rw [endCall, List.getElem?_modify]
  split <;> simp

/-- An iterator whose call may end is the same, or its call has ended. -/
theorem ends_cases {k : Nat} (h : w'.iterators[k]? =
    w.iterators[k]?.map fun it => if w.endsCall k e then it.endCall else it) :
    w'.iterators[k]? = w.iterators[k]? ∨
      w'.iterators[k]? = w.iterators[k]?.map RequestIterator.endCall := by
  cases hends : w.endsCall k e with
  | true => exact .inr (by simpa only [hends, if_true] using h)
  | false => exact .inl (by simpa [hends] using h)

theorem drains_of_reset {k : Nat} {place : ResetPlace} (h : w.resets[k]? = some place)
    (hplace : place.drains = true) : w.drains = true := by
  have hany : w.resets.any ResetPlace.drains = true :=
    List.any_eq_true.mpr ⟨place, List.mem_of_getElem? h, hplace⟩
  rw [drains, hany, Bool.or_true]

theorem drains_of_run (h : w.run.drains = true) : w.drains = true := by
  rw [drains, h, Bool.true_or]

/-- The place of a call of `force_reset` says whether its next step ends a call. -/
theorem resetStep_apart {k : Nat} {place : ResetPlace} (h : w.resets[k]? = some place)
    (hplace : ∀ j, place ≠ .cancelling (some (.enhance j))) : Apart w (.resetStep k) where
  iterator := rfl
  calls j := decide_eq_false (by rw [h]; exact fun heq => hplace j (Option.some.inj heq))

theorem endCall_generation (w : GRPCWorker) (k : Nat) :
    (w.endCall k).generation = w.generation := by
  rw [generation, endCall, List.length_modify]
  rfl

/-- gRPC resumes no iterator that is about to account for a chunk. -/
theorem pull_accounting {it it' : RequestIterator} (h : it.pull = some it') :
    it.accounting = 0 := by
  unfold RequestIterator.pull at h
  split at h
  · split at h
    · next hplace => rw [RequestIterator.accounting, hplace]
    · next hplace => rw [RequestIterator.accounting, hplace]
    · next hplace => rw [RequestIterator.accounting, hplace]
    · next hplace => rw [RequestIterator.accounting, hplace]
    · cases h
  · cases h

/-! ## Beside the worker thread -/

/-- A change that neither `_run` nor `close` is part of. -/
structure Beside (w w' : GRPCWorker) : Prop where
  run : w'.run = w.run
  generation : w'.generation = w.generation
  backoff : w'.backoff = w.backoff
  stop : w'.stop = w.stop
  channelOpen : w'.channelOpen = w.channelOpen
  closing : w'.closing = w.closing

theorem setIterator_generation (k : Nat) (it : RequestIterator) :
    (w.setIterator k it).generation = w.generation := List.length_set

theorem putNowait_beside {request : Request} (h : w.putNowait request = some w') :
    Beside w w' := by
  obtain ⟨requests, rfl, -⟩ := putNowait_eq_some h
  exact ⟨rfl, rfl, rfl, rfl, rfl, rfl⟩

theorem take_beside {taker : Taker} {request : Request} (h : w.take taker = some (request, w')) :
    Beside w w' := by
  obtain ⟨queued, requests, -, rfl, -⟩ := take_eq_some h
  exact ⟨rfl, rfl, rfl, rfl, rfl, rfl⟩

theorem cancel_beside (call : Option CallRef) : Beside w (w.cancel call) := by
  unfold cancel
  split
  · exact ⟨rfl, w.endCall_generation _, rfl, rfl, rfl, rfl⟩
  · exact ⟨rfl, rfl, rfl, rfl, rfl, rfl⟩

theorem trySend_beside (request : AudioRequest) : Beside w (w.trySend config request).1 := by
  unfold trySend
  split <;> exact ⟨rfl, rfl, rfl, rfl, rfl, rfl⟩

theorem put_beside {k : Nat} (h : w.put k = some w') : Beside w w' := by
  unfold put at h
  split at h
  · obtain ⟨requests, rfl, -⟩ := putNowait_eq_some h
    exact ⟨rfl, rfl, rfl, rfl, rfl, rfl⟩
  · cases h

theorem resetStep_beside {k : Nat} (h : w.resetStep k = some w') : Beside w w' := by
  unfold resetStep at h
  split at h
  · cases h
    exact ⟨rfl, rfl, rfl, rfl, rfl, rfl⟩
  · cases h
    exact ⟨rfl, rfl, rfl, rfl, rfl, rfl⟩
  · next call _ =>
      cases h
      have hcancel : Beside w (w.cancel call) := cancel_beside call
      exact ⟨hcancel.run, hcancel.generation, hcancel.backoff, hcancel.stop, hcancel.channelOpen,
        hcancel.closing⟩
  · split at h
    · next htake =>
        cases h
        exact take_beside htake
    · cases h
      exact ⟨rfl, rfl, rfl, rfl, rfl, rfl⟩
  · cases h
    exact ⟨rfl, rfl, rfl, rfl, rfl, rfl⟩
  · split at h
    · next hput =>
        cases h
        obtain ⟨requests, rfl, -⟩ := putNowait_eq_some hput
        exact ⟨rfl, rfl, rfl, rfl, rfl, rfl⟩
    · cases h
      exact ⟨rfl, rfl, rfl, rfl, rfl, rfl⟩
  · cases h

theorem pull_beside {k : Nat} (h : w.pull k = some w') : Beside w w' := by
  unfold pull at h
  split at h
  · obtain ⟨it, -, rfl⟩ := Option.map_eq_some_iff.mp h
    exact ⟨rfl, setIterator_generation k it, rfl, rfl, rfl, rfl⟩
  · cases h

theorem begin_beside {k : Nat} {metadata : Metadata} {uuid : String}
    (h : w.begin k metadata uuid = some w') : Beside w w' := by
  unfold begin at h
  split at h
  · split at h
    · cases h
      exact ⟨rfl, setIterator_generation k _, rfl, rfl, rfl, rfl⟩
    · cases h
  · cases h

theorem iterate_beside {k : Nat} (h : w.iterate k = some w') : Beside w w' := by
  unfold iterate at h
  split at h
  · split at h
    · cases h
      exact ⟨rfl, setIterator_generation k _, rfl, rfl, rfl, rfl⟩
    · cases h
      exact ⟨rfl, setIterator_generation k _, rfl, rfl, rfl, rfl⟩
    · obtain ⟨⟨request, w₁⟩, htake, rfl⟩ := Option.map_eq_some_iff.mp h
      obtain ⟨queued, requests, -, rfl, -⟩ := take_eq_some htake
      exact ⟨rfl, setIterator_generation k _, rfl, rfl, rfl, rfl⟩
    · cases h
  · cases h

/-! ## One lemma for each kind of event -/

theorem outside {run : RunPlace} (h : w.run = run) (hin : run.inGeneration = true)
    {P : Prop} (hout : w.run.inGeneration = false) : P := by
  rw [h, hin] at hout
  cases hout

theorem opened {run : RunPlace} (h : w.run = run) (hun : run.unopened = false)
    {P : Prop} (hout : w.run.unopened = true) : P := by
  rw [h, hun] at hout
  cases hout

theorem trySend_effect (request : AudioRequest) :
    Effect (.trySend request) w (w.trySend config request).1 := by
  unfold trySend
  split
  · exact .quiet ⟨rfl, rfl, rfl, rfl, id, id, fun h _ => h⟩
  · exact .reserved request rfl rfl rfl rfl rfl rfl

theorem put_effect {k : Nat} (h : w.put k = some w') : Effect (.put k) w w' := by
  unfold put at h
  split at h
  · next request hsend =>
      obtain ⟨requests, rfl, hitems⟩ := putNowait_eq_some h
      obtain ⟨hlt, rfl⟩ := List.getElem?_eq_some_iff.mp hsend
      exact .put (.audio _) (.inr rfl) hitems (List.getElem_cons_eraseIdx_perm hlt).symm rfl rfl
        rfl
  · cases h

theorem resetStep_effect {k : Nat} (h : w.resetStep k = some w') :
    Effect (.resetStep k) w w' := by
  unfold resetStep at h
  split at h
  · next hreset =>
      cases h
      exact .quiet ⟨rfl, rfl, rfl, rfl, id, id, fun h _ => h⟩ (.inl ⟨rfl, rfl⟩)
        (resetStep_apart hreset nofun)
  · next hreset =>
      cases h
      exact .quiet ⟨rfl, rfl, rfl, rfl, id, id, fun h _ => h⟩ (.inl ⟨rfl, rfl⟩)
        (resetStep_apart hreset nofun)
  · next call hreset =>
      cases h
      unfold cancel
      split
      · refine .callsEnd (fun j => ?_) rfl rfl rfl (w.endCall_generation _) rfl
        simp only [setReset, endCall_iterators, endsCall, hreset, Option.some.injEq,
          ResetPlace.cancelling.injEq, CallRef.enhance.injEq, decide_eq_true_eq]
      · next hcall =>
          refine .quiet ⟨rfl, rfl, rfl, rfl, id, id, fun h _ => h⟩ (.inl ⟨rfl, rfl⟩)
            (resetStep_apart hreset fun j hj => hcall j (ResetPlace.cancelling.inj hj))
  · next hreset =>
      split at h
      · next request w₁ htake =>
          cases h
          obtain ⟨queued, requests, _, rfl, hitems⟩ := take_eq_some htake
          exact .took .drain queued ⟨hitems, rfl, rfl⟩ (.inr rfl) rfl rfl id ⟨rfl, rfl⟩
            (resetStep_apart hreset nofun) nofun (fun h _ => h)
            fun _ => drains_of_reset hreset rfl
      · cases h
        exact .quiet ⟨rfl, rfl, rfl, rfl, id, id, fun h _ => h⟩ (.inl ⟨rfl, rfl⟩)
          (resetStep_apart hreset nofun)
  · next hreset =>
      cases h
      exact .quiet ⟨rfl, rfl, rfl, rfl, id, id, fun h _ => h⟩ (.inr ⟨decide_eq_true hreset, rfl⟩)
        (resetStep_apart hreset nofun)
  · next hreset =>
      split at h
      · next w₁ hput =>
          cases h
          obtain ⟨requests, rfl, hitems⟩ := putNowait_eq_some hput
          exact .put (.reset true) (.inl rfl) hitems (.refl _) rfl rfl rfl ⟨rfl, rfl⟩
            (resetStep_apart hreset nofun)
      · cases h
        exact .quiet ⟨rfl, rfl, rfl, rfl, id, id, fun h _ => h⟩ (.inl ⟨rfl, rfl⟩)
          (resetStep_apart hreset nofun)
  · cases h

theorem closeStep_effect (h : w.closeStep = some w') : Effect .closeStep w w' := by
  have hquiet (hapart : Apart w .closeStep) {v : GRPCWorker} (hv : Quiet w v)
      (hpending : v.pendingSamples = w.pendingSamples) : Effect .closeStep w v :=
    .quiet hv (.inl ⟨hpending, rfl⟩) hapart
  unfold closeStep at h
  split at h
  · next hclosing =>
      have hapart : Apart w .closeStep := ⟨rfl, fun j => by rw [endsCall, hclosing]⟩
      split at h
      · cases h
        exact hquiet hapart ⟨rfl, rfl, rfl, rfl, id, id, fun h _ => h⟩ rfl
      · cases h
        exact hquiet hapart ⟨rfl, rfl, rfl, rfl, id, id, fun h _ => h⟩ rfl
  · next hclosing =>
      have hapart : Apart w .closeStep := ⟨rfl, fun j => by rw [endsCall, hclosing]⟩
      split at h
      · next w₁ hput =>
          cases h
          obtain ⟨requests, rfl, hitems⟩ := putNowait_eq_some hput
          exact .put (.endStream true) (.inr (by simp [puts, hclosing])) hitems
            (.refl _) rfl rfl rfl ⟨rfl, rfl⟩ hapart
      · cases h
        exact hquiet hapart ⟨rfl, rfl, rfl, rfl, id, id, fun h _ => h⟩ rfl
  · next hclosing =>
      cases h
      exact hquiet ⟨rfl, fun j => by rw [endsCall, hclosing]⟩
        ⟨rfl, rfl, rfl, rfl, id, id, fun h _ => h⟩ rfl
  · next hclosing =>
      cases h
      exact hquiet ⟨rfl, fun j => by rw [endsCall, hclosing]⟩
        ⟨rfl, rfl, rfl, rfl, id, id, fun h _ => h⟩ rfl
  · next hclosing =>
      cases h
      exact hquiet ⟨rfl, fun j => by rw [endsCall, hclosing]⟩
        ⟨rfl, rfl, rfl, rfl, id, id, fun h _ => h⟩ rfl
  · next call hclosing =>
      cases h
      unfold cancel
      split
      · refine .callsEnd (fun j => ?_) rfl rfl rfl (w.endCall_generation _) rfl
        simp only [endCall_iterators, endsCall, hclosing, Option.some.injEq,
          CallRef.enhance.injEq, decide_eq_true_eq]
      · next hcall =>
          refine hquiet ⟨rfl, fun j => ?_⟩ ⟨rfl, rfl, rfl, rfl, id, id, fun h _ => h⟩ rfl
          rw [endsCall, hclosing]
          exact decide_eq_false (hcall j)
  · next hclosing =>
      cases h
      refine .callsEnd (fun j => ?_) rfl rfl rfl (List.length_map _) rfl
      simp only [closeChannel, List.getElem?_map, endsCall, hclosing, if_true]
  · next hclosing =>
      have hapart : Apart w .closeStep := ⟨rfl, fun j => by rw [endsCall, hclosing]⟩
      split at h
      · next w₁ hput =>
          cases h
          obtain ⟨requests, rfl, hitems⟩ := putNowait_eq_some hput
          exact .put (.stop true) (.inr (by simp [puts, hclosing])) hitems
            (.refl _) rfl rfl rfl ⟨rfl, rfl⟩ hapart
      · cases h
        exact hquiet hapart ⟨rfl, rfl, rfl, rfl, id, id, fun h _ => h⟩ rfl
  · cases h

theorem work_effect {callback : Option Callback} (h : w.work = some (w', callback)) :
    Effect .work w w' := by
  unfold work at h
  split at h
  · cases h
    exact .quiet ⟨rfl, rfl, rfl, rfl, fun _ => rfl, nofun, fun _ => nofun⟩
  · split at h
    · cases h
      exact .quiet ⟨rfl, rfl, rfl, rfl, fun _ => rfl, nofun, fun _ => nofun⟩
    · cases h
  · cases h
    exact .quiet ⟨rfl, rfl, rfl, rfl, fun _ => rfl, nofun, fun _ => nofun⟩
  · next hrun =>
      cases htake : w.take .worker with
      | none =>
          rw [htake] at h
          cases h
      | some result =>
          obtain ⟨request, w₁⟩ := result
          rw [htake] at h
          cases h
          obtain ⟨queued, requests, hrequest, rfl, hitems⟩ := take_eq_some htake
          have hout : w.run.inGeneration = false := by rw [hrun]; rfl
          cases request with
          | audio first => exact .received queued first ⟨hitems, rfl, rfl⟩ hrequest rfl hrun rfl
          | endStream flush =>
              exact .took .worker queued ⟨hitems, rfl, rfl⟩ (.inl rfl) rfl hout.symm nofun
                ⟨rfl, rfl⟩ ⟨rfl, fun _ => rfl⟩ (fun _ => by rw [hrequest]; rfl) fun _ => nofun
          | stop final =>
              exact .took .worker queued ⟨hitems, rfl, rfl⟩ (.inl rfl) rfl hout.symm nofun
                ⟨rfl, rfl⟩ ⟨rfl, fun _ => rfl⟩ (fun _ => by rw [hrequest]; rfl) fun _ => nofun
          | reset reconnect =>
              exact .took .worker queued ⟨hitems, rfl, rfl⟩ (.inl rfl) rfl rfl id ⟨rfl, rfl⟩
                ⟨rfl, fun _ => rfl⟩ fun _ => by rw [hrequest]; rfl
  · next hrun =>
      cases h
      exact .quiet
        ⟨rfl, rfl, rfl, rfl, outside hrun rfl, fun _ => by rw [hrun]; rfl, fun _ _ => rfl⟩
  · next hrun =>
      cases h
      exact .quiet
        ⟨rfl, rfl, rfl, rfl, outside hrun rfl, fun _ => by rw [hrun]; rfl, fun _ _ => rfl⟩
  · next hrun =>
      split at h
      · cases h
        exact .callBegins hrun rfl rfl rfl rfl rfl
      · cases h
  · next hrun =>
      cases h
      exact .quiet ⟨rfl, rfl, rfl, rfl, outside hrun rfl, nofun, opened hrun rfl⟩
  · next hrun =>
      split at h
      · cases h
        exact .quiet ⟨rfl, rfl, rfl, rfl, outside hrun rfl, nofun, opened hrun rfl⟩
      · cases h
        exact .quiet ⟨rfl, rfl, rfl, rfl, fun _ => rfl, nofun, fun _ => nofun⟩
      · cases h
  · cases h
    exact .quiet ⟨rfl, rfl, rfl, rfl, fun _ => rfl, nofun, fun _ => nofun⟩
  · next hrun =>
      split at h
      · next request w₁ htake =>
          cases h
          obtain ⟨queued, requests, _, rfl, hitems⟩ := take_eq_some htake
          exact .took .drain queued ⟨hitems, rfl, rfl⟩ (.inr rfl) rfl rfl id ⟨rfl, rfl⟩
            ⟨rfl, fun _ => rfl⟩ nofun (fun h _ => h) fun _ => drains_of_run (by rw [hrun]; rfl)
      · cases h
        exact .quiet ⟨rfl, rfl, rfl, rfl, fun _ => rfl, nofun, fun _ => nofun⟩
  · next hrun =>
      cases h
      exact .quiet ⟨rfl, rfl, rfl, rfl, fun _ => rfl, nofun, fun _ => nofun⟩
        (.inr ⟨decide_eq_true hrun, rfl⟩)
  · cases h
    exact .quiet ⟨rfl, rfl, rfl, rfl, fun _ => rfl, nofun, fun _ => nofun⟩
  · split at h
    · cases h
      exact .quiet ⟨rfl, rfl, rfl, rfl, fun _ => rfl, nofun, fun _ => nofun⟩
    · cases h
      exact .quiet ⟨rfl, rfl, rfl, rfl, fun _ => rfl, nofun, fun _ => nofun⟩
  · cases h
    exact .quiet ⟨rfl, rfl, rfl, rfl, fun _ => rfl, nofun, fun _ => nofun⟩
  · cases h
    exact .quiet ⟨rfl, rfl, rfl, rfl, fun _ => rfl, nofun, fun _ => nofun⟩
  all_goals cases h

theorem ready_still {readiness : Readiness} (h : w.ready config readiness = some w') :
    Still w w' := by
  unfold ready at h
  split at h
  · dsimp only at h
    split at h
    · split at h
      · cases h
        exact ⟨⟨rfl, rfl, rfl, rfl, fun _ => rfl, nofun, fun _ => nofun⟩, rfl⟩
      · cases h
        exact ⟨⟨rfl, rfl, rfl, rfl, fun _ => rfl, nofun, fun _ => nofun⟩, rfl⟩
    · cases h
      exact ⟨⟨rfl, rfl, rfl, rfl, fun _ => rfl, nofun, fun _ => nofun⟩, rfl⟩
  · cases h

theorem channelError_still {detail : String} (h : w.channelError detail = some w') :
    Still w w' := by
  unfold channelError at h
  split at h
  · cases h
  · split at h
    · cases h
      exact ⟨⟨rfl, rfl, rfl, rfl, fun _ => rfl, nofun, fun _ => nofun⟩, rfl⟩
    · cases h
      exact ⟨⟨rfl, rfl, rfl, rfl, fun _ => rfl, nofun, fun _ => nofun⟩, rfl⟩
    · cases h

theorem response_still {message : ServerMessage} {callback : Option Callback}
    (h : w.response config message = some (w', callback)) : Still w w' := by
  unfold response at h
  split at h
  · next hrun =>
      split at h
      · cases h
        exact ⟨⟨rfl, rfl, rfl, rfl, outside hrun rfl, nofun, opened hrun rfl⟩, rfl⟩
      · cases h
        exact ⟨⟨rfl, rfl, rfl, rfl, outside hrun rfl, nofun, opened hrun rfl⟩, rfl⟩
      · cases h
        exact ⟨⟨rfl, rfl, rfl, rfl, fun _ => rfl, nofun, fun _ => nofun⟩, rfl⟩
      · cases h
        exact ⟨⟨rfl, rfl, rfl, rfl, fun _ => rfl, nofun, fun _ => nofun⟩, rfl⟩
  · cases h

theorem responsesEnd_still (h : w.responsesEnd config = some w') : Still w w' := by
  unfold responsesEnd at h
  split at h
  · split at h
    · cases h
    · split at h
      · cases h
        exact ⟨⟨rfl, rfl, rfl, rfl, fun _ => rfl, nofun, fun _ => nofun⟩, rfl⟩
      · cases h
        exact ⟨⟨rfl, rfl, rfl, rfl, fun _ => rfl, nofun, fun _ => nofun⟩, rfl⟩
  · cases h

theorem rpcError_still (h : w.rpcError = some w') : Still w w' := by
  unfold rpcError at h
  split at h
  · split at h
    · cases h
      exact ⟨⟨rfl, rfl, rfl, rfl, fun _ => rfl, nofun, fun _ => nofun⟩, rfl⟩
    · cases h
  · cases h

theorem callbackReset_still (h : w.callbackReset = some w') : Still w w' := by
  unfold callbackReset at h
  split at h
  · next hrun =>
      cases h
      exact ⟨⟨rfl, rfl, rfl, rfl, outside hrun rfl, nofun, opened hrun rfl⟩, rfl⟩
  · cases h

theorem backoffOver_still (h : w.backoffOver config = some w') : Still w w' := by
  unfold backoffOver at h
  split at h
  · cases h
    exact ⟨⟨rfl, rfl, rfl, rfl, fun _ => rfl, nofun, fun _ => nofun⟩, rfl⟩
  · cases h

theorem pull_effect {k : Nat} (h : w.pull k = some w') : Effect (.pull k) w w' := by
  unfold pull at h
  split at h
  · next it hit =>
      cases hpull : it.pull with
      | none =>
          rw [hpull] at h
          cases h
      | some it' =>
          rw [hpull] at h
          cases h
          exact .moved k it it' hit (.pull hpull) rfl rfl rfl rfl rfl
            (by rw [pull_accounting hpull]; rfl) (pull_accounting hpull).symm
  · cases h

theorem begin_effect {k : Nat} {metadata : Metadata} {uuid : String}
    (h : w.begin k metadata uuid = some w') : Effect (.begin k metadata uuid) w w' := by
  unfold begin at h
  split at h
  · next it hit =>
      split at h
      · next hplace =>
          cases h
          exact .moved k it _ hit (.begin k metadata uuid rfl hplace) rfl rfl rfl rfl rfl
            (by rw [RequestIterator.accounting, hplace]; rfl)
            (by rw [RequestIterator.accounting, hplace]; rfl)
      · cases h
  · cases h

theorem iterate_effect {k : Nat} (h : w.iterate k = some w') : Effect (.iterate k) w w' := by
  unfold iterate at h
  split at h
  · next it hit =>
      split at h
      · next request hplace =>
          cases h
          exact .moved k it _ hit (.loop hplace) rfl rfl rfl rfl rfl
            (by rw [RequestIterator.accounting, hplace]; rfl) (by rw [accountedSamples, hit]; rfl)
      · next samples hplace =>
          cases h
          exact .moved k it _ hit (.account hplace) rfl rfl rfl rfl rfl
            (by rw [RequestIterator.accounting, hplace]; rfl) (by rw [accountedSamples, hit]; rfl)
      · next hplace =>
          cases htake : w.take (.iterator (k + 1)) with
          | none =>
              rw [htake] at h
              cases h
          | some result =>
              obtain ⟨request, w₁⟩ := result
              rw [htake] at h
              cases h
              obtain ⟨queued, requests, rfl, rfl, hitems⟩ := take_eq_some htake
              refine .resumed k it queued hit hplace ⟨hitems, rfl, rfl⟩ rfl rfl ⟨rfl, ?_⟩
              rw [accountedSamples, hit, Option.elim_some, RequestIterator.accounting, hplace]
      · cases h
  · cases h

theorem Still.effect (h : Still w w') (haccounted : w.accountedSamples e = 0 := by rfl)
    (hapart : Apart w e := by exact ⟨rfl, fun _ => rfl⟩) : Effect e w w' :=
  .quiet h.toQuiet (.inl ⟨h.pending, haccounted⟩) hapart

/-- Every step does one of the things listed. -/
theorem step_effect {callback : Option Callback} (h : w.step config e = some (w', callback)) :
    Effect e w w' := by
  cases e with
  | trySend request =>
      cases h
      exact trySend_effect request
  | forceReset =>
      cases h
      exact .quiet ⟨rfl, rfl, rfl, rfl, id, id, fun h _ => h⟩
  | work => exact work_effect h
  | response message => exact (response_still h).effect
  | callEnds k =>
      cases h
      refine .callsEnd (fun j => ?_) rfl rfl rfl (w.endCall_generation k) rfl
      simp only [endCall_iterators, endsCall, decide_eq_true_eq]
  | put k =>
      obtain ⟨_, hput, ⟨⟩⟩ := Option.map_eq_some_iff.mp h
      exact put_effect hput
  | resetStep k =>
      obtain ⟨_, hreset, ⟨⟩⟩ := Option.map_eq_some_iff.mp h
      exact resetStep_effect hreset
  | close =>
      obtain ⟨_, hclose, ⟨⟩⟩ := Option.map_eq_some_iff.mp h
      unfold close at hclose
      split at hclose
      · cases hclose
        exact .quiet ⟨rfl, rfl, rfl, rfl, id, id, fun h _ => h⟩
      · cases hclose
  | closeStep =>
      obtain ⟨_, hclose, ⟨⟩⟩ := Option.map_eq_some_iff.mp h
      exact closeStep_effect hclose
  | ready readiness =>
      obtain ⟨_, hready, ⟨⟩⟩ := Option.map_eq_some_iff.mp h
      exact (ready_still hready).effect
  | channelError detail =>
      obtain ⟨_, herror, ⟨⟩⟩ := Option.map_eq_some_iff.mp h
      exact (channelError_still herror).effect
  | responsesEnd =>
      obtain ⟨_, hend, ⟨⟩⟩ := Option.map_eq_some_iff.mp h
      exact (responsesEnd_still hend).effect
  | rpcError =>
      obtain ⟨_, herror, ⟨⟩⟩ := Option.map_eq_some_iff.mp h
      exact (rpcError_still herror).effect
  | callbackReset =>
      obtain ⟨_, hreset, ⟨⟩⟩ := Option.map_eq_some_iff.mp h
      exact (callbackReset_still hreset).effect
  | backoffOver =>
      obtain ⟨_, hover, ⟨⟩⟩ := Option.map_eq_some_iff.mp h
      exact (backoffOver_still hover).effect
  | pull k =>
      obtain ⟨_, hpull, ⟨⟩⟩ := Option.map_eq_some_iff.mp h
      exact pull_effect hpull
  | begin k metadata uuid =>
      obtain ⟨_, hbegin, ⟨⟩⟩ := Option.map_eq_some_iff.mp h
      exact begin_effect hbegin
  | iterate k =>
      obtain ⟨_, hiterate, ⟨⟩⟩ := Option.map_eq_some_iff.mp h
      exact iterate_effect hiterate

end GRPCWorker

end VoxLattice.Plugin
