import Mathlib.Algebra.BigOperators.Group.List.Basic
import Mathlib.Algebra.BigOperators.Group.Finset.Basic
import Mathlib.Algebra.Order.BigOperators.Group.Finset
import VoxLattice.Plugin.Drains
import VoxLattice.Plugin.Requests

/-!
# What the request iterators hold

An iterator has taken a request and has not accounted for it.  It holds the samples as long as it
may still account for them (`heldSamples`); it gives them up when it returns at a gap or in a
reset, when a field does not fit, and when its call is over (`lostSamples`).  What is taken from
the queue is held, drained, accounted for or given up (`step_held`).
-/

namespace VoxLattice.Plugin

open Server (toUInt64?)

/-- The samples of a request. -/
def Request.samples (request : Request) : Nat := request.audio?.elim 0 AudioRequest.samples

/-- The iterator waits for gRPC to resume it. -/
def IteratorPlace.suspended : IteratorPlace → Bool
  | .created | .yieldedStart | .yieldedAudio _ | .yieldedEnd => true
  | _ => false

/-- gRPC refuses to make a call. -/
def WorkerEvent.isChannelError : WorkerEvent → Bool
  | .channelError _ => true
  | _ => false

namespace RequestIterator

/-- The samples of the request the iterator has taken and not accounted for. -/
def carries (it : RequestIterator) : Nat :=
  match it.place with
  | .created | .begun | .yieldedStart => it.first.samples
  | .looping request => request.samples
  | .yieldedAudio samples | .accounting samples => samples
  | .getting | .yieldedEnd | .finished => 0

/-- The call of the iterator is open, or it is not made yet and its generation is not over. -/
def served (ended : Bool) (it : RequestIterator) : Bool :=
  it.status = .active || !ended && it.status = .unopened

/-- Nothing will resume the iterator. -/
def abandoned (ended : Bool) (it : RequestIterator) : Bool :=
  it.place.suspended && !it.served ended

/-- The samples the iterator may still account for. -/
def holds (ended : Bool) (it : RequestIterator) : Nat :=
  if it.abandoned ended then 0 else it.carries

/-- Before its next `yield` the iterator gives up its request: it returns at a gap or in a reset,
a field does not fit, or nobody will take what it yields. -/
def stops (reset ended : Bool) (it : RequestIterator) : Bool :=
  match it.place with
  | .begun => !it.served ended || (toUInt64? it.first.startSample).isNone
  | .looping (.audio request) =>
    !it.served ended || request.startSample ≠ it.expectedSample || reset ||
      (toUInt64? it.sequence).isNone || (toUInt64? request.startSample).isNone
  | _ => false

end RequestIterator

namespace GRPCWorker

/-- The samples an iterator may still account for. -/
def holds (w : GRPCWorker) (k : Nat) : Nat :=
  w.iterators[k]?.elim 0 (RequestIterator.holds (k < w.ended))

/-- The samples the iterators may still account for. -/
def heldSamples (w : GRPCWorker) : Nat := ∑ k ∈ Finset.range w.generation, w.holds k

/-- What was taken from the queue in between. -/
def takenBetween (w w' : GRPCWorker) : List Taken := w'.taken.drop w.taken.length

/-- The samples that were taken from the queue in between. -/
def takenSamples (w w' : GRPCWorker) : Nat :=
  ((w.takenBetween w').map fun t => t.queued.request.samples).sum

/-- The samples that drains took from the queue in between. -/
def drainedSamples (w w' : GRPCWorker) : Nat :=
  (((w.takenBetween w').filter fun t => t.taker = .drain).map fun t =>
    t.queued.request.samples).sum

/-- At the event the iterator gives up the request it has taken.  It stops on its own, its call
ends while it waits to be resumed, or its call is never made. -/
def drops (w : GRPCWorker) (e : WorkerEvent) (k : Nat) (it : RequestIterator) : Bool :=
  match e with
  | .begin j _ _ | .iterate j => j = k && it.stops w.reset (k < w.ended)
  | .channelError _ =>
    w.run = .calling && k + 1 = w.generation && it.place.suspended && it.status = .unopened
  | _ => w.endsCall k e && it.place.suspended && it.status = .active

/-- The samples of what an iterator gives up at the event. -/
def losses (w : GRPCWorker) (e : WorkerEvent) (k : Nat) : Nat :=
  w.iterators[k]?.elim 0 fun it => if w.drops e k it then it.carries else 0

/-- The samples of what the iterators give up at the event. -/
def lostSamples (w : GRPCWorker) (e : WorkerEvent) : Nat :=
  ∑ k ∈ Finset.range w.generation, w.losses e k

end GRPCWorker

/-! ## What an iterator holds -/

namespace RequestIterator

variable {it it' : RequestIterator} {e : WorkerEvent} {reset ended : Bool}

theorem holds_of_running (h : it.place.suspended = false) : it.holds ended = it.carries := by
  simp [holds, abandoned, h]

theorem holds_of_served (h : it.served ended = true) : it.holds ended = it.carries := by
  simp [holds, abandoned, h]

theorem served_of_active (h : it.status = .active) : it.served ended = true := by
  simp [served, h]

/-- A suspended iterator holds its request if it is served. -/
theorem holds_of_suspended (h : it.place.suspended = true) :
    it.holds ended = if it.served ended then it.carries else 0 := by
  cases hserved : it.served ended with
  | true => exact holds_of_served hserved
  | false => simp [holds, abandoned, h, hserved]

theorem carries_raise (it : RequestIterator) : it.raise.carries = 0 := by
  have hplace : it.raise.place = .finished := endCall_place _
  rw [carries, hplace]

theorem holds_of_carries (h : it.carries = 0) : it.holds ended = 0 := by
  unfold holds
  split
  · rfl
  · exact h

/-- The end of its call takes from an iterator what it holds while it waits to be resumed. -/
theorem holds_endCall (it : RequestIterator) (ended : Bool) :
    it.endCall.holds ended + (if it.place.suspended && it.status = .active then it.carries else 0) =
      it.holds ended := by
  by_cases hactive : it.status = .active
  · rw [holds_of_served (served_of_active hactive)]
    have hend : it.endCall = { it with status := .ended } := if_pos hactive
    cases hplace : it.place.suspended with
    | true =>
        have habandoned : it.endCall.abandoned ended = true := by
          simp [abandoned, served, hend, hplace]
        rw [holds, if_pos habandoned]
        simp [hactive]
    | false =>
        have hheld : it.endCall.holds ended = it.carries := by
          rw [hend]
          exact holds_of_running hplace
        simp [hheld]
  · have hend : it.endCall = it := if_neg hactive
    simp [hend, hactive]

/-- The end of its generation takes from an iterator what it holds, if its call was not made. -/
theorem holds_refused (it : RequestIterator) :
    it.holds true + (if it.place.suspended && it.status = .unopened then it.carries else 0) =
      it.holds false := by
  unfold holds abandoned served
  cases it.place.suspended <;> cases it.status <;> simp

/-- What an iterator that is about to go on held it holds still or gives up. -/
theorem holds_begin (h : it.place = .begun) (metadata : Metadata) (uuid : String)
    (reset ended : Bool) : (it.begin metadata uuid).holds ended +
      (if it.stops reset ended then it.first.samples else 0) = it.first.samples := by
  simp only [stops, h]
  unfold begin
  cases hstart : toUInt64? it.first.startSample with
  | none =>
      rw [holds_of_carries it.carries_raise]
      simp
  | some start =>
      dsimp only
      rw [holds_of_suspended rfl]
      change (if it.served ended then it.first.samples else 0) + _ = _
      cases it.served ended <;> simp

theorem holds_loop {request : AudioRequest} (h : it.place = .looping (.audio request))
    (reset ended : Bool) : (it.loop reset (.audio request)).holds ended +
      (if it.stops reset ended then request.samples else 0) = request.samples := by
  simp only [stops, h, loop]
  by_cases hgap : request.startSample ≠ it.expectedSample ∨ reset = true
  · have hfinished : RequestIterator.holds ended { it with place := .finished } = 0 :=
      holds_of_carries rfl
    rw [if_pos hgap, hfinished]
    rcases hgap with hgap | hgap <;> simp [hgap]
  · rw [if_neg hgap]
    rw [not_or, not_not] at hgap
    obtain ⟨hgap, hreset⟩ := hgap
    cases hsequence : toUInt64? it.sequence with
    | none =>
        rw [holds_of_carries it.carries_raise]
        simp
    | some sequence =>
        cases hstart : toUInt64? request.startSample with
        | none =>
            rw [holds_of_carries it.carries_raise]
            simp
        | some start =>
            dsimp only
            rw [holds_of_suspended rfl]
            change (if it.served ended then request.samples else 0) + _ = _
            cases it.served ended <;> simp [hgap, hreset]

/-- A request that carries no samples leaves the loop. -/
theorem carries_loop {request : Request} (h : request.audio? = none) (reset : Bool) :
    (it.loop reset request).carries = 0 := by
  cases request with
  | audio request => cases h
  | endStream flush =>
      simp only [loop]
      split <;> rfl
  | stop final => rfl
  | reset reconnect => rfl

/-- What an iterator held it holds still, has accounted for, or gives up. -/
theorem holds_iterates (h : Iterates e reset it it') (ended : Bool) :
    it'.holds ended + it.accounting + (if it.stops reset ended then it.carries else 0) =
      it.holds ended := by
  cases h with
  | pull hpull =>
      have hactive := pull_active hpull
      obtain ⟨hactive', hcarries, hstops⟩ : it'.status = .active ∧ it'.carries = it.carries ∧
          it.stops reset ended = false := by
        unfold pull at hpull
        rw [if_pos hactive] at hpull
        split at hpull
        · next hplace =>
            cases hpull
            exact ⟨hactive, by simp only [carries, hplace], by simp only [stops, hplace]⟩
        · next hplace =>
            cases hpull
            refine ⟨hactive, ?_, by simp only [stops, hplace]⟩
            simp only [carries, hplace, Request.samples, Request.audio?, Option.elim_some]
        · next hplace =>
            cases hpull
            exact ⟨hactive, by simp only [carries, hplace], by simp only [stops, hplace]⟩
        · next hplace =>
            cases hpull
            exact ⟨hactive, by simp only [carries, hplace], by simp only [stops, hplace]⟩
        · cases hpull
      rw [GRPCWorker.pull_accounting hpull, hstops, holds_of_served (served_of_active hactive),
        holds_of_served (served_of_active hactive'), hcarries]
      rfl
  | begin k metadata uuid _ hplace =>
      have hcarries : it.carries = it.first.samples := by rw [carries, hplace]
      have haccounting : it.accounting = 0 := by rw [accounting, hplace]
      have hrunning : it.place.suspended = false := by rw [hplace]; rfl
      rw [holds_of_running hrunning, haccounting, hcarries, Nat.add_zero]
      exact holds_begin hplace metadata uuid reset ended
  | @loop request hplace =>
      have hcarries : it.carries = request.samples := by rw [carries, hplace]
      have haccounting : it.accounting = 0 := by rw [accounting, hplace]
      have hrunning : it.place.suspended = false := by rw [hplace]; rfl
      rw [holds_of_running hrunning, haccounting, hcarries, Nat.add_zero]
      cases haudio : request.audio? with
      | some audio =>
          cases request with
          | audio request => exact holds_loop hplace reset ended
          | _ => cases haudio
      | none =>
          have hsamples : request.samples = 0 := by rw [Request.samples, haudio, Option.elim_none]
          rw [holds_of_carries (carries_loop haudio reset), hsamples, ite_self]
  | @account samples hplace =>
      have hcarries : it.carries = samples := by rw [carries, hplace]
      have haccounting : it.accounting = samples := by rw [accounting, hplace]
      have hstops : it.stops reset ended = false := by simp only [stops, hplace]
      have hrunning : it.place.suspended = false := by rw [hplace]; rfl
      have hdone : (it.account samples).carries = 0 := rfl
      rw [holds_of_running hrunning, haccounting, hcarries, hstops, holds_of_carries hdone,
        Nat.zero_add]
      rfl

/-- An iterator does not open its call, and does not close it before it is open. -/
theorem unopened_endCall : it.endCall.status = .unopened ↔ it.status = .unopened := by
  unfold endCall
  split
  · next hactive => simp [hactive]
  · exact Iff.rfl

theorem unopened_iterates (h : Iterates e reset it it') :
    it'.status = .unopened ↔ it.status = .unopened := by
  cases h with
  | pull hpull =>
      have hactive := pull_active hpull
      unfold pull at hpull
      rw [if_pos hactive] at hpull
      split at hpull <;> cases hpull <;> exact Iff.rfl
  | begin k metadata uuid _ hplace =>
      unfold begin
      split
      · exact unopened_endCall
      · exact Iff.rfl
  | loop hplace =>
      unfold loop
      split
      · split
        · exact Iff.rfl
        · split
          · exact Iff.rfl
          · exact unopened_endCall
      · split <;> exact Iff.rfl
      · exact Iff.rfl
  | account hplace => exact Iff.rfl

end RequestIterator

/-! ## What is taken -/

namespace GRPCWorker

variable {config : TransportConfig} {w w' : GRPCWorker} {e : WorkerEvent}

theorem takenBetween_same (h : w'.taken = w.taken) : w.takenBetween w' = [] := by
  rw [takenBetween, h, List.drop_length]

theorem Takes.between {taker : Taker} {queued : Queued} (h : Takes w w' taker queued) :
    w.takenBetween w' = [⟨queued, taker, w.ended⟩] := by
  rw [takenBetween, h.taken, List.drop_left]

theorem takenSamples_same (h : w'.taken = w.taken) : w.takenSamples w' = 0 := by
  rw [takenSamples, takenBetween_same h]
  rfl

theorem drainedSamples_same (h : w'.taken = w.taken) : w.drainedSamples w' = 0 := by
  rw [drainedSamples, takenBetween_same h]
  rfl

theorem Takes.takenSamples {taker : Taker} {queued : Queued} (h : Takes w w' taker queued) :
    w.takenSamples w' = queued.request.samples := by
  rw [GRPCWorker.takenSamples, h.between]
  exact Nat.add_zero _

theorem Takes.drainedSamples {taker : Taker} {queued : Queued} (h : Takes w w' taker queued) :
    w.drainedSamples w' = if taker = .drain then queued.request.samples else 0 := by
  rw [GRPCWorker.drainedSamples, h.between]
  by_cases hdrain : taker = .drain
  · simp [hdrain]
  · simp [hdrain]

/-! ## What the iterators hold -/

theorem holds_eq {k : Nat} {it : RequestIterator} (h : w.iterators[k]? = some it) :
    w.holds k = it.holds (k < w.ended) := by
  rw [holds, h, Option.elim_some]

theorem losses_eq {k : Nat} {it : RequestIterator} (h : w.iterators[k]? = some it) :
    w.losses e k = if w.drops e k it then it.carries else 0 := by
  rw [losses, h, Option.elim_some]

/-- An event that is no step of an iterator takes from it what it holds when it ends its call, or
when its call is never made. -/
theorem drops_eq (hiterator : e.iterator? = none) (herror : ∀ detail, e ≠ .channelError detail)
    (k : Nat) (it : RequestIterator) :
    w.drops e k it = (w.endsCall k e && it.place.suspended && it.status = .active) := by
  cases e with
  | begin _ _ _ => cases hiterator
  | iterate _ => cases hiterator
  | channelError detail => exact absurd rfl (herror detail)
  | _ => rfl

theorem Apart.lost (h : Apart w e) (herror : ∀ detail, e ≠ .channelError detail) :
    w.lostSamples e = 0 := by
  refine Finset.sum_eq_zero fun k _ => ?_
  cases hit : w.iterators[k]? with
  | none => rw [losses, hit, Option.elim_none]
  | some it => rw [losses_eq hit, drops_eq h.iterator herror, h.calls k, if_neg (by simp)]

/-- An iterator that runs loses nothing of another. -/
theorem losses_other {j k : Nat} (h : e.iterator? = some j) (hne : k ≠ j) :
    w.losses e k = 0 := by
  cases hit : w.iterators[k]? with
  | none => rw [losses, hit, Option.elim_none]
  | some it =>
      rw [losses_eq hit]
      cases e with
      | pull _ => exact if_neg (by simp [drops, endsCall])
      | begin i metadata uuid =>
          cases h
          exact if_neg (by simp [drops, Ne.symm hne])
      | iterate i =>
          cases h
          exact if_neg (by simp [drops, Ne.symm hne])
      | _ => cases h

/-- The iterator that runs gives up its request where it stops. -/
theorem losses_iterates {j : Nat} {it it' : RequestIterator} (h : e.iterator? = some j)
    (here : w.iterators[j]? = some it) (move : Iterates e w.reset it it') :
    w.losses e j = if it.stops w.reset (j < w.ended) then it.carries else 0 := by
  rw [losses_eq here]
  cases move with
  | pull hpull event =>
      obtain ⟨k, rfl⟩ := event
      have hstops : it.stops w.reset (j < w.ended) = false := by
        unfold RequestIterator.pull at hpull
        split at hpull
        · split at hpull
          · next hplace => simp only [RequestIterator.stops, hplace]
          · next hplace => simp only [RequestIterator.stops, hplace]
          · next hplace => simp only [RequestIterator.stops, hplace]
          · next hplace => simp only [RequestIterator.stops, hplace]
          · cases hpull
        · cases hpull
      rw [hstops]
      exact if_neg (by simp [drops, endsCall])
  | begin k metadata uuid event hplace =>
      subst event
      cases h
      simp [drops]
  | loop hplace event =>
      obtain ⟨k, rfl⟩ := event
      cases h
      simp [drops]
  | account hplace event =>
      obtain ⟨k, rfl⟩ := event
      cases h
      simp [drops]

/-- No iterator changes what it holds. -/
theorem heldSamples_same (hgeneration : w'.generation = w.generation)
    (h : ∀ k < w.generation, w'.holds k = w.holds k) : w'.heldSamples = w.heldSamples := by
  rw [heldSamples, heldSamples, hgeneration]
  exact Finset.sum_congr rfl fun k hk => h k (Finset.mem_range.mp hk)

theorem holds_same {k : Nat} (h : w'.iterators[k]? = w.iterators[k]?)
    (hended : w'.ended = w.ended) : w'.holds k = w.holds k := by
  rw [holds, holds, h, hended]

/-- One iterator changes. -/
theorem heldSamples_set {j a b : Nat} {it it' : RequestIterator}
    (here : w.iterators[j]? = some it) (iterators : w'.iterators = w.iterators.set j it')
    (hended : w'.ended = w.ended) (hothers : ∀ k, k ≠ j → w.losses e k = 0)
    (h : it'.holds (j < w.ended) + a + w.losses e j = it.holds (j < w.ended) + b) :
    w'.heldSamples + a + w.lostSamples e = w.heldSamples + b := by
  have hlt : j < w.iterators.length := (List.getElem?_eq_some_iff.mp here).1
  have hgeneration : w'.generation = w.generation := by
    rw [generation, iterators, List.length_set]
    rfl
  have hmem : j ∈ Finset.range w.generation := Finset.mem_range.mpr hlt
  have here' : w'.iterators[j]? = some it' := by rw [iterators, List.getElem?_set_self hlt]
  have hlost : w.lostSamples e = w.losses e j :=
    Finset.sum_eq_single j (fun k _ hk => hothers k hk) fun hnot => absurd hmem hnot
  have hrest : ∑ k ∈ (Finset.range w.generation).erase j, w'.holds k =
      ∑ k ∈ (Finset.range w.generation).erase j, w.holds k := by
    refine Finset.sum_congr rfl fun k hk => holds_same ?_ hended
    rw [iterators, List.getElem?_set_ne (Finset.ne_of_mem_erase hk).symm]
  rw [heldSamples, heldSamples, hgeneration, ← Finset.add_sum_erase _ _ hmem,
    ← Finset.add_sum_erase _ _ hmem, hlost, hrest, holds_eq here', holds_eq here, hended]
  omega

/-- What an event accounts for was held by an iterator. -/
theorem accountedSamples_le (w : GRPCWorker) (e : WorkerEvent) :
    w.accountedSamples e ≤ w.heldSamples := by
  unfold accountedSamples
  split
  · next k =>
      cases hit : w.iterators[k]? with
      | none => exact Nat.zero_le _
      | some it =>
          have hlt : k < w.generation := (List.getElem?_eq_some_iff.mp hit).1
          have hheld : it.accounting ≤ w.holds k := by
            unfold RequestIterator.accounting
            split
            · next hplace =>
                rw [holds_eq hit, RequestIterator.holds_of_running (by rw [hplace]; rfl),
                  RequestIterator.carries, hplace]
            · exact Nat.zero_le _
          exact hheld.trans (Finset.single_le_sum (f := w.holds) (fun _ _ => Nat.zero_le _)
            (Finset.mem_range.mpr hlt))
  · exact Nat.zero_le _

/-! ### The iterator of the current generation -/

/-- In a generation its iterator is in no call just until the call is made. -/
def Latest (w : GRPCWorker) : Prop :=
  w.run.inGeneration = true → ∀ it, w.iterators.getLast? = some it →
    (it.status = .unopened ↔ w.run.unopened = true)

theorem Latest.set (h : Latest w) {k : Nat} {it it' : RequestIterator}
    (here : w.iterators[k]? = some it) (hit : it'.status = .unopened ↔ it.status = .unopened)
    (iterators : w'.iterators = w.iterators.set k it') (run : w'.run = w.run) : Latest w' := by
  intro hrun last hlast
  rw [run] at hrun ⊢
  rw [List.getLast?_eq_getElem?, iterators, List.length_set, List.getElem?_set] at hlast
  have hold := h hrun
  rw [List.getLast?_eq_getElem?] at hold
  split at hlast
  · next hk =>
      split at hlast
      · cases hlast
        exact hit.trans (hold it (hk ▸ here))
      · cases hlast
  · exact hold last hlast

theorem endCall_last (h : Latest w) (hrun : w.run.inGeneration = true)
    (iterators : ∀ k : Nat, w'.iterators[k]? =
      w.iterators[k]?.map fun it => if w.endsCall k e then it.endCall else it)
    (hlength : w'.iterators.length = w.iterators.length) {last : RequestIterator}
    (hlast : w'.iterators.getLast? = some last) :
    last.status = .unopened ↔ w.run.unopened = true := by
  rw [List.getLast?_eq_getElem?, hlength, iterators, Option.map_eq_some_iff] at hlast
  obtain ⟨it, hit, rfl⟩ := hlast
  have hold := h hrun it (by rw [List.getLast?_eq_getElem?, hit])
  split
  · exact RequestIterator.unopened_endCall.trans hold
  · exact hold

theorem Latest.step (h : Latest w) (heffect : Effect e w w') : Latest w' := by
  cases heffect with
  | quiet hquiet =>
      intro hrun it hlast
      rw [hquiet.iterators] at hlast
      have hbefore : w.run.inGeneration = true := by
        by_contra hout
        rw [hquiet.run (Bool.eq_false_iff.mpr hout)] at hrun
        cases hrun
      exact (h hbefore it hlast).trans ⟨fun hopen => hquiet.opened hopen hrun, hquiet.unopened⟩
  | reserved _ _ _ _ _ iterators run =>
      rw [Latest, run, iterators]
      exact h
  | put _ _ _ _ _ iterators run =>
      rw [Latest, run, iterators]
      exact h
  | took _ _ _ _ iterators run unopened _ _ _ opened =>
      intro hrun it hlast
      rw [iterators] at hlast
      exact (h (run ▸ hrun) it hlast).trans ⟨fun hopen => opened hopen hrun, unopened⟩
  | received _ first _ _ iterators _ run' =>
      intro _ it hlast
      rw [iterators, List.getLast?_concat] at hlast
      cases hlast
      rw [run']
      exact ⟨fun _ => rfl, fun _ => rfl⟩
  | resumed k it _ here _ _ iterators run =>
      refine h.set here ?_ iterators run
      exact Iff.rfl
  | moved k it it' here move iterators _ _ _ run =>
      exact h.set here (RequestIterator.unopened_iterates move) iterators run
  | callsEnd iterators _ _ _ generation run =>
      intro hrun last hlast
      rw [run] at hrun ⊢
      exact endCall_last h hrun iterators generation hlast
  | callBegins run run' iterators =>
      intro _ last hlast
      rw [List.getLast?_eq_getElem?, iterators, openCall, List.length_modify,
        List.getElem?_modify, generation, Option.map_eq_map, Option.map_eq_some_iff] at hlast
      obtain ⟨it, _, rfl⟩ := hlast
      rw [run']
      exact ⟨fun hopen => by simp at hopen, by rintro ⟨⟩⟩

/-! ### The sum -/

/-- What an iterator holds does not depend on its generation once its call was made. -/
theorem holds_over {it : RequestIterator} (h : it.status ≠ .unopened) (ended ended' : Bool) :
    it.holds ended = it.holds ended' := by
  simp [RequestIterator.holds, RequestIterator.abandoned, RequestIterator.served, h]

/-- The iterators hold what they held, less what they give up. -/
theorem heldSamples_add (hgeneration : w'.generation = w.generation)
    (h : ∀ k < w.generation, w'.holds k + w.losses e k = w.holds k) :
    w'.heldSamples + w.lostSamples e = w.heldSamples := by
  rw [heldSamples, heldSamples, lostSamples, hgeneration, ← Finset.sum_add_distrib]
  exact Finset.sum_congr rfl fun k hk => h k (Finset.mem_range.mp hk)

theorem heldSamples_apart (hiterators : w'.iterators = w.iterators) (hended : w'.ended = w.ended)
    (hapart : Apart w e) (herror : ∀ detail, e ≠ .channelError detail) :
    w'.heldSamples + w.lostSamples e = w.heldSamples := by
  rw [hapart.lost herror, Nat.add_zero]
  exact heldSamples_same (congrArg List.length hiterators) fun k _ =>
    holds_same (by rw [hiterators]) hended

/-- A generation whose call was made ends, and its iterator holds what it held. -/
theorem heldSamples_quiet (hlatest : Latest w) (hquiet : Quiet w w') (hapart : Apart w e)
    (hopens : w.run.unopened = true → w'.run.inGeneration = true)
    (herror : ∀ detail, e ≠ .channelError detail) :
    w'.heldSamples + w.lostSamples e = w.heldSamples := by
  have hgeneration : w'.generation = w.generation := congrArg List.length hquiet.iterators
  by_cases hrun : w'.run.inGeneration = w.run.inGeneration
  · exact heldSamples_apart hquiet.iterators (ended_of_inGeneration hgeneration hrun) hapart
      herror
  · obtain ⟨hin, hout⟩ : w.run.inGeneration = true ∧ w'.run.inGeneration = false := by
      cases hin : w.run.inGeneration with
      | false =>
          rw [hquiet.run hin, hin] at hrun
          exact absurd rfl hrun
      | true =>
          rw [hin] at hrun
          exact ⟨rfl, Bool.eq_false_iff.mpr hrun⟩
    rw [hapart.lost herror, Nat.add_zero]
    refine heldSamples_same hgeneration fun k hk => ?_
    have hit := List.getElem?_eq_getElem hk
    rw [holds_eq hit, holds_eq (w := w') (by rw [hquiet.iterators]; exact hit)]
    by_cases hlast : k + 1 = w.generation
    · refine holds_over (fun hstatus => ?_) _ _
      have hopen := (hlatest hin _ (by
        rw [List.getLast?_eq_getElem?, ← hit]
        exact congrArg _ (Nat.sub_eq_of_eq_add hlast.symm))).mp hstatus
      rw [hopens hopen] at hout
      cases hout
    · have hover : decide (k < w'.ended) = decide (k < w.ended) := by
        rw [ended, ended, hgeneration, hin, hout]
        simp only [if_true, Bool.false_eq_true, if_false, Nat.sub_zero, decide_eq_decide]
        omega
      rw [hover]

/-- gRPC refuses to make a call, and its iterator is never resumed. -/
theorem channelError_held {detail : String} (h : w.channelError detail = some w') :
    w'.heldSamples + w.lostSamples (.channelError detail) = w.heldSamples := by
  have hiterators := (channelError_still h).iterators
  have hgeneration : w'.generation = w.generation := congrArg List.length hiterators
  obtain ⟨hbefore, hafter⟩ : (w.run = .connecting ∨ w.run = .calling) ∧
      w'.run.inGeneration = false := by
    unfold channelError at h
    split at h
    · cases h
    · split at h
      · next hrun =>
          cases h
          exact ⟨.inl hrun, rfl⟩
      · next hrun =>
          cases h
          exact ⟨.inr hrun, rfl⟩
      · cases h
  refine heldSamples_add hgeneration fun k hk => ?_
  have hit := List.getElem?_eq_getElem hk
  have hover' : decide (k < w'.ended) = true := by
    rw [ended, hafter, hgeneration]
    exact decide_eq_true hk
  rw [losses_eq hit, holds_eq hit, holds_eq (w := w') (by rw [hiterators]; exact hit), hover']
  by_cases hlast : w.run = .calling ∧ k + 1 = w.generation
  · obtain ⟨hrun, hlast⟩ := hlast
    have hover : decide (k < w.ended) = false := by
      rw [ended, hrun, ← hlast]
      exact decide_eq_false (Nat.lt_irrefl k)
    rw [hover, ← RequestIterator.holds_refused]
    simp only [drops, hrun, hlast, decide_true, Bool.true_and]
  · have hover : decide (k < w.ended) = true := by
      refine decide_eq_true ?_
      obtain hrun | hrun := hbefore
      · rw [ended, hrun]
        exact hk
      · have hne : k + 1 ≠ w.generation := fun heq => hlast ⟨hrun, heq⟩
        rw [ended, hrun]
        exact Nat.lt_sub_of_add_lt (Nat.lt_of_le_of_ne hk hne)
    rw [hover, if_neg]
    · rfl
    · rw [drops, Bool.and_eq_true, Bool.and_eq_true, Bool.and_eq_true, decide_eq_true_eq,
        decide_eq_true_eq]
      exact fun hdrops => hlast hdrops.1.1

/-- A new iterator holds its first request. -/
theorem received_held {queued : Queued} {first : AudioRequest}
    (request : queued.request = .audio first)
    (iterators : w'.iterators = w.iterators ++ [.new first]) (run : w.run = .receiving)
    (run' : w'.run = .clearing) :
    w'.heldSamples = w.heldSamples + queued.request.samples := by
  have hgeneration : w'.generation = w.generation + 1 := by
    rw [generation, iterators, List.length_append]
    rfl
  have hended : w'.ended = w.ended := by
    rw [ended, ended, hgeneration, run, run']
    rfl
  have hnew : w'.holds w.generation = queued.request.samples := by
    have hit : w'.iterators[w.generation]? = some (.new first) := by
      rw [iterators, generation, List.getElem?_concat_length]
    have hover : decide (w.generation < w'.ended) = false := by
      rw [hended, ended, run]
      exact decide_eq_false (Nat.lt_irrefl _)
    rw [holds_eq hit, request, hover]
    exact RequestIterator.holds_of_served rfl
  have hold : ∑ k ∈ Finset.range w.generation, w'.holds k = w.heldSamples := by
    refine Finset.sum_congr rfl fun k hk => holds_same ?_ hended
    rw [iterators, List.getElem?_append_left (Finset.mem_range.mp hk)]
  rw [heldSamples, hgeneration, Finset.sum_range_succ, hold, hnew]

/-- An iterator whose call is made holds what it held. -/
theorem openCall_held (hlatest : Latest w) (run : w.run = .calling) (run' : w'.run = .storing)
    (iterators : w'.iterators = w.openCall.iterators) : w'.heldSamples = w.heldSamples := by
  have hgeneration : w'.generation = w.generation := by
    rw [generation, iterators, openCall, List.length_modify]
    rfl
  have hended : w'.ended = w.ended :=
    ended_of_inGeneration hgeneration (by rw [run, run']; rfl)
  refine heldSamples_same hgeneration fun k hk => ?_
  by_cases hlast : w.generation - 1 = k
  · have hit := List.getElem?_eq_getElem hk
    have hstatus := (hlatest (by rw [run]; rfl) _ (by
      rw [List.getLast?_eq_getElem?, ← hit]
      exact congrArg _ hlast)).mpr (by rw [run]; rfl)
    have hit' : w'.iterators[k]? = some { w.iterators[k] with status := .active } := by
      rw [iterators, openCall, List.getElem?_modify, hit]
      simp only [hlast, if_true, Option.map_eq_map, Option.map_some]
    have hover : decide (k < w.ended) = false := by
      rw [ended, run, ← hlast]
      exact decide_eq_false (Nat.lt_irrefl _)
    have hserved : w.iterators[k].served false = true := by
      simp [RequestIterator.served, hstatus]
    rw [holds_eq hit, holds_eq hit', hended, hover, RequestIterator.holds_of_served hserved]
    exact RequestIterator.holds_of_served (RequestIterator.served_of_active rfl)
  · refine holds_same ?_ hended
    rw [iterators, openCall, List.getElem?_modify_ne _ _ hlast]

/-- What the iterators held and what is taken they hold, or it is accounted for, given up or
drained. -/
theorem step_held {callback : Option Callback} (h : w.step config e = some (w', callback))
    (hlatest : Latest w) : w'.heldSamples + w.accountedSamples e + w.lostSamples e +
      w.drainedSamples w' = w.heldSamples + w.takenSamples w' := by
  have heffect := step_effect h
  by_cases herror : ∃ detail, e = .channelError detail
  · obtain ⟨detail, rfl⟩ := herror
    obtain ⟨w₁, hstep, heq⟩ := Option.map_eq_some_iff.mp h
    cases heq
    have htaken := (channelError_still hstep).taken
    have haccounted : w.accountedSamples (.channelError detail) = 0 := rfl
    rw [takenSamples_same htaken, drainedSamples_same htaken, haccounted]
    exact channelError_held hstep
  have herror' (detail : String) : e ≠ .channelError detail := fun heq => herror ⟨detail, heq⟩
  cases heffect with
  | quiet hquiet keeps apart =>
      have haccounted : w.accountedSamples e = 0 := by
        cases e with
        | iterate k => cases apart.iterator
        | _ => rfl
      rw [takenSamples_same hquiet.taken, drainedSamples_same hquiet.taken, haccounted]
      exact heldSamples_quiet hlatest hquiet apart
        (fun hrun => (step_unopened h hrun).resolve_right herror) herror'
  | reserved request event _ _ taken iterators run =>
      subst event
      have hsame : w'.ended = w.ended :=
        ended_of_inGeneration (congrArg List.length iterators) (congrArg _ run)
      have haccounted : w.accountedSamples (.trySend request) = 0 := rfl
      rw [takenSamples_same taken, drainedSamples_same taken, haccounted]
      exact heldSamples_apart iterators hsame ⟨rfl, fun _ => rfl⟩ herror'
  | put _ _ _ _ taken iterators run keeps apart =>
      have hsame : w'.ended = w.ended :=
        ended_of_inGeneration (congrArg List.length iterators) (congrArg _ run)
      rw [takenSamples_same taken, drainedSamples_same taken, keeps.accounted]
      exact heldSamples_apart iterators hsame apart herror'
  | took taker queued takes other iterators run _ keeps apart audio =>
      have hsame : w'.ended = w.ended :=
        ended_of_inGeneration (congrArg List.length iterators) run
      have hheld := heldSamples_apart iterators hsame apart herror'
      have hdrained : w.drainedSamples w' = queued.request.samples := by
        rw [takes.drainedSamples]
        split
        · rfl
        · next hdrain =>
            rw [Request.samples, audio (other.resolve_right hdrain), Option.elim_none]
      rw [takes.takenSamples, keeps.accounted, hdrained, ← hheld]
      rfl
  | received queued first takes request iterators run run' keeps apart =>
      rw [takes.takenSamples, takes.drainedSamples, if_neg (by rintro ⟨⟩), keeps.accounted,
        apart.lost herror']
      exact received_held request iterators run run'
  | resumed k it queued here place takes iterators run keeps event =>
      subst event
      have hsame : w'.ended = w.ended := by
        refine ended_of_inGeneration ?_ (congrArg _ run)
        rw [generation, generation, iterators, List.length_set]
      rw [takes.takenSamples, takes.drainedSamples, if_neg (by rintro ⟨⟩), keeps.accounted]
      refine heldSamples_set here iterators hsame (fun j hj => losses_other rfl hj) ?_
      have hstops : it.stops w.reset (k < w.ended) = false := by
        simp only [RequestIterator.stops, place]
      have hholds : it.holds (k < w.ended) = 0 :=
        RequestIterator.holds_of_carries (by rw [RequestIterator.carries, place])
      have hlosses : w.losses (.iterate k) k = 0 := by
        rw [losses_eq here]
        simp [drops, hstops]
      have hheld : RequestIterator.holds (k < w.ended)
          { it with place := .looping queued.request } = queued.request.samples :=
        RequestIterator.holds_of_running rfl
      rw [hholds, hlosses, hheld, Nat.zero_add, Nat.add_zero]
  | moved k it it' here move iterators _ taken _ run _ accounted event =>
      have hsame : w'.ended = w.ended := by
        refine ended_of_inGeneration ?_ (congrArg _ run)
        rw [generation, generation, iterators, List.length_set]
      rw [takenSamples_same taken, drainedSamples_same taken, accounted]
      refine heldSamples_set (b := 0) here iterators hsame (fun j hj => losses_other event hj) ?_
      rw [losses_iterates event here move]
      exact RequestIterator.holds_iterates move _
  | callsEnd iterators _ taken _ generation run keeps iterator =>
      have hsame : w'.ended = w.ended := ended_of_inGeneration generation (congrArg _ run)
      rw [takenSamples_same taken, drainedSamples_same taken, keeps.accounted]
      refine heldSamples_add generation fun k hk => ?_
      have hit := List.getElem?_eq_getElem hk
      rw [losses_eq hit, holds_eq hit, drops_eq iterator herror',
        holds_eq (w := w') ((iterators k).trans (congrArg _ hit)), hsame]
      cases hends : w.endsCall k e with
      | true => exact RequestIterator.holds_endCall _ _
      | false => rfl
  | callBegins run run' iterators _ taken _ keeps apart =>
      rw [takenSamples_same taken, drainedSamples_same taken, keeps.accounted,
        apart.lost herror']
      exact openCall_held hlatest run run' iterators

end GRPCWorker

end VoxLattice.Plugin
