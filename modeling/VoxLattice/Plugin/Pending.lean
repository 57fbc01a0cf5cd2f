import VoxLattice.Plugin.Holdings

/-!
# The samples the transport owes

`_pending_samples` is raised when `try_send` accepts a request, before the put, and lowered by
the request iterator that is resumed after the `yield` of the chunk.  A drain sets it to zero.

What the counter should be is read off the worker: the samples queued, those accepted and not
put, and those an iterator may still account for.  While a drain is under way, what it has dropped
counts too (`Books.dropping`), and nothing else does.

Two kinds of steps break the books.  A drain may zero the counter while something is queued,
reserved or held: `force_reset` runs beside `try_send` and the iterators.  And an iterator may
give up a request, with no drain under way, and never account for it.  A step leaves exact books
exact just if it is neither (`Books.step_exact_iff`), so a run keeps them exact just if none of
its steps is (`books_exact`); both kinds of steps happen (`books_inexact`).
-/

namespace VoxLattice.Plugin

namespace GRPCWorker

/-- The samples of the requests in the queue. -/
def queuedSamples (w : GRPCWorker) : Nat :=
  (w.requests.items.map fun queued => queued.request.samples).sum

/-- The samples that `try_send` has accepted and not put. -/
def reservedSamples (w : GRPCWorker) : Nat := (w.sends.map AudioRequest.samples).sum

/-- A drain that is under way, or that the event starts, drops what iterators give up. -/
def covers (w : GRPCWorker) (e : WorkerEvent) : Bool := w.drains || e.isChannelError

/-- Whenever the event zeroes the counter, no `AudioRequest` is queued or about to be put, and no
iterator holds one; and no iterator gives up an `AudioRequest` at the event, unless a drain drops
it. -/
def Settled (w : GRPCWorker) (e : WorkerEvent) : Prop :=
  (w.zeroes e = true → w.queuedSamples = 0 ∧ w.reservedSamples = 0 ∧ w.heldSamples = 0) ∧
    (w.covers e = false → w.lostSamples e = 0)

instance (w : GRPCWorker) (e : WorkerEvent) : Decidable (w.Settled e) :=
  inferInstanceAs (Decidable (_ ∧ _))

end GRPCWorker

/-! ## The books -/

/-- The worker, and what the drains under way have dropped. -/
structure Books where
  worker : GRPCWorker
  /-- The samples that drains have taken, or iterators given up to them, since the counter was
  zeroed last. -/
  dropping : Nat

namespace Books

/-- A step of the worker, entered in the books. -/
def step (config : TransportConfig) (b : Books) (e : WorkerEvent) : Option Books :=
  (b.worker.step config e).map fun (w, _) =>
    ⟨w, if b.worker.zeroes e then 0
      else b.dropping + b.worker.drainedSamples w +
        if b.worker.covers e then b.worker.lostSamples e else 0⟩

/-- The counter is exact, the queue is bounded, and no capacity is lost. -/
structure Exact (config : TransportConfig) (b : Books) : Prop where
  pending : b.worker.pendingSamples =
    b.worker.queuedSamples + b.worker.reservedSamples + b.worker.heldSamples + b.dropping
  /-- Only a drain under way has anything still to account for as dropped. -/
  dropping : b.worker.drains = false → b.dropping = 0
  bound : b.worker.queuedSamples ≤ config.maxRequestQueueSamples
  /-- Once nothing is queued, reserved or held, and no drain is under way, all of the capacity is
  free. -/
  released : b.worker.drains = false → b.worker.queuedSamples = 0 →
    b.worker.reservedSamples = 0 → b.worker.heldSamples = 0 → b.worker.pendingSamples = 0

end Books

/-- The worker with its books. -/
def booksSystem (config : TransportConfig) : Lts.System Books WorkerEvent where
  init := ⟨.new config, 0⟩
  step := Books.step config
  allows _ _ := True

instance (config : TransportConfig) (b : Books) (e : WorkerEvent) :
    Decidable ((booksSystem config).allows b e) :=
  inferInstanceAs (Decidable True)

/-! ## What a step does to the sums -/

namespace GRPCWorker

variable {config : TransportConfig} {w w' : GRPCWorker} {e : WorkerEvent}

theorem Takes.queuedSamples {taker : Taker} {queued : Queued} (h : Takes w w' taker queued) :
    w.queuedSamples = queued.request.samples + w'.queuedSamples := by
  rw [GRPCWorker.queuedSamples, h.items]
  rfl

theorem reservedSamples_perm {request : Request}
    (h : w.sends.Perm (request.audio?.toList ++ w'.sends)) :
    w.reservedSamples = request.samples + w'.reservedSamples := by
  rw [reservedSamples, (h.map _).sum_eq, List.map_append, List.sum_append, reservedSamples,
    Request.samples]
  cases request.audio? with
  | none => rfl
  | some r => rfl

/-- The counter moves with the queue, with the calls of `try_send` and with what iterators
account for. -/
theorem Effect.pending (h : Effect e w w') (hzeroes : w.zeroes e = false)
    (haccounted : w.accountedSamples e ≤ w.pendingSamples) :
    w'.pendingSamples + w.accountedSamples e + (w.queuedSamples + w.reservedSamples) =
      w.pendingSamples + (w'.queuedSamples + w'.reservedSamples + w.takenSamples w') := by
  cases h with
  | quiet h keeps =>
      obtain hkeeps | ⟨hzero, _⟩ := keeps
      · rw [takenSamples_same h.taken, hkeeps.pending, hkeeps.accounted, queuedSamples,
          queuedSamples, reservedSamples, reservedSamples, h.requests, h.sends]
        rfl
      · rw [hzeroes] at hzero
        cases hzero
  | reserved request event sends requests taken _ _ pending =>
      subst event
      have haccounted : w.accountedSamples (.trySend request) = 0 := rfl
      have hsends : w'.reservedSamples = w.reservedSamples + request.samples := by
        rw [reservedSamples, sends, List.map_append, List.sum_append]
        rfl
      have hqueued : w'.queuedSamples = w.queuedSamples := by rw [queuedSamples, requests]; rfl
      rw [takenSamples_same taken, pending, haccounted, hsends, hqueued]
      omega
  | put request _ items sends taken _ _ keeps =>
      have hqueued : w'.queuedSamples = w.queuedSamples + request.samples := by
        rw [queuedSamples, items, List.map_append, List.sum_append]
        rfl
      rw [takenSamples_same taken, keeps.pending, keeps.accounted, reservedSamples_perm sends,
        hqueued]
      omega
  | took _ _ takes _ _ _ _ keeps =>
      rw [takes.takenSamples, keeps.pending, keeps.accounted, takes.queuedSamples,
        reservedSamples, reservedSamples, takes.sends]
      omega
  | received _ _ takes _ _ _ _ keeps =>
      rw [takes.takenSamples, keeps.pending, keeps.accounted, takes.queuedSamples,
        reservedSamples, reservedSamples, takes.sends]
      omega
  | resumed _ _ _ _ _ takes _ _ keeps =>
      rw [takes.takenSamples, keeps.pending, keeps.accounted, takes.queuedSamples,
        reservedSamples, reservedSamples, takes.sends]
      omega
  | moved _ _ _ _ _ _ requests taken sends _ pending accounted =>
      rw [takenSamples_same taken, queuedSamples, queuedSamples, reservedSamples,
        reservedSamples, requests, sends, pending]
      omega
  | callsEnd _ requests taken sends _ _ keeps =>
      rw [takenSamples_same taken, keeps.pending, keeps.accounted, queuedSamples, queuedSamples,
        reservedSamples, reservedSamples, requests, sends]
      rfl
  | callBegins _ _ _ requests taken sends keeps =>
      rw [takenSamples_same taken, keeps.pending, keeps.accounted, queuedSamples, queuedSamples,
        reservedSamples, reservedSamples, requests, sends]
      rfl

/-- The counter grows only within the limit. -/
theorem step_pending_le {callback : Option Callback} (h : w.step config e = some (w', callback)) :
    w'.pendingSamples ≤ w.pendingSamples ∨
      w'.pendingSamples ≤ config.maxRequestQueueSamples := by
  cases step_effect h with
  | quiet _ keeps =>
      left
      obtain hkeeps | ⟨_, hzero⟩ := keeps
      · exact hkeeps.pending.le
      · rw [hzero]
        exact Nat.zero_le _
  | reserved request event =>
      subst event
      cases h
      unfold trySend
      split
      · exact .inl le_rfl
      · next hroom => exact .inr (Nat.le_of_not_lt fun hfull => hroom (.inr hfull))
  | put _ _ _ _ _ _ _ keeps => exact .inl keeps.pending.le
  | took _ _ _ _ _ _ _ keeps => exact .inl keeps.pending.le
  | received _ _ _ _ _ _ _ keeps => exact .inl keeps.pending.le
  | resumed _ _ _ _ _ _ _ _ keeps => exact .inl keeps.pending.le
  | moved _ _ _ _ _ _ _ _ _ _ pending => exact .inl (pending.trans_le (Nat.sub_le _ _))
  | callsEnd _ _ _ _ _ _ keeps => exact .inl keeps.pending.le
  | callBegins _ _ _ _ _ _ keeps => exact .inl keeps.pending.le

/-- A drain that zeroes the counter leaves the queue, the sends and the iterators. -/
theorem zeroes_sums {callback : Option Callback} (hzeroes : w.zeroes e = true)
    (h : w.step config e = some (w', callback)) : w'.pendingSamples = 0 ∧
      w'.queuedSamples = w.queuedSamples ∧ w'.reservedSamples = w.reservedSamples ∧
      w'.heldSamples = w.heldSamples := by
  unfold zeroes at hzeroes
  split at hzeroes
  · next k =>
      have hreset := of_decide_eq_true hzeroes
      simp only [step, resetStep, hreset, Option.map_some, Option.some.injEq] at h
      cases h
      exact ⟨rfl, rfl, rfl, rfl⟩
  · have hrun := of_decide_eq_true hzeroes
    simp only [step, work, hrun, Option.some.injEq] at h
    cases h
    refine ⟨rfl, rfl, rfl, ?_⟩
    rw [heldSamples, heldSamples]
    refine Finset.sum_congr rfl fun k _ => ?_
    have hended : ended { w with run := .finalizing, pendingSamples := 0 } = w.ended :=
      ended_of_inGeneration rfl (by rw [hrun]; rfl)
    rw [holds, holds, hended]
  · cases hzeroes

/-- Only a drain under way takes requests for a drain. -/
theorem Effect.drainedSamples (h : Effect e w w') (hdrains : w.drains = false) :
    w.drainedSamples w' = 0 := by
  cases h with
  | quiet h => exact drainedSamples_same h.taken
  | reserved _ _ _ _ taken => exact drainedSamples_same taken
  | put _ _ _ _ taken => exact drainedSamples_same taken
  | took taker _ takes _ _ _ _ _ _ _ _ drain =>
      have htaker : taker ≠ .drain := fun heq => by
        rw [drain heq] at hdrains
        cases hdrains
      rw [takes.drainedSamples, if_neg htaker]
  | received _ _ takes => rw [takes.drainedSamples, if_neg nofun]
  | resumed _ _ _ _ _ takes => rw [takes.drainedSamples, if_neg nofun]
  | moved _ _ _ _ _ _ _ taken => exact drainedSamples_same taken
  | callsEnd _ _ taken => exact drainedSamples_same taken
  | callBegins _ _ _ _ taken => exact drainedSamples_same taken

theorem drains_of_zeroes (h : w.zeroes e = true) : w.drains = true := by
  unfold zeroes at h
  split at h
  · exact drains_of_reset (of_decide_eq_true h) rfl
  · exact drains_of_run (by rw [of_decide_eq_true h]; rfl)
  · cases h

/-- An iterator whose call gRPC refuses to make leaves its request to a drain. -/
theorem channelError_drains {callback : Option Callback} (he : e.isChannelError = true)
    (h : w.step config e = some (w', callback)) (hlost : w.lostSamples e ≠ 0) :
    w'.drains = true := by
  obtain ⟨detail, rfl⟩ : ∃ detail, e = .channelError detail := by
    cases e <;> first | exact ⟨_, rfl⟩ | cases he
  obtain ⟨w₁, hstep, heq⟩ := Option.map_eq_some_iff.mp h
  cases heq
  by_cases hrun : w.run = .calling
  · rw [channelError] at hstep
    split at hstep
    · cases hstep
    · rw [hrun] at hstep
      cases hstep
      exact drains_of_run rfl
  · refine absurd (Finset.sum_eq_zero fun k hk => ?_) hlost
    have hit := List.getElem?_eq_getElem (Finset.mem_range.mp hk)
    rw [losses_eq hit, drops, decide_eq_false hrun, if_neg]
    simp

end GRPCWorker

/-! ## Exact books -/

namespace Books

variable {config : TransportConfig} {b b' : Books} {e : WorkerEvent}

/-- What holds of the books in any run. -/
structure Kept (config : TransportConfig) (b : Books) : Prop where
  bound : b.worker.pendingSamples ≤ config.maxRequestQueueSamples
  latest : b.worker.Latest
  dropping : b.worker.drains = false → b.dropping = 0

theorem kept_init (config : TransportConfig) : Kept config ⟨.new config, 0⟩ where
  bound := Nat.zero_le _
  latest := nofun
  dropping _ := rfl

/-- A step of the books is one of the worker. -/
theorem step_cases (hs : (booksSystem config).Step b e b') :
    (∃ made, b.worker.step config e = some (b'.worker, made)) ∧
      b'.dropping = if b.worker.zeroes e then 0
        else b.dropping + b.worker.drainedSamples b'.worker +
          if b.worker.covers e then b.worker.lostSamples e else 0 := by
  obtain ⟨⟨w', made⟩, hstep, rfl⟩ := Option.map_eq_some_iff.mp hs.eq
  exact ⟨⟨made, hstep⟩, rfl⟩

/-- A drain under way goes on, or has nothing left to account for. -/
theorem step_dropping (h : b.worker.drains = false → b.dropping = 0)
    (hs : (booksSystem config).Step b e b') (hdrains : b'.worker.drains = false) :
    b'.dropping = 0 := by
  obtain ⟨⟨made, hstep⟩, hdropping⟩ := step_cases hs
  rw [hdropping]
  split
  · rfl
  · next hzeroes =>
      have hbefore : b.worker.drains = false := by
        by_contra hdrain
        rw [GRPCWorker.step_drains hstep (Bool.eq_false_iff.mpr hzeroes)
          (eq_true_of_ne_false hdrain)] at hdrains
        cases hdrains
      have hlost : (if b.worker.covers e then b.worker.lostSamples e else 0) = 0 := by
        split
        · next hcovers =>
            rw [GRPCWorker.covers, hbefore, Bool.false_or] at hcovers
            by_contra hne
            rw [GRPCWorker.channelError_drains hcovers hstep hne] at hdrains
            cases hdrains
        · rfl
      rw [h hbefore, (GRPCWorker.step_effect hstep).drainedSamples hbefore, hlost]

theorem Kept.step (h : Kept config b) (hs : (booksSystem config).Step b e b') :
    Kept config b' := by
  obtain ⟨⟨made, hstep⟩, -⟩ := step_cases hs
  exact ⟨(GRPCWorker.step_pending_le hstep).elim (fun hle => hle.trans h.bound) id,
    h.latest.step (GRPCWorker.step_effect hstep), step_dropping h.dropping hs⟩

theorem reachable_kept (h : (booksSystem config).Reachable b) : Kept config b :=
  h.invariant (kept_init config) fun _ _ _ hkept hs => hkept.step hs

/-- The books are exact when the counter is. -/
theorem Kept.exact_iff (h : Kept config b) : Exact config b ↔
    b.worker.pendingSamples = b.worker.queuedSamples + b.worker.reservedSamples +
      b.worker.heldSamples + b.dropping := by
  refine ⟨Exact.pending, fun hpending => ⟨hpending, h.dropping, ?_, ?_⟩⟩
  · have hbound := h.bound
    omega
  · intro hdrains hqueued hreserved hheld
    rw [hpending, hqueued, hreserved, hheld, h.dropping hdrains]

/-- A step leaves exact books exact just if it neither zeroes a counter that counts something nor
lets an iterator give up a request that no drain drops. -/
theorem step_exact_iff (hkept : Kept config b) (hexact : Exact config b)
    (hs : (booksSystem config).Step b e b') : Exact config b' ↔ b.worker.Settled e := by
  rw [(hkept.step hs).exact_iff, GRPCWorker.Settled]
  have hpending := hexact.pending
  obtain ⟨⟨made, hstep⟩, hdropping⟩ := step_cases hs
  cases hzeroes : b.worker.zeroes e with
  | true =>
      obtain ⟨hzero, hqueued, hreserved, hheld⟩ := GRPCWorker.zeroes_sums hzeroes hstep
      have hcovers : b.worker.covers e = true := by
        rw [GRPCWorker.covers, GRPCWorker.drains_of_zeroes hzeroes, Bool.true_or]
      rw [if_pos hzeroes] at hdropping
      rw [hzero, hqueued, hreserved, hheld, hdropping, hcovers]
      constructor
      · intro hsum
        exact ⟨fun _ => by omega, nofun⟩
      · intro ⟨hnone, _⟩
        obtain ⟨hqueued₀, hreserved₀, hheld₀⟩ := hnone rfl
        rw [hqueued₀, hreserved₀, hheld₀]
  | false =>
      have haccounted := b.worker.accountedSamples_le e
      have hsums := (GRPCWorker.step_effect hstep).pending hzeroes (by omega)
      have hheld := GRPCWorker.step_held hstep hkept.latest
      rw [if_neg (by rw [hzeroes]; nofun)] at hdropping
      cases hcovers : b.worker.covers e with
      | true =>
          rw [if_pos hcovers] at hdropping
          exact ⟨fun _ => ⟨nofun, nofun⟩, fun _ => by omega⟩
      | false =>
          rw [if_neg (by rw [hcovers]; nofun)] at hdropping
          constructor
          · intro hsum
            exact ⟨nofun, fun _ => by omega⟩
          · intro ⟨_, hlost⟩
            have hnone := hlost rfl
            omega

theorem exact_init (config : TransportConfig) : Exact config ⟨.new config, 0⟩ :=
  (kept_init config).exact_iff.mpr rfl

/-- In a run in which a drain zeroes the counter only when no `AudioRequest` is queued, about to
be put or held by an iterator, and in which an iterator gives up an `AudioRequest` only to a
drain, the counter is exact in every state; and it is in no other run. -/
theorem books_exact (config : TransportConfig) :
    (∀ b, ((booksSystem config).restrict fun b e => b.worker.Settled e).Reachable b →
      Exact config b) ∧
    ∀ es b, (booksSystem config).run ⟨.new config, 0⟩ es = some b →
      ((booksSystem config).Throughout (Exact config) ⟨.new config, 0⟩ es ↔
        ((booksSystem config).restrict fun b e => b.worker.Settled e).Allowed
          ⟨.new config, 0⟩ es) := by
  have hstep (b e b') (h : (booksSystem config).Reachable b) (hexact : Exact config b)
      (hs : (booksSystem config).Step b e b') : Exact config b' ↔ b.worker.Settled e :=
    step_exact_iff (reachable_kept h) hexact hs
  constructor
  · intro b hreach
    refine hreach.invariant₂ (exact_init config) fun b e b' hr hexact hs => ?_
    exact (hstep b e b' hr.of_restrict hexact hs.of_restrict).mpr hs.allowed.2
  · intro es b hrun
    exact Lts.System.throughout_iff_allowed hstep .init (exact_init config)
      (by rw [hrun]; rfl) (Lts.System.allowed_of_forall fun _ _ => trivial)

/-- A call fails while its iterator waits for a request, and the drain drops what is queued. -/
def failedCall : List WorkerEvent :=
  let fails : List WorkerEvent := [.callEnds 0, .rpcError, .work, .work, .work, .work]
  testConnects ++ testSends 0 256 ++ testCalls ++ testYields 0 ++ testSends 256 128 ++ fails ++
    testSends 384 64

theorem books_exact_failed :
    ∃ b, (booksSystem testConfig.transportConfig).run ⟨.new testConfig.transportConfig, 0⟩
        failedCall = some b ∧
      b.worker.pendingSamples = 64 ∧ Exact testConfig.transportConfig b := by
  obtain ⟨b, hrun, hreach, hp⟩ := Lts.System.Reachable.of_run
    ((booksSystem testConfig.transportConfig).restrict
      fun (b : Books) (e : WorkerEvent) => b.worker.Settled e)
    failedCall (fun (b : Books) => decide (b.worker.pendingSamples = 64))
    (by decide +kernel) (by decide +kernel)
  exact ⟨b, hrun, of_decide_eq_true hp, (books_exact testConfig.transportConfig).1 b hreach⟩

/-- After its call has failed and the drain is over, an iterator takes the next `AudioRequest` and
yields it to nobody. -/
def stolenRequest : List WorkerEvent :=
  let takes : List WorkerEvent := [.iterate 0, .iterate 0]
  testConnects ++ testSends 0 256 ++ testCalls ++ testYields 0 ++ testFails 0 ++
    testSends 256 256 ++ takes

/-- `force_reset` zeroes the counter between the block of `try_send` and its put; and an iterator
without a call keeps the capacity of the request it has taken. -/
theorem books_inexact :
    (¬ ∀ b, (booksSystem testConfig.transportConfig).Reachable b →
      b.worker.pendingSamples = b.worker.queuedSamples + b.worker.reservedSamples +
        b.worker.heldSamples + b.dropping) ∧
    ¬ ∀ b, (booksSystem testConfig.transportConfig).Reachable b →
      b.worker.drains = false → b.worker.queuedSamples = 0 → b.worker.reservedSamples = 0 →
        b.worker.heldSamples = 0 → b.worker.pendingSamples = 0 := by
  constructor
  · intro hexact
    obtain ⟨b, _, hreach, hp⟩ := Lts.System.Reachable.of_run
      (booksSystem testConfig.transportConfig)
      [.trySend ⟨0, List.replicate 512 0⟩, .forceReset, .resetStep 0, .resetStep 0, .resetStep 0,
        .resetStep 0, .resetStep 0, .put 0]
      (fun (b : Books) => decide (b.worker.pendingSamples = 0 ∧ b.worker.queuedSamples = 256))
      (by decide +kernel) (by decide +kernel)
    obtain ⟨hpending, hqueued⟩ := of_decide_eq_true hp
    have hsum := hexact b hreach
    rw [hpending, hqueued] at hsum
    omega
  · intro hreleased
    obtain ⟨b, _, hreach, hp⟩ := Lts.System.Reachable.of_run
      (booksSystem testConfig.transportConfig) stolenRequest
      (fun (b : Books) => decide (b.worker.drains = false ∧ b.worker.queuedSamples = 0 ∧
        b.worker.reservedSamples = 0 ∧ b.worker.heldSamples = 0 ∧ b.worker.pendingSamples = 256))
      (by decide +kernel) (by decide +kernel)
    obtain ⟨hdrains, hqueued, hreserved, hheld, hpending⟩ := of_decide_eq_true hp
    rw [hreleased b hreach hdrains hqueued hreserved hheld] at hpending
    cases hpending

end Books

end VoxLattice.Plugin
