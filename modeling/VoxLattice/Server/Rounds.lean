import Mathlib.Logic.Relation
import VoxLattice.Server.Frames
import VoxLattice.Server.Service

/-!
# Steps as rounds

`dispatch` and the end of an inference treat every session of a batch in one step.  A *round*
treats one: it is the body of one of the scheduler's loops, or the whole step of another task.
`Round` lists all rounds with the guards they run under, and `step_rounds` says that every step
is a sequence of rounds.  An invariant of the server is proved for rounds, with no induction
over a batch.

Between two rounds of one step the scheduler is in the middle of a loop.  A `Core` is the
server with what the loop has left: the sessions gathered and not yet asked for work, and the
work items taken and not yet answered.  `ServerState.core` is the view of the server between
steps.

An `Env` is what an argument about rounds assumes of the world: which row and which caches may
answer a work item, and when a new call may come.
-/

namespace VoxLattice.Server

variable {κ : Type*}

/-! ## What the tasks change -/

/-- Write a stream and the metrics back. -/
def ServerState.withStream (s : ServerState κ) (i : Nat) (st : Stream κ) (m : Metrics) :
    ServerState κ :=
  { s with streams := s.streams.set i st, metrics := m }

theorem ServerState.get?_withStream {s : ServerState κ} {i : Nat} {st₀ : Stream κ}
    (hst : s.streams[i]? = some st₀) (st : Stream κ) (m : Metrics) (j : Nat) :
    (s.withStream i st m).streams[j]? = if i = j then some st else s.streams[j]? := by
  have hi : i < s.streams.length := (List.getElem?_eq_some_iff.mp hst).1
  simp [withStream, List.getElem?_set, hi]

theorem ServerState.onStream_eq {s : ServerState κ} {i : Nat} {st : Stream κ}
    (hst : s.streams[i]? = some st) (f : Stream κ → Metrics → Stream κ × Metrics) :
    s.onStream i f = s.withStream i (f st s.metrics).1 (f st s.metrics).2 := by
  simp [onStream, withStream, hst]

theorem registryAdd_ok {settings : ServerSettings} {registry registry' : List (String × Nat)}
    {streamId : String} {i : Nat} (h : registryAdd settings registry streamId i = .ok registry') :
    registry.lookup streamId = none ∧ registry.length < settings.maxActiveStreams ∧
      registry' = registry ++ [(streamId, i)] := by
  unfold registryAdd at h
  split at h
  · cases h
  · next hfresh =>
      split at h
      · cases h
      · next hroom =>
          cases h
          exact ⟨Option.not_isSome_iff_eq_none.mp hfresh, by omega, rfl⟩

theorem finish_eq {s : ServerState κ} {i : Nat} {st : Stream κ} (hst : s.streams[i]? = some st) :
    finish i s = { s.withStream i (finallyBlock st s.metrics).1 (finallyBlock st s.metrics).2 with
      registry := if st.registered then registryRemove s.registry st.session.streamId i
        else s.registry } := by
  unfold finish
  simp only [hst, ServerState.onStream_eq hst]
  split
  · next hr => rfl
  · next hr => rfl

theorem capabilities?_eq_some {settings : ServerSettings} {model : StreamingModel κ}
    {accepted : StreamAccepted} (h : capabilities? settings model = some accepted) :
    settings.maxAudioChunkSamples < 2 ^ 32 ∧ accepted = capabilities settings model := by
  rw [capabilities?, toUInt32?] at h
  split at h
  · next hlimit => exact ⟨hlimit, (Option.some.inj h).symm⟩
  · cases h

theorem capabilities?_eq_none {settings : ServerSettings} {model : StreamingModel κ}
    (h : capabilities? settings model = none) : 2 ^ 32 ≤ settings.maxAudioChunkSamples := by
  rw [capabilities?, toUInt32?] at h
  split at h
  · cases h
  · next hlimit => exact Nat.le_of_not_lt hlimit

theorem registryRemove_append {registry : List (String × Nat)} {streamId : String} {i : Nat}
    (h : registry.lookup streamId = none) :
    registryRemove (registry ++ [(streamId, i)]) streamId i = registry := by
  have hlookup : (registry ++ [(streamId, i)]).lookup streamId = some i := by
    rw [List.lookup_append, h, Option.none_or, List.lookup_cons_self]
  have hothers : registry.filter (fun entry => entry.1 != streamId) = registry := by
    refine List.filter_eq_self.mpr fun entry hmem => ?_
    have hne := List.lookup_eq_none_iff.mp h entry hmem
    rw [bne_iff_ne]
    rintro rfl
    simp at hne
  rw [registryRemove, if_pos hlookup, List.filter_append, hothers]
  simp

/-- The `finally` block of a call whose `StreamAccepted` protobuf refused leaves a stream that is
over. -/
theorem finish_opened {settings : ServerSettings} {model : StreamingModel κ} {start : StartStream}
    {s : ServerState κ} (h : s.registry.lookup start.streamId = none) :
    finish s.streams.length { s with
      streams := s.streams ++ [.opened settings model start]
      registry := s.registry ++ [(start.streamId, s.streams.length)]
      metrics := { s.metrics with activeStreams := s.metrics.activeStreams + 1 } } =
    { s with streams := s.streams ++ [.unannounced settings model start] } := by
  have hst : (s.streams ++ [Stream.opened settings model start])[s.streams.length]? =
      some (.opened settings model start) := List.getElem?_concat_length
  have hmetrics : (finallyBlock (Stream.opened settings model start)
      { s.metrics with activeStreams := s.metrics.activeStreams + 1 }).2 = s.metrics := by
    simp [finallyBlock, Stream.opened, Session.queuedInputSamples, Session.queuedOutputSamples,
      startSession, Session.new, BoundedQueue.new]
  have hstream (m : Metrics) : (finallyBlock (Stream.opened settings model start) m).1 =
      .unannounced settings model start := rfl
  have hregistered : (Stream.opened settings model start).registered = true := rfl
  have hid : (Stream.opened settings model start).session.streamId = start.streamId := rfl
  rw [finish_eq hst, hregistered, if_pos rfl, hid, registryRemove_append h]
  simp only [ServerState.withStream, hmetrics, hstream, List.set_append_right _ _ (Nat.le_refl _),
    Nat.sub_self, List.set_cons_zero]

/-- What a new call does to the server. -/
inductive Enhanced (settings : ServerSettings) (model : StreamingModel κ) (first : ClientMessage)
    (s : ServerState κ) : ServerState κ → Prop where
  /-- The first message is not a valid `StartStream`. -/
  | invalid (violation) (h : validateStart first = .error violation) :
      Enhanced settings model first s s
  /-- The registry refuses the session. -/
  | refused (start violation) (h : validateStart first = .ok start)
      (hadd : registryAdd settings s.registry start.streamId s.streams.length =
        .error violation) :
      Enhanced settings model first s
        { s with streams := s.streams ++ [.refused settings model start violation] }
  /-- The registry takes the session, and protobuf refuses the `StreamAccepted`. -/
  | unannounced (start) (h : validateStart first = .ok start)
      (hfresh : s.registry.lookup start.streamId = none)
      (hroom : s.registry.length < settings.maxActiveStreams)
      (hlimit : 2 ^ 32 ≤ settings.maxAudioChunkSamples) :
      Enhanced settings model first s
        { s with streams := s.streams ++ [.unannounced settings model start] }
  /-- The registry takes the session. -/
  | admitted (start) (h : validateStart first = .ok start)
      (hfresh : s.registry.lookup start.streamId = none)
      (hroom : s.registry.length < settings.maxActiveStreams)
      (hlimit : settings.maxAudioChunkSamples < 2 ^ 32) :
      Enhanced settings model first s { s with
        streams := s.streams ++ [.admitted settings model start]
        registry := s.registry ++ [(start.streamId, s.streams.length)]
        metrics := { s.metrics with activeStreams := s.metrics.activeStreams + 1 } }

theorem enhance_spec (settings : ServerSettings) (model : StreamingModel κ)
    (first : ClientMessage) (s : ServerState κ) :
    Enhanced settings model first s (enhance settings model first s) := by
  unfold enhance
  split
  · next violation h => exact .invalid violation h
  · next start h =>
      split
      · next violation hadd => exact .refused start violation h hadd
      · next registry hadd =>
          obtain ⟨hfresh, hroom, rfl⟩ := registryAdd_ok hadd
          dsimp only
          split
          · next accepted haccepted =>
              obtain ⟨hlimit, rfl⟩ := capabilities?_eq_some haccepted
              exact .admitted start h hfresh hroom hlimit
          · next hnone =>
              rw [finish_opened hfresh]
              exact .unannounced start h hfresh hroom (capabilities?_eq_none hnone)

/-- What `notify` does to the server. -/
inductive Notified (s : ServerState κ) (i : Nat) : ServerState κ → Bool → Prop where
  /-- The notification is dropped. -/
  | dropped (h : ∀ st, s.streams[i]? = some st → s.closing = true ∨ st.session.cancelled = true ∨
      st.session.scheduled = true ∨ st.session.inputQueue.items = []) : Notified s i s false
  /-- The session joins the ready queue. -/
  | queued (st ready) (hst : s.streams[i]? = some st) (hclosing : s.closing = false)
      (hcancelled : st.session.cancelled = false) (hscheduled : st.session.scheduled = false)
      (hwork : st.session.inputQueue.items ≠ []) (hput : s.ready.putNowait i = some ready) :
      Notified s i { s.withStream i (schedule st s.metrics).1 s.metrics with ready } false
  /-- The ready queue is full. -/
  | overflowed (st) (hst : s.streams[i]? = some st) (hclosing : s.closing = false)
      (hcancelled : st.session.cancelled = false) (hscheduled : st.session.scheduled = false)
      (hwork : st.session.inputQueue.items ≠ []) (hput : s.ready.putNowait i = none) :
      Notified s i { s.withStream i (schedule st s.metrics).1 s.metrics with readyOverflow := true }
        true

theorem notify_spec (s : ServerState κ) (i : Nat) :
    Notified s i (notify s i).1 (notify s i).2 := by
  unfold notify
  split
  · next h => exact .dropped fun st hst => by simp [h] at hst
  · next st hst =>
      split
      · next hguard =>
          refine .dropped fun st' hst' => ?_
          obtain rfl : st = st' := by simpa [hst] using hst'
          simpa [BoundedQueue.empty_iff, or_assoc] using hguard
      · next hguard =>
          simp only [Bool.or_eq_true, BoundedQueue.empty_iff, not_or, Bool.not_eq_true] at hguard
          obtain ⟨⟨⟨hclosing, hcancelled⟩, hscheduled⟩, hwork⟩ := hguard
          rw [ServerState.onStream_eq hst]
          dsimp only
          split
          · next ready hput =>
              exact .queued st ready hst hclosing hcancelled hscheduled hwork hput
          · next hput => exact .overflowed st hst hclosing hcancelled hscheduled hwork hput

/-- A notification changes the notified stream in its flag only. -/
theorem Notified.streams {s s' : ServerState κ} {i : Nat} {raised : Bool} {st : Stream κ}
    (h : Notified s i s' raised) (hst : s.streams[i]? = some st) :
    s'.metrics = s.metrics ∧
      ∃ scheduled, s'.streams = s.streams.set i (st.flagged scheduled) := by
  cases h with
  | dropped _ =>
      obtain ⟨hlt, heq⟩ := List.getElem?_eq_some_iff.mp hst
      refine ⟨rfl, st.session.scheduled, ?_⟩
      change s.streams = s.streams.set i st
      rw [← heq, List.set_getElem_self]
  | queued st₁ ready hst₁ =>
      obtain rfl := Option.some.inj (hst.symm.trans hst₁)
      exact ⟨rfl, true, rfl⟩
  | overflowed st₁ hst₁ =>
      obtain rfl := Option.some.inj (hst.symm.trans hst₁)
      exact ⟨rfl, true, rfl⟩

/-- The put of a work item and the notification behind it change one stream. -/
theorem notify_enqueue {s s' : ServerState κ} {i : Nat} {st : Stream κ} {work : ModelWork}
    {q : BoundedQueue ModelWork} {raised : Bool} (hst : s.streams[i]? = some st)
    (hn : notify (s.onStream i (enqueue work q)) i = (s', raised)) :
    ∃ scheduled, s'.streams = s.streams.set i ((st.queued q).flagged scheduled) := by
  rw [ServerState.onStream_eq hst] at hn
  have hst₁ := ServerState.get?_withStream hst (enqueue work q st s.metrics).1
    (enqueue work q st s.metrics).2 i
  rw [if_pos rfl] at hst₁
  have hspec := notify_spec (s.withStream i (enqueue work q st s.metrics).1
    (enqueue work q st s.metrics).2) i
  rw [hn] at hspec
  obtain ⟨-, scheduled, hstreams⟩ := hspec.streams hst₁
  refine ⟨scheduled, ?_⟩
  rw [hstreams, ServerState.withStream, List.set_set]
  rfl

/-- The same, stream by stream. -/
theorem get?_notify_enqueue {s s' : ServerState κ} {i : Nat} {st : Stream κ} {work : ModelWork}
    {q : BoundedQueue ModelWork} {raised : Bool} (hst : s.streams[i]? = some st)
    (hn : notify (s.onStream i (enqueue work q)) i = (s', raised)) :
    (∃ scheduled, s'.streams[i]? = some ((st.queued q).flagged scheduled)) ∧
      ∀ j, i ≠ j → s'.streams[j]? = s.streams[j]? := by
  obtain ⟨scheduled, hstreams⟩ := notify_enqueue hst hn
  have hi : i < s.streams.length := (List.getElem?_eq_some_iff.mp hst).1
  rw [hstreams]
  exact ⟨⟨scheduled, List.getElem?_set_self hi⟩, fun j hj => List.getElem?_set_ne hj⟩

/-! ## What a step does -/

theorem onReading_eq_some {i : Nat} {f : Bool → Stream κ → Metrics → Stream κ × Metrics}
    {s s' : ServerState κ} (h : onReading i f s = some s') :
    ∃ st sawEnd, s.streams[i]? = some st ∧ st.reader = .reading sawEnd ∧
      s' = s.onStream i (f sawEnd) := by
  unfold onReading at h
  split at h
  · next session sawEnd enh reg hist hst =>
      cases h
      exact ⟨_, sawEnd, hst, rfl, rfl⟩
  · cases h

/-- What the return of a put does to the server. -/
inductive PutStep (i : Nat) (s : ServerState κ) : ServerState κ → Prop where
  | notified {st work q s₁} (hst : s.streams[i]? = some st) (hw : st.reader.work? = some work)
      (hq : st.session.inputQueue.putNowait work = some q)
      (hn : notify (s.onStream i (enqueue work q)) i = (s₁, false)) :
      PutStep i s (s₁.onStream i afterPut)
  /-- The ready queue is full, and the reader fails. -/
  | overflowed {st work q s₁} (hst : s.streams[i]? = some st) (hw : st.reader.work? = some work)
      (hq : st.session.inputQueue.putNowait work = some q)
      (hn : notify (s.onStream i (enqueue work q)) i = (s₁, true)) :
      PutStep i s (s₁.onStream i (failReader ⟨.internal, "request processing failed"⟩))

theorem put_step {i : Nat} {s s' : ServerState κ} (h : put i s = some s') : PutStep i s s' := by
  unfold put at h
  split at h
  · cases h
  · next st hst =>
      split at h
      · cases h
      · next work hw =>
          split at h
          · cases h
          · next q hq =>
              split at h
              · next s₁ hn =>
                  cases h
                  exact .notified hst hw hq hn
              · next s₁ hn =>
                  cases h
                  exact .overflowed hst hw hq hn

/-- What a generator does to the server from one suspension to the next. -/
inductive ResumeStep (i : Nat) (s : ServerState κ) : ServerState κ → Prop where
  | afterAccepted {st} (hst : s.streams[i]? = some st) (he : st.enhance = .accepted) :
      ResumeStep i s (s.onStream i afterAccepted)
  | afterAudio {st} (hst : s.streams[i]? = some st) (he : st.enhance = .audio) :
      ResumeStep i s (s.onStream i afterAudio)
  | handle {st event q st' m'} (hst : s.streams[i]? = some st) (he : st.enhance = .waiting)
      (hget : st.session.outputQueue.getNowait = some (event, q))
      (hh : handleEvent event (st.withOutput q) s.metrics = (some st', m')) :
      ResumeStep i s (s.withStream i st' m')
  | handleRaise {st event q m'} (hst : s.streams[i]? = some st) (he : st.enhance = .waiting)
      (hget : st.session.outputQueue.getNowait = some (event, q))
      (hh : handleEvent event (st.withOutput q) s.metrics = (none, m')) :
      ResumeStep i s (finish i (s.withStream i (st.withOutput q) m'))
  | ends {st} (hst : s.streams[i]? = some st)
      (he : st.enhance = .ended ∨ ∃ failure, st.enhance = .aborting failure) :
      ResumeStep i s (finish i s)

theorem resume_step {i : Nat} {s s' : ServerState κ} (h : resume i s = some s') :
    ResumeStep i s s' := by
  unfold resume at h
  split at h
  · cases h
  · next st hst =>
      split at h
      · next he =>
          cases h
          exact .afterAccepted hst he
      · next he =>
          cases h
          exact .afterAudio hst he
      · next he =>
          split at h
          · cases h
          · next event q hget =>
              dsimp only at h
              split at h
              · next st' m' hh =>
                  cases h
                  exact .handle hst he hget hh
              · next m' hh =>
                  cases h
                  exact .handleRaise hst he hget hh
      · next he =>
          cases h
          exact .ends hst (.inl he)
      · next failure he =>
          cases h
          exact .ends hst (.inr ⟨failure, he⟩)
      · cases h

/-- Where the scheduler goes with the work items it took. -/
def Loop.taken (active : List (Flight κ)) : Loop κ :=
  if active.isEmpty then .idle else .inference active

@[simp] theorem Loop.taken_flights (active : List (Flight κ)) :
    (Loop.taken active).flights = active := by
  unfold Loop.taken
  split
  · next hempty => exact (List.isEmpty_iff.mp hempty).symm
  · rfl

@[simp] theorem Loop.taken_gathered (active : List (Flight κ)) :
    (Loop.taken active).gathered = [] := by
  unfold Loop.taken
  split <;> rfl

/-- What an event does to the server, and what it finds there. -/
inductive ServerStep (settings : ServerSettings) (model : StreamingModel κ) (s : ServerState κ) :
    Event κ → ServerState κ → Prop where
  | enhance (first) :
      ServerStep settings model s (.enhance first) (enhance settings model first s)
  | deliver {i st sawEnd} (message) (hst : s.streams[i]? = some st)
      (hr : st.reader = .reading sawEnd) : ServerStep settings model s (.deliver i message)
        (s.onStream i (readMessage settings sawEnd message))
  | closeInput {i st sawEnd} (hst : s.streams[i]? = some st) (hr : st.reader = .reading sawEnd) :
      ServerStep settings model s (.closeInput i) (s.onStream i (readEof sawEnd))
  | idleTimeout {i st sawEnd} (hst : s.streams[i]? = some st) (hr : st.reader = .reading sawEnd) :
      ServerStep settings model s (.idleTimeout i)
        (s.onStream i (failReader ⟨.deadlineExceeded, "stream idle timeout"⟩))
  | requestError {i st sawEnd} (hst : s.streams[i]? = some st)
      (hr : st.reader = .reading sawEnd) : ServerStep settings model s (.requestError i)
        (s.onStream i (failReader ⟨.internal, "request processing failed"⟩))
  | put {i s'} (h : put i s = some s') : ServerStep settings model s (.put i) s'
  | resume {i s'} (h : resume i s = some s') : ServerStep settings model s (.resume i) s'
  | cancelCall {i st} (hst : s.streams[i]? = some st) (he : st.enhance ≠ .finished) :
      ServerStep settings model s (.cancelCall i) (finish i s)
  | gatherFirst {i ready} (hloop : s.loop = .idle) (hget : s.ready.getNowait = some (i, ready)) :
      ServerStep settings model s .gather { s with ready, loop := .gathering [i] }
  | gatherNext {sessions i ready} (hloop : s.loop = .gathering sessions)
      (hget : s.ready.getNowait = some (i, ready))
      (hroom : sessions.length < settings.maxBatchSize) :
      ServerStep settings model s .gather { s with ready, loop := .gathering (sessions ++ [i]) }
  | dispatch {sessions} (hloop : s.loop = .gathering sessions) :
      ServerStep settings model s .dispatch
        { (takeBatch sessions s).1 with loop := .taken (takeBatch sessions s).2 }
  | inferenceReturned {active} (wav updated) (hloop : s.loop = .inference active) :
      ServerStep settings model s (.inferenceReturned wav updated)
        (applyBatch (wav.map float32ToPcm16le) updated 0 active s)
  | inferenceRaised {active} (hloop : s.loop = .inference active) :
      ServerStep settings model s .inferenceRaised (failBatch active s)
  | closeScheduler : ServerStep settings model s .closeScheduler
      { s with closing := true, loop := .stopped s.loop.flights }

theorem step_cases {settings : ServerSettings} {model : StreamingModel κ} {s s' : ServerState κ}
    {e : Event κ} (h : step settings model s e = some s') : ServerStep settings model s e s' := by
  cases e with
  | enhance first =>
      cases h
      exact .enhance first
  | deliver i message =>
      obtain ⟨st, sawEnd, hst, hr, rfl⟩ := onReading_eq_some h
      exact .deliver message hst hr
  | closeInput i =>
      obtain ⟨st, sawEnd, hst, hr, rfl⟩ := onReading_eq_some h
      exact .closeInput hst hr
  | idleTimeout i =>
      obtain ⟨st, sawEnd, hst, hr, rfl⟩ := onReading_eq_some h
      exact .idleTimeout hst hr
  | requestError i =>
      obtain ⟨st, sawEnd, hst, hr, rfl⟩ := onReading_eq_some h
      exact .requestError hst hr
  | put i => exact .put h
  | resume i => exact .resume h
  | cancelCall i =>
      simp only [step] at h
      split at h
      · cases h
      · next st hst =>
          split at h
          · cases h
          · next he =>
              cases h
              exact .cancelCall hst he
  | gather =>
      simp only [step] at h
      split at h
      · next i ready hloop hget =>
          cases h
          exact .gatherFirst hloop hget
      · next sessions i ready hloop hget =>
          split at h
          · next hroom =>
              cases h
              exact .gatherNext hloop hget hroom
          · cases h
      · cases h
  | dispatch =>
      simp only [step] at h
      split at h
      · next sessions hloop =>
          cases h
          exact .dispatch hloop
      · cases h
  | inferenceReturned wav updated =>
      simp only [step] at h
      split at h
      · next active hloop =>
          cases h
          exact .inferenceReturned wav updated hloop
      · cases h
  | inferenceRaised =>
      simp only [step] at h
      split at h
      · next active hloop =>
          cases h
          exact .inferenceRaised hloop
      · cases h
  | closeScheduler =>
      have hstopped : s' = { s with closing := true, loop := .stopped s.loop.flights } := by
        simp only [step] at h
        cases hloop : s.loop <;> rw [hloop] at h <;> cases h <;> rfl
      exact hstopped ▸ .closeScheduler

/-! ## Rounds -/

/-- The server in the middle of a loop of the scheduler. -/
structure Core (κ : Type*) where
  server : ServerState κ
  gathered : List Nat
  flights : List (Flight κ)

/-- The server between two steps. -/
def ServerState.core (s : ServerState κ) : Core κ := ⟨s, s.loop.gathered, s.loop.flights⟩

/-- What an argument about rounds assumes of the world. -/
structure Env (κ : Type*) where
  /-- The row and the caches that may answer a work item. -/
  answers : Flight κ → Option Bytes → Option κ → Prop
  /-- The states a new call may find. -/
  opens : ServerState κ → ClientMessage → Prop

/-- No assumption. -/
def Env.any : Env κ := ⟨fun _ _ _ => True, fun _ _ => True⟩

/-- The rows and caches the model returns answer the work items of a batch as `env` says. -/
def StreamingModel.Delivers (model : StreamingModel κ) (env : Env κ) : Prop :=
  ∀ (active : List (Flight κ)) (wav : List Tensor) (updated : List κ),
    model.returns (active.map fun f => f.work.samples) (active.map fun f => f.caches) wav updated →
    ∀ (j : Nat) (f : Flight κ), active[j]? = some f →
      env.answers f (wav.map float32ToPcm16le)[j]? updated[j]?

theorem StreamingModel.delivers_any (model : StreamingModel κ) : model.Delivers Env.any :=
  fun _ _ _ _ _ _ _ => trivial

/-- One round: the body of a loop of the scheduler, or the step of another task. -/
inductive Round (settings : ServerSettings) (model : StreamingModel κ)
    (env : Env κ) : Core κ → Core κ → Prop where
  /-- The scheduler comes to another suspension. -/
  | suspend {s g f} (loop) : Round settings model env ⟨s, g, f⟩ ⟨{ s with loop }, g, f⟩
  | enhance {s g f} (first) (ho : env.opens s first) :
      Round settings model env ⟨s, g, f⟩ ⟨enhance settings model first s, g, f⟩
  | read {s g f i st sawEnd} (message) (hst : s.streams[i]? = some st)
      (hr : st.reader = .reading sawEnd) :
      Round settings model env ⟨s, g, f⟩
        ⟨s.onStream i (readMessage settings sawEnd message), g, f⟩
  | eof {s g f i st sawEnd} (hst : s.streams[i]? = some st) (hr : st.reader = .reading sawEnd) :
      Round settings model env ⟨s, g, f⟩ ⟨s.onStream i (readEof sawEnd), g, f⟩
  | readFail {s g f i st sawEnd} (failure) (hst : s.streams[i]? = some st)
      (hr : st.reader = .reading sawEnd) :
      Round settings model env ⟨s, g, f⟩ ⟨s.onStream i (failReader failure), g, f⟩
  | put {s s' g f i st work q} (hst : s.streams[i]? = some st) (hw : st.reader.work? = some work)
      (hq : st.session.inputQueue.putNowait work = some q)
      (hn : notify (s.onStream i (enqueue work q)) i = (s', false)) :
      Round settings model env ⟨s, g, f⟩ ⟨s'.onStream i afterPut, g, f⟩
  | putOverflow {s s' g f i st work q} (hst : s.streams[i]? = some st)
      (hw : st.reader.work? = some work) (hq : st.session.inputQueue.putNowait work = some q)
      (hn : notify (s.onStream i (enqueue work q)) i = (s', true)) :
      Round settings model env ⟨s, g, f⟩
        ⟨s'.onStream i (failReader ⟨.internal, "request processing failed"⟩), g, f⟩
  | afterAccepted {s g f i st} (hst : s.streams[i]? = some st) (he : st.enhance = .accepted) :
      Round settings model env ⟨s, g, f⟩
        ⟨s.onStream i afterAccepted, g, f⟩
  | afterAudio {s g f i st} (hst : s.streams[i]? = some st) (he : st.enhance = .audio) :
      Round settings model env ⟨s, g, f⟩
        ⟨s.onStream i afterAudio, g, f⟩
  | handle {s g f i st event q st' m'} (hst : s.streams[i]? = some st)
      (he : st.enhance = .waiting) (hget : st.session.outputQueue.getNowait = some (event, q))
      (hh : handleEvent event { st with session := { st.session with outputQueue := q } }
        s.metrics = (some st', m')) :
      Round settings model env ⟨s, g, f⟩ ⟨s.withStream i st' m', g, f⟩
  | handleRaise {s g f i st event q m'} (hst : s.streams[i]? = some st)
      (he : st.enhance = .waiting) (hget : st.session.outputQueue.getNowait = some (event, q))
      (hh : handleEvent event { st with session := { st.session with outputQueue := q } }
        s.metrics = (none, m')) :
      Round settings model env ⟨s, g, f⟩
        ⟨finish i (s.withStream i { st with session := { st.session with outputQueue := q } } m'),
          g, f⟩
  | finish {s g f i st} (hst : s.streams[i]? = some st) (he : st.enhance ≠ .finished) :
      Round settings model env ⟨s, g, f⟩ ⟨finish i s, g, f⟩
  | gather {s g i ready} (hget : s.ready.getNowait = some (i, ready)) :
      Round settings model env ⟨s, g, []⟩ ⟨{ s with ready }, g ++ [i], []⟩
  | takeUnknown {s g f i} (hst : s.streams[i]? = none) :
      Round settings model env ⟨s, i :: g, f⟩ ⟨s, g, f⟩
  | take {s g f i st st' m' work} (hst : s.streams[i]? = some st)
      (ht : takeWork st s.metrics = ((st', m'), work)) :
      Round settings model env ⟨s, i :: g, f⟩
        ⟨s.withStream i st' m', g,
          f ++ (work.map fun work => ⟨i, work, st'.session.caches⟩).toList⟩
  | applyUnknown {s f flight} (hst : s.streams[flight.stream]? = none) :
      Round settings model env ⟨s, [], flight :: f⟩ ⟨s, [], f⟩
  | apply {s f flight row updated st st' m'} (hst : s.streams[flight.stream]? = some st)
      (hres : env.answers flight row updated)
      (ha : applyResult flight.work row updated st s.metrics = ((st', m'), .settled)) :
      Round settings model env ⟨s, [], flight :: f⟩ ⟨s.withStream flight.stream st' m', [], f⟩
  | applyNotify {s s' f flight row updated st st' m' raised}
      (hst : s.streams[flight.stream]? = some st) (hres : env.answers flight row updated)
      (ha : applyResult flight.work row updated st s.metrics = ((st', m'), .renotify))
      (hn : notify (s.withStream flight.stream st' m') flight.stream = (s', raised)) :
      Round settings model env ⟨s, [], flight :: f⟩ ⟨s', [], f⟩
  | applyRaised {s f flight row updated st st' m'} (hst : s.streams[flight.stream]? = some st)
      (hres : env.answers flight row updated)
      (ha : applyResult flight.work row updated st s.metrics = ((st', m'), .raised)) :
      Round settings model env ⟨s, [], flight :: f⟩
        ⟨s.withStream flight.stream st' m', [], flight :: f⟩
  | failUnknown {s f flight} (hst : s.streams[flight.stream]? = none) :
      Round settings model env ⟨s, [], flight :: f⟩ ⟨s, [], f⟩
  | fail {s f flight st} (hst : s.streams[flight.stream]? = some st) :
      Round settings model env ⟨s, [], flight :: f⟩
        ⟨s.onStream flight.stream failInference, [], f⟩
  | close {s g f} : Round settings model env ⟨s, g, f⟩ ⟨{ s with closing := true }, [], f⟩

variable {settings : ServerSettings} {model : StreamingModel κ}
  {env : Env κ}

/-- A sequence of rounds. -/
abbrev Rounds (settings : ServerSettings) (model : StreamingModel κ)
    (env : Env κ) : Core κ → Core κ → Prop :=
  Relation.ReflTransGen (Round settings model env)

theorem takeBatch_rounds (g : List Nat) (s : ServerState κ) (f : List (Flight κ)) :
    Rounds settings model env ⟨s, g, f⟩ ⟨(takeBatch g s).1, [], f ++ (takeBatch g s).2⟩ := by
  induction g generalizing s f with
  | nil =>
      rw [takeBatch, List.append_nil]
  | cons i rest ih =>
      cases hst : s.streams[i]? with
      | none =>
          rw [takeBatch]
          simp only [hst]
          exact .head (.takeUnknown hst) (ih s f)
      | some st =>
          cases ht : takeWork st s.metrics with
          | mk stm work =>
              obtain ⟨st', m'⟩ := stm
              refine .head (.take hst ht) ?_
              have hrest := ih (s.withStream i st' m')
                (f ++ (work.map fun work => ⟨i, work, st'.session.caches⟩).toList)
              rw [takeBatch]
              simp only [hst, ht]
              cases work with
              | none => simpa [ServerState.withStream] using hrest
              | some work => simpa [ServerState.withStream, List.append_assoc] using hrest

theorem applyBatch_rounds (pcmHops : List Bytes) (updated : List κ) (f : List (Flight κ))
    (index : Nat) (s : ServerState κ)
    (hres : ∀ (j : Nat) flight, f[j]? = some flight →
      env.answers flight pcmHops[index + j]? updated[index + j]?) :
    Rounds settings model env ⟨s, [], f⟩ (applyBatch pcmHops updated index f s).core := by
  induction f generalizing index s with
  | nil =>
      rw [applyBatch]
      exact .single (.suspend .idle)
  | cons flight rest ih =>
      have hhead : env.answers flight pcmHops[index]? updated[index]? := by
        simpa using hres 0 flight rfl
      have htail : ∀ (j : Nat) fl, rest[j]? = some fl →
          env.answers fl pcmHops[index + 1 + j]? updated[index + 1 + j]? := by
        intro j fl hj
        rw [Nat.add_assoc, Nat.add_comm 1 j]
        exact hres (j + 1) fl (by simpa using hj)
      cases hst : s.streams[flight.stream]? with
      | none =>
          rw [applyBatch]
          simp only [hst]
          exact .head (.applyUnknown hst) (ih _ _ htail)
      | some st =>
          cases ha : applyResult flight.work pcmHops[index]? updated[index]? st s.metrics with
          | mk stm outcome =>
              obtain ⟨st', m'⟩ := stm
              rw [applyBatch]
              simp only [hst, ha]
              cases outcome with
              | settled => exact .head (.apply hst hhead ha) (ih _ _ htail)
              | raised =>
                  exact .head (.applyRaised hst hhead ha) (.single (.suspend _))
              | renotify =>
                  cases hn : notify (s.withStream flight.stream st' m') flight.stream with
                  | mk s' raised =>
                      refine .head (.applyNotify hst hhead ha hn) ?_
                      simp only [ServerState.withStream] at hn
                      simp only [hn]
                      cases raised with
                      | false => exact ih _ _ htail
                      | true => exact .single (.suspend (.stopped rest))

theorem failBatch_rounds (f : List (Flight κ)) (s : ServerState κ) :
    Rounds settings model env ⟨s, [], f⟩ (failBatch f s).core := by
  induction f generalizing s with
  | nil =>
      rw [failBatch]
      exact .single (.suspend .idle)
  | cons flight rest ih =>
      rw [failBatch]
      cases hst : s.streams[flight.stream]? with
      | none =>
          rw [ServerState.onStream, hst]
          exact .head (.failUnknown hst) (ih s)
      | some st => exact .head (.fail hst) (ih _)

/-- The tasks other than the scheduler do not touch its suspension. -/
@[simp] theorem onStream_loop (s : ServerState κ) (i : Nat)
    (f : Stream κ → Metrics → Stream κ × Metrics) : (s.onStream i f).loop = s.loop := by
  unfold ServerState.onStream
  split <;> rfl

@[simp] theorem notify_loop (s : ServerState κ) (i : Nat) : (notify s i).1.loop = s.loop := by
  unfold notify
  split
  · rfl
  · split
    · rfl
    · dsimp only
      split <;> simp

@[simp] theorem finish_loop (s : ServerState κ) (i : Nat) : (finish i s).loop = s.loop := by
  unfold finish
  split
  · rfl
  · dsimp only
    split <;> simp

@[simp] theorem enhance_loop (first : ClientMessage) (s : ServerState κ) :
    (enhance settings model first s).loop = s.loop := by
  unfold enhance
  split
  · rfl
  · dsimp only
    split
    · rfl
    · split <;> simp

/-- A round whose effect on the server leaves the scheduler suspended where it was. -/
theorem Round.single_core {s s' : ServerState κ} (hloop : s'.loop = s.loop)
    (h : Round settings model env ⟨s, s.loop.gathered, s.loop.flights⟩
      ⟨s', s.loop.gathered, s.loop.flights⟩) : Rounds settings model env s.core s'.core := by
  unfold ServerState.core
  rw [hloop]
  exact .single h

theorem put_rounds {i : Nat} {s s' : ServerState κ} (h : put i s = some s') :
    Rounds settings model env s.core s'.core := by
  cases put_step h with
  | @notified st work q s₁ hst hw hq hn =>
      have hloop : (notify (s.onStream i (enqueue work q)) i).1.loop = s.loop := by simp
      rw [hn] at hloop
      exact Round.single_core (by simpa using hloop) (.put hst hw hq hn)
  | @overflowed st work q s₁ hst hw hq hn =>
      have hloop : (notify (s.onStream i (enqueue work q)) i).1.loop = s.loop := by simp
      rw [hn] at hloop
      exact Round.single_core (by simpa using hloop) (.putOverflow hst hw hq hn)

theorem resume_rounds {i : Nat} {s s' : ServerState κ} (h : resume i s = some s') :
    Rounds settings model env s.core s'.core := by
  cases resume_step h with
  | afterAccepted hst he => exact Round.single_core (by simp) (.afterAccepted hst he)
  | afterAudio hst he => exact Round.single_core (by simp) (.afterAudio hst he)
  | handle hst he hget hh => exact Round.single_core rfl (.handle hst he hget hh)
  | handleRaise hst he hget hh =>
      exact Round.single_core (finish_loop _ i) (.handleRaise hst he hget hh)
  | ends hst he =>
      refine Round.single_core (by simp) (.finish hst ?_)
      rcases he with he | ⟨failure, he⟩
      · rw [he]
        nofun
      · rw [he]
        nofun

/-- Every step of the server is a sequence of rounds. -/
theorem step_rounds (hd : model.Delivers env) {s s' : ServerState κ} {e : Event κ}
    (ho : ∀ first, e = .enhance first → env.opens s first)
    (h : (system settings model).Step s e s') : Rounds settings model env s.core s'.core := by
  have hallowed := h.allowed
  cases step_cases h.eq with
  | enhance first => exact Round.single_core (by simp) (.enhance first (ho first rfl))
  | deliver message hst hr => exact Round.single_core (by simp) (.read message hst hr)
  | closeInput hst hr => exact Round.single_core (by simp) (.eof hst hr)
  | idleTimeout hst hr => exact Round.single_core (by simp) (.readFail _ hst hr)
  | requestError hst hr => exact Round.single_core (by simp) (.readFail _ hst hr)
  | put h => exact put_rounds h
  | resume h => exact resume_rounds h
  | cancelCall hst he => exact Round.single_core (by simp) (.finish hst he)
  | gatherFirst hloop hget =>
      simp only [ServerState.core, hloop, Loop.gathered, Loop.flights]
      exact .head (.gather hget) (.single (.suspend _))
  | gatherNext hloop hget _ =>
      simp only [ServerState.core, hloop, Loop.gathered, Loop.flights]
      exact .head (.gather hget) (.single (.suspend _))
  | @dispatch sessions hloop =>
      have hrounds : Rounds settings model env ⟨s, sessions, []⟩
          ⟨(takeBatch sessions s).1, [], [] ++ (takeBatch sessions s).2⟩ :=
        takeBatch_rounds sessions s []
      simp only [ServerState.core, hloop, Loop.taken_flights, Loop.taken_gathered]
      exact hrounds.trans (.single (.suspend _))
  | @inferenceReturned active wav updated hloop =>
      simp only [system, allows, hloop, Loop.flights] at hallowed
      have hrounds : Rounds settings model env ⟨s, [], active⟩
          (applyBatch (wav.map float32ToPcm16le) updated 0 active s).core :=
        applyBatch_rounds _ updated active 0 s (by simpa using hd active wav updated hallowed)
      simpa only [ServerState.core, hloop, Loop.gathered, Loop.flights] using hrounds
  | @inferenceRaised active hloop =>
      have hrounds : Rounds settings model env ⟨s, [], active⟩ (failBatch active s).core :=
        failBatch_rounds active s
      simpa only [ServerState.core, hloop, Loop.gathered, Loop.flights] using hrounds
  | closeScheduler => exact .head .close (.single (.suspend _))

/-- What every round preserves holds in every reachable state, where the steps of the run open
new calls as `env` assumes. -/
theorem restricted_invariant {C : ServerState κ → Event κ → Prop} (hd : model.Delivers env)
    (ho : ∀ s first, C s (.enhance first) → env.opens s first) {I : Core κ → Prop}
    (hinit : I (ServerState.init settings).core)
    (hround : ∀ c c', I c → Round settings model env c c' → I c') {s : ServerState κ}
    (h : ((system settings model).restrict C).Reachable s) : I s.core := by
  refine Lts.System.Reachable.invariant (I := fun s => I s.core) hinit (fun s e s' hs hstep => ?_) h
  have hopens : ∀ first, e = .enhance first → env.opens s first := fun first he =>
    ho s first (he ▸ hstep.allowed.2)
  have hrounds := step_rounds hd hopens hstep.of_restrict
  generalize s'.core = c' at hrounds ⊢
  induction hrounds with
  | refl => exact hs
  | tail _ hr ih => exact hround _ _ ih hr

/-- What every round preserves holds in every reachable state. -/
theorem reachable_invariant (hd : model.Delivers env) (ho : ∀ s first, env.opens s first)
    {I : Core κ → Prop} (hinit : I (ServerState.init settings).core)
    (hround : ∀ c c', I c → Round settings model env c c' → I c') {s : ServerState κ}
    (h : (system settings model).Reachable s) : I s.core :=
  restricted_invariant hd (fun s first _ => ho s first) hinit hround
    (h.restrict (C := fun _ _ => True) fun _ _ _ _ => trivial)

end VoxLattice.Server
