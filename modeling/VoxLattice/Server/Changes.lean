import VoxLattice.Server.Streams

/-!
# Rounds, seen from the registry and the metrics

`Change` is what a round does to one stream together with the metrics, short of the end of the
call.  `Touched` is what a round does to the streams, the registry and the metrics: nothing, a
new call, a change of one stream, or the end of one call.  The ready queue and the scheduler's
loop are out of sight here.
-/

namespace VoxLattice.Server

variable {κ : Type*}

/-- What a round does to one stream and the metrics. -/
inductive Change (settings : ServerSettings) : Stream κ × Metrics → Stream κ × Metrics → Prop where
  | read {st m sawEnd} (message) (hr : st.reader = .reading sawEnd) :
      Change settings (st, m) (readMessage settings sawEnd message st m)
  | eof {st m sawEnd} (hr : st.reader = .reading sawEnd) :
      Change settings (st, m) (readEof sawEnd st m)
  | readFail {st m sawEnd} (failure) (hr : st.reader = .reading sawEnd) :
      Change settings (st, m) (failReader failure st m)
  | put {st m work q} (scheduled) (hw : st.reader.work? = some work)
      (hq : st.session.inputQueue.putNowait work = some q) :
      Change settings (st, m)
        (afterPut ((enqueue work q st m).1.flagged scheduled) (enqueue work q st m).2)
  | putOverflow {st m work q} (scheduled) (hw : st.reader.work? = some work)
      (hq : st.session.inputQueue.putNowait work = some q) :
      Change settings (st, m) (failReader ⟨.internal, "request processing failed"⟩
        ((enqueue work q st m).1.flagged scheduled) (enqueue work q st m).2)
  | afterAccepted {st m} (he : st.enhance = .accepted) :
      Change settings (st, m) (afterAccepted st m)
  | afterAudio {st m} (he : st.enhance = .audio) : Change settings (st, m) (afterAudio st m)
  | handle {st m event q st' m'} (he : st.enhance = .waiting)
      (hget : st.session.outputQueue.getNowait = some (event, q))
      (hh : handleEvent event (st.withOutput q) m = (some st', m')) :
      Change settings (st, m) (st', m')
  | take {st m} : Change settings (st, m) (takeWork st m).1
  | apply {st m} (work row updated scheduled) :
      Change settings (st, m) ((applyResult work row updated st m).1.1.flagged scheduled,
        (applyResult work row updated st m).1.2)
  | fail {st m} : Change settings (st, m) (failInference st m)

/-- What a round does to the streams, the registry and the metrics. -/
inductive Touched (settings : ServerSettings) (model : StreamingModel κ) (env : Env κ)
    (s s' : ServerState κ) : Prop where
  | still (hstreams : s'.streams = s.streams) (hregistry : s'.registry = s.registry)
      (hmetrics : s'.metrics = s.metrics)
  | enhance (first) (ho : env.opens s first) (h : s' = enhance settings model first s)
  | change (i st st') (hst : s.streams[i]? = some st)
      (hc : Change settings (st, s.metrics) (st', s'.metrics))
      (hstreams : s'.streams = s.streams.set i st') (hregistry : s'.registry = s.registry)
  | handleRaise (i st event q m') (hst : s.streams[i]? = some st) (he : st.enhance = .waiting)
      (hget : st.session.outputQueue.getNowait = some (event, q))
      (hh : handleEvent event (st.withOutput q) s.metrics = (none, m'))
      (h : s' = finish i (s.withStream i (st.withOutput q) m'))
  | finish (i st) (hst : s.streams[i]? = some st) (he : st.enhance ≠ .finished)
      (h : s' = finish i s)

section Change

variable {settings : ServerSettings} {x y : Stream κ × Metrics}

/-- A change leaves a stream its ID and its standing with the registry. -/
theorem Change.known (h : Change settings x y) :
    y.1.session.streamId = x.1.session.streamId ∧ y.1.registered = x.1.registered := by
  have hcalm : ∀ {st st' : Stream κ}, Stream.Calm st st' →
      st'.session.streamId = st.session.streamId ∧ st'.registered = st.registered :=
    fun hc => ⟨hc.streamId, hc.registered⟩
  cases h with
  | read message _ => exact hcalm (readMessage_calm settings _ message _ _)
  | eof _ => exact hcalm (readEof_calm _ _ _)
  | readFail failure _ => exact ⟨rfl, rfl⟩
  | put scheduled _ _ =>
      exact ⟨(afterPut_calm _ _).streamId, (afterPut_calm _ _).registered⟩
  | putOverflow scheduled _ _ => exact ⟨rfl, rfl⟩
  | afterAccepted _ => exact ⟨rfl, rfl⟩
  | afterAudio _ => exact ⟨rfl, rfl⟩
  | handle _ _ hh => exact ⟨(handleEvent_calm hh).streamId, (handleEvent_calm hh).registered⟩
  | @take st m => exact ⟨(takeWork_calm st m).streamId, (takeWork_calm st m).registered⟩
  | @apply st m work row updated scheduled =>
      have hc := applyResult_calm work row updated st m
      exact ⟨hc.streamId, hc.registered⟩
  | fail => exact ⟨rfl, rfl⟩

/-- A handled event does not end the call. -/
theorem handleEvent_ne_finished {event : OutputEvent} {st st' : Stream κ} {m m' : Metrics}
    (h : handleEvent event st m = (some st', m')) : st'.enhance ≠ .finished := by
  cases event with
  | audio audio =>
      simp only [handleEvent, Prod.mk.injEq, Option.map_eq_some_iff] at h
      obtain ⟨⟨message, -, rfl⟩, -⟩ := h
      exact Generator.noConfusion
  | completion completion =>
      simp only [handleEvent, Prod.mk.injEq, Option.map_eq_some_iff] at h
      obtain ⟨⟨message, -, rfl⟩, -⟩ := h
      exact Generator.noConfusion
  | failure failure =>
      simp only [handleEvent, Prod.mk.injEq, Option.some.injEq] at h
      obtain ⟨rfl, -⟩ := h
      exact Generator.noConfusion

/-- No change ends a call or revives an ended one. -/
theorem Change.finished_iff (h : Change settings x y) :
    y.1.enhance = .finished ↔ x.1.enhance = .finished := by
  have hkeep : ∀ {st st' : Stream κ}, st'.generatorSide = st.generatorSide →
      (st'.enhance = .finished ↔ st.enhance = .finished) := fun hside =>
    Eq.congr (congrArg GeneratorSide.enhance hside) rfl
  cases h with
  | read message _ => exact hkeep (readMessage_offReader settings _ message _ _).generatorSide
  | eof _ => exact hkeep (readEof_offReader _ _ _).generatorSide
  | readFail failure _ => exact Iff.rfl
  | put scheduled _ _ => exact hkeep (afterPut_offReader _ _).generatorSide
  | putOverflow scheduled _ _ => exact Iff.rfl
  | afterAccepted he => exact iff_of_false Generator.noConfusion (by simp [he])
  | afterAudio he => exact iff_of_false Generator.noConfusion (by simp [he])
  | handle he _ hh => exact iff_of_false (handleEvent_ne_finished hh) (by simp [he])
  | @take st m => exact hkeep (takeWork_offScheduler st m).generatorSide
  | @apply st m work row updated scheduled =>
      exact hkeep (applyResult_offScheduler work row updated st m).generatorSide
  | fail => exact Iff.rfl

end Change

section Touched

variable {settings : ServerSettings} {model : StreamingModel κ} {env : Env κ}
  {s s' : ServerState κ} {i : Nat} {st : Stream κ}

theorem Touched.onStream (hst : s.streams[i]? = some st)
    {change : Stream κ → Metrics → Stream κ × Metrics}
    (hc : Change settings (st, s.metrics) (change st s.metrics)) :
    Touched settings model env s (s.onStream i change) := by
  rw [ServerState.onStream_eq hst]
  exact .change i st _ hst hc rfl rfl

@[simp] theorem Notified.registry {raised : Bool} (h : Notified s i s' raised) :
    s'.registry = s.registry := by
  cases h <;> rfl

/-- A notification after a change of the same stream. -/
theorem Touched.notify {st' : Stream κ} {m : Metrics} {raised : Bool}
    (hst : s.streams[i]? = some st) (hn : Server.notify (s.withStream i st' m) i = (s', raised)) :
    ∃ scheduled, s'.metrics = m ∧ s'.streams = s.streams.set i (st'.flagged scheduled) ∧
      s'.registry = s.registry := by
  have hspec := notify_spec (s.withStream i st' m) i
  rw [hn] at hspec
  have hst' := ServerState.get?_withStream hst st' m i
  rw [if_pos rfl] at hst'
  obtain ⟨hmetrics, scheduled, hstreams⟩ := hspec.streams hst'
  refine ⟨scheduled, hmetrics, ?_, hspec.registry⟩
  rw [hstreams, ServerState.withStream, List.set_set]

/-- A put, the notification after it and what the reader does then are one change. -/
theorem Touched.put {work : ModelWork} {q : BoundedQueue ModelWork} {raised : Bool}
    (hst : s.streams[i]? = some st)
    (hn : Server.notify (s.onStream i (enqueue work q)) i = (s', raised))
    {change : Stream κ → Metrics → Stream κ × Metrics}
    (hc : ∀ scheduled, Change settings (st, s.metrics)
      (change ((enqueue work q st s.metrics).1.flagged scheduled)
        (enqueue work q st s.metrics).2)) :
    Touched settings model env s (s'.onStream i change) := by
  rw [ServerState.onStream_eq hst] at hn
  obtain ⟨scheduled, hmetrics, hstreams, hregistry⟩ := Touched.notify hst hn
  have hst' := get?_set hst ((enqueue work q st s.metrics).1.flagged scheduled) i
  rw [if_pos rfl, ← hstreams] at hst'
  rw [ServerState.onStream_eq hst', hmetrics]
  refine .change i st _ hst (hc scheduled) ?_ hregistry
  rw [ServerState.withStream, hstreams, List.set_set]

theorem Round.touched {c c' : Core κ} (h : Round settings model env c c') :
    Touched settings model env c.server c'.server := by
  cases h with
  | suspend loop => exact .still rfl rfl rfl
  | enhance first ho => exact .enhance first ho rfl
  | read message hst hr => exact .onStream hst (.read message hr)
  | eof hst hr => exact .onStream hst (.eof hr)
  | readFail failure hst hr => exact .onStream hst (.readFail failure hr)
  | put hst hw hq hn => exact .put hst hn fun scheduled => .put scheduled hw hq
  | putOverflow hst hw hq hn => exact .put hst hn fun scheduled => .putOverflow scheduled hw hq
  | afterAccepted hst he => exact .onStream hst (.afterAccepted he)
  | afterAudio hst he => exact .onStream hst (.afterAudio he)
  | handle hst he hget hh => exact .change _ _ _ hst (.handle he hget hh) rfl rfl
  | handleRaise hst he hget hh => exact .handleRaise _ _ _ _ _ hst he hget hh rfl
  | finish hst he => exact .finish _ _ hst he rfl
  | gather _ => exact .still rfl rfl rfl
  | takeUnknown _ => exact .still rfl rfl rfl
  | @take s g f i st st' m' work hst ht =>
      have hc : Change settings (st, s.metrics) (takeWork st s.metrics).1 := .take
      rw [ht] at hc
      exact .change i st st' hst hc rfl rfl
  | applyUnknown _ => exact .still rfl rfl rfl
  | @apply s f flight row updated st st' m' hst hres ha =>
      have hc : Change settings (st, s.metrics) _ :=
        .apply flight.work row updated st'.session.scheduled
      rw [ha] at hc
      exact .change flight.stream st st' hst hc rfl rfl
  | @applyNotify s s' f flight row updated st st' m' raised hst hres ha hn =>
      obtain ⟨scheduled, hmetrics, hstreams, hregistry⟩ := Touched.notify hst hn
      have hc : Change settings (st, s.metrics) _ := .apply flight.work row updated scheduled
      rw [ha] at hc
      rw [← hmetrics] at hc
      exact .change flight.stream st _ hst hc hstreams hregistry
  | @applyRaised s f flight row updated st st' m' hst hres ha =>
      have hc : Change settings (st, s.metrics) _ :=
        .apply flight.work row updated st'.session.scheduled
      rw [ha] at hc
      exact .change flight.stream st st' hst hc rfl rfl
  | failUnknown _ => exact .still rfl rfl rfl
  | fail hst => exact .onStream hst .fail
  | close => exact .still rfl rfl rfl

end Touched

end VoxLattice.Server
