import VoxLattice.Server.Changes
import VoxLattice.Server.Prompt

/-!
# What a step does to one stream

A step may treat a whole batch, but each stream of a batch once.  So a step does one thing to a
stream and to its work item in inference, or nothing.  `StreamStep` lists these effects, with
the event that has them, and `step_effect` reads them off the step.

Rounds forget the event they belong to.  An argument about runs whose events are restricted
uses the effects of its events instead: `restricted_stream` is the induction.
-/

namespace VoxLattice.Server

variable {κ : Type*}

/-- What a step does to stream `i` and its work item in inference. -/
inductive StreamStep (settings : ServerSettings) (env : Env κ) (i : Nat) : Event κ →
    Stream κ → Option (Flight κ) → Stream κ → Option (Flight κ) → Prop where
  /-- The step does not reach the stream. -/
  | elsewhere {e st fl} : StreamStep settings env i e st fl st fl
  | read {st fl sawEnd} (message m) (hr : st.reader = .reading sawEnd) :
      StreamStep settings env i (.deliver i message) st fl
        (readMessage settings sawEnd message st m).1 fl
  | eof {st fl sawEnd} (m) (hr : st.reader = .reading sawEnd) :
      StreamStep settings env i (.closeInput i) st fl (readEof sawEnd st m).1 fl
  | idleTimeout {st fl sawEnd} (m) (hr : st.reader = .reading sawEnd) :
      StreamStep settings env i (.idleTimeout i) st fl
        (failReader ⟨.deadlineExceeded, "stream idle timeout"⟩ st m).1 fl
  | requestError {st fl sawEnd} (m) (hr : st.reader = .reading sawEnd) :
      StreamStep settings env i (.requestError i) st fl
        (failReader ⟨.internal, "request processing failed"⟩ st m).1 fl
  | put {st fl work q} (scheduled m) (hw : st.reader.work? = some work)
      (hq : st.session.inputQueue.putNowait work = some q) :
      StreamStep settings env i (.put i) st fl (afterPut ((st.queued q).flagged scheduled) m).1 fl
  | putOverflow {st fl work q} (m) (hw : st.reader.work? = some work)
      (hq : st.session.inputQueue.putNowait work = some q)
      (hcan : st.session.cancelled = false) :
      StreamStep settings env i (.put i) st fl (failReader ⟨.internal, "request processing failed"⟩
        ((st.queued q).flagged true) m).1 fl
  | afterAccepted {st fl} (m) (he : st.enhance = .accepted) :
      StreamStep settings env i (.resume i) st fl (afterAccepted st m).1 fl
  | afterAudio {st fl} (m) (he : st.enhance = .audio) :
      StreamStep settings env i (.resume i) st fl (afterAudio st m).1 fl
  | handle {st fl event q st'} (m m') (he : st.enhance = .waiting)
      (hget : st.session.outputQueue.getNowait = some (event, q))
      (hh : handleEvent event (st.withOutput q) m = (some st', m')) :
      StreamStep settings env i (.resume i) st fl st' fl
  | handleRaise {st fl event q} (m m') (he : st.enhance = .waiting)
      (hget : st.session.outputQueue.getNowait = some (event, q))
      (hh : handleEvent event (st.withOutput q) m = (none, m')) :
      StreamStep settings env i (.resume i) st fl (finallyBlock (st.withOutput q) m').1 fl
  | ends {st fl} (m) (he : st.enhance = .ended ∨ ∃ failure, st.enhance = .aborting failure) :
      StreamStep settings env i (.resume i) st fl (finallyBlock st m).1 fl
  | cancelCall {st fl} (m) (he : st.enhance ≠ .finished) :
      StreamStep settings env i (.cancelCall i) st fl (finallyBlock st m).1 fl
  | take {st} (m) :
      StreamStep settings env i .dispatch st none (takeWork st m).1.1
        ((takeWork st m).2.map fun work => ⟨i, work, (takeWork st m).1.1.session.caches⟩)
  | apply {wav updated st flight row caches} (m) (hres : env.answers flight row caches)
      (ho : (applyResult flight.work row caches st m).2 ≠ .raised) (scheduled) :
      StreamStep settings env i (.inferenceReturned wav updated) st (some flight)
        ((applyResult flight.work row caches st m).1.1.flagged scheduled) none
  | applyRaised {wav updated st flight row caches} (m) (hres : env.answers flight row caches)
      (ho : (applyResult flight.work row caches st m).2 = .raised) :
      StreamStep settings env i (.inferenceReturned wav updated) st (some flight)
        (applyResult flight.work row caches st m).1.1 (some flight)
  | fail {st flight} (m) :
      StreamStep settings env i .inferenceRaised st (some flight) (failInference st m).1 none

/-- The event is a step of the reader of stream `i`. -/
def Event.ofReader (i : Nat) : Event κ → Bool
  | .deliver j _ | .closeInput j | .idleTimeout j | .requestError j | .put j => j = i
  | _ => false

/-- The other tasks leave the reader alone, or cancel it. -/
theorem StreamStep.offReader {settings : ServerSettings} {env : Env κ} {i : Nat} {e : Event κ}
    {st st' : Stream κ} {fl fl' : Option (Flight κ)}
    (h : StreamStep settings env i e st fl st' fl') (he : e.ofReader i = false) :
    st'.readerSide = st.readerSide ∨
      st'.readerSide = { st.readerSide with reader := .done } ∧ st'.enhance = .finished := by
  have hown {event : Event κ} (hevent : event.ofReader i = true)
      (hother : event.ofReader i = false) : st'.readerSide = st.readerSide ∨
      st'.readerSide = { st.readerSide with reader := .done } ∧ st'.enhance = .finished :=
    absurd (hevent.symm.trans hother) nofun
  cases h with
  | elsewhere => exact .inl rfl
  | read message _ _ => exact hown (by simp [Event.ofReader]) he
  | eof _ _ => exact hown (by simp [Event.ofReader]) he
  | idleTimeout _ _ => exact hown (by simp [Event.ofReader]) he
  | requestError _ _ => exact hown (by simp [Event.ofReader]) he
  | put _ _ _ _ => exact hown (by simp [Event.ofReader]) he
  | putOverflow _ _ _ _ => exact hown (by simp [Event.ofReader]) he
  | afterAccepted _ _ => exact .inl rfl
  | afterAudio _ _ => exact .inl rfl
  | handle _ _ _ _ hh => exact .inl (handleEvent_offGenerator hh).readerSide
  | handleRaise _ _ _ _ _ => exact .inr ⟨rfl, rfl⟩
  | ends _ _ => exact .inr ⟨rfl, rfl⟩
  | cancelCall _ _ => exact .inr ⟨rfl, rfl⟩
  | take m => exact .inl (takeWork_offScheduler st m).readerSide
  | apply m _ _ _ => exact .inl (applyResult_offScheduler _ _ _ st m).readerSide
  | applyRaised m _ _ => exact .inl (applyResult_offScheduler _ _ _ st m).readerSide
  | fail _ => exact .inl rfl

/-! ## The loop over the results -/

section Loops

variable {env : Env κ} {s s' : ServerState κ} {i : Nat} {st : Stream κ}

/-- One round of the loop over the results, and the loop after it. -/
inductive AppliedCons (pcmHops : List Bytes) (updated : List κ) (index : Nat)
    (flight : Flight κ) (rest : List (Flight κ)) (st : Stream κ) (s s' : ServerState κ) :
    Prop where
  /-- The loop goes on, perhaps after a notification. -/
  | next (st' m' s₁ s₂) (ha : (applyResult flight.work pcmHops[index]? updated[index]? st
        s.metrics).1.1 = st')
      (ho : (applyResult flight.work pcmHops[index]? updated[index]? st s.metrics).2 ≠ .raised)
      (hs₁ : s₁ = s.withStream flight.stream st' m')
      (hs₂ : s₂ = s₁ ∨ s₂ = (notify s₁ flight.stream).1)
      (h : s' = applyBatch pcmHops updated (index + 1) rest s₂)
  /-- The ready queue is full, and the task ends. -/
  | overflowed (st' m' s₁) (ha : (applyResult flight.work pcmHops[index]? updated[index]? st
        s.metrics).1.1 = st')
      (ho : (applyResult flight.work pcmHops[index]? updated[index]? st s.metrics).2 ≠ .raised)
      (hs₁ : s₁ = s.withStream flight.stream st' m')
      (h : s' = { (notify s₁ flight.stream).1 with loop := .stopped rest })
  /-- The model returned too little, and the task ends. -/
  | raised (st' m') (ha : (applyResult flight.work pcmHops[index]? updated[index]? st
        s.metrics).1.1 = st')
      (ho : (applyResult flight.work pcmHops[index]? updated[index]? st s.metrics).2 = .raised)
      (h : s' = { s.withStream flight.stream st' m' with loop := .stopped (flight :: rest) })

theorem applyBatch_applied (pcmHops : List Bytes) (updated : List κ) (index : Nat)
    {flight : Flight κ} (rest : List (Flight κ)) (hst : s.streams[flight.stream]? = some st) :
    AppliedCons pcmHops updated index flight rest st s
      (applyBatch pcmHops updated index (flight :: rest) s) := by
  cases ha : applyResult flight.work pcmHops[index]? updated[index]? st s.metrics with
  | mk stm outcome =>
      obtain ⟨st', m'⟩ := stm
      have hstream : (applyResult flight.work pcmHops[index]? updated[index]? st
          s.metrics).1.1 = st' := by rw [ha]
      have houtcome : (applyResult flight.work pcmHops[index]? updated[index]? st
          s.metrics).2 = outcome := by rw [ha]
      rw [applyBatch]
      simp only [hst, ha]
      cases outcome with
      | raised => exact .raised st' m' hstream houtcome rfl
      | settled => exact .next st' m' _ _ hstream (by simp [houtcome]) rfl (.inl rfl) rfl
      | renotify =>
          cases hn : notify (s.withStream flight.stream st' m') flight.stream with
          | mk s₂ raised =>
              have hn' := hn
              simp only [ServerState.withStream] at hn'
              simp only [hn']
              cases raised with
              | true => exact .overflowed st' m' _ hstream (by simp [houtcome]) rfl (by rw [hn])
              | false =>
                  exact .next st' m' _ s₂ hstream (by simp [houtcome]) rfl (.inr (by rw [hn])) rfl

/-- A stream without a work item in the batch is left alone. -/
theorem applyBatch_elsewhere {f : List (Flight κ)} (hi : i ∉ f.map Flight.stream)
    (pcmHops : List Bytes) (updated : List κ) (index : Nat) (s : ServerState κ) :
    (applyBatch pcmHops updated index f s).streams[i]? = s.streams[i]? ∧
      i ∉ (applyBatch pcmHops updated index f s).loop.flights.map Flight.stream := by
  induction f generalizing index s with
  | nil => exact ⟨rfl, List.not_mem_nil⟩
  | cons flight rest ih =>
      have hrest : i ∉ rest.map Flight.stream := fun h => hi (List.mem_cons_of_mem _ h)
      have hne : flight.stream ≠ i := fun h => hi (h ▸ List.mem_cons_self)
      cases hst : s.streams[flight.stream]? with
      | none =>
          rw [applyBatch]
          simp only [hst]
          exact ih hrest _ s
      | some st =>
          have happlied := applyBatch_applied pcmHops updated index rest hst
          generalize applyBatch pcmHops updated index (flight :: rest) s = s' at happlied ⊢
          have hset : ∀ st' m',
              (s.withStream flight.stream st' m').streams[i]? = s.streams[i]? := fun st' m' => by
            rw [ServerState.get?_withStream hst, if_neg hne]
          cases happlied with
          | next st' m' s₁ s₂ _ _ hs₁ hs₂ h =>
              obtain ⟨hstreams, hflights⟩ := ih hrest (index + 1) s₂
              subst hs₁
              refine ⟨?_, h ▸ hflights⟩
              rw [h, hstreams, ← hset st' m']
              rcases hs₂ with rfl | rfl
              · rfl
              · exact get?_notify_ne hne
          | overflowed st' m' s₁ _ _ hs₁ h =>
              subst hs₁
              rw [h]
              exact ⟨(get?_notify_ne hne).trans (hset st' m'), hrest⟩
          | raised st' m' _ _ h =>
              rw [h]
              exact ⟨hset st' m', hi⟩

/-- A stream with a work item in the batch gets its result, unless the task ends before. -/
theorem applyBatch_effect (settings : ServerSettings) {f : List (Flight κ)}
    (hn : (f.map Flight.stream).Nodup)
    {pcmHops : List Bytes} {updated : List κ} {index : Nat}
    (hres : ∀ (j : Nat) flight, f[j]? = some flight →
      env.answers flight pcmHops[index + j]? updated[index + j]?)
    {flight : Flight κ} (hfl : flightOf i f = some flight) (hst : s.streams[i]? = some st)
    (wav : List Tensor) (caches : List κ) :
    ∃ st', (applyBatch pcmHops updated index f s).streams[i]? = some st' ∧
      StreamStep settings env i (.inferenceReturned wav caches) st (some flight) st'
        (flightOf i (applyBatch pcmHops updated index f s).loop.flights) := by
  induction f generalizing index s with
  | nil => cases hfl
  | cons first rest ih =>
      rw [List.map_cons, List.nodup_cons] at hn
      have hhead : env.answers first pcmHops[index]? updated[index]? := by
        simpa using hres 0 first rfl
      have htail : ∀ (j : Nat) fl, rest[j]? = some fl →
          env.answers fl pcmHops[index + 1 + j]? updated[index + 1 + j]? := by
        intro j fl hj
        rw [Nat.add_assoc, Nat.add_comm 1 j]
        exact hres (j + 1) fl (by simpa using hj)
      by_cases hji : first.stream = i
      · subst hji
        rw [flightOf_cons_self, Option.some.injEq] at hfl
        subst hfl
        have happlied := applyBatch_applied pcmHops updated index rest hst
        generalize applyBatch pcmHops updated index (first :: rest) s = s' at happlied ⊢
        cases happlied with
        | next st' m' s₁ s₂ ha ho hs₁ hs₂ h =>
            obtain ⟨hstreams, hflights⟩ := applyBatch_elsewhere hn.1 pcmHops updated (index + 1) s₂
            rw [h, hstreams, flightOf_eq_none.mpr hflights]
            have hset := ServerState.get?_withStream hst st' m' first.stream
            rw [if_pos rfl, ← hs₁] at hset
            rcases hs₂ with rfl | rfl
            · refine ⟨st', hset, ?_⟩
              have heffect : StreamStep settings env first.stream
                  (.inferenceReturned wav caches) st (some first) _ none :=
                .apply s.metrics hhead ho st'.session.scheduled
              rwa [ha] at heffect
            · obtain ⟨scheduled, hnotify, -⟩ := get?_notify hset first.stream
              exact ⟨_, hnotify, ha ▸ .apply s.metrics hhead ho scheduled⟩
        | overflowed st' m' s₁ ha ho hs₁ h =>
            have hset := ServerState.get?_withStream hst st' m' first.stream
            rw [if_pos rfl, ← hs₁] at hset
            obtain ⟨scheduled, hnotify, -⟩ := get?_notify hset first.stream
            rw [h]
            refine ⟨_, hnotify, ?_⟩
            change StreamStep settings env _ _ _ _ _ (flightOf first.stream rest)
            rw [flightOf_eq_none.mpr hn.1]
            exact ha ▸ .apply s.metrics hhead ho scheduled
        | raised st' m' ha ho h =>
            have hset := ServerState.get?_withStream hst st' m' first.stream
            rw [if_pos rfl] at hset
            rw [h]
            refine ⟨st', hset, ?_⟩
            change StreamStep settings env _ _ _ _ _ (flightOf first.stream (first :: rest))
            rw [flightOf_cons_self]
            exact ha ▸ .applyRaised s.metrics hhead ho
      · rw [flightOf_cons_ne hji] at hfl
        cases hj : s.streams[first.stream]? with
        | none =>
            rw [applyBatch]
            simp only [hj]
            exact ih hn.2 htail hfl hst
        | some st₁ =>
            have happlied := applyBatch_applied pcmHops updated index rest hj
            generalize applyBatch pcmHops updated index (first :: rest) s = s' at happlied ⊢
            have hset : ∀ st' m',
                (s.withStream first.stream st' m').streams[i]? = some st := fun st' m' => by
              rw [ServerState.get?_withStream hj, if_neg hji, hst]
            cases happlied with
            | next st' m' s₁ s₂ _ _ hs₁ hs₂ h =>
                rw [h]
                refine ih hn.2 htail hfl ?_
                subst hs₁
                rcases hs₂ with rfl | rfl
                · exact hset st' m'
                · exact (get?_notify_ne hji).trans (hset st' m')
            | overflowed st' m' s₁ _ _ hs₁ h =>
                subst hs₁
                rw [h]
                refine ⟨st, (get?_notify_ne hji).trans (hset st' m'), ?_⟩
                change StreamStep settings env _ _ _ _ _ (flightOf i rest)
                rw [hfl]
                exact .elsewhere
            | raised st' m' _ _ h =>
                rw [h]
                refine ⟨st, hset st' m', ?_⟩
                change StreamStep settings env _ _ _ _ _ (flightOf i (first :: rest))
                rw [flightOf_cons_ne hji, hfl]
                exact .elsewhere

theorem get?_failBatch_not_mem {f : List (Flight κ)} (hi : i ∉ f.map Flight.stream)
    (s : ServerState κ) : (failBatch f s).streams[i]? = s.streams[i]? := by
  induction f generalizing s with
  | nil => rfl
  | cons flight rest ih =>
      rw [List.map_cons, List.mem_cons, not_or] at hi
      rw [failBatch, ih hi.2, get?_onStream_ne (Ne.symm hi.1)]

theorem get?_failBatch_mem {f : List (Flight κ)} (hn : (f.map Flight.stream).Nodup)
    (hi : i ∈ f.map Flight.stream) (hst : s.streams[i]? = some st) :
    ∃ m, (failBatch f s).streams[i]? = some (failInference st m).1 := by
  induction f generalizing s with
  | nil => cases hi
  | cons flight rest ih =>
      rw [List.map_cons, List.nodup_cons] at hn
      rw [failBatch]
      by_cases hji : flight.stream = i
      · subst hji
        refine ⟨s.metrics, ?_⟩
        rw [get?_failBatch_not_mem hn.1, get?_onStream_self hst]
      · have hrest : i ∈ rest.map Flight.stream :=
          (List.mem_cons.mp hi).resolve_left (Ne.symm hji)
        exact ih hn.2 hrest ((get?_onStream_ne hji _).trans hst)

theorem failBatch_loop (f : List (Flight κ)) (s : ServerState κ) :
    (failBatch f s).loop = .idle := by
  induction f generalizing s with
  | nil => rfl
  | cons flight rest ih =>
      rw [failBatch]
      exact ih _

end Loops

/-! ## Every step -/

section Steps

variable {settings : ServerSettings} {model : StreamingModel κ} {env : Env κ}
  {s s' : ServerState κ} {e : Event κ} {i : Nat} {st : Stream κ}

theorem put_effect {j : Nat} (h : put j s = some s') (hst : s.streams[i]? = some st)
    (fl : Option (Flight κ)) :
    ∃ st', s'.streams[i]? = some st' ∧ StreamStep settings env i (.put j) st fl st' fl := by
  cases put_step h with
  | @notified st₁ work q s₁ hst₁ hw hq hn =>
      obtain ⟨⟨scheduled, hself⟩, hothers⟩ := get?_notify_enqueue hst₁ hn
      by_cases hji : j = i
      · subst hji
        obtain rfl := Option.some.inj (hst₁.symm.trans hst)
        exact ⟨_, get?_onStream_self hself afterPut, .put scheduled s₁.metrics hw hq⟩
      · exact ⟨st, (get?_onStream_ne hji _).trans ((hothers i hji).trans hst), .elsewhere⟩
  | @overflowed st₁ work q s₁ hst₁ hw hq hn =>
      by_cases hji : j = i
      · subst hji
        obtain rfl := Option.some.inj (hst₁.symm.trans hst)
        have hself := get?_onStream_self hst (enqueue work q)
        have hspec := notify_spec (s.onStream j (enqueue work q)) j
        rw [hn] at hspec
        cases hspec with
        | overflowed st₂ hst₂ _ hcan _ _ _ =>
            obtain rfl := Option.some.inj (hself.symm.trans hst₂)
            have hset := get?_set hself ((enqueue work q st₁ s.metrics).1.flagged true) j
            rw [if_pos rfl] at hset
            exact ⟨_, get?_onStream_self hset _, .putOverflow _ hw hq hcan⟩
      · have hother := (get?_notify_enqueue hst₁ hn).2 i hji
        exact ⟨st, (get?_onStream_ne hji _).trans (hother.trans hst), .elsewhere⟩

theorem resume_effect {j : Nat} (h : resume j s = some s') (hst : s.streams[i]? = some st)
    (fl : Option (Flight κ)) :
    ∃ st', s'.streams[i]? = some st' ∧ StreamStep settings env i (.resume j) st fl st' fl := by
  by_cases hji : j = i
  · subst hji
    cases resume_step h with
    | afterAccepted hst₁ he =>
        obtain rfl := Option.some.inj (hst.symm.trans hst₁)
        exact ⟨_, get?_onStream_self hst afterAccepted, .afterAccepted _ he⟩
    | afterAudio hst₁ he =>
        obtain rfl := Option.some.inj (hst.symm.trans hst₁)
        exact ⟨_, get?_onStream_self hst afterAudio, .afterAudio _ he⟩
    | @handle _ event q st' m' hst₁ he hget hh =>
        obtain rfl := Option.some.inj (hst.symm.trans hst₁)
        refine ⟨st', ?_, .handle _ _ he hget hh⟩
        rw [ServerState.get?_withStream hst, if_pos rfl]
    | @handleRaise _ event q m' hst₁ he hget hh =>
        obtain rfl := Option.some.inj (hst.symm.trans hst₁)
        refine ⟨_, ?_, .handleRaise s.metrics m' he hget hh⟩
        rw [get?_finish, if_pos rfl, ServerState.get?_withStream hst, if_pos rfl]
        rfl
    | ends hst₁ he =>
        obtain rfl := Option.some.inj (hst.symm.trans hst₁)
        refine ⟨_, ?_, .ends s.metrics he⟩
        rw [get?_finish, if_pos rfl, hst]
        rfl
  · exact ⟨st, (resume_ne h hji).trans hst, .elsewhere⟩

/-- What a step does to stream `i`. -/
theorem step_effect (hd : model.Delivers env) (hs : Scheduling s.core)
    (h : (system settings model).Step s e s') (hst : s.streams[i]? = some st) :
    ∃ st', s'.streams[i]? = some st' ∧
      StreamStep settings env i e st (flightOf i s.loop.flights) st'
        (flightOf i s'.loop.flights) := by
  have hallowed := h.allowed
  -- an event of one stream does nothing to the others
  have hstream {j : Nat} {e : Event κ} (f : Stream κ → Metrics → Stream κ × Metrics)
      (heff : j = i → StreamStep settings env i e st (flightOf i s.loop.flights)
        (f st s.metrics).1 (flightOf i s.loop.flights)) :
      ∃ st', (s.onStream j f).streams[i]? = some st' ∧
        StreamStep settings env i e st (flightOf i s.loop.flights) st'
          (flightOf i (s.onStream j f).loop.flights) := by
    rw [onStream_loop]
    by_cases hj : j = i
    · exact ⟨_, hj ▸ get?_onStream_self (hj ▸ hst) f, heff hj⟩
    · exact ⟨st, (get?_onStream_ne hj _).trans hst, .elsewhere⟩
  cases step_cases h.eq with
  | enhance first =>
      rw [enhance_loop]
      exact ⟨st, get?_enhance settings model first hst, .elsewhere⟩
  | deliver message hst₁ hr =>
      refine hstream _ ?_
      rintro rfl
      obtain rfl := Option.some.inj (hst.symm.trans hst₁)
      exact .read message _ hr
  | closeInput hst₁ hr =>
      refine hstream _ ?_
      rintro rfl
      obtain rfl := Option.some.inj (hst.symm.trans hst₁)
      exact .eof _ hr
  | idleTimeout hst₁ hr =>
      refine hstream _ ?_
      rintro rfl
      obtain rfl := Option.some.inj (hst.symm.trans hst₁)
      exact .idleTimeout _ hr
  | requestError hst₁ hr =>
      refine hstream _ ?_
      rintro rfl
      obtain rfl := Option.some.inj (hst.symm.trans hst₁)
      exact .requestError _ hr
  | put h =>
      rw [(put_loop h).1]
      exact put_effect h hst _
  | resume h =>
      rw [(resume_loop h).1]
      exact resume_effect h hst _
  | @cancelCall j _ hst₁ he =>
      rw [finish_loop]
      by_cases hj : j = i
      · subst hj
        obtain rfl := Option.some.inj (hst.symm.trans hst₁)
        refine ⟨_, ?_, .cancelCall s.metrics he⟩
        rw [get?_finish, if_pos rfl, hst]
        rfl
      · exact ⟨st, (get?_finish_ne hj).trans hst, .elsewhere⟩
  | gatherFirst hloop _ =>
      rw [hloop]
      exact ⟨st, hst, .elsewhere⟩
  | gatherNext hloop _ _ =>
      rw [hloop]
      exact ⟨st, hst, .elsewhere⟩
  | @dispatch sessions hloop =>
      have hnodup := hs.gathered_nodup
      rw [hloop] at hnodup ⊢
      change sessions.Nodup at hnodup
      rw [Loop.taken_flights]
      by_cases hi : i ∈ sessions
      · obtain ⟨m, hst', hfl⟩ := get?_takeBatch_mem hnodup hi hst
        rw [hfl]
        exact ⟨_, hst', .take m⟩
      · obtain ⟨hst', hfl⟩ := get?_takeBatch_not_mem hi s
        rw [hfl]
        exact ⟨st, hst'.trans hst, .elsewhere⟩
  | @inferenceReturned active wav updated hloop =>
      simp only [system, allows, hloop, Loop.flights] at hallowed
      have hnodup := hs.flights_nodup
      rw [hloop] at hnodup ⊢
      change (active.map Flight.stream).Nodup at hnodup
      change ∃ st', _ ∧ StreamStep settings env i _ st (flightOf i active) st' _
      cases hfl : flightOf i active with
      | none =>
          obtain ⟨hstreams, hflights⟩ := applyBatch_elsewhere (flightOf_eq_none.mp hfl)
            (wav.map float32ToPcm16le) updated 0 s
          rw [flightOf_eq_none.mpr hflights]
          exact ⟨st, hstreams.trans hst, .elsewhere⟩
      | some flight =>
          refine applyBatch_effect settings hnodup ?_ hfl hst wav updated
          simpa using hd active wav updated hallowed
  | @inferenceRaised active hloop =>
      have hnodup := hs.flights_nodup
      rw [hloop] at hnodup
      change (active.map Flight.stream).Nodup at hnodup
      rw [failBatch_loop, hloop]
      change ∃ st', _ ∧ StreamStep settings env i _ st (flightOf i active) st' none
      cases hfl : flightOf i active with
      | none =>
          exact ⟨st, (get?_failBatch_not_mem (flightOf_eq_none.mp hfl) s).trans hst, .elsewhere⟩
      | some flight =>
          have hi : i ∈ active.map Flight.stream := by
            by_contra hi
            rw [← flightOf_eq_none, hfl] at hi
            cases hi
          obtain ⟨m, hst'⟩ := get?_failBatch_mem hnodup hi hst
          exact ⟨_, hst', .fail m⟩
  | closeScheduler => exact ⟨st, hst, .elsewhere⟩

theorem finish_length (j : Nat) (s : ServerState κ) :
    (finish j s).streams.length = s.streams.length := by
  cases hst : s.streams[j]? with
  | none => simp [finish, hst]
  | some st =>
      rw [finish_eq hst]
      exact List.length_set

/-- Only a new call adds a stream. -/
theorem Touched.length (h : Touched settings model env s s')
    (hclosed : ∀ s first, ¬ env.opens s first) : s'.streams.length = s.streams.length := by
  cases h with
  | still hstreams _ _ => rw [hstreams]
  | enhance first ho _ => exact absurd ho (hclosed s first)
  | change i st st' _ _ hstreams _ => rw [hstreams, List.length_set]
  | handleRaise i st event q m' _ _ _ _ hs' =>
      rw [hs', finish_length]
      exact List.length_set
  | finish i st _ _ hs' => rw [hs', finish_length]

theorem step_length (h : (system settings model).Step s e s') (he : ∀ first, e ≠ .enhance first) :
    s'.streams.length = s.streams.length := by
  have hrounds : Rounds settings model ⟨fun _ _ _ => True, fun _ _ => False⟩ s.core s'.core :=
    step_rounds (fun _ _ _ _ _ _ _ => trivial) (fun first hf => he first hf) h
  change s'.core.server.streams.length = s.core.server.streams.length
  generalize s'.core = c' at hrounds ⊢
  induction hrounds with
  | refl => rfl
  | tail _ hr ih => exact (hr.touched.length fun _ _ => id).trans ih

/-- A stream that a step adds is new. -/
theorem step_new {st' : Stream κ} (h : (system settings model).Step s e s')
    (hst : s.streams[i]? = none) (hst' : s'.streams[i]? = some st') :
    i = s.streams.length ∧ s'.loop = s.loop ∧
      ((∃ start, st' = .admitted settings model start) ∨
        (∃ start, st' = .unannounced settings model start) ∨
        ∃ start violation, st' = .refused settings model start violation ∧
          registryAdd settings s.registry start.streamId i = .error violation) := by
  by_cases he : ∃ first, e = .enhance first
  · obtain ⟨first, rfl⟩ := he
    obtain rfl : enhance settings model first s = s' := Option.some.inj h.eq
    have hloop : (enhance settings model first s).loop = s.loop := enhance_loop first s
    have hspec := enhance_spec settings model first s
    generalize enhance settings model first s = s' at hspec hst' hloop
    cases hspec with
    | invalid _ _ => exact absurd (hst.symm.trans hst') nofun
    | refused start violation _ hadd =>
        rcases get?_append_new hst' with hold | ⟨hi, hnew⟩
        · exact absurd (hst.symm.trans hold) nofun
        · exact ⟨hi, hloop, .inr (.inr ⟨start, violation, hnew, hi ▸ hadd⟩)⟩
    | unannounced start _ _ _ _ =>
        rcases get?_append_new hst' with hold | ⟨hi, hnew⟩
        · exact absurd (hst.symm.trans hold) nofun
        · exact ⟨hi, hloop, .inr (.inl ⟨start, hnew⟩)⟩
    | admitted start _ _ _ _ =>
        rcases get?_append_new hst' with hold | ⟨hi, hnew⟩
        · exact absurd (hst.symm.trans hold) nofun
        · exact ⟨hi, hloop, .inl ⟨start, hnew⟩⟩
  · have hlength := step_length h fun first hf => he ⟨first, hf⟩
    have hlt := (List.getElem?_eq_some_iff.mp hst').1
    rw [hlength] at hlt
    exact absurd (List.getElem?_eq_none_iff.mp hst) (by omega)

/-- What the effects of the events of a restricted run preserve holds of every stream. -/
theorem restricted_stream {C : ServerState κ → Event κ → Prop}
    {P : Nat → Stream κ → Option (Flight κ) → Prop} (hd : model.Delivers env)
    (hadmitted : ∀ i start, P i (.admitted settings model start) none)
    (hunannounced : ∀ i start, P i (.unannounced settings model start) none)
    (hrefused : ∀ i start violation registry,
      registryAdd settings registry start.streamId i = .error violation →
      P i (.refused settings model start violation) none)
    (heffect : ∀ (s : ServerState κ) (e : Event κ) (i : Nat) (st st' : Stream κ) fl',
      (system settings model).Reachable s → C s e → s.streams[i]? = some st →
      P i st (flightOf i s.loop.flights) →
      StreamStep settings env i e st (flightOf i s.loop.flights) st' fl' → P i st' fl')
    (h : ((system settings model).restrict C).Reachable s) (hst : s.streams[i]? = some st) :
    P i st (flightOf i s.loop.flights) := by
  induction h generalizing i st with
  | init => simp [Lts.System.restrict, system, ServerState.init] at hst
  | @step s e s' hr hstep ih =>
      have hreach : (system settings model).Reachable s := hr.of_restrict
      cases hbefore : s.streams[i]? with
      | some st₀ =>
          obtain ⟨st', hst', heff⟩ := step_effect hd (reachable_scheduling hreach)
            hstep.of_restrict hbefore
          obtain rfl := Option.some.inj (hst.symm.trans hst')
          exact heffect s e i st₀ st _ hreach hstep.allowed.2 hbefore (ih hbefore) heff
      | none =>
          obtain ⟨rfl, hloop, hnew⟩ := step_new hstep.of_restrict hbefore hst
          have hknown := (reachable_streams (P := fun _ _ => True) model.delivers_any
            (fun _ _ => trivial) ⟨fun _ => trivial, fun _ => trivial, fun _ _ => trivial,
              fun _ _ _ _ _ _ => trivial⟩ hreach).known
          have hfree : flightOf s.streams.length s'.loop.flights = none := by
            rw [hloop, flightOf_eq_none]
            intro hmem
            obtain ⟨flight, hflight, heq⟩ := List.mem_map.mp hmem
            exact absurd (hknown flight hflight) (by omega)
          rw [hfree]
          rcases hnew with ⟨start, rfl⟩ | ⟨start, rfl⟩ | ⟨start, violation, rfl, hadd⟩
          · exact hadmitted _ start
          · exact hunannounced _ start
          · exact hrefused _ start violation _ hadd

end Steps

end VoxLattice.Server
