import VoxLattice.Server.Accounting

/-!
# A stream that is read promptly

`Prompt` is the condition on a step under which the scheduler must not fail stream `i`: the
model does not raise, the ready queue does not overflow, the client sends only what the server
accepts and neither cancels nor times out, and the output queue of the stream is empty when an
inference of its hop returns.

A step then does one of few things to the stream (`PromptRound`) and to the scheduler's own
state (`LoopMove`), and both are read off the step here, once.
-/

namespace VoxLattice.Server

variable {κ : Type*}

/-! ## The condition on a step -/

/-- A message `_read_requests` takes: a chunk that is accepted, or the end with a flush. -/
def TakesInput (settings : ServerSettings) (st : Stream κ) (m : Metrics) : ClientMessage → Prop
  | .audio chunk => (acceptAudio settings chunk st m).2 = .ok ()
  | .endStream flush => flush = true
  | _ => False

/-- What a step must not do to stream `i`. -/
def PromptEvent (settings : ServerSettings) (i : Nat) (s : ServerState κ) : Event κ → Prop
  | .inferenceRaised | .closeScheduler => False
  | .idleTimeout j | .requestError j | .cancelCall j => j ≠ i
  | .deliver j message => j = i → ∀ st ∈ s.streams[i]?,
      st.reader = .reading false ∧ TakesInput settings st s.metrics message
  | .closeInput j => j = i → ∀ st ∈ s.streams[i]?, st.reader ≠ .reading false
  | .inferenceReturned _ _ => i ∈ s.loop.flights.map Flight.stream →
      ∀ st ∈ s.streams[i]?, st.session.outputQueue.items = []
  | _ => True

/-- The condition on a step, the ready queue included. -/
def Prompt (settings : ServerSettings) (model : StreamingModel κ) (i : Nat) (s : ServerState κ)
    (e : Event κ) : Prop :=
  PromptEvent settings i s e ∧ ∀ s' ∈ step settings model s e, s'.readyOverflow = false

instance (settings : ServerSettings) (st : Stream κ) (m : Metrics) (message : ClientMessage) :
    Decidable (TakesInput settings st m message) := by
  cases message <;> unfold TakesInput <;> infer_instance

instance (settings : ServerSettings) (i : Nat) (s : ServerState κ) (e : Event κ) :
    Decidable (PromptEvent settings i s e) :=
  match e with
  | .inferenceRaised | .closeScheduler => .isFalse id
  | .idleTimeout j | .requestError j | .cancelCall j => inferInstanceAs (Decidable (j ≠ i))
  | .deliver j _ | .closeInput j => inferInstanceAs (Decidable (j = i → _))
  | .inferenceReturned .. => inferInstanceAs (Decidable (i ∈ _ → _))
  | .enhance _ | .put _ | .resume _ | .gather | .dispatch => .isTrue trivial

instance (settings : ServerSettings) (model : StreamingModel κ) (i : Nat) (s : ServerState κ)
    (e : Event κ) : Decidable (Prompt settings model i s e) :=
  inferInstanceAs (Decidable (_ ∧ _))

/-! ## What a step does to the stream -/

/-- The events of stream `i`, which may be gathered and may have a work item in inference. -/
def Event.Concerns (i : Nat) (g : List Nat) (fl : Option (Flight κ)) : Event κ → Prop
  | .deliver j _ | .closeInput j | .put j | .resume j => j = i
  | .dispatch => i ∈ g
  | .inferenceReturned _ _ => fl.isSome = true
  | _ => False

/-- What a prompt step does to stream `i` and its work item in inference. -/
inductive PromptRound (settings : ServerSettings) (i : Nat) (g : List Nat) : Event κ →
    Stream κ → Option (Flight κ) → Stream κ → Option (Flight κ) → Prop where
  /-- The step is about other streams. -/
  | elsewhere {e st fl} (h : ¬ e.Concerns i g fl) : PromptRound settings i g e st fl st fl
  | audio {chunk st fl} (m) (hr : st.reader = .reading false)
      (hok : (acceptAudio settings chunk st m).2 = .ok ()) :
      PromptRound settings i g (.deliver i (.audio chunk)) st fl
        (acceptAudio settings chunk st m).1.1 fl
  | endStream {st fl} (m) (hr : st.reader = .reading false) :
      PromptRound settings i g (.deliver i (.endStream true)) st fl (finishInput true st m).1 fl
  | eof {st fl} (hr : st.reader = .reading true) :
      PromptRound settings i g (.closeInput i) st fl { st with reader := .done } fl
  | put {st fl work q} (scheduled m) (hw : st.reader.work? = some work)
      (hq : st.session.inputQueue.putNowait work = some q) :
      PromptRound settings i g (.put i) st fl (afterPut ((st.queued q).flagged scheduled) m).1 fl
  | afterAccepted {st fl} (m) (he : st.enhance = .accepted) :
      PromptRound settings i g (.resume i) st fl (afterAccepted st m).1 fl
  | afterAudio {st fl} (m) (he : st.enhance = .audio) :
      PromptRound settings i g (.resume i) st fl (afterAudio st m).1 fl
  | handle {st fl event q st'} (m m') (he : st.enhance = .waiting)
      (hget : st.session.outputQueue.getNowait = some (event, q))
      (hh : handleEvent event (st.withOutput q) m = (some st', m')) :
      PromptRound settings i g (.resume i) st fl st' fl
  /-- Protobuf refuses the message, and the call is over. -/
  | handleRaise {st fl event q} (m m') (he : st.enhance = .waiting)
      (hget : st.session.outputQueue.getNowait = some (event, q))
      (hh : handleEvent event (st.withOutput q) m = (none, m')) :
      PromptRound settings i g (.resume i) st fl (finallyBlock (st.withOutput q) m').1 fl
  | finish {st fl} (m) (he : st.enhance = .ended ∨ ∃ failure, st.enhance = .aborting failure) :
      PromptRound settings i g (.resume i) st fl (finallyBlock st m).1 fl
  | take {st} (m) (hg : i ∈ g) :
      PromptRound settings i g .dispatch st none (takeWork st m).1.1
        ((takeWork st m).2.map fun work => ⟨i, work, (takeWork st m).1.1.session.caches⟩)
  | apply {wav updated st flight row caches} (m scheduled)
      (hdrained : st.session.outputQueue.items = []) (hrow : row.isSome = true)
      (hcaches : caches.isSome = true) :
      PromptRound settings i g (.inferenceReturned wav updated) st (some flight)
        ((applyResult flight.work row caches st m).1.1.flagged scheduled) none

section Streams

variable {s s' : ServerState κ} {i j : Nat} {st : Stream κ}

theorem get?_onStream (s : ServerState κ) (j : Nat)
    (f : Stream κ → Metrics → Stream κ × Metrics) (i : Nat) :
    (s.onStream j f).streams[i]? =
      if j = i then s.streams[i]?.map fun st => (f st s.metrics).1 else s.streams[i]? := by
  cases hj : s.streams[j]? with
  | none =>
      simp only [ServerState.onStream, hj]
      split
      · next h =>
          subst h
          rw [hj]
          rfl
      · rfl
  | some st =>
      rw [ServerState.onStream_eq hj, ServerState.get?_withStream hj]
      split
      · next h =>
          subst h
          rw [hj]
          rfl
      · rfl

theorem get?_onStream_ne (h : j ≠ i) (f : Stream κ → Metrics → Stream κ × Metrics) :
    (s.onStream j f).streams[i]? = s.streams[i]? := by
  rw [get?_onStream, if_neg h]

theorem get?_onStream_self (hst : s.streams[i]? = some st)
    (f : Stream κ → Metrics → Stream κ × Metrics) :
    (s.onStream i f).streams[i]? = some (f st s.metrics).1 := by
  rw [get?_onStream, if_pos rfl, hst]
  rfl

theorem get?_finish (s : ServerState κ) (j i : Nat) :
    (finish j s).streams[i]? =
      if j = i then s.streams[i]?.map fun st => (finallyBlock st s.metrics).1
      else s.streams[i]? := by
  rw [← get?_onStream]
  cases hj : s.streams[j]? with
  | none => simp only [finish, ServerState.onStream, hj]
  | some st =>
      simp only [finish, hj]
      split <;> rfl

theorem get?_finish_ne (h : j ≠ i) : (finish j s).streams[i]? = s.streams[i]? := by
  rw [get?_finish, if_neg h]

/-- A notification changes the flag of the notified stream only. -/
theorem get?_notify (hst : s.streams[i]? = some st) (j : Nat) :
    ∃ scheduled, (notify s j).1.streams[i]? = some (st.flagged scheduled) ∧
      (j ≠ i → scheduled = st.session.scheduled) := by
  have hspec := notify_spec s j
  generalize notify s j = result at hspec
  obtain ⟨s', raised⟩ := result
  dsimp only at hspec ⊢
  cases hj : s.streams[j]? with
  | none =>
      cases hspec with
      | dropped _ => exact ⟨_, hst, fun _ => rfl⟩
      | queued st₁ _ hst₁ => exact absurd (hj.symm.trans hst₁) nofun
      | overflowed st₁ hst₁ => exact absurd (hj.symm.trans hst₁) nofun
  | some st₁ =>
      obtain ⟨-, scheduled, hstreams⟩ := hspec.streams hj
      rw [hstreams, get?_set hj]
      by_cases hji : j = i
      · subst hji
        obtain rfl := Option.some.inj (hj.symm.trans hst)
        exact ⟨scheduled, by rw [if_pos rfl], fun h => absurd rfl h⟩
      · rw [if_neg hji]
        exact ⟨_, hst, fun _ => rfl⟩

theorem get?_notify_ne (h : j ≠ i) : (notify s j).1.streams[i]? = s.streams[i]? := by
  have hspec := notify_spec s j
  generalize notify s j = result at hspec
  obtain ⟨s', raised⟩ := result
  dsimp only at hspec ⊢
  cases hspec with
  | dropped _ => rfl
  | queued st _ hst =>
      change (s.streams.set j _)[i]? = _
      rw [get?_set hst, if_neg h]
  | overflowed st hst =>
      change (s.streams.set j _)[i]? = _
      rw [get?_set hst, if_neg h]

theorem get?_enhance (settings : ServerSettings) (model : StreamingModel κ)
    (first : ClientMessage) (hst : s.streams[i]? = some st) :
    (enhance settings model first s).streams[i]? = some st := by
  have hi := (List.getElem?_eq_some_iff.mp hst).1
  have hspec := enhance_spec settings model first s
  generalize enhance settings model first s = s' at hspec
  cases hspec with
  | invalid _ _ => exact hst
  | refused start violation _ _ => rw [List.getElem?_append_left hi, hst]
  | unannounced start _ _ _ _ => rw [List.getElem?_append_left hi, hst]
  | admitted start _ _ _ _ => rw [List.getElem?_append_left hi, hst]

/-! ### The scheduler's loops -/

theorem get?_takeBatch_not_mem {g : List Nat} (hi : i ∉ g) (s : ServerState κ) :
    (takeBatch g s).1.streams[i]? = s.streams[i]? ∧ flightOf i (takeBatch g s).2 = none := by
  induction g generalizing s with
  | nil => exact ⟨rfl, rfl⟩
  | cons j rest ih =>
      rw [List.mem_cons, not_or] at hi
      rw [takeBatch]
      cases hj : s.streams[j]? with
      | none => exact ih hi.2 s
      | some st =>
          obtain ⟨hstreams, hflight⟩ := ih hi.2 (s.withStream j (takeWork st s.metrics).1.1
            (takeWork st s.metrics).1.2)
          rw [ServerState.get?_withStream hj, if_neg (Ne.symm hi.1)] at hstreams
          cases hw : (takeWork st s.metrics).2 with
          | none =>
              simp only [hw]
              exact ⟨hstreams, hflight⟩
          | some work =>
              simp only [hw]
              exact ⟨hstreams, (flightOf_cons_ne (Ne.symm hi.1)).trans hflight⟩

theorem get?_takeBatch_mem {g : List Nat} (hn : g.Nodup) (hi : i ∈ g)
    (hst : s.streams[i]? = some st) :
    ∃ m, (takeBatch g s).1.streams[i]? = some (takeWork st m).1.1 ∧
      flightOf i (takeBatch g s).2 = (takeWork st m).2.map fun work =>
        ⟨i, work, (takeWork st m).1.1.session.caches⟩ := by
  induction g generalizing s with
  | nil => cases hi
  | cons j rest ih =>
      rw [List.nodup_cons] at hn
      rw [takeBatch]
      by_cases hji : j = i
      · subst hji
        obtain ⟨hstreams, hflight⟩ := get?_takeBatch_not_mem hn.1 (s.withStream j
          (takeWork st s.metrics).1.1 (takeWork st s.metrics).1.2)
        rw [ServerState.get?_withStream hst, if_pos rfl] at hstreams
        refine ⟨s.metrics, ?_⟩
        cases hw : (takeWork st s.metrics).2 with
        | none =>
            simp only [hst, hw]
            exact ⟨hstreams, hflight⟩
        | some work =>
            simp only [hst, hw]
            exact ⟨hstreams, flightOf_cons_self⟩
      · have hrest : i ∈ rest := (List.mem_cons.mp hi).resolve_left (Ne.symm hji)
        cases hj : s.streams[j]? with
        | none => exact ih hn.2 hrest hst
        | some st₁ =>
            have hst' := ServerState.get?_withStream hj (takeWork st₁ s.metrics).1.1
              (takeWork st₁ s.metrics).1.2 i
            rw [if_neg hji, hst] at hst'
            obtain ⟨m, hstreams, hflight⟩ := ih hn.2 hrest hst'
            refine ⟨m, ?_⟩
            cases hw : (takeWork st₁ s.metrics).2 with
            | none =>
                simp only [hw]
                exact ⟨hstreams, hflight⟩
            | some work =>
                simp only [hw]
                exact ⟨hstreams, (flightOf_cons_ne hji).trans hflight⟩

/-- The model returned a row and caches for every work item. -/
def Answered (pcmHops : List Bytes) (updated : List κ) (index count : Nat) : Prop :=
  ∀ k, k < count → pcmHops[index + k]?.isSome = true ∧ updated[index + k]?.isSome = true

theorem Answered.head {pcmHops : List Bytes} {updated : List κ} {index count : Nat}
    (h : Answered pcmHops updated index (count + 1)) :
    pcmHops[index]?.isSome = true ∧ updated[index]?.isSome = true := h 0 (Nat.succ_pos count)

theorem Answered.tail {pcmHops : List Bytes} {updated : List κ} {index count : Nat}
    (h : Answered pcmHops updated index (count + 1)) :
    Answered pcmHops updated (index + 1) count := by
  intro k hk
  rw [Nat.add_assoc, Nat.add_comm 1 k]
  exact h (k + 1) (Nat.succ_lt_succ hk)

theorem notify_overflow {s : ServerState κ} {i : Nat} {s' : ServerState κ}
    (h : notify s i = (s', true)) : s'.readyOverflow = true := by
  have hspec := notify_spec s i
  rw [h] at hspec
  cases hspec with
  | overflowed _ => rfl

/-- With a row for everyone and room in the ready queue, the loop over the results goes on to
the next work item, after a notification perhaps. -/
theorem applyBatch_cons {pcmHops : List Bytes} {updated : List κ} {index : Nat}
    {flight : Flight κ} {rest : List (Flight κ)} (hst : s.streams[flight.stream]? = some st)
    (hanswered : Answered pcmHops updated index (rest.length + 1))
    (hroom : (applyBatch pcmHops updated index (flight :: rest) s).readyOverflow = false) :
    ∃ st' m' s₁ s₂, st' = (applyResult flight.work pcmHops[index]? updated[index]? st
        s.metrics).1.1 ∧ s₁ = s.withStream flight.stream st' m' ∧
      (s₂ = s₁ ∨ s₂ = (notify s₁ flight.stream).1) ∧
      applyBatch pcmHops updated index (flight :: rest) s =
        applyBatch pcmHops updated (index + 1) rest s₂ := by
  obtain ⟨hrow, hcaches⟩ := hanswered.head
  have hraised : (applyResult flight.work pcmHops[index]? updated[index]? st s.metrics).2 ≠
      .raised := applyResult_ne_raised hrow hcaches st s.metrics
  cases ha : applyResult flight.work pcmHops[index]? updated[index]? st s.metrics with
  | mk stm outcome =>
      obtain ⟨st', m'⟩ := stm
      rw [ha] at hraised
      rw [applyBatch] at hroom ⊢
      simp only [hst, ha] at hroom ⊢
      cases outcome with
      | raised => exact absurd rfl hraised
      | settled => exact ⟨st', m', _, _, rfl, rfl, .inl rfl, rfl⟩
      | renotify =>
          cases hn : notify (s.withStream flight.stream st' m') flight.stream with
          | mk s₂ raised =>
              have hn' := hn
              simp only [ServerState.withStream] at hn'
              simp only [hn'] at hroom ⊢
              cases raised with
              | true => cases (notify_overflow hn).symm.trans hroom
              | false => exact ⟨st', m', _, s₂, rfl, rfl, .inr (by rw [hn]), rfl⟩

/-- A stream without a work item in the batch is left alone. -/
theorem get?_applyBatch_not_mem {f : List (Flight κ)} (hi : i ∉ f.map Flight.stream)
    {pcmHops : List Bytes} {updated : List κ} {index : Nat}
    (hanswered : Answered pcmHops updated index f.length)
    (hroom : (applyBatch pcmHops updated index f s).readyOverflow = false) :
    (applyBatch pcmHops updated index f s).streams[i]? = s.streams[i]? := by
  induction f generalizing index s with
  | nil => rfl
  | cons flight rest ih =>
      rw [List.map_cons, List.mem_cons, not_or] at hi
      cases hj : s.streams[flight.stream]? with
      | none =>
          rw [applyBatch] at hroom ⊢
          simp only [hj] at hroom ⊢
          exact ih hi.2 hanswered.tail hroom
      | some st =>
          obtain ⟨st', m', s₁, s₂, -, rfl, hs₂, heq⟩ := applyBatch_cons hj hanswered hroom
          have hset := ServerState.get?_withStream hj st' m' i
          rw [if_neg (Ne.symm hi.1)] at hset
          rw [heq] at hroom ⊢
          rw [ih hi.2 hanswered.tail hroom, ← hset]
          cases hs₂ with
          | inl h => rw [h]
          | inr h => rw [h, get?_notify_ne (Ne.symm hi.1)]

/-- A stream with a work item in the batch gets its result. -/
theorem get?_applyBatch_mem {f : List (Flight κ)} (hn : (f.map Flight.stream).Nodup)
    {pcmHops : List Bytes} {updated : List κ} {index : Nat}
    (hanswered : Answered pcmHops updated index f.length)
    (hroom : (applyBatch pcmHops updated index f s).readyOverflow = false)
    {flight : Flight κ} (hfl : flightOf i f = some flight) (hst : s.streams[i]? = some st) :
    ∃ m scheduled row caches, row.isSome = true ∧ caches.isSome = true ∧
      (applyBatch pcmHops updated index f s).streams[i]? =
        some ((applyResult flight.work row caches st m).1.1.flagged scheduled) := by
  induction f generalizing index s with
  | nil => cases hfl
  | cons first rest ih =>
      rw [List.map_cons, List.nodup_cons] at hn
      obtain ⟨hrow, hcaches⟩ := hanswered.head
      by_cases hji : first.stream = i
      · subst hji
        rw [flightOf_cons_self, Option.some.injEq] at hfl
        subst hfl
        obtain ⟨st', m', s₁, s₂, hst', rfl, hs₂, heq⟩ := applyBatch_cons hst hanswered hroom
        have hset := ServerState.get?_withStream hst st' m' first.stream
        rw [if_pos rfl] at hset
        rw [heq] at hroom ⊢
        rw [get?_applyBatch_not_mem hn.1 hanswered.tail hroom]
        cases hs₂ with
        | inl h =>
            refine ⟨s.metrics, st'.session.scheduled, _, _, hrow, hcaches, ?_⟩
            rw [h, hset, ← hst']
            rfl
        | inr h =>
            obtain ⟨scheduled, hnotify, -⟩ := get?_notify hset first.stream
            refine ⟨s.metrics, scheduled, _, _, hrow, hcaches, ?_⟩
            rw [h, hnotify, ← hst']
      · rw [flightOf_cons_ne hji] at hfl
        cases hj : s.streams[first.stream]? with
        | none =>
            rw [applyBatch] at hroom ⊢
            simp only [hj] at hroom ⊢
            exact ih hn.2 hanswered.tail hroom hfl hst
        | some st₁ =>
            obtain ⟨st', m', s₁, s₂, -, rfl, hs₂, heq⟩ := applyBatch_cons hj hanswered hroom
            have hset := ServerState.get?_withStream hj st' m' i
            rw [if_neg hji, hst] at hset
            rw [heq] at hroom ⊢
            refine ih hn.2 hanswered.tail hroom hfl ?_
            cases hs₂ with
            | inl h => rw [h, hset]
            | inr h => rw [h, get?_notify_ne hji, hset]

/-! ### The ready queue and the scheduler's suspension -/

/-- The scheduler waits for a first session. -/
def Loop.isIdle : Loop κ → Bool
  | .idle => true
  | _ => false

/-- The scheduler forms a batch. -/
def Loop.isGathering : Loop κ → Bool
  | .gathering _ => true
  | _ => false

/-- A batch is in inference. -/
def Loop.isInference : Loop κ → Bool
  | .inference _ => true
  | _ => false

theorem notify_ready (s : ServerState κ) (j : Nat) :
    s.ready.items <+: (notify s j).1.ready.items := by
  have hspec := notify_spec s j
  generalize notify s j = result at hspec
  obtain ⟨s', raised⟩ := result
  dsimp only at hspec ⊢
  cases hspec with
  | dropped _ => exact List.prefix_refl _
  | queued st ready hst _ _ _ _ hput =>
      obtain ⟨-, hitems, -⟩ := BoundedQueue.putNowait_eq_some hput
      rw [hitems]
      exact List.prefix_append _ _
  | overflowed st hst => exact List.prefix_refl _

@[simp] theorem onStream_ready (s : ServerState κ) (j : Nat)
    (f : Stream κ → Metrics → Stream κ × Metrics) : (s.onStream j f).ready = s.ready := by
  unfold ServerState.onStream
  split <;> rfl

@[simp] theorem finish_ready (s : ServerState κ) (j : Nat) : (finish j s).ready = s.ready := by
  unfold finish
  split
  · rfl
  · dsimp only
    split <;> simp

@[simp] theorem enhance_ready {settings : ServerSettings} {model : StreamingModel κ}
    (first : ClientMessage) (s : ServerState κ) :
    (enhance settings model first s).ready = s.ready := by
  unfold enhance
  split
  · rfl
  · dsimp only
    split
    · rfl
    · split
      · rfl
      · exact finish_ready _ _

/-- What no write of a stream changes, the loop over a batch does not change. -/
theorem takeBatch_keeps {I : ServerState κ → Prop}
    (hI : ∀ (s : ServerState κ) i st m, I s → I (s.withStream i st m)) (g : List Nat)
    (s : ServerState κ) (h : I s) : I (takeBatch g s).1 := by
  induction g generalizing s with
  | nil => exact h
  | cons j rest ih =>
      rw [takeBatch]
      cases hj : s.streams[j]? with
      | none => exact ih s h
      | some st =>
          have hrest := ih _ (hI s j (takeWork st s.metrics).1.1 (takeWork st s.metrics).1.2 h)
          cases hw : (takeWork st s.metrics).2 <;>
            · simp only [hw]
              exact hrest

theorem takeBatch_ready (g : List Nat) (s : ServerState κ) :
    (takeBatch g s).1.ready = s.ready :=
  takeBatch_keeps (I := fun s' => s'.ready = s.ready) (fun _ _ _ _ h => h) g s rfl

/-- A batch that is answered leaves the scheduler idle. -/
theorem applyBatch_loop {pcmHops : List Bytes} {updated : List κ} {f : List (Flight κ)}
    {index : Nat} (hanswered : Answered pcmHops updated index f.length)
    (hroom : (applyBatch pcmHops updated index f s).readyOverflow = false) :
    (applyBatch pcmHops updated index f s).loop = .idle ∧
      s.ready.items <+: (applyBatch pcmHops updated index f s).ready.items := by
  induction f generalizing index s with
  | nil => exact ⟨rfl, List.prefix_refl _⟩
  | cons first rest ih =>
      cases hj : s.streams[first.stream]? with
      | none =>
          rw [applyBatch] at hroom ⊢
          simp only [hj] at hroom ⊢
          exact ih hanswered.tail hroom
      | some st =>
          obtain ⟨st', m', s₁, s₂, -, hs₁, hs₂, heq⟩ := applyBatch_cons hj hanswered hroom
          have hready : s₁.ready = s.ready := by
            rw [hs₁]
            rfl
          rw [heq] at hroom ⊢
          obtain ⟨hloop, hrest⟩ := ih hanswered.tail hroom
          refine ⟨hloop, .trans ?_ hrest⟩
          cases hs₂ with
          | inl h => rw [h, hready]
          | inr h =>
              rw [h, ← hready]
              exact notify_ready s₁ first.stream

end Streams

/-! ## A prompt step -/

section Steps

variable {settings : ServerSettings} {model : StreamingModel κ} {s s' : ServerState κ}
  {e : Event κ} {i : Nat} {st : Stream κ}

/-- The model returned a row and caches for every work item of the batch. -/
theorem StreamingModel.RowPerStream.answered (hmodel : model.RowPerStream)
    {active : List (Flight κ)} {wav : List Tensor} {updated : List κ}
    (h : model.returns (active.map fun f => f.work.samples) (active.map fun f => f.caches) wav
      updated) : Answered (wav.map float32ToPcm16le) updated 0 active.length := by
  intro k hk
  rw [Nat.zero_add]
  have hanswer := hmodel.delivers active wav updated h k _ (List.getElem?_eq_getElem hk)
  exact rows_answer hanswer

theorem put_round (h : put i s = some s') (hroom : s'.readyOverflow = false) :
    (∀ j, j ≠ i → s'.streams[j]? = s.streams[j]?) ∧
      ∀ st, s.streams[i]? = some st → ∃ work q scheduled m, st.reader.work? = some work ∧
        st.session.inputQueue.putNowait work = some q ∧
        s'.streams[i]? = some (afterPut ((st.queued q).flagged scheduled) m).1 := by
  cases put_step h with
  | @notified st work q s₁ hst hw hq hn =>
      obtain ⟨⟨scheduled, hself⟩, hothers⟩ := get?_notify_enqueue hst hn
      refine ⟨fun j hj => (get?_onStream_ne (Ne.symm hj) _).trans (hothers j (Ne.symm hj)),
        fun st₁ hst₁ => ?_⟩
      obtain rfl := Option.some.inj (hst.symm.trans hst₁)
      exact ⟨work, q, scheduled, s₁.metrics, hw, hq, get?_onStream_self hself afterPut⟩
  | @overflowed st work q s₁ hst hw hq hn =>
      obtain ⟨⟨scheduled, hself⟩, -⟩ := get?_notify_enqueue hst hn
      rw [ServerState.onStream_eq hself] at hroom
      exact absurd ((notify_overflow hn).symm.trans hroom) nofun

theorem resume_ne {j : Nat} (h : resume j s = some s') (hj : j ≠ i) :
    s'.streams[i]? = s.streams[i]? := by
  cases resume_step h with
  | afterAccepted _ _ => exact get?_onStream_ne hj _
  | afterAudio _ _ => exact get?_onStream_ne hj _
  | handle hst _ _ _ => rw [ServerState.get?_withStream hst, if_neg hj]
  | handleRaise hst _ _ _ => rw [get?_finish_ne hj, ServerState.get?_withStream hst, if_neg hj]
  | ends _ _ => exact get?_finish_ne hj

theorem resume_round (h : resume i s = some s') (hst : s.streams[i]? = some st) :
    ∃ st', s'.streams[i]? = some st' ∧
      ∀ g fl, PromptRound settings i g (.resume i) st fl st' fl := by
  cases resume_step h with
  | afterAccepted hst₁ he =>
      obtain rfl := Option.some.inj (hst.symm.trans hst₁)
      exact ⟨_, get?_onStream_self hst afterAccepted, fun _ _ => .afterAccepted _ he⟩
  | afterAudio hst₁ he =>
      obtain rfl := Option.some.inj (hst.symm.trans hst₁)
      exact ⟨_, get?_onStream_self hst afterAudio, fun _ _ => .afterAudio _ he⟩
  | @handle _ event q st' m' hst₁ he hget hh =>
      obtain rfl := Option.some.inj (hst.symm.trans hst₁)
      refine ⟨st', ?_, fun _ _ => .handle _ _ he hget hh⟩
      rw [ServerState.get?_withStream hst, if_pos rfl]
  | @handleRaise _ event q m' hst₁ he hget hh =>
      obtain rfl := Option.some.inj (hst.symm.trans hst₁)
      refine ⟨_, ?_, fun _ _ => .handleRaise _ _ he hget hh⟩
      rw [get?_finish, if_pos rfl, ServerState.get?_withStream hst, if_pos rfl]
      rfl
  | ends hst₁ he =>
      obtain rfl := Option.some.inj (hst.symm.trans hst₁)
      refine ⟨_, ?_, fun _ _ => .finish s.metrics he⟩
      rw [get?_finish, if_pos rfl, hst]
      rfl

theorem put_loop (h : put i s = some s') :
    s'.loop = s.loop ∧ s.ready.items <+: s'.ready.items := by
  have hnotified (work : ModelWork) (q : BoundedQueue ModelWork) :
      (notify (s.onStream i (enqueue work q)) i).1.loop = s.loop ∧
        s.ready.items <+: (notify (s.onStream i (enqueue work q)) i).1.ready.items := by
    have hready := notify_ready (s.onStream i (enqueue work q)) i
    rw [onStream_ready] at hready
    exact ⟨by simp, hready⟩
  cases put_step h with
  | @notified _ work q s₁ _ _ _ hn =>
      have hbefore := hnotified work q
      rw [hn] at hbefore
      simpa using hbefore
  | @overflowed _ work q s₁ _ _ _ hn =>
      have hbefore := hnotified work q
      rw [hn] at hbefore
      simpa using hbefore

theorem resume_loop (h : resume i s = some s') : s'.loop = s.loop ∧ s'.ready = s.ready := by
  cases resume_step h with
  | afterAccepted _ _ => simp
  | afterAudio _ _ => simp
  | handle _ _ _ _ => exact ⟨rfl, rfl⟩
  | handleRaise _ _ _ _ => exact ⟨finish_loop _ i, finish_ready _ i⟩
  | ends _ _ => simp

/-- What a prompt step does to the scheduler's suspension and to the ready queue. -/
inductive LoopMove (s s' : ServerState κ) : Event κ → Prop where
  /-- The step is no step of the scheduler. -/
  | stays {event : Event κ} (hg : event ≠ .gather) (hd : event ≠ .dispatch)
      (hi : ∀ wav updated, event ≠ .inferenceReturned wav updated) (hloop : s'.loop = s.loop)
      (hready : s.ready.items <+: s'.ready.items) : LoopMove s s' event
  | gather {j} (hprev : s.loop.isInference = false)
      (hloop : s'.loop.gathered = s.loop.gathered ++ [j])
      (hready : s.ready.items = j :: s'.ready.items) (hnext : s'.loop.isGathering = true) :
      LoopMove s s' .gather
  | dispatch (hprev : s.loop.isGathering = true) (hready : s'.ready = s.ready)
      (hnext : s'.loop.isIdle = true ∨ s'.loop.isInference = true) : LoopMove s s' .dispatch
  | returned {wav updated} (hprev : s.loop.isInference = true) (hloop : s'.loop = .idle)
      (hready : s.ready.items <+: s'.ready.items) :
      LoopMove s s' (.inferenceReturned wav updated)

theorem prompt_loop (hmodel : model.RowPerStream)
    (h : ((system settings model).restrict (Prompt settings model i)).Step s e s') :
    LoopMove s s' e := by
  obtain ⟨⟨hallowed, hprompt, hover⟩, hstep⟩ := h
  change step settings model s e = some s' at hstep
  have hroom : s'.readyOverflow = false := hover s' hstep
  cases step_cases hstep with
  | inferenceRaised _ => exact hprompt.elim
  | closeScheduler => exact hprompt.elim
  | enhance _ => exact .stays nofun nofun nofun (by simp) (by simp)
  | deliver _ _ _ => exact .stays nofun nofun nofun (by simp) (by simp)
  | closeInput _ _ => exact .stays nofun nofun nofun (by simp) (by simp)
  | idleTimeout _ _ => exact .stays nofun nofun nofun (by simp) (by simp)
  | requestError _ _ => exact .stays nofun nofun nofun (by simp) (by simp)
  | cancelCall _ _ => exact .stays nofun nofun nofun (by simp) (by simp)
  | put h =>
      obtain ⟨hloop, hready⟩ := put_loop h
      exact .stays nofun nofun nofun hloop hready
  | resume h =>
      obtain ⟨hloop, hready⟩ := resume_loop h
      exact .stays nofun nofun nofun hloop (by rw [hready])
  | gatherFirst hloop hget =>
      obtain ⟨hitems, -⟩ := BoundedQueue.getNowait_eq_some hget
      exact .gather (by rw [hloop]; rfl) (by rw [hloop]; rfl) hitems rfl
  | gatherNext hloop hget _ =>
      obtain ⟨hitems, -⟩ := BoundedQueue.getNowait_eq_some hget
      exact .gather (by rw [hloop]; rfl) (by rw [hloop]; rfl) hitems rfl
  | @dispatch sessions hloop =>
      refine .dispatch (by rw [hloop]; rfl) (takeBatch_ready sessions s) ?_
      dsimp only [Loop.taken]
      split
      · exact .inl rfl
      · exact .inr rfl
  | inferenceReturned wav updated hloop =>
      simp only [system, allows, hloop, Loop.flights] at hallowed
      obtain ⟨hidle, hready⟩ := applyBatch_loop (hmodel.answered hallowed) hroom
      exact .returned (by rw [hloop]; rfl) hidle hready

/-- What a prompt step does to stream `i`. -/
theorem prompt_round (hmodel : model.RowPerStream) (hs : Scheduling s.core)
    (h : ((system settings model).restrict (Prompt settings model i)).Step s e s')
    (hst : s.streams[i]? = some st) : ∃ st', s'.streams[i]? = some st' ∧
      PromptRound settings i s.loop.gathered e st (flightOf i s.loop.flights) st'
        (flightOf i s'.loop.flights) := by
  obtain ⟨⟨hallowed, hprompt, hover⟩, hstep⟩ := h
  change step settings model s e = some s' at hstep
  have hroom : s'.readyOverflow = false := hover s' hstep
  cases step_cases hstep with
  | inferenceRaised _ => exact hprompt.elim
  | closeScheduler => exact hprompt.elim
  | enhance first =>
      rw [enhance_loop]
      exact ⟨st, get?_enhance settings model first hst, .elsewhere id⟩
  | @deliver j _ sawEnd message hst₁ hr =>
      rw [onStream_loop]
      by_cases hj : j = i
      · subst hj
        obtain rfl := Option.some.inj (hst.symm.trans hst₁)
        obtain ⟨hr', htakes⟩ := hprompt rfl st hst
        obtain rfl : sawEnd = false := Reader.reading.inj (hr.symm.trans hr')
        refine ⟨_, get?_onStream_self hst _, ?_⟩
        have hread := readMessage_read settings false message st s.metrics
        generalize readMessage settings false message st s.metrics = next at hread ⊢
        cases hread with
        | duplicateStart _ => exact htakes.elim
        | empty => exact htakes.elim
        | ended flush =>
            obtain rfl : flush = true := htakes
            exact .endStream _ hr
        | accepted chunk st' m' ha =>
            have hround : PromptRound settings j s.loop.gathered (.deliver j (.audio chunk)) st
                (flightOf j s.loop.flights) (acceptAudio settings chunk st s.metrics).1.1
                (flightOf j s.loop.flights) := .audio s.metrics hr (by rw [ha])
            rw [ha] at hround
            exact hround
        | refused chunk st' m' violation ha =>
            have hok : (acceptAudio settings chunk st s.metrics).2 = .ok () := htakes
            rw [ha] at hok
            cases hok
      · exact ⟨st, (get?_onStream_ne hj _).trans hst, .elsewhere hj⟩
  | @closeInput j _ sawEnd hst₁ hr =>
      rw [onStream_loop]
      by_cases hj : j = i
      · subst hj
        obtain rfl := Option.some.inj (hst.symm.trans hst₁)
        have hsaw := hprompt rfl st hst
        cases sawEnd with
        | false => exact absurd hr hsaw
        | true => exact ⟨_, get?_onStream_self hst _, .eof hr⟩
      · exact ⟨st, (get?_onStream_ne hj _).trans hst, .elsewhere hj⟩
  | idleTimeout _ _ =>
      rw [onStream_loop]
      exact ⟨st, (get?_onStream_ne hprompt _).trans hst, .elsewhere id⟩
  | requestError _ _ =>
      rw [onStream_loop]
      exact ⟨st, (get?_onStream_ne hprompt _).trans hst, .elsewhere id⟩
  | @put j _ h =>
      rw [(put_loop h).1]
      obtain ⟨hothers, hself⟩ := put_round h hroom
      by_cases hj : j = i
      · subst hj
        obtain ⟨work, q, scheduled, m, hw, hq, hst'⟩ := hself st hst
        exact ⟨_, hst', .put scheduled m hw hq⟩
      · exact ⟨st, (hothers i (Ne.symm hj)).trans hst, .elsewhere hj⟩
  | @resume j _ h =>
      rw [(resume_loop h).1]
      by_cases hj : j = i
      · subst hj
        obtain ⟨st', hst', hround⟩ := resume_round h hst
        exact ⟨st', hst', hround _ _⟩
      · exact ⟨st, (resume_ne h hj).trans hst, .elsewhere hj⟩
  | cancelCall _ _ =>
      rw [finish_loop]
      exact ⟨st, (get?_finish_ne hprompt).trans hst, .elsewhere id⟩
  | gatherFirst hloop _ =>
      rw [hloop]
      exact ⟨st, hst, .elsewhere id⟩
  | gatherNext hloop _ _ =>
      rw [hloop]
      exact ⟨st, hst, .elsewhere id⟩
  | @dispatch sessions hloop =>
      have hnodup := hs.gathered_nodup
      rw [hloop] at hnodup ⊢
      change sessions.Nodup at hnodup
      rw [Loop.taken_flights]
      by_cases hi : i ∈ sessions
      · obtain ⟨m, hst', hfl⟩ := get?_takeBatch_mem hnodup hi hst
        rw [hfl]
        exact ⟨_, hst', .take m hi⟩
      · obtain ⟨hst', hfl⟩ := get?_takeBatch_not_mem hi s
        rw [hfl]
        exact ⟨st, hst'.trans hst, .elsewhere hi⟩
  | @inferenceReturned active wav updated hloop =>
      simp only [system, allows, hloop, Loop.flights] at hallowed
      have hanswered := hmodel.answered hallowed
      have hnodup := hs.flights_nodup
      rw [hloop] at hnodup
      change (active.map Flight.stream).Nodup at hnodup
      rw [(applyBatch_loop hanswered hroom).1, hloop]
      change ∃ st', _ ∧ PromptRound settings i _ _ st (flightOf i active) st' none
      cases hfl : flightOf i active with
      | none =>
          have hi := flightOf_eq_none.mp hfl
          exact ⟨st, (get?_applyBatch_not_mem hi hanswered hroom).trans hst,
            .elsewhere (by rintro ⟨⟩)⟩
      | some flight =>
          obtain ⟨m, scheduled, row, caches, hrow, hcaches, hst'⟩ :=
            get?_applyBatch_mem hnodup hanswered hroom hfl hst
          refine ⟨_, hst', .apply m scheduled (hprompt ?_ st hst) hrow hcaches⟩
          rw [hloop]
          by_contra hi
          rw [Loop.flights, ← flightOf_eq_none, hfl] at hi
          cases hi

end Steps

end VoxLattice.Server
