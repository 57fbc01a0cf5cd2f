import Mathlib.Algebra.BigOperators.Ring.List
import VoxLattice.Server.Admission
import VoxLattice.Server.Flush

/-!
# The gauges

`input_queue_samples`, `output_queue_samples` and `active_streams` are moved at many places: a
put of the reader, a work item taken, a row emitted, an event yielded, a queue drained by a
failure or by the end of the call.  Each of these moves a gauge by as much as the queue of the
stream it works on (`Balanced`).

The sums over all streams are therefore right.  The ended calls add nothing to them: their
queues were drained and nothing but a failure is put into them afterwards (`Tidy`).
-/

namespace VoxLattice.Server

variable {κ : Type*}

/-! ## One stream -/

/-- The gauges of the queues move as the queues of the stream do. -/
structure Balanced (x y : Stream κ × Metrics) : Prop where
  input : y.2.inputQueueSamples + x.1.session.queuedInputSamples =
    x.2.inputQueueSamples + y.1.session.queuedInputSamples
  output : y.2.outputQueueSamples + x.1.session.queuedOutputSamples =
    x.2.outputQueueSamples + y.1.session.queuedOutputSamples
  active : y.2.activeStreams = x.2.activeStreams

/-- What the queues of a stream hold: the item that ends a stream without a flush has no
samples, and an ended call has no samples left. -/
structure Tidy (st : Stream κ) : Prop where
  bare : ∀ work ∈ st.session.inputQueue.items, work.terminalNoFlush = true → work.source = none
  finished : st.enhance = .finished → st.session.cancelled = true ∧ st.reader = .done ∧
    st.session.inputQueue.items = [] ∧ st.session.queuedOutputSamples = 0

namespace Balanced

variable {x y z : Stream κ × Metrics}

theorem refl (x : Stream κ × Metrics) : Balanced x x := ⟨rfl, rfl, rfl⟩

theorem trans (h : Balanced x y) (h' : Balanced y z) : Balanced x z where
  input := by
    have h₁ := h.input
    have h₂ := h'.input
    omega
  output := by
    have h₁ := h.output
    have h₂ := h'.output
    omega
  active := h'.active.trans h.active

theorem after (h' : Balanced y z) (h : Balanced x y) : Balanced x z := h.trans h'

/-- A change that leaves the queues and the gauges alone. -/
theorem of_eq (hin : y.1.session.inputQueue = x.1.session.inputQueue)
    (hout : y.1.session.outputQueue = x.1.session.outputQueue)
    (hgauge : y.2.inputQueueSamples = x.2.inputQueueSamples ∧
      y.2.outputQueueSamples = x.2.outputQueueSamples ∧
      y.2.activeStreams = x.2.activeStreams) : Balanced x y where
  input := by rw [hgauge.1, Session.queuedInputSamples, Session.queuedInputSamples, hin]
  output := by rw [hgauge.2.1, Session.queuedOutputSamples, Session.queuedOutputSamples, hout]
  active := hgauge.2.2

end Balanced

section Balanced

variable {settings : ServerSettings} {st st' : Stream κ} {m m' : Metrics}

/-- An event joins the output queue. -/
theorem queuedOutputSamples_put {session : Session κ} {event : OutputEvent}
    {q : BoundedQueue OutputEvent} (h : session.outputQueue.putNowait event = some q) :
    (q.items.map OutputEvent.samples).sum = session.queuedOutputSamples + event.samples := by
  obtain ⟨-, hitems, -⟩ := BoundedQueue.putNowait_eq_some h
  simp [Session.queuedOutputSamples, hitems]

/-- An event leaves the output queue. -/
theorem queuedOutputSamples_get {session : Session κ} {event : OutputEvent}
    {q : BoundedQueue OutputEvent} (h : session.outputQueue.getNowait = some (event, q)) :
    session.queuedOutputSamples = event.samples + (q.items.map OutputEvent.samples).sum := by
  obtain ⟨hitems, -⟩ := BoundedQueue.getNowait_eq_some h
  simp [Session.queuedOutputSamples, hitems]

/-- A work item joins the input queue. -/
theorem queuedInputSamples_put {session : Session κ} {work : ModelWork}
    {q : BoundedQueue ModelWork} (h : session.inputQueue.putNowait work = some q) :
    (q.items.map ModelWork.queuedSamples).sum =
      session.queuedInputSamples + work.queuedSamples := by
  obtain ⟨-, hitems, -⟩ := BoundedQueue.putNowait_eq_some h
  simp [Session.queuedInputSamples, hitems]

/-- A work item leaves the input queue. -/
theorem queuedInputSamples_get {session : Session κ} {work : ModelWork}
    {q : BoundedQueue ModelWork} (h : session.inputQueue.getNowait = some (work, q)) :
    session.queuedInputSamples =
      work.queuedSamples + (q.items.map ModelWork.queuedSamples).sum := by
  obtain ⟨hitems, -⟩ := BoundedQueue.getNowait_eq_some h
  simp [Session.queuedInputSamples, hitems]

theorem fail_balanced (status : StatusCode) (detail : String) (st : Stream κ) (m : Metrics) :
    Balanced (st, m) (fail status detail st m) where
  input := rfl
  output := by simp [fail, Session.queuedOutputSamples, OutputEvent.samples]
  active := rfl

theorem failReader_balanced (failure : ProtocolViolation) (st : Stream κ) (m : Metrics) :
    Balanced (st, m) (failReader failure st m) where
  input := rfl
  output := by
    simp [failReader, emitFailure, Stream.cancel, Session.queuedOutputSamples,
      OutputEvent.samples]
  active := rfl

theorem complete_balanced (flushed : Bool) (st : Stream κ) (m : Metrics) :
    Balanced (st, m) (complete flushed st m) := by
  have hcompletes := complete_completes flushed st m
  generalize complete flushed st m = next at hcompletes ⊢
  cases hcompletes with
  | already _ => exact .refl _
  | queued q _ hput =>
      have hsum := queuedOutputSamples_put hput
      exact ⟨rfl, by simp only [Session.queuedOutputSamples] at hsum ⊢; rw [hsum]; rfl, rfl⟩
  | full _ _ => exact (fail_balanced _ _ _ m).after (.of_eq rfl rfl ⟨rfl, rfl, rfl⟩)

theorem acceptAudio_balanced (settings : ServerSettings) (chunk : AudioChunk) (st : Stream κ)
    (m : Metrics) : Balanced (st, m) (acceptAudio settings chunk st m).1 := by
  unfold acceptAudio
  split
  · exact .refl _
  · dsimp only
    split
    · exact .of_eq rfl rfl ⟨rfl, rfl, rfl⟩
    · exact .of_eq rfl rfl ⟨rfl, rfl, rfl⟩

theorem finishInput_balanced (flush : Bool) (st : Stream κ) (m : Metrics) :
    Balanced (st, m) (finishInput flush st m) := by
  unfold finishInput
  split
  · exact .of_eq rfl rfl ⟨rfl, rfl, rfl⟩
  · split
    · exact failReader_balanced _ st m
    · exact .of_eq rfl rfl ⟨rfl, rfl, rfl⟩
    · dsimp only
      split
      · exact (complete_balanced true _ m).after (.of_eq rfl rfl ⟨rfl, rfl, rfl⟩)
      · exact .of_eq rfl rfl ⟨rfl, rfl, rfl⟩

theorem readMessage_balanced (settings : ServerSettings) (sawEnd : Bool) (message : ClientMessage)
    (st : Stream κ) (m : Metrics) :
    Balanced (st, m) (readMessage settings sawEnd message st m) := by
  have hread := readMessage_read settings sawEnd message st m
  generalize readMessage settings sawEnd message st m = next at hread ⊢
  cases hread with
  | afterEnd _ => exact failReader_balanced _ st m
  | duplicateStart _ => exact failReader_balanced _ st m
  | empty => exact failReader_balanced _ st m
  | accepted chunk st' m' h =>
      have haudio := acceptAudio_balanced settings chunk st m
      rw [h] at haudio
      exact haudio
  | refused chunk st' m' violation h =>
      have haudio := acceptAudio_balanced settings chunk st m
      rw [h] at haudio
      exact (failReader_balanced violation st' m').after haudio
  | ended flush => exact finishInput_balanced flush st m

theorem readEof_balanced (sawEnd : Bool) (st : Stream κ) (m : Metrics) :
    Balanced (st, m) (readEof sawEnd st m) := by
  unfold readEof
  split
  · exact .of_eq rfl rfl ⟨rfl, rfl, rfl⟩
  · exact failReader_balanced _ st m

theorem enqueue_balanced {work : ModelWork} {q : BoundedQueue ModelWork}
    (hq : st.session.inputQueue.putNowait work = some q) (m : Metrics) :
    Balanced (st, m) (enqueue work q st m) where
  input := by
    have hsum := queuedInputSamples_put hq
    simp only [enqueue, Session.queuedInputSamples] at hsum ⊢
    omega
  output := rfl
  active := rfl

theorem afterPut_balanced (st : Stream κ) (m : Metrics) : Balanced (st, m) (afterPut st m) := by
  rcases afterPut_cases st m with ⟨reader, h⟩ | h
  · rw [h]
    exact .of_eq rfl rfl ⟨rfl, rfl, rfl⟩
  · rw [h]
    exact (complete_balanced true _ m).after (.of_eq rfl rfl ⟨rfl, rfl, rfl⟩)

theorem takeWork_balanced (h : Tidy st) (m : Metrics) : Balanced (st, m) (takeWork st m).1 := by
  unfold takeWork
  dsimp only
  split
  · exact .of_eq rfl rfl ⟨rfl, rfl, rfl⟩
  · split
    · exact .of_eq rfl rfl ⟨rfl, rfl, rfl⟩
    · next work inputQueue hget =>
        have hsum := queuedInputSamples_get hget
        simp only [Session.queuedInputSamples] at hsum
        split
        · next hend =>
            have hmem : work ∈ st.session.inputQueue.items := by
              rw [(BoundedQueue.getNowait_eq_some hget).1]
              exact List.mem_cons_self
            have hnone : work.queuedSamples = 0 := by
              simp [ModelWork.queuedSamples, h.bare work hmem hend]
            refine (complete_balanced false _ m).after ⟨?_, rfl, rfl⟩
            simp only [Session.queuedInputSamples]
            omega
        · refine ⟨?_, rfl, rfl⟩
          simp only [Session.queuedInputSamples]
          omega

theorem finishHop_balanced (work : ModelWork) (st : Stream κ) (m : Metrics) :
    Balanced (st, m) (finishHop work st m).1 := by
  unfold finishHop
  split
  · exact complete_balanced true st m
  · exact .refl _

theorem emits_balanced {audio : OutputAudio} {q : BoundedQueue OutputEvent}
    (hq : st.session.outputQueue.putNowait (.audio audio) = some q) (n : Nat) :
    Balanced (st, m) (st.emits audio q, { m with
      outputQueueSamples := m.outputQueueSamples + audio.validSamples
      outputSamples := n }) where
  input := rfl
  output := by
    have hsum := queuedOutputSamples_put hq
    simp only [Stream.emits, Session.queuedOutputSamples, OutputEvent.samples] at hsum ⊢
    omega
  active := rfl

theorem applyResult_balanced (work : ModelWork) (row : Option Bytes) (updated : Option κ)
    (st : Stream κ) (m : Metrics) : Balanced (st, m) (applyResult work row updated st m).1 := by
  unfold applyResult
  split
  · exact .refl _
  · dsimp only
    split
    · exact .refl _
    · next caches =>
        have hadvance : Balanced (st, m) (st.advances work caches, m) :=
          .of_eq rfl rfl ⟨rfl, rfl, rfl⟩
        split
        · exact (finishHop_balanced work _ m).after hadvance
        · split
          · exact hadvance
          · split
            · exact (fail_balanced _ _ _ m).after hadvance
            · next hput =>
                have hroom : (st.advances work caches).session.outputQueue.putNowait _ = some _ :=
                  hput
                exact (finishHop_balanced work _ _).after (hadvance.trans (emits_balanced hroom _))

theorem handleEvent_gauge {event : OutputEvent} {x : Option (Stream κ)}
    (h : handleEvent event st m = (x, m')) :
    m'.inputQueueSamples = m.inputQueueSamples ∧
      m'.outputQueueSamples = m.outputQueueSamples - event.samples ∧
      m'.activeStreams = m.activeStreams := by
  cases event with
  | audio audio =>
      obtain ⟨-, rfl⟩ := Prod.mk.inj h
      exact ⟨rfl, rfl, rfl⟩
  | completion completion =>
      obtain ⟨-, rfl⟩ := Prod.mk.inj h
      simp [OutputEvent.samples]
  | failure failure =>
      obtain ⟨-, rfl⟩ := Prod.mk.inj h
      simp [OutputEvent.samples]

/-- The generator takes an event out of the output queue. -/
theorem handleEvent_balanced {event : OutputEvent} {q : BoundedQueue OutputEvent}
    {x : Option (Stream κ)} (hget : st.session.outputQueue.getNowait = some (event, q))
    (h : handleEvent event (st.withOutput q) m = (x, m')) :
    Balanced (st, m) (st.withOutput q, m') where
  input := by rw [(handleEvent_gauge h).1]; rfl
  output := by
    have hsum := queuedOutputSamples_get hget
    have hgauge := (handleEvent_gauge h).2.1
    simp only [Stream.withOutput, Session.queuedOutputSamples] at hsum ⊢
    omega
  active := (handleEvent_gauge h).2.2

theorem Change.balanced {x y : Stream κ × Metrics} (h : Change settings x y) (ht : Tidy x.1) :
    Balanced x y := by
  cases h with
  | read message _ => exact readMessage_balanced settings _ message _ _
  | eof _ => exact readEof_balanced _ _ _
  | readFail failure _ => exact failReader_balanced failure _ _
  | put scheduled _ hq =>
      exact (afterPut_balanced _ _).after
        (Balanced.trans (enqueue_balanced hq _) (.of_eq rfl rfl ⟨rfl, rfl, rfl⟩))
  | putOverflow scheduled _ hq =>
      exact (failReader_balanced _ _ _).after
        (Balanced.trans (enqueue_balanced hq _) (.of_eq rfl rfl ⟨rfl, rfl, rfl⟩))
  | afterAccepted _ => exact .of_eq rfl rfl ⟨rfl, rfl, rfl⟩
  | afterAudio _ => exact .of_eq rfl rfl ⟨rfl, rfl, rfl⟩
  | handle _ hget hh =>
      have hoff := handleEvent_offGenerator hh
      have hout := handleEvent_outputQueue hh
      exact (handleEvent_balanced hget hh).trans
        (.of_eq hoff.inputQueue hout ⟨rfl, rfl, rfl⟩)
  | take => exact takeWork_balanced ht _
  | apply work row updated scheduled =>
      exact Balanced.trans (applyResult_balanced work row updated _ _)
        (.of_eq rfl rfl ⟨rfl, rfl, rfl⟩)
  | fail => exact fail_balanced _ _ _ _

end Balanced

/-! ## What the queues hold -/

section Tidy

variable {settings : ServerSettings} {st st' : Stream κ}

/-- A change of a call that goes on, which adds no work item. -/
theorem Tidy.of_subset (h : Tidy st)
    (hq : st'.session.inputQueue.items ⊆ st.session.inputQueue.items)
    (he : st'.enhance ≠ .finished) : Tidy st' :=
  ⟨fun work hwork => h.bare work (hq hwork), fun hfin => absurd hfin he⟩

theorem Tidy.not_finished (h : Tidy st) (hr : st.reader ≠ .done) : st.enhance ≠ .finished :=
  fun hfin => hr (h.finished hfin).2.1

/-- The reader of a call that goes on adds no work item between its puts. -/
theorem Tidy.offReader (h : Tidy st) (hoff : OffReader st st') (he : st.enhance ≠ .finished) :
    Tidy st' := by
  refine h.of_subset ?_ (hoff.enhance ▸ he)
  rw [hoff.inputQueue]
  exact List.Subset.refl _

/-- The item a reader puts is bare if it ends the stream without a flush. -/
theorem Reader.work?_bare {reader : Reader} {work : ModelWork} (h : reader.work? = some work)
    (hend : work.terminalNoFlush = true) : work.source = none := by
  cases reader with
  | reading sawEnd => cases h
  | accepting hops =>
      cases hops with
      | nil => cases h
      | cons hop rest =>
          cases h
          cases hend
  | finishingPartial hop =>
      cases h
      cases hend
  | finishingFlush =>
      cases h
      rfl
  | finishingNoFlush =>
      cases h
      rfl
  | done => cases h

theorem Tidy.puts (h : Tidy st) {work : ModelWork} {q : BoundedQueue ModelWork}
    (hw : st.reader.work? = some work) (hq : st.session.inputQueue.putNowait work = some q)
    (scheduled : Bool) (m : Metrics) :
    Tidy ((enqueue work q st m).1.flagged scheduled) ∧
      ((enqueue work q st m).1.flagged scheduled).enhance ≠ .finished := by
  have hreader : st.reader ≠ .done := Reader.ne_done_of_work hw
  have he := h.not_finished hreader
  refine ⟨⟨fun work' hwork' => ?_, fun hfin => absurd hfin he⟩, he⟩
  have hitems := (BoundedQueue.putNowait_eq_some hq).2.1
  change work' ∈ q.items at hwork'
  rw [hitems, List.mem_append, List.mem_singleton] at hwork'
  rcases hwork' with hwork' | rfl
  · exact h.bare work' hwork'
  · exact Reader.work?_bare hw

/-- A dead session keeps its queues. -/
theorem Tidy.flagged (h : Tidy st) (scheduled : Bool) : Tidy (st.flagged scheduled) :=
  ⟨h.bare, h.finished⟩

theorem Tidy.take (h : Tidy st) (m : Metrics) : Tidy (takeWork st m).1.1 := by
  have htaken := takeWork_taken st m
  have hoff := takeWork_offScheduler st m
  generalize (takeWork st m).1.1 = st' at htaken hoff ⊢
  generalize (takeWork st m).2 = work at htaken
  have hlive : (st.session.cancelled || st.session.ended) = false → st'.enhance ≠ .finished := by
    intro halive hfin
    have hcan := (h.finished (hoff.enhance.symm.trans hfin)).1
    simp [hcan] at halive
  cases htaken with
  | dead _ => exact h.flagged false
  | idle _ _ => exact h.flagged false
  | ends work inputQueue m' halive hget _ =>
      refine h.of_subset ?_ (hlive halive)
      have hitems := (BoundedQueue.getNowait_eq_some hget).1
      rw [completeWithoutFlush_inputQueue, hitems]
      exact List.subset_cons_self _ _
  | joins work inputQueue halive hget _ =>
      refine h.of_subset ?_ (hlive halive)
      rw [(BoundedQueue.getNowait_eq_some hget).1]
      exact List.subset_cons_self _ _

theorem Tidy.apply (h : Tidy st) (work : ModelWork) (row : Option Bytes) (updated : Option κ)
    (m : Metrics) : Tidy (applyResult work row updated st m).1.1 := by
  by_cases hfin : st.enhance = .finished
  · have hdead : (st.session.cancelled || st.session.ended) = true := by
      rw [(h.finished hfin).1, Bool.true_or]
    unfold applyResult
    rw [if_pos hdead]
    exact h
  · refine h.of_subset ?_ ((applyResult_offScheduler work row updated st m).enhance ▸ hfin)
    rw [applyResult_inputQueue]
    exact List.Subset.refl _

theorem Tidy.fail (h : Tidy st) (m : Metrics) : Tidy (failInference st m).1 where
  bare := h.bare
  finished := fun hfin => ⟨rfl, (h.finished hfin).2.1, (h.finished hfin).2.2.1, rfl⟩

theorem Change.tidy {x y : Stream κ × Metrics} (h : Change settings x y) (ht : Tidy x.1) :
    Tidy y.1 := by
  cases h with
  | read message hr =>
      exact ht.offReader (readMessage_offReader settings _ message _ _)
        (ht.not_finished (by simp [hr]))
  | eof hr => exact ht.offReader (readEof_offReader _ _ _) (ht.not_finished (by simp [hr]))
  | readFail failure hr =>
      exact ht.offReader (failReader_offReader failure _ _) (ht.not_finished (by simp [hr]))
  | put scheduled hw hq =>
      obtain ⟨hputs, he⟩ := ht.puts hw hq scheduled _
      exact hputs.offReader (afterPut_offReader _ _) he
  | putOverflow scheduled hw hq =>
      obtain ⟨hputs, he⟩ := ht.puts hw hq scheduled _
      exact hputs.offReader (failReader_offReader _ _ _) he
  | afterAccepted _ => exact ht.of_subset (List.Subset.refl _) Generator.noConfusion
  | afterAudio _ => exact ht.of_subset (List.Subset.refl _) Generator.noConfusion
  | handle _ _ hh =>
      refine ht.of_subset ?_ (handleEvent_ne_finished hh)
      dsimp only
      rw [(handleEvent_offGenerator hh).inputQueue]
      exact List.Subset.refl _
  | take => exact ht.take _
  | apply work row updated scheduled => exact (ht.apply work row updated _).flagged scheduled
  | fail => exact ht.fail _

theorem finallyBlock_tidy (st : Stream κ) (m : Metrics) : Tidy (finallyBlock st m).1 where
  bare := fun _ hwork => absurd hwork List.not_mem_nil
  finished := fun _ => ⟨rfl, rfl, rfl, rfl⟩

end Tidy

/-! ## All streams -/

/-- The calls that have not ended. -/
def ServerState.live (s : ServerState κ) : List (Stream κ) :=
  s.streams.filter fun st => decide (st.enhance ≠ .finished)

/-- The gauges are the sums over all streams, and the registry counts the admitted calls. -/
structure Gauged (s : ServerState κ) : Prop where
  tidy : ∀ (i : Nat) (st : Stream κ), s.streams[i]? = some st → Tidy st
  input : s.metrics.inputQueueSamples =
    (s.streams.map fun st => st.session.queuedInputSamples).sum
  output : s.metrics.outputQueueSamples =
    (s.streams.map fun st => st.session.queuedOutputSamples).sum
  active : s.metrics.activeStreams = s.registry.length

/-- One summand changes. -/
theorem sum_map_set {α : Type*} (f : α → Nat) {l : List α} {i : Nat} {a : α} (h : l[i]? = some a)
    (b : α) : ((l.set i b).map f).sum + f a = (l.map f).sum + f b := by
  induction l generalizing i with
  | nil => cases h
  | cons x rest ih =>
      cases i with
      | zero =>
          cases h
          simp only [List.set_cons_zero, List.map_cons, List.sum_cons]
          omega
      | succ i =>
          have hrest := ih (i := i) (by simpa using h)
          simp only [List.set_cons_succ, List.map_cons, List.sum_cons]
          omega

/-- Summands that are zero may be left out. -/
theorem sum_map_filter {α : Type*} (f : α → Nat) (p : α → Bool) {l : List α}
    (h : ∀ a ∈ l, p a = false → f a = 0) : ((l.filter p).map f).sum = (l.map f).sum := by
  induction l with
  | nil => rfl
  | cons a rest ih =>
      have hrest := ih fun b hb => h b (List.mem_cons_of_mem _ hb)
      cases hp : p a with
      | false => simp [hp, hrest, h a List.mem_cons_self hp]
      | true => simp [hp, hrest]

section Gauged

variable {settings : ServerSettings} {model : StreamingModel κ} {env : Env κ}
  {s s' : ServerState κ} {i : Nat} {st st' : Stream κ} {m : Metrics}

/-- A change of one stream that balances. -/
theorem Gauged.set (h : Gauged s) (hst : s.streams[i]? = some st) (ht : Tidy st')
    (hb : Balanced (st, s.metrics) (st', m)) : Gauged (s.withStream i st' m) where
  tidy := by
    intro j st₁ hj
    rw [ServerState.get?_withStream hst] at hj
    split at hj
    · cases hj
      exact ht
    · exact h.tidy j st₁ hj
  input := by
    have hsum := sum_map_set (fun st => st.session.queuedInputSamples) hst st'
    have hinput := h.input
    have hbalance := hb.input
    dsimp only [ServerState.withStream] at hsum hbalance ⊢
    omega
  output := by
    have hsum := sum_map_set (fun st => st.session.queuedOutputSamples) hst st'
    have houtput := h.output
    have hbalance := hb.output
    dsimp only [ServerState.withStream] at hsum hbalance ⊢
    omega
  active := hb.active.trans h.active

theorem registryRemove_length {registry : List (String × Nat)} {streamId : String}
    (hkeys : (registry.map Prod.fst).Nodup) (h : (streamId, i) ∈ registry) :
    (registryRemove registry streamId i).length + 1 = registry.length := by
  have hperm : registry.Perm ((streamId, i) :: registryRemove registry streamId i) := by
    have hnodup : registry.Nodup := hkeys.of_map
    refine (List.perm_ext_iff_of_nodup hnodup ?_).mpr fun entry => ?_
    · refine List.nodup_cons.mpr ⟨fun hmem => ?_, hnodup.sublist (registryRemove_sublist _ _ _)⟩
      exact ((mem_registryRemove hkeys h).mp hmem).2 rfl
    · rw [List.mem_cons, mem_registryRemove hkeys h]
      by_cases heq : entry = (streamId, i)
      · simp [heq, h]
      · simp [heq]
  rw [hperm.length_eq, List.length_cons]

/-- The end of a call drains its queues and takes it off the registry. -/
theorem Gauged.finish (h : Gauged s) (hroster : Roster settings s) (hst : s.streams[i]? = some st)
    (he : st.enhance ≠ .finished) : Gauged (finish i s) := by
  have hset : Gauged (s.withStream i (finallyBlock st s.metrics).1
      { (finallyBlock st s.metrics).2 with activeStreams := s.metrics.activeStreams }) :=
    h.set hst (finallyBlock_tidy st s.metrics) ⟨by
      simp [finallyBlock, Session.queuedInputSamples], by
      simp [finallyBlock, Session.queuedOutputSamples], rfl⟩
  rw [finish_eq hst]
  refine ⟨hset.tidy, hset.input, hset.output, ?_⟩
  have hactive := h.active
  cases hreg : st.registered with
  | false => simpa [finallyBlock, hreg, ServerState.withStream] using hactive
  | true =>
      have hlength := registryRemove_length hroster.keys
        ((hroster.entry _ _).mpr ⟨st, hst, ⟨hreg, he, rfl⟩⟩)
      simp only [finallyBlock, hreg, ServerState.withStream, if_true]
      omega

/-- A new session starts with empty queues. -/
theorem Gauged.append (h : Gauged s) {new : Stream κ} (hin : new.session.inputQueue.items = [])
    (hout : new.session.outputQueue.items = [])
    (he : new.enhance = .finished → new.session.cancelled = true ∧ new.reader = .done)
    (registry : List (String × Nat)) (m : Metrics)
    (hm : m.inputQueueSamples = s.metrics.inputQueueSamples ∧
      m.outputQueueSamples = s.metrics.outputQueueSamples)
    (hactive : m.activeStreams = registry.length) :
    Gauged { s with streams := s.streams ++ [new], registry, metrics := m } where
  tidy := by
    intro j st₁ hj
    rcases get?_append_new hj with hj | ⟨-, rfl⟩
    · exact h.tidy j st₁ hj
    · refine ⟨by simp [hin], fun hfin => ⟨(he hfin).1, (he hfin).2, hin, ?_⟩⟩
      simp [Session.queuedOutputSamples, hout]
  input := by
    have hinput := h.input
    simp only [hm.1, List.map_append, List.sum_append, List.map_cons, List.map_nil,
      Session.queuedInputSamples, hin, List.sum_cons, List.sum_nil] at hinput ⊢
    exact hinput
  output := by
    have houtput := h.output
    simp only [hm.2, List.map_append, List.sum_append, List.map_cons, List.map_nil,
      Session.queuedOutputSamples, hout, List.sum_cons, List.sum_nil] at houtput ⊢
    exact houtput
  active := hactive

theorem Gauged.touched (h : Gauged s) (hroster : Roster settings s)
    (ht : Touched settings model env s s') : Gauged s' := by
  cases ht with
  | still hstreams hregistry hmetrics =>
      exact ⟨hstreams ▸ h.tidy, by rw [hmetrics, hstreams]; exact h.input,
        by rw [hmetrics, hstreams]; exact h.output, by rw [hmetrics, hregistry]; exact h.active⟩
  | enhance first _ hs' =>
      have hspec := enhance_spec settings model first s
      rw [← hs'] at hspec
      cases hspec with
      | invalid _ _ => exact h
      | refused _ _ _ _ => exact h.append rfl rfl (by rintro ⟨⟩) _ _ ⟨rfl, rfl⟩ h.active
      | unannounced _ _ _ _ _ =>
          exact h.append rfl rfl (fun _ => ⟨rfl, rfl⟩) _ _ ⟨rfl, rfl⟩ h.active
      | admitted start _ hfresh hroom _ =>
          refine h.append rfl rfl (by rintro ⟨⟩) _ _ ⟨rfl, rfl⟩ ?_
          have hactive := h.active
          simp only [List.length_append, List.length_singleton]
          omega
  | change i st st' hst hc hstreams hregistry =>
      have htidy := h.tidy i st hst
      have hset := h.set hst (hc.tidy htidy) (hc.balanced htidy)
      exact ⟨hstreams ▸ hset.tidy, by rw [hstreams]; exact hset.input,
        by rw [hstreams]; exact hset.output, by rw [hregistry]; exact hset.active⟩
  | handleRaise i st event q m' hst he hget hh hs' =>
      have htidy := h.tidy i st hst
      have hset : Gauged (s.withStream i (st.withOutput q) m') :=
        h.set hst ⟨htidy.bare, fun hfin => absurd (he.symm.trans hfin) nofun⟩
          (handleEvent_balanced hget hh)
      have hst' := ServerState.get?_withStream hst (st.withOutput q) m' i
      rw [if_pos rfl] at hst'
      have hroster' : Roster settings (s.withStream i (st.withOutput q) m') :=
        hroster.change hst (withOutput_holds_iff st q) rfl rfl
      rw [hs']
      exact hset.finish hroster' hst' (by simp [Stream.withOutput, he])
  | finish i st hst he hs' =>
      rw [hs']
      exact h.finish hroster hst he

theorem reachable_gauged (h : (system settings model).Reachable s) : Gauged s := by
  have hinv : Roster settings s.core.server ∧ Gauged s.core.server := by
    refine reachable_invariant (I := fun c => Roster settings c.server ∧ Gauged c.server)
      model.delivers_any (fun _ _ => trivial) ⟨?_, ?_⟩
      (fun c c' hc hr => ⟨hc.1.touched hr.touched, hc.2.touched hc.1 hr.touched⟩) h
    · exact reachable_roster (Lts.System.Reachable.init : (system settings model).Reachable _)
    · exact ⟨fun i st hst => by simp [ServerState.init, ServerState.core] at hst, rfl, rfl, rfl⟩
  exact hinv.2

/-- The samples of an input queue, a hop per work item with a source. -/
theorem queuedInputSamples_eq (session : Session κ) :
    session.queuedInputSamples =
      hopSamples * session.inputQueue.items.countP fun work => work.source.isSome := by
  rw [Session.queuedInputSamples]
  induction session.inputQueue.items with
  | nil => rfl
  | cons work rest ih =>
      rw [List.map_cons, List.sum_cons, ih, List.countP_cons, ModelWork.queuedSamples]
      split
      · rw [hopSamples_eq]
        omega
      · rw [Nat.zero_add, Nat.add_zero]

/-- What the gauges say. -/
structure GaugesExact (s : ServerState κ) : Prop where
  /-- A hop of samples for every queued work item with a source. -/
  input : s.metrics.inputQueueSamples = (hopSamples * (s.live.map fun st =>
    st.session.inputQueue.items.countP fun work => work.source.isSome).sum : Nat)
  /-- The valid samples of every queued `OutputAudio`. -/
  output : s.metrics.outputQueueSamples =
    ((s.live.map fun st => (st.session.outputQueue.items.map OutputEvent.samples).sum).sum : Nat)
  /-- The sessions in the registry. -/
  active : s.metrics.activeStreams = s.registry.length
  /-- No gauge is negative. -/
  nonneg : 0 ≤ s.metrics.inputQueueSamples ∧ 0 ≤ s.metrics.outputQueueSamples ∧
    0 ≤ s.metrics.activeStreams
  /-- With no call active, all are zero. -/
  idle : s.live = [] → s.metrics.inputQueueSamples = 0 ∧ s.metrics.outputQueueSamples = 0 ∧
    s.metrics.activeStreams = 0

/-- The gauges never drift. -/
theorem gauges_exact (h : (system settings model).Reachable s) : GaugesExact s := by
  have hg := reachable_gauged h
  have hroster := reachable_roster h
  have hfin : ∀ st ∈ s.streams, decide (st.enhance ≠ .finished) = false →
      st.session.inputQueue.items = [] ∧ st.session.queuedOutputSamples = 0 := by
    intro st hst hdead
    obtain ⟨i, hi⟩ := List.mem_iff_getElem?.mp hst
    exact ((hg.tidy i st hi).finished (by simpa using hdead)).2.2
  have hinput : s.metrics.inputQueueSamples = (hopSamples * (s.live.map fun st =>
      st.session.inputQueue.items.countP fun work => work.source.isSome).sum : Nat) := by
    rw [hg.input, ← List.sum_map_mul_left, ServerState.live, sum_map_filter]
    · simp only [queuedInputSamples_eq]
    · intro st hst hdead
      rw [(hfin st hst hdead).1]
      rfl
  have houtput : s.metrics.outputQueueSamples =
      ((s.live.map fun st => st.session.queuedOutputSamples).sum : Nat) := by
    rw [hg.output, ServerState.live, sum_map_filter]
    exact fun st hst hdead => (hfin st hst hdead).2
  refine ⟨hinput, houtput, hg.active, ⟨?_, ?_, ?_⟩, fun hlive => ⟨?_, ?_, ?_⟩⟩
  · exact hinput ▸ Int.natCast_nonneg _
  · exact houtput ▸ Int.natCast_nonneg _
  · exact hg.active ▸ Int.natCast_nonneg _
  · simp [hinput, hlive]
  · simp [houtput, hlive]
  · have hempty : s.registry = [] := by
      refine List.eq_nil_iff_forall_not_mem.mpr fun entry hentry => ?_
      obtain ⟨st, hst, hholds⟩ := (hroster.entry entry.1 entry.2).mp hentry
      have hmem : st ∈ s.live :=
        List.mem_filter.mpr ⟨List.mem_of_getElem? hst, by simpa using hholds.unfinished⟩
      exact absurd (hlive ▸ hmem) List.not_mem_nil
    rw [hg.active, hempty]
    rfl

end Gauged

/-- A hop is in the input queue of one call while another has been cancelled. -/
theorem gauges_exact_two_calls :
    ∃ s, (system .defaults identityDelayModel).run (.init .defaults)
        [.enhance (testStart "a" 0), .enhance (testStart "b" 0), .deliver 0 (testAudio 0 0 256),
          .put 0, .cancelCall 1] = some s ∧
      s.metrics.inputQueueSamples = 256 ∧ s.metrics.activeStreams = 1 ∧ GaugesExact s := by
  obtain ⟨s, hrun, hr, hp⟩ := Lts.System.Reachable.of_run (system .defaults identityDelayModel)
    [.enhance (testStart "a" 0), .enhance (testStart "b" 0), .deliver 0 (testAudio 0 0 256),
      .put 0, .cancelCall 1]
    (fun s => s.metrics.inputQueueSamples == 256 && s.metrics.activeStreams == 1)
    (by decide +kernel) (by decide +kernel)
  simp only [Bool.and_eq_true, beq_iff_eq] at hp
  exact ⟨s, hrun, hp.1, hp.2, gauges_exact hr⟩

end VoxLattice.Server
