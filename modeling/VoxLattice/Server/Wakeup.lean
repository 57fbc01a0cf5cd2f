import Mathlib.Data.List.Nodup
import VoxLattice.Server.Rounds

/-!
# Scheduling without lost wakeups

A session reaches the scheduler through `notify`, which puts it into the ready queue and sets
`scheduled`, and does nothing if the flag is set already.  A notification dropped because of the
flag has to be made up for later.

*The flag.*  `Turns` says that the sessions in the ready queue and those gathered for a batch
are distinct and carry the flag, and that no session takes part twice in a batch.  It holds in
every run.

*The wakeup.*  `Woken` is the converse: the flag is only set on sessions that wait for their
turn, and a session with work for the scheduler has the flag or is in inference.  It holds
until the ready queue overflows or the scheduler is closed.

Most changes of a stream leave the flag alone and cannot give the scheduler new work.  `Calm`
collects them, so that both invariants treat them alike.
-/

namespace VoxLattice.Server

variable {κ : Type*}

/-! ## Streams that await the scheduler -/

/-- The session is neither cancelled nor ended and has work in its input queue. -/
structure Stream.Awaits (st : Stream κ) : Prop where
  cancelled : st.session.cancelled = false
  ended : st.session.ended = false
  inputQueue : st.session.inputQueue.items ≠ []

theorem Stream.Awaits.alive {st : Stream κ} (h : st.Awaits) :
    (st.session.cancelled || st.session.ended) = false := by
  rw [h.cancelled, h.ended, Bool.or_false]

/-- What the registry and the scheduler know a stream by. -/
def Stream.tag (st : Stream κ) : String × Bool × Bool :=
  (st.session.streamId, st.registered, st.session.scheduled)

/-- A change that leaves the flag alone, gives the scheduler no new work and revives no
cancelled session. -/
structure Stream.Calm (st st' : Stream κ) : Prop where
  tag : st'.tag = st.tag
  cancelled : st'.session.cancelled = false → st.session.cancelled = false
  inputQueue : st.session.inputQueue.items = [] → st'.session.inputQueue.items = []
  awaits : st'.Awaits → st.Awaits

namespace Stream.Calm

variable {st st' st'' : Stream κ}

theorem streamId (h : Calm st st') : st'.session.streamId = st.session.streamId :=
  (Prod.mk.inj h.tag).1

theorem registered (h : Calm st st') : st'.registered = st.registered :=
  (Prod.mk.inj (Prod.mk.inj h.tag).2).1

theorem scheduled (h : Calm st st') : st'.session.scheduled = st.session.scheduled :=
  (Prod.mk.inj (Prod.mk.inj h.tag).2).2

theorem refl (st : Stream κ) : Calm st st := ⟨rfl, id, id, id⟩

theorem trans (h : Calm st st') (h' : Calm st' st'') : Calm st st'' :=
  ⟨h'.tag.trans h.tag, fun hc => h.cancelled (h'.cancelled hc),
    fun hq => h'.inputQueue (h.inputQueue hq), fun ha => h.awaits (h'.awaits ha)⟩

theorem after (h' : Calm st' st'') (h : Calm st st') : Calm st st'' := h.trans h'

/-- A change that keeps the flags of the session and its input queue. -/
theorem of_eq (ht : st'.tag = st.tag) (hc : st'.session.cancelled = st.session.cancelled)
    (he : st'.session.ended = st.session.ended)
    (hq : st'.session.inputQueue = st.session.inputQueue) : Calm st st' :=
  ⟨ht, fun h => hc ▸ h, fun h => hq ▸ h,
    fun ha => ⟨hc ▸ ha.cancelled, he ▸ ha.ended, hq ▸ ha.inputQueue⟩⟩

/-- A change that cancels the session. -/
theorem of_cancelled (ht : st'.tag = st.tag) (hc : st'.session.cancelled = true)
    (hq : st.session.inputQueue.items = [] → st'.session.inputQueue.items = []) : Calm st st' :=
  ⟨ht, fun h => absurd (h.symm.trans hc) Bool.false_ne_true, hq,
    fun ha => absurd (ha.cancelled.symm.trans hc) Bool.false_ne_true⟩

/-- A change that ends the session. -/
theorem of_ended (ht : st'.tag = st.tag) (hc : st'.session.cancelled = st.session.cancelled)
    (he : st'.session.ended = true) (hq : st'.session.inputQueue = st.session.inputQueue) :
    Calm st st' :=
  ⟨ht, fun h => hc ▸ h, fun h => hq ▸ h,
    fun ha => absurd (ha.ended.symm.trans he) Bool.false_ne_true⟩

end Stream.Calm

open VoxLattice.Server.Stream (Calm)

theorem fail_calm (status : StatusCode) (detail : String) (st : Stream κ) (m : Metrics) :
    Calm st (fail status detail st m).1 := .of_cancelled rfl rfl id

theorem failReader_calm (failure : ProtocolViolation) (st : Stream κ) (m : Metrics) :
    Calm st (failReader failure st m).1 := .of_cancelled rfl rfl id

theorem finallyBlock_calm (st : Stream κ) (m : Metrics) : Calm st (finallyBlock st m).1 :=
  .of_cancelled rfl rfl fun _ => rfl

/-- Completing a stream ends it, or fails it where the output queue is full. -/
theorem complete_calm (flushed : Bool) (st : Stream κ) (m : Metrics) :
    Calm st (complete flushed st m).1 := by
  have hcompletes := complete_completes flushed st m
  generalize complete flushed st m = next at hcompletes ⊢
  cases hcompletes with
  | already _ => exact .refl st
  | queued _ _ _ => exact .of_ended rfl rfl rfl rfl
  | full _ _ => exact .of_cancelled rfl rfl id

theorem complete_not_awaits (flushed : Bool) (st : Stream κ) (m : Metrics) :
    ¬ (complete flushed st m).1.Awaits := by
  intro ha
  have hstops := complete_stops flushed st m
  rw [ha.cancelled, ha.ended] at hstops
  cases hstops

theorem completeEmptyFlush_calm (st : Stream κ) (m : Metrics) :
    Calm st (completeEmptyFlush st m).1 := complete_calm true st m

theorem completeWithoutFlush_calm (st : Stream κ) (m : Metrics) :
    Calm st (completeWithoutFlush st m).1 :=
  (complete_calm false _ m).after (.of_eq rfl rfl rfl rfl)

theorem completeWithoutFlush_not_awaits (st : Stream κ) (m : Metrics) :
    ¬ (completeWithoutFlush st m).1.Awaits := complete_not_awaits false _ m

theorem acceptAudio_calm (settings : ServerSettings) (chunk : AudioChunk) (st : Stream κ)
    (m : Metrics) : Calm st (acceptAudio settings chunk st m).1.1 := by
  unfold acceptAudio
  split
  · exact .refl st
  · dsimp only
    split <;> exact .of_eq rfl rfl rfl rfl

theorem finishInput_calm (flush : Bool) (st : Stream κ) (m : Metrics) :
    Calm st (finishInput flush st m).1 := by
  have hfinished := finishInput_finished flush st m
  generalize (finishInput flush st m).1 = st' at hfinished ⊢
  cases hfinished with
  | noFlush _ => exact .of_eq rfl rfl rfl rfl
  | failed failure m' => exact failReader_calm failure st m'
  | hop hop rechunker _ _ => exact .of_eq rfl rfl rfl rfl
  | nothing rechunker m' _ _ _ =>
      exact (completeEmptyFlush_calm _ m').after (.of_eq rfl rfl rfl rfl)
  | flush rechunker _ _ _ => exact .of_eq rfl rfl rfl rfl

theorem readMessage_calm (settings : ServerSettings) (sawEnd : Bool) (message : ClientMessage)
    (st : Stream κ) (m : Metrics) : Calm st (readMessage settings sawEnd message st m).1 := by
  have hread := readMessage_read settings sawEnd message st m
  generalize readMessage settings sawEnd message st m = next at hread ⊢
  cases hread with
  | afterEnd _ => exact failReader_calm _ st m
  | duplicateStart _ => exact failReader_calm _ st m
  | empty => exact failReader_calm _ st m
  | accepted chunk st' m' h =>
      have hc := acceptAudio_calm settings chunk st m
      rw [h] at hc
      exact hc
  | refused chunk st' m' violation h =>
      have hc := acceptAudio_calm settings chunk st m
      rw [h] at hc
      exact hc.trans (failReader_calm violation st' m')
  | ended flush => exact finishInput_calm flush st m

theorem readEof_calm (sawEnd : Bool) (st : Stream κ) (m : Metrics) :
    Calm st (readEof sawEnd st m).1 := by
  unfold readEof
  split
  · exact .of_eq rfl rfl rfl rfl
  · exact failReader_calm _ st m

theorem afterPut_calm (st : Stream κ) (m : Metrics) : Calm st (afterPut st m).1 := by
  rcases afterPut_cases st m with ⟨reader, h⟩ | h
  · rw [h]
    exact .of_eq rfl rfl rfl rfl
  · rw [h]
    exact (completeEmptyFlush_calm _ m).after (.of_eq rfl rfl rfl rfl)

theorem handleEvent_calm {event : OutputEvent} {st st' : Stream κ} {m m' : Metrics}
    (h : handleEvent event st m = (some st', m')) : Calm st st' := by
  cases event with
  | audio audio =>
      simp only [handleEvent, Prod.mk.injEq, Option.map_eq_some_iff] at h
      obtain ⟨⟨message, -, rfl⟩, -⟩ := h
      exact .of_eq rfl rfl rfl rfl
  | completion completion =>
      simp only [handleEvent, Prod.mk.injEq, Option.map_eq_some_iff] at h
      obtain ⟨⟨message, -, rfl⟩, -⟩ := h
      exact .of_eq rfl rfl rfl rfl
  | failure failure =>
      simp only [handleEvent, Prod.mk.injEq, Option.some.injEq] at h
      obtain ⟨rfl, -⟩ := h
      exact .of_eq rfl rfl rfl rfl

theorem afterAccepted_calm (st : Stream κ) (m : Metrics) : Calm st (afterAccepted st m).1 :=
  .of_eq rfl rfl rfl rfl

theorem afterAudio_calm (st : Stream κ) (m : Metrics) : Calm st (afterAudio st m).1 :=
  .of_eq rfl rfl rfl rfl

/-! ## The scheduler's two loops -/

/-- A gathered session gives up its flag, and has no work left for the scheduler but what
joins the batch. -/
theorem takeWork_spec {st st' : Stream κ} {m m' : Metrics} {work : Option ModelWork}
    (h : takeWork st m = ((st', m'), work)) :
    st'.session.scheduled = false ∧ (st'.Awaits → work.isSome) := by
  unfold takeWork at h
  dsimp only at h
  split at h
  · next hdead =>
      cases h
      refine ⟨rfl, fun ha => ?_⟩
      exact absurd (ha.alive.symm.trans hdead) Bool.false_ne_true
  · split at h
    · next hget =>
        cases h
        refine ⟨rfl, fun ha => absurd ?_ ha.inputQueue⟩
        simpa [BoundedQueue.getNowait_eq_none] using hget
    · split at h
      · obtain ⟨hst, -⟩ := Prod.mk.inj h
        rw [← (Prod.mk.inj hst).1]
        exact ⟨(completeWithoutFlush_calm _ m).scheduled,
          fun ha => absurd ha (completeWithoutFlush_not_awaits _ m)⟩
      · cases h
        exact ⟨rfl, fun _ => rfl⟩

theorem finishHop_calm (work : ModelWork) (st : Stream κ) (m : Metrics) :
    Calm st (finishHop work st m).1.1 := by
  unfold finishHop
  split
  · exact complete_calm true st m
  · exact .refl st

theorem finishHop_settled {work : ModelWork} {st st' : Stream κ} {m m' : Metrics}
    (h : finishHop work st m = ((st', m'), .settled)) : ¬ st'.Awaits := by
  unfold finishHop at h
  split at h
  · rw [Prod.mk.injEq] at h
    have hne := complete_not_awaits true st m
    rw [h.1] at hne
    exact hne
  · cases hq : st.session.inputQueue.empty with
    | true =>
        rw [hq] at h
        cases h
        exact fun ha => ha.inputQueue (BoundedQueue.empty_iff.mp hq)
    | false => simp [hq] at h

theorem applyResult_calm (work : ModelWork) (row : Option Bytes) (updated : Option κ)
    (st : Stream κ) (m : Metrics) : Calm st (applyResult work row updated st m).1.1 := by
  unfold applyResult
  split
  · exact .refl st
  · split
    · exact .refl st
    · dsimp only
      split
      · exact (finishHop_calm work _ m).after (.of_eq rfl rfl rfl rfl)
      · split
        · exact .of_eq rfl rfl rfl rfl
        · split
          · exact (fail_calm _ _ _ m).after (.of_eq rfl rfl rfl rfl)
          · exact (finishHop_calm work _ _).after (.of_eq rfl rfl rfl rfl)

/-- A round over the results that does not notify leaves no work behind. -/
theorem applyResult_settled {work : ModelWork} {row : Option Bytes} {updated : Option κ}
    {st st' : Stream κ} {m m' : Metrics}
    (h : applyResult work row updated st m = ((st', m'), .settled)) : ¬ st'.Awaits := by
  unfold applyResult at h
  split at h
  · next hdead =>
      cases h
      exact fun ha => absurd (ha.alive.symm.trans hdead) Bool.false_ne_true
  · split at h
    · simp at h
    · dsimp only at h
      split at h
      · exact finishHop_settled h
      · split at h
        · simp at h
        · split at h
          · cases h
            exact fun ha => absurd ha.cancelled (by simp [Stream.cancel])
          · exact finishHop_settled h

/-! ## Turns -/

/-- The sessions that wait for their turn, in the ready queue or gathered, are distinct and
carry the flag, and the sessions of a batch are distinct. -/
structure Turns (streams : List (Stream κ)) (ready gathered : List Nat)
    (flights : List (Flight κ)) : Prop where
  nodup : (ready ++ gathered).Nodup
  flagged : ∀ i ∈ ready ++ gathered, ∃ st, streams[i]? = some st ∧ st.session.scheduled = true
  batch : (gathered ++ flights.map Flight.stream).Nodup

theorem get?_set {streams : List (Stream κ)} {i : Nat} {st : Stream κ}
    (hst : streams[i]? = some st) (st' : Stream κ) (j : Nat) :
    (streams.set i st')[j]? = if i = j then some st' else streams[j]? := by
  have hi : i < streams.length := (List.getElem?_eq_some_iff.mp hst).1
  simp [List.getElem?_set, hi]

theorem get?_append_new {streams : List (Stream κ)} {new st : Stream κ} {i : Nat}
    (h : (streams ++ [new])[i]? = some st) :
    streams[i]? = some st ∨ i = streams.length ∧ st = new := by
  rw [List.getElem?_append] at h
  split at h
  · exact .inl h
  · next hi =>
      obtain ⟨hlt, heq⟩ := List.getElem?_eq_some_iff.mp h
      simp only [List.length_singleton] at hlt
      refine .inr ⟨by omega, ?_⟩
      simpa using heq.symm

section Turns

variable {streams : List (Stream κ)} {ready gathered : List Nat} {flights : List (Flight κ)}
  {i : Nat} {st st' : Stream κ}

/-- A stream may change while its flag stays, or is set. -/
theorem Turns.set (h : Turns streams ready gathered flights) (hst : streams[i]? = some st)
    (hs : st.session.scheduled = true → st'.session.scheduled = true) :
    Turns (streams.set i st') ready gathered flights where
  nodup := h.nodup
  flagged := by
    intro j hj
    obtain ⟨st₁, hst₁, hflag⟩ := h.flagged j hj
    rw [get?_set hst]
    split
    · next hij =>
        subst hij
        obtain rfl := Option.some.inj (hst.symm.trans hst₁)
        exact ⟨st', rfl, hs hflag⟩
    · exact ⟨st₁, hst₁, hflag⟩
  batch := h.batch

theorem Turns.calm (h : Turns streams ready gathered flights) (hst : streams[i]? = some st)
    (hc : Calm st st') : Turns (streams.set i st') ready gathered flights :=
  h.set hst fun hs => hc.scheduled.trans hs

theorem Turns.append (h : Turns streams ready gathered flights) (new : Stream κ) :
    Turns (streams ++ [new]) ready gathered flights where
  nodup := h.nodup
  flagged := fun j hj => by
    obtain ⟨st, hst, hflag⟩ := h.flagged j hj
    exact ⟨st, List.getElem?_append_left (List.getElem?_eq_some_iff.mp hst).1 ▸ hst, hflag⟩
  batch := h.batch

/-- A session without the flag may join the ready queue. -/
theorem Turns.queue (h : Turns streams ready gathered flights) (hst : streams[i]? = some st)
    (hs : st.session.scheduled = false) (hs' : st'.session.scheduled = true) :
    Turns (streams.set i st') (ready ++ [i]) gathered flights where
  nodup := by
    have hi : i ∉ ready ++ gathered := fun hi => by
      obtain ⟨st₁, hst₁, hflag⟩ := h.flagged i hi
      obtain rfl := Option.some.inj (hst.symm.trans hst₁)
      exact absurd (hs.symm.trans hflag) Bool.false_ne_true
    rw [List.append_assoc, List.singleton_append]
    exact List.perm_middle.nodup_iff.mpr (List.nodup_cons.mpr ⟨hi, h.nodup⟩)
  flagged := by
    intro j hj
    rw [get?_set hst]
    split
    · exact ⟨st', rfl, hs'⟩
    · next hij =>
        refine h.flagged j ?_
        simp only [List.append_assoc, List.mem_append, List.mem_singleton] at hj ⊢
        exact hj.imp_right fun hj => hj.resolve_left fun hji => hij hji.symm
  batch := h.batch

/-- The scheduler gathers the first session of the ready queue. -/
theorem Turns.gather (h : Turns streams (i :: ready) gathered []) :
    Turns streams ready (gathered ++ [i]) ([] : List (Flight κ)) where
  nodup := by
    rw [← List.append_assoc]
    exact (List.perm_append_singleton i (ready ++ gathered)).nodup_iff.mpr h.nodup
  flagged := by
    intro j hj
    refine h.flagged j ?_
    simp only [List.cons_append, List.mem_cons, List.mem_append, List.not_mem_nil,
      or_false] at hj ⊢
    tauto
  batch := by
    have hn := h.nodup
    have hb := h.batch
    rw [List.map_nil, List.append_nil] at hb ⊢
    rw [List.cons_append, List.nodup_cons, List.mem_append, not_or] at hn
    exact (List.perm_append_singleton i gathered).nodup_iff.mpr
      (List.nodup_cons.mpr ⟨hn.1.2, hb⟩)

theorem Turns.dropGathered (h : Turns streams ready (i :: gathered) flights) :
    Turns streams ready gathered flights where
  nodup := (List.nodup_cons.mp (List.perm_middle.nodup_iff.mp h.nodup)).2
  flagged := fun j hj => h.flagged j (by
    simp only [List.mem_append, List.mem_cons] at hj ⊢
    tauto)
  batch := (List.nodup_cons.mp h.batch).2

/-- A gathered session gives up its flag, and its work item, if any, joins the batch. -/
theorem Turns.take (h : Turns streams ready (i :: gathered) flights)
    (hst : streams[i]? = some st) {taken : List (Flight κ)}
    (ht : taken = [] ∨ ∃ flight, taken = [flight] ∧ flight.stream = i) :
    Turns (streams.set i st') ready gathered (flights ++ taken) where
  nodup := h.dropGathered.nodup
  flagged := by
    intro j hj
    rw [get?_set hst]
    split
    · next hij =>
        subst hij
        exact absurd hj (List.nodup_cons.mp (List.perm_middle.nodup_iff.mp h.nodup)).1
    · exact h.dropGathered.flagged j hj
  batch := by
    obtain rfl | ⟨flight, rfl, rfl⟩ := ht
    · rw [List.append_nil]
      exact h.dropGathered.batch
    · have hb := h.batch
      rw [List.map_append, ← List.append_assoc]
      exact (List.perm_append_singleton _ _).nodup_iff.mpr hb

theorem Turns.dropFlight {flight : Flight κ} (h : Turns streams ready [] (flight :: flights)) :
    Turns streams ready [] flights where
  nodup := h.nodup
  flagged := h.flagged
  batch := (List.nodup_cons.mp h.batch).2

theorem Turns.dropBatch (h : Turns streams ready gathered flights) :
    Turns streams ready [] flights where
  nodup := by
    rw [List.append_nil]
    exact (List.nodup_append.mp h.nodup).1
  flagged := fun j hj => h.flagged j (by
    simp only [List.append_nil] at hj
    exact List.mem_append_left _ hj)
  batch := (List.nodup_append.mp h.batch).2.1

end Turns

theorem Turns.notify {s s' : ServerState κ} {i : Nat} {raised : Bool} {g : List Nat}
    {f : List (Flight κ)} (h : Turns s.streams s.ready.items g f)
    (hn : Notified s i s' raised) : Turns s'.streams s'.ready.items g f := by
  cases hn with
  | dropped _ => exact h
  | queued st ready hst _ _ hscheduled _ hput =>
      obtain ⟨-, hitems, -⟩ := BoundedQueue.putNowait_eq_some hput
      rw [hitems]
      exact h.queue hst hscheduled rfl
  | overflowed st hst => exact h.set hst fun _ => rfl

/-! ## Wakeups -/

/-- Only waiting sessions carry the flag, and a session with work for the scheduler carries it
or is in inference.  The session `skip`, if any, is in the middle of being notified. -/
structure Woken (skip : Option Nat) (streams : List (Stream κ)) (ready gathered : List Nat)
    (flights : List (Flight κ)) : Prop where
  waits : ∀ i st, streams[i]? = some st → st.session.scheduled = true → i ∈ ready ++ gathered
  served : ∀ i st, streams[i]? = some st → st.Awaits →
    skip = some i ∨ st.session.scheduled = true ∨ i ∈ flights.map Flight.stream

section Woken

variable {skip : Option Nat} {streams : List (Stream κ)} {ready gathered : List Nat}
  {flights : List (Flight κ)} {i : Nat} {st st' : Stream κ}

/-- A stream may change while its flag stays, if it awaited the scheduler before or is the one
that is skipped. -/
theorem Woken.set (h : Woken skip streams ready gathered flights) (hst : streams[i]? = some st)
    (hs : st'.session.scheduled = st.session.scheduled)
    (ha : st'.Awaits → st.Awaits ∨ skip = some i) :
    Woken skip (streams.set i st') ready gathered flights where
  waits := by
    intro j st₁ hj hflag
    rw [get?_set hst] at hj
    split at hj
    · next hij =>
        cases hj
        exact hij ▸ h.waits i st hst (hs ▸ hflag)
    · exact h.waits j st₁ hj hflag
  served := by
    intro j st₁ hj hawaits
    rw [get?_set hst] at hj
    split at hj
    · next hij =>
        cases hj
        subst hij
        rw [hs]
        exact (ha hawaits).elim (h.served _ st hst) .inl
    · exact h.served j st₁ hj hawaits

theorem Woken.calm (h : Woken skip streams ready gathered flights) (hst : streams[i]? = some st)
    (hc : Calm st st') : Woken skip (streams.set i st') ready gathered flights :=
  h.set hst hc.scheduled fun ha => .inl (hc.awaits ha)

/-- The same, where the stream is about to be notified. -/
theorem Woken.enqueue (h : Woken none streams ready gathered flights) (hst : streams[i]? = some st)
    (hs : st'.session.scheduled = st.session.scheduled) :
    Woken (some i) (streams.set i st') ready gathered flights :=
  have hskip : Woken (some i) streams ready gathered flights :=
    ⟨h.waits, fun j st hj ha => .inr ((h.served j st hj ha).resolve_left (by simp))⟩
  hskip.set hst hs fun _ => .inr rfl

theorem Woken.append (h : Woken skip streams ready gathered flights) {new : Stream κ}
    (hs : new.session.scheduled = false) (ha : ¬ new.Awaits) :
    Woken skip (streams ++ [new]) ready gathered flights where
  waits := by
    intro j st hj hflag
    obtain hj | ⟨-, rfl⟩ := get?_append_new hj
    · exact h.waits j st hj hflag
    · exact absurd (hs.symm.trans hflag) Bool.false_ne_true
  served := by
    intro j st hj hawaits
    obtain hj | ⟨-, rfl⟩ := get?_append_new hj
    · exact h.served j st hj hawaits
    · exact absurd hawaits ha

theorem Woken.gather (h : Woken none streams (i :: ready) gathered flights) :
    Woken none streams ready (gathered ++ [i]) flights where
  waits := by
    intro j st hj hflag
    have hmem := h.waits j st hj hflag
    simp only [List.cons_append, List.mem_cons, List.mem_append, List.not_mem_nil,
      or_false] at hmem ⊢
    tauto
  served := h.served

/-- A gathered session gives up its flag; what it still awaits joins the batch. -/
theorem Woken.take (h : Woken none streams ready (i :: gathered) flights)
    (hst : streams[i]? = some st) (hs : st'.session.scheduled = false) {taken : List (Flight κ)}
    (ha : st'.Awaits → i ∈ taken.map Flight.stream) :
    Woken none (streams.set i st') ready gathered (flights ++ taken) where
  waits := by
    intro j st₁ hj hflag
    rw [get?_set hst] at hj
    split at hj
    · cases hj
      exact absurd (hs.symm.trans hflag) Bool.false_ne_true
    · next hij =>
        have hmem := h.waits j st₁ hj hflag
        simp only [List.mem_append, List.mem_cons] at hmem ⊢
        exact hmem.imp_right fun hmem => hmem.resolve_left fun hji => hij hji.symm
  served := by
    intro j st₁ hj hawaits
    rw [List.map_append, List.mem_append]
    rw [get?_set hst] at hj
    split at hj
    · next hij =>
        cases hj
        subst hij
        exact .inr (.inr (.inr (ha hawaits)))
    · exact (h.served j st₁ hj hawaits).imp_right fun hserved => hserved.imp_right .inl

theorem Woken.dropUnknown (h : Woken none streams ready (i :: gathered) flights)
    (hst : streams[i]? = none) : Woken none streams ready gathered flights where
  waits := by
    intro j st hj hflag
    have hmem := h.waits j st hj hflag
    have hij : j ≠ i := fun hji => by simp [hji, hst] at hj
    simp only [List.mem_append, List.mem_cons] at hmem ⊢
    exact hmem.imp_right fun hmem => hmem.resolve_left hij
  served := h.served

/-- The results of a session are applied; the session is about to be notified. -/
theorem Woken.land {flight : Flight κ}
    (h : Woken none streams ready gathered (flight :: flights))
    (hst : streams[flight.stream]? = some st)
    (hs : st'.session.scheduled = st.session.scheduled) :
    Woken (some flight.stream) (streams.set flight.stream st') ready gathered flights where
  waits := (h.enqueue hst hs).waits
  served := by
    intro j st₁ hj hawaits
    have hserved := (h.enqueue hst hs).served j st₁ hj hawaits
    rw [List.map_cons, List.mem_cons, Option.some.injEq] at hserved
    rw [Option.some.injEq]
    tauto

/-- A session that no longer awaits the scheduler need not be skipped. -/
theorem Woken.settle (h : Woken (some i) streams ready gathered flights)
    (hst : streams[i]? = some st) (ha : ¬ st.Awaits) :
    Woken none streams ready gathered flights where
  waits := h.waits
  served := by
    intro j st₁ hj hawaits
    refine (h.served j st₁ hj hawaits).imp_left fun hij => absurd hawaits ?_
    obtain rfl := Option.some.inj hij
    obtain rfl := Option.some.inj (hst.symm.trans hj)
    exact ha

theorem Woken.dropFlightUnknown {flight : Flight κ}
    (h : Woken none streams ready gathered (flight :: flights))
    (hst : streams[flight.stream]? = none) : Woken none streams ready gathered flights where
  waits := h.waits
  served := by
    intro j st hj hawaits
    have hij : j ≠ flight.stream := fun hji => by simp [hji, hst] at hj
    have hserved := h.served j st hj hawaits
    rw [List.map_cons, List.mem_cons] at hserved
    tauto

end Woken

/-- The notification the skipped session was waiting for. -/
theorem Woken.notify {s s' : ServerState κ} {i : Nat} {g : List Nat} {f : List (Flight κ)}
    (h : Woken (some i) s.streams s.ready.items g f) (hn : Notified s i s' false)
    (hclosing : s.closing = false) : Woken none s'.streams s'.ready.items g f := by
  cases hn with
  | dropped hguard =>
      refine ⟨h.waits, fun j st hj ha => ?_⟩
      refine (h.served j st hj ha).elim (fun hij => ?_) .inr
      obtain rfl := Option.some.inj hij
      obtain hc | hc | hc | hc := hguard st hj
      · exact absurd (hclosing.symm.trans hc) Bool.false_ne_true
      · exact absurd (ha.cancelled.symm.trans hc) Bool.false_ne_true
      · exact .inr (.inl hc)
      · exact absurd hc ha.inputQueue
  | queued st ready hst _ _ _ _ hput =>
      obtain ⟨-, hitems, -⟩ := BoundedQueue.putNowait_eq_some hput
      constructor
      · intro j st₁ hj hflag
        rw [hitems]
        rw [ServerState.get?_withStream hst] at hj
        split at hj
        · next hij => simp [hij]
        · have hmem := h.waits j st₁ hj hflag
          simp only [List.mem_append] at hmem ⊢
          tauto
      · intro j st₁ hj ha
        rw [ServerState.get?_withStream hst] at hj
        split at hj
        · cases hj
          exact .inr (.inl rfl)
        · next hij =>
            exact .inr ((h.served j st₁ hj ha).resolve_left fun h => hij (Option.some.inj h))

/-! ## Every run -/

/-- The scheduling invariant: turns are taken in order, and until an overflow or the end of the
scheduler no wakeup is lost. -/
structure Scheduling (c : Core κ) : Prop where
  turns : Turns c.server.streams c.server.ready.items c.gathered c.flights
  woken : c.server.readyOverflow = false → c.server.closing = false →
    Woken none c.server.streams c.server.ready.items c.gathered c.flights

section Scheduling

variable {settings : ServerSettings} {model : StreamingModel κ}
  {env : Env κ} {s s' : ServerState κ} {g : List Nat} {f : List (Flight κ)} {i : Nat}

theorem Scheduling.gathered_nodup (h : Scheduling s.core) : s.loop.gathered.Nodup :=
  (List.nodup_append.mp h.turns.batch).1

theorem Scheduling.flights_nodup (h : Scheduling s.core) :
    (s.loop.flights.map Flight.stream).Nodup := (List.nodup_append.mp h.turns.batch).2.1

/-- A calm change of one stream. -/
theorem Scheduling.calm (h : Scheduling ⟨s, g, f⟩) {st st' : Stream κ}
    (hst : s.streams[i]? = some st) (hc : Calm st st') (m : Metrics) :
    Scheduling ⟨s.withStream i st' m, g, f⟩ where
  turns := h.turns.calm hst hc
  woken := fun ho hcl => (h.woken ho hcl).calm hst hc

theorem Scheduling.onStream (h : Scheduling ⟨s, g, f⟩) {st : Stream κ}
    (hst : s.streams[i]? = some st) {change : Stream κ → Metrics → Stream κ × Metrics}
    (hc : ∀ st m, Calm st (change st m).1) : Scheduling ⟨s.onStream i change, g, f⟩ := by
  rw [ServerState.onStream_eq hst]
  exact h.calm hst (hc st s.metrics) _

/-- The same, where the stream is known to exist afterwards only. -/
theorem Scheduling.onStream' (h : Scheduling ⟨s, g, f⟩)
    {change : Stream κ → Metrics → Stream κ × Metrics} (hc : ∀ st m, Calm st (change st m).1) :
    Scheduling ⟨s.onStream i change, g, f⟩ := by
  cases hst : s.streams[i]? with
  | none =>
      rw [ServerState.onStream, hst]
      exact h
  | some st => exact h.onStream hst hc

theorem Scheduling.finish (h : Scheduling ⟨s, g, f⟩) {st : Stream κ}
    (hst : s.streams[i]? = some st) : Scheduling ⟨finish i s, g, f⟩ := by
  rw [finish_eq hst]
  have hc := h.calm hst (finallyBlock_calm st s.metrics) (finallyBlock st s.metrics).2
  exact ⟨hc.turns, hc.woken⟩

theorem Scheduling.enhance (h : Scheduling ⟨s, g, f⟩) (first : ClientMessage) :
    Scheduling ⟨enhance settings model first s, g, f⟩ := by
  have hspec := enhance_spec settings model first s
  generalize Server.enhance settings model first s = s' at hspec
  cases hspec with
  | invalid _ _ => exact h
  | refused _ _ _ _ =>
      exact ⟨h.turns.append _, fun ho hc => (h.woken ho hc).append rfl fun ha => ha.inputQueue rfl⟩
  | unannounced _ _ _ _ _ =>
      exact ⟨h.turns.append _, fun ho hc => (h.woken ho hc).append rfl fun ha => ha.inputQueue rfl⟩
  | admitted _ _ _ _ _ =>
      exact ⟨h.turns.append _, fun ho hc => (h.woken ho hc).append rfl fun ha => ha.inputQueue rfl⟩

/-- A session is notified after a change that may have given the scheduler work. -/
theorem Scheduling.notify {raised : Bool} (hn : notify s i = (s', raised))
    (hturns : Turns s.streams s.ready.items g f)
    (hwoken : s.readyOverflow = false → s.closing = false →
      Woken (some i) s.streams s.ready.items g f) : Scheduling ⟨s', g, f⟩ := by
  have hspec := notify_spec s i
  rw [hn] at hspec
  refine ⟨hturns.notify hspec, fun ho hc => ?_⟩
  cases hspec with
  | dropped hguard => exact (hwoken ho hc).notify (.dropped hguard) hc
  | queued st ready hst hcl hca hs hw hput =>
      exact (hwoken ho hc).notify (.queued st ready hst hcl hca hs hw hput) hc
  | overflowed => exact absurd ho (by simp)

theorem Scheduling.put (h : Scheduling ⟨s, g, f⟩) {st : Stream κ} (hst : s.streams[i]? = some st)
    {work : ModelWork} {q : BoundedQueue ModelWork} {raised : Bool}
    (hn : Server.notify (s.onStream i (enqueue work q)) i = (s', raised)) :
    Scheduling ⟨s', g, f⟩ := by
  rw [ServerState.onStream_eq hst] at hn
  exact Scheduling.notify hn (h.turns.set hst id) fun ho hc => (h.woken ho hc).enqueue hst rfl

theorem takeWork_flights (st : Stream κ) (m : Metrics) (i : Nat) :
    let taken := ((takeWork st m).2.map fun work =>
      (⟨i, work, (takeWork st m).1.1.session.caches⟩ : Flight κ)).toList
    taken = [] ∨ ∃ flight, taken = [flight] ∧ flight.stream = i := by
  cases (takeWork st m).2 with
  | none => exact .inl rfl
  | some work => exact .inr ⟨_, rfl, rfl⟩

theorem Scheduling.round {c c' : Core κ} (h : Scheduling c)
    (hr : Round settings model env c c') : Scheduling c' := by
  cases hr with
  | suspend loop => exact ⟨h.turns, h.woken⟩
  | enhance first _ => exact h.enhance first
  | read message hst _ => exact h.onStream hst (readMessage_calm settings _ message)
  | eof hst _ => exact h.onStream hst (readEof_calm _)
  | readFail failure hst _ => exact h.onStream hst (failReader_calm failure)
  | put hst _ _ hn => exact (h.put hst hn).onStream' afterPut_calm
  | putOverflow hst _ _ hn => exact (h.put hst hn).onStream' (failReader_calm _)
  | afterAccepted hst _ => exact h.onStream hst afterAccepted_calm
  | afterAudio hst _ => exact h.onStream hst afterAudio_calm
  | handle hst _ _ hh =>
      exact h.calm hst ((handleEvent_calm hh).after (.of_eq rfl rfl rfl rfl)) _
  | @handleRaise s _ _ i st event q m' hst _ _ _ =>
      have hc : Calm st { st with session := { st.session with outputQueue := q } } :=
        .of_eq rfl rfl rfl rfl
      exact (h.calm hst hc m').finish (by rw [ServerState.get?_withStream hst, if_pos rfl])
  | finish hst _ => exact h.finish hst
  | gather hget =>
      obtain ⟨hitems, -⟩ := BoundedQueue.getNowait_eq_some hget
      have hturns := h.turns
      have hwoken := h.woken
      dsimp only at hturns hwoken
      rw [hitems] at hturns hwoken
      exact ⟨hturns.gather, fun ho hc => (hwoken ho hc).gather⟩
  | takeUnknown hst =>
      exact ⟨h.turns.dropGathered, fun ho hc => (h.woken ho hc).dropUnknown hst⟩
  | @take s g f i st st' m' work hst ht =>
      obtain ⟨hflag, hawaits⟩ := takeWork_spec ht
      have hflights := takeWork_flights st s.metrics i
      rw [ht] at hflights
      refine ⟨h.turns.take hst hflights, fun ho hc => (h.woken ho hc).take hst hflag fun ha => ?_⟩
      obtain ⟨work, rfl⟩ := Option.isSome_iff_exists.mp (hawaits ha)
      simp
  | applyUnknown hst =>
      exact ⟨h.turns.dropFlight, fun ho hc => (h.woken ho hc).dropFlightUnknown hst⟩
  | @apply s f flight row updated st st' m' hst _ ha =>
      have hcalm := applyResult_calm flight.work row updated st s.metrics
      rw [ha] at hcalm
      refine ⟨(h.turns.calm hst hcalm).dropFlight, fun ho hc => ?_⟩
      exact ((h.woken ho hc).land hst hcalm.scheduled).settle
        (by rw [get?_set hst, if_pos rfl]) (applyResult_settled ha)
  | @applyNotify s s' f flight row updated st st' m' raised hst _ ha hn =>
      have hcalm := applyResult_calm flight.work row updated st s.metrics
      rw [ha] at hcalm
      exact Scheduling.notify hn (h.turns.calm hst hcalm).dropFlight
        fun ho hc => (h.woken ho hc).land hst hcalm.scheduled
  | @applyRaised s f flight row updated st st' m' hst _ ha =>
      have hcalm := applyResult_calm flight.work row updated st s.metrics
      rw [ha] at hcalm
      exact h.calm hst hcalm m'
  | failUnknown hst =>
      exact ⟨h.turns.dropFlight, fun ho hc => (h.woken ho hc).dropFlightUnknown hst⟩
  | @fail s f flight st hst =>
      rw [ServerState.onStream_eq hst]
      have hcalm : Calm st (failInference st s.metrics).1 := fail_calm _ _ st s.metrics
      refine ⟨(h.turns.calm hst hcalm).dropFlight, fun ho hc => ?_⟩
      exact ((h.woken ho hc).land hst hcalm.scheduled).settle
        (by rw [get?_set hst, if_pos rfl])
        fun ha => absurd ha.cancelled (by simp [failInference, fail, Stream.cancel])
  | close => exact ⟨h.turns.dropBatch, fun _ hc => absurd hc (by simp)⟩

theorem reachable_scheduling (h : (system settings model).Reachable s) : Scheduling s.core := by
  refine reachable_invariant model.delivers_any (fun _ _ => trivial)
    ⟨⟨?_, ?_, ?_⟩, fun _ _ => ⟨?_, ?_⟩⟩ (fun c c' hc hr => hc.round hr) h
  all_goals simp [ServerState.core, ServerState.init, Loop.gathered, Loop.flights]

/-! ## No lost wakeup -/

/-- What the scheduler keeps of every session while it runs. -/
structure NoLostWakeup (s : ServerState κ) : Prop where
  /-- The flag says that the session waits for its turn, and it does so once. -/
  scheduled_once : ∀ i st, s.streams[i]? = some st →
    (s.ready.items ++ s.loop.gathered).count i = if st.session.scheduled then 1 else 0
  /-- A session with work waits for its turn or is in inference. -/
  awaiting_served : ∀ i st, s.streams[i]? = some st → st.Awaits →
    st.session.scheduled = true ∨
      ∃ active, s.loop = .inference active ∧ i ∈ active.map Flight.stream
  /-- No batch has two work items of a session. -/
  batch_nodup : ∀ active, s.loop = .inference active → (active.map Flight.stream).Nodup
  /-- A session with work waits in the ready queue when the scheduler is idle. -/
  idle_ready : s.loop = .idle → ∀ i st, s.streams[i]? = some st → st.Awaits → i ∈ s.ready.items

/-- While the scheduler task is suspended at an `await`, up to the first overflow of the ready
queue and before `close`, no wakeup is lost and no batch has two hops of one stream. -/
theorem scheduler_no_lost_wakeup (h : (system settings model).Reachable s)
    (hloop : s.loop.suspended = true) (hoverflow : s.readyOverflow = false)
    (hclosing : s.closing = false) : NoLostWakeup s := by
  obtain ⟨hturns, hwoken⟩ := reachable_scheduling h
  have hw := hwoken hoverflow hclosing
  have hserved : ∀ i st, s.streams[i]? = some st → st.Awaits →
      st.session.scheduled = true ∨ i ∈ s.loop.flights.map Flight.stream := fun i st hst ha =>
    (hw.served i st hst ha).resolve_left (by simp)
  constructor
  · intro i st hst
    split
    · next hflag => exact List.count_eq_one_of_mem hturns.nodup (hw.waits i st hst hflag)
    · next hflag =>
        refine List.count_eq_zero.mpr fun hi => ?_
        obtain ⟨st', hst', hflag'⟩ := hturns.flagged i hi
        obtain rfl := Option.some.inj (hst.symm.trans hst')
        exact hflag hflag'
  · intro i st hst ha
    refine (hserved i st hst ha).imp_right fun hi => ?_
    cases hl : s.loop with
    | idle => simp [hl, Loop.flights] at hi
    | gathering sessions => simp [hl, Loop.flights] at hi
    | inference active => exact ⟨active, rfl, by simpa [hl, Loop.flights] using hi⟩
    | stopped lost => simp [hl, Loop.suspended] at hloop
  · intro active hl
    have hb := hturns.batch
    rw [ServerState.core, hl] at hb
    exact hb
  · intro hl i st hst ha
    have hflag := (hserved i st hst ha).resolve_right (by simp [hl, Loop.flights])
    simpa [ServerState.core, hl, Loop.gathered] using hw.waits i st hst hflag

/-- A stream's first hop is in its queue, and the stream is in the ready queue. -/
theorem scheduler_no_lost_wakeup_first_hop :
    ∃ s, (system .defaults identityDelayModel).run (.init .defaults)
        [.enhance (testStart "a" 0), .deliver 0 (testAudio 0 0 256), .put 0] = some s ∧
      s.ready.items = [0] ∧ NoLostWakeup s := by
  obtain ⟨s, hrun, hr, hp⟩ := Lts.System.Reachable.of_run (system .defaults identityDelayModel)
    [.enhance (testStart "a" 0), .deliver 0 (testAudio 0 0 256), .put 0]
    (fun s => s.loop.suspended && !s.readyOverflow && !s.closing && s.ready.items == [0])
    (by decide +kernel) (by decide +kernel)
  simp only [Bool.and_eq_true, Bool.not_eq_true', beq_iff_eq] at hp
  exact ⟨s, hrun, hp.2, scheduler_no_lost_wakeup hr hp.1.1.1 hp.1.1.2 hp.1.2⟩

end Scheduling

end VoxLattice.Server
