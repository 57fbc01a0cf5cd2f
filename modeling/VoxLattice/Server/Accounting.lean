import VoxLattice.Server.Intake
import VoxLattice.Server.Transcript

/-!
# Exact sample accounting

The samples of a stream are counted by the reader, the rechunker, the scheduler and the
generator, each for itself.  `Accounts` relates the audio the scheduler emitted to the hops
whose results reached the session: the network is one hop behind, so while the stream lives
the emitted audio covers all of these hops but the last (`Outputs.delayed`).

When the stream completes, the item that ends it has passed all hops.  A flush is put after
the rechunker was emptied, so the hops cover every accepted sample and the flush emits the last
of them.  Without a flush the hops are the full ones, and the last of them is never emitted.
-/

namespace VoxLattice.Server

open Intervals

variable {κ : Type*}

/-- The interval of a source hop. -/
def SourceHop.interval (hop : SourceHop) : Nat × Nat := (hop.startSample, hop.validSamples)

/-- The interval of an output event. -/
def OutputAudio.interval (audio : OutputAudio) : Nat × Nat :=
  (audio.startSample, audio.validSamples)

/-- The session is neither cancelled nor ended. -/
structure Stream.Alive (st : Stream κ) : Prop where
  cancelled : st.session.cancelled = false
  ended : st.session.ended = false

/-- The work items of a stream in inference and in the input queue. -/
def Stream.waiting (st : Stream κ) (fl : Option (Flight κ)) : List ModelWork :=
  (fl.map Flight.work).toList ++ st.session.inputQueue.items

/-- The emitted audio. -/
structure Outputs (st : Stream κ) : Prop where
  tiles : Tiles OutputAudio.startSample OutputAudio.validSamples st.session.inputStartSample
    st.history.emitted
  bytes : ∀ audio ∈ st.history.emitted, audio.pcmS16le.length = 2 * audio.validSamples
  samples : st.session.outputSamples = total OutputAudio.validSamples st.history.emitted
  delayed : st.Alive → ∀ before : List SourceHop, st.history.applied = before.map .ofSource →
    st.history.emitted.map OutputAudio.interval = before.dropLast.map SourceHop.interval

/-- What holds of the hops once the item that ends the stream was put. -/
structure Ends (st : Stream κ) (fl : Option (Flight κ)) : Prop where
  flush : st.Alive → ∀ work ∈ st.waiting fl, work.terminalFlush = true →
    total SourceHop.validSamples st.history.hops = st.session.inputSamples
  noFlush : st.Alive → ∀ work ∈ st.waiting fl, work.terminalNoFlush = true →
    ∀ hop ∈ st.history.hops, hop.validSamples = hopSamples

/-- The invariant of the sample counts. -/
structure Accounts (capabilities : StreamAccepted) (st : Stream κ) (fl : Option (Flight κ)) :
    Prop where
  outputs : Outputs st
  ends : Ends st fl
  log : Log capabilities st

section Accounts

variable {settings : ServerSettings} {capabilities : StreamAccepted} {st st' : Stream κ}
  {fl fl' : Option (Flight κ)}

/-! ## Steps that leave the audio alone -/

theorem Outputs.same (h : Outputs st) (hemitted : st'.history.emitted = st.history.emitted)
    (hsamples : st'.session.outputSamples = st.session.outputSamples)
    (hstart : st'.session.inputStartSample = st.session.inputStartSample)
    (happlied : st'.Alive → st.Alive ∧ st'.history.applied = st.history.applied) :
    Outputs st' where
  tiles := by
    rw [hstart, hemitted]
    exact h.tiles
  bytes := by
    rw [hemitted]
    exact h.bytes
  samples := by rw [hsamples, hemitted, h.samples]
  delayed ha := by
    rw [hemitted, (happlied ha).2]
    exact h.delayed (happlied ha).1

theorem Ends.dead (hdead : ¬ st'.Alive) : Ends st' fl' :=
  ⟨fun ha => absurd ha hdead, fun ha => absurd ha hdead⟩

/-- No item that ends the stream was put yet. -/
theorem Ends.unended (h : st'.Alive → ∀ work ∈ st'.waiting fl',
    work.terminalFlush = false ∧ work.terminalNoFlush = false) : Ends st' fl' where
  flush ha work hw hf := absurd ((h ha work hw).1.symm.trans hf) Bool.false_ne_true
  noFlush ha work hw hf := absurd ((h ha work hw).2.symm.trans hf) Bool.false_ne_true

theorem Ends.same (h : Ends st fl) (halive : st'.Alive → st.Alive)
    (hwaiting : ∀ work ∈ st'.waiting fl', work ∈ st.waiting fl)
    (hhops : st'.history.hops = st.history.hops)
    (hsamples : st'.session.inputSamples = st.session.inputSamples) : Ends st' fl' where
  flush ha work hw hf := by
    rw [hhops, hsamples]
    exact h.flush (halive ha) work (hwaiting work hw) hf
  noFlush ha work hw hf := by
    rw [hhops]
    exact h.noFlush (halive ha) work (hwaiting work hw) hf

/-- Short of the end, only hops wait. -/
theorem Backlog.waiting_hops (h : Backlog st fl) (ha : st.Alive)
    (hr : st.reader.pastEnd = false) : ∀ work ∈ st.waiting fl,
      work.terminalFlush = false ∧ work.terminalNoFlush = false := by
  obtain ⟨before, after, last, hw⟩ := h.working ha.cancelled ha.ended
  obtain rfl := hw.last_eq_none hr
  intro work hmem
  rw [Stream.waiting, hw.waiting, ending, List.append_nil] at hmem
  obtain ⟨hop, -, rfl⟩ := List.mem_map.mp hmem
  exact ⟨rfl, rfl⟩

theorem complete_dead (flushed : Bool) (st : Stream κ) (m : Metrics) :
    ¬ (complete flushed st m).1.Alive := by
  intro ha
  have hstops := complete_stops flushed st m
  rw [ha.cancelled, ha.ended] at hstops
  cases hstops

/-- A stream completes, if its counts are final. -/
theorem Accounts.complete (houtputs : Outputs st) (hlog : Log capabilities st) (flushed : Bool)
    (m : Metrics) (hfinal : st.Alive →
      Final st.history ⟨st.session.inputSamples, st.session.outputSamples, flushed⟩) :
    Accounts capabilities (complete flushed st m).1 fl where
  outputs := by
    have hscheduler := complete_schedulerSide flushed st m
    have hreader := complete_readerSide flushed st m
    exact houtputs.same (congrArg SchedulerSide.emitted hscheduler)
      (congrArg SchedulerSide.outputSamples hscheduler)
      (congrArg ReaderSide.inputStartSample hreader)
      fun ha => absurd ha (complete_dead flushed st m)
  ends := .dead (complete_dead flushed st m)
  log := hlog.complete flushed m fun hc he => hfinal ⟨hc, he⟩

theorem Accounts.completeWithoutFlush (houtputs : Outputs st) (hlog : Log capabilities st)
    (m : Metrics) (hfinal : st.Alive →
      Final st.history ⟨st.session.inputSamples, st.session.outputSamples, false⟩) :
    Accounts capabilities (completeWithoutFlush st m).1 fl := by
  have houtputs' : Outputs { st with session := { st.session with pendingSource := none } } :=
    houtputs.same rfl rfl rfl fun ha => ⟨⟨ha.cancelled, ha.ended⟩, rfl⟩
  have hlog' : Log capabilities { st with session := { st.session with pendingSource := none } } :=
    hlog.quiet rfl rfl rfl rfl rfl fun _ => rfl
  exact Accounts.complete houtputs' hlog' false m fun ha => hfinal ⟨ha.cancelled, ha.ended⟩

theorem total_dropLast_le (l : List SourceHop) :
    total SourceHop.validSamples l.dropLast ≤ total SourceHop.validSamples l :=
  total_le_of_isPrefix (List.dropLast_prefix l)

/-- The counts of a stream that received nothing. -/
theorem Accounts.final_empty (houtputs : Outputs st) (hbacklog : Backlog st fl)
    (hreceived : Received settings st.readerSide) (hzero : st.session.inputSamples = 0)
    (ha : st.Alive) :
    Final st.history ⟨st.session.inputSamples, st.session.outputSamples, true⟩ := by
  obtain ⟨before, after, last, hw⟩ := hbacklog.working ha.cancelled ha.ended
  have hpending := hreceived.pending
  have hinput := hreceived.inputSamples
  simp only [Stream.readerSide] at hpending hinput
  have hbefore : total SourceHop.validSamples before ≤
      total SourceHop.validSamples st.history.hops :=
    total_le_of_isPrefix (by rw [hw.hops, List.append_assoc]; exact List.prefix_append _ _)
  have hle := total_dropLast_le before
  have hemitted : total OutputAudio.validSamples st.history.emitted =
      total SourceHop.validSamples before.dropLast :=
    total_of_map_eq (houtputs.delayed ha before hw.applied)
  have hsamples := houtputs.samples
  exact ⟨hinput, hsamples, fun _ => by dsimp only; omega, by rintro ⟨⟩⟩

/-! ## The reader -/

/-- The reader or the scheduler fails the stream. -/
theorem Accounts.die (h : Accounts capabilities st fl) (hdead : st'.session.cancelled = true)
    (hemitted : st'.history.emitted = st.history.emitted)
    (hsamples : st'.session.outputSamples = st.session.outputSamples)
    (hstart : st'.session.inputStartSample = st.session.inputStartSample)
    (hlog : Log capabilities st') : Accounts capabilities st' fl' :=
  have halive : ¬ st'.Alive := fun ha => absurd (ha.cancelled.symm.trans hdead) Bool.false_ne_true
  ⟨h.outputs.same hemitted hsamples hstart fun ha => absurd ha halive, .dead halive, hlog⟩

theorem Accounts.failReader (h : Accounts capabilities st fl) (failure : ProtocolViolation)
    (m : Metrics) : Accounts capabilities (failReader failure st m).1 fl :=
  h.die rfl rfl rfl rfl (h.log.failReader rfl rfl rfl rfl)

/-- The reader goes on, short of the end. -/
theorem Accounts.receive (h : Accounts capabilities st fl) (hbacklog : Backlog st fl)
    (hr : st.reader.pastEnd = false) (hscheduler : st'.schedulerSide = st.schedulerSide)
    (hgen : st'.generatorSide = st.generatorSide)
    (hstart : st'.session.inputStartSample = st.session.inputStartSample)
    (hc : st'.session.cancelled = st.session.cancelled)
    (he : st'.session.ended = st.session.ended)
    (hq : st'.session.outputQueue = st.session.outputQueue) : Accounts capabilities st' fl where
  outputs := h.outputs.same (congrArg SchedulerSide.emitted hscheduler)
    (congrArg SchedulerSide.outputSamples hscheduler) hstart
    fun ha => ⟨⟨hc ▸ ha.cancelled, he ▸ ha.ended⟩, congrArg SchedulerSide.applied hscheduler⟩
  ends := .unended fun ha work hwork => by
    have hqueue : st'.session.inputQueue = st.session.inputQueue :=
      congrArg SchedulerSide.inputQueue hscheduler
    rw [Stream.waiting, hqueue] at hwork
    exact hbacklog.waiting_hops ⟨hc ▸ ha.cancelled, he ▸ ha.ended⟩ hr work hwork
  log := h.log.quiet hgen hc he hq (congrArg SchedulerSide.emitted hscheduler)
    fun hended => absurd ((hbacklog.not_ended hr).symm.trans hended) Bool.false_ne_true

theorem Accounts.finishInput (h : Accounts capabilities st fl) (hintake : Intake settings st)
    (hbacklog : Backlog st fl) (hr : st.reader = .reading false) (flush : Bool) (m : Metrics) :
    Accounts capabilities (finishInput flush st m).1 fl := by
  have hpast : st.reader.pastEnd = false := by rw [hr]; rfl
  have hspec := finishInput_finished flush st m
  generalize (Server.finishInput flush st m).1 = st' at hspec ⊢
  cases hspec with
  | noFlush _ => exact h.receive hbacklog hpast rfl rfl rfl rfl rfl rfl
  | failed failure m => exact h.failReader failure m
  | hop hop rechunker _ _ => exact h.receive hbacklog hpast rfl rfl rfl rfl rfl rfl
  | flush rechunker _ _ _ => exact h.receive hbacklog hpast rfl rfl rfl rfl rfl rfl
  | nothing rechunker m _ _ hzero =>
      have hsame : Accounts capabilities (st.flushes rechunker (.reading true)) fl :=
        h.receive hbacklog hpast rfl rfl rfl rfl rfl rfl
      have hreceived := hintake.received (.inl (by simp [hr]))
      exact Accounts.complete hsame.outputs hsame.log true m fun ha =>
        (Accounts.final_empty h.outputs hbacklog hreceived hzero
          ⟨ha.cancelled, ha.ended⟩).congr rfl rfl

theorem Accounts.readMessage (h : Accounts capabilities st fl) (hintake : Intake settings st)
    (hbacklog : Backlog st fl) {sawEnd : Bool} (hr : st.reader = .reading sawEnd)
    (message : ClientMessage) (m : Metrics) :
    Accounts capabilities (readMessage settings sawEnd message st m).1 fl := by
  have hread := readMessage_read settings sawEnd message st m
  generalize Server.readMessage settings sawEnd message st m = next at hread ⊢
  cases hread with
  | afterEnd _ => exact h.failReader _ m
  | duplicateStart _ => exact h.failReader _ m
  | empty => exact h.failReader _ m
  | accepted chunk st' m' haccept =>
      obtain ⟨hops, rechunker, rfl⟩ := acceptAudio_accepts haccept
      exact h.receive hbacklog (by rw [hr]; rfl) rfl rfl rfl rfl rfl rfl
  | refused chunk st' m' violation haccept =>
      obtain ⟨hhistory, hstart, hended, hqueue⟩ := acceptAudio_error haccept
      have hoff := acceptAudio_offReader settings chunk st m
      rw [haccept] at hoff
      exact h.die rfl (congrArg History.emitted hhistory)
        (congrArg SchedulerSide.outputSamples hoff.schedulerSide) hstart
        (h.log.failReader hoff.generatorSide hhistory hended rfl)
  | ended flush => exact h.finishInput hintake hbacklog hr flush m

theorem Accounts.readEof (h : Accounts capabilities st fl) (sawEnd : Bool) (m : Metrics) :
    Accounts capabilities (readEof sawEnd st m).1 fl := by
  unfold Server.readEof
  split
  · exact ⟨h.outputs.same rfl rfl rfl fun ha => ⟨⟨ha.cancelled, ha.ended⟩, rfl⟩,
      h.ends.same (fun ha => ⟨ha.cancelled, ha.ended⟩) (fun _ hw => hw) rfl rfl,
      h.log.quiet rfl rfl rfl rfl rfl fun _ => rfl⟩
  · exact h.failReader _ m

/-- The stream after its reader put a work item and went on. -/
def Stream.puts (st : Stream κ) (q : BoundedQueue ModelWork) (scheduled : Bool)
    (reader : Reader) : Stream κ :=
  { (st.queued q).flagged scheduled with reader }

theorem mem_waiting_puts {q : BoundedQueue ModelWork} {work : ModelWork}
    (hq : q.items = st.session.inputQueue.items ++ [work]) (scheduled : Bool) (reader : Reader)
    {w : ModelWork} (hw : w ∈ (st.puts q scheduled reader).waiting fl) :
    w ∈ st.waiting fl ∨ w = work := by
  have hwaiting : (st.puts q scheduled reader).waiting fl = st.waiting fl ++ [work] := by
    rw [Stream.waiting, Stream.waiting, List.append_assoc, ← hq]
    rfl
  rw [hwaiting, List.mem_append, List.mem_singleton] at hw
  exact hw

theorem Accounts.puts (h : Accounts capabilities st fl) {q : BoundedQueue ModelWork}
    {scheduled : Bool} {reader : Reader} (hends : Ends (st.puts q scheduled reader) fl) :
    Accounts capabilities (st.puts q scheduled reader) fl :=
  ⟨h.outputs.same rfl rfl rfl fun ha => ⟨⟨ha.cancelled, ha.ended⟩, rfl⟩, hends,
    h.log.quiet rfl rfl rfl rfl rfl fun _ => rfl⟩

theorem Accounts.put (h : Accounts capabilities st fl) (hintake : Intake settings st)
    (hbacklog : Backlog st fl) {work : ModelWork} (hw : st.reader.work? = some work)
    {q : BoundedQueue ModelWork} (hq : st.session.inputQueue.putNowait work = some q)
    (scheduled : Bool) (m : Metrics) :
    Accounts capabilities (afterPut ((st.queued q).flagged scheduled) m).1 fl := by
  obtain ⟨-, hitems, -⟩ := BoundedQueue.putNowait_eq_some hq
  have hreceived := hintake.received (.inl (Reader.ne_done_of_work hw))
  have hpast := Reader.pastEnd_of_work hw
  -- a hop joins the waiting items
  have hhop : ∀ hop reader, work = .ofSource hop → Ends (st.puts q scheduled reader) fl := by
    intro hop reader hwork
    refine .unended fun ha w hmem => ?_
    obtain hmem | rfl := mem_waiting_puts hitems scheduled reader hmem
    · exact hbacklog.waiting_hops ⟨ha.cancelled, ha.ended⟩ hpast w hmem
    · rw [hwork]
      exact ⟨rfl, rfl⟩
  have hreturned := afterPut_put hw q scheduled m
  generalize afterPut ((st.queued q).flagged scheduled) m = next at hreturned ⊢
  cases hreturned with
  | hop hop rest _ => exact h.puts (hhop hop (.ofHops rest) rfl)
  | nothing hop _ hzero =>
      have hputs := h.puts (hhop hop (.reading true) rfl)
      exact Accounts.complete hputs.outputs hputs.log true m fun ha =>
        (Accounts.final_empty h.outputs hbacklog hreceived hzero
          ⟨ha.cancelled, ha.ended⟩).congr rfl rfl
  | remainder hop _ _ => exact h.puts (hhop hop .finishingFlush rfl)
  | flush hr =>
      have hreader : st.reader = .finishingFlush := hr
      suffices hends : Ends (st.puts q scheduled (.reading true)) fl from h.puts hends
      refine ⟨fun ha w hmem hf => ?_, fun ha w hmem hf => ?_⟩
      · have hempty := hreceived.emptied (by simp [Stream.readerSide, hreader, Reader.flushing])
        have hpending := hreceived.pending
        rw [hempty] at hpending
        exact hpending
      · obtain hmem | rfl := mem_waiting_puts hitems scheduled _ hmem
        · have hunended := hbacklog.waiting_hops ⟨ha.cancelled, ha.ended⟩ hpast w hmem
          exact absurd (hunended.2.symm.trans hf) Bool.false_ne_true
        · cases hf
  | noFlush hr =>
      have hreader : st.reader = .finishingNoFlush := hr
      suffices hends : Ends (st.puts q scheduled (.reading true)) fl from h.puts hends
      refine ⟨fun ha w hmem hf => ?_, fun ha w hmem hf => ?_⟩
      · obtain hmem | rfl := mem_waiting_puts hitems scheduled _ hmem
        · have hunended := hbacklog.waiting_hops ⟨ha.cancelled, ha.ended⟩ hpast w hmem
          exact absurd (hunended.1.symm.trans hf) Bool.false_ne_true
        · cases hf
      · exact hreceived.whole (by simp [Stream.readerSide, hreader, Reader.unflushed])

/-! ## The scheduler -/

/-- The counts of a stream that ends without a flush: the full hops but the last. -/
theorem Accounts.final_noFlush (h : Accounts capabilities st fl) (hbacklog : Backlog st fl)
    (hreceived : Received settings st.readerSide) (ha : st.Alive) {rest : List ModelWork}
    {work : ModelWork} (hwaiting : st.waiting fl = work :: rest)
    (hend : work.terminalNoFlush = true) :
    Final st.history ⟨st.session.inputSamples, st.session.outputSamples, false⟩ := by
  obtain ⟨before, after, last, hw⟩ := hbacklog.working ha.cancelled ha.ended
  have hsplit := hw.waiting
  rw [← Stream.waiting, hwaiting] at hsplit
  obtain ⟨hop, _, -, rfl, -⟩ | ⟨-, -, rfl, -⟩ | ⟨rfl, rfl, -, -⟩ := waiting_cases hsplit
  · cases hend
  · cases hend
  · have hpast := hw.pastEnd (by simp)
    have hall : st.history.hops = before := by
      rw [hw.hops, Reader.hops_of_pastEnd hpast, List.append_nil, List.append_nil]
    have hwhole := h.ends.noFlush ha work (by rw [hwaiting]; exact List.mem_cons_self) hend
    have hlen : total SourceHop.validSamples st.history.hops =
        st.history.hops.length * hopSamples := total_of_forall_eq hwhole
    have hlen' : total SourceHop.validSamples before.dropLast =
        (st.history.hops.length - 1) * hopSamples := by
      rw [total_of_forall_eq fun hop hmem => hwhole hop (hall ▸ List.mem_of_mem_dropLast hmem),
        List.length_dropLast, hall]
    have hemitted : total OutputAudio.validSamples st.history.emitted =
        total SourceHop.validSamples before.dropLast :=
      total_of_map_eq (h.outputs.delayed ha before hw.applied)
    have hpending := hreceived.pending
    have hresidue := hreceived.settled.residue
    have hinput := hreceived.inputSamples
    have hsamples := h.outputs.samples
    simp only [Stream.readerSide] at hpending hresidue hinput
    have hdiv : st.session.inputSamples / hopSamples = st.history.hops.length := by
      rw [← hpending, hlen, Nat.add_comm, Nat.add_mul_div_right _ _ (by decide),
        Nat.div_eq_of_lt hresidue, Nat.zero_add]
    refine ⟨hinput, hsamples, by rintro ⟨⟩, fun _ => ?_⟩
    dsimp only
    rw [hsamples, hemitted, hlen', hdiv, Nat.mul_comm]

theorem Accounts.take (h : Accounts capabilities st none) (hintake : Intake settings st)
    (hbacklog : Backlog st none) {work : Option ModelWork} (ht : Taken st st' work) (i : Nat) :
    Accounts capabilities st' (work.map fun work => ⟨i, work, st'.session.caches⟩) := by
  cases ht with
  | dead hdead =>
      exact ⟨h.outputs.same rfl rfl rfl fun ha => ⟨⟨ha.cancelled, ha.ended⟩, rfl⟩,
        h.ends.same (fun ha => ⟨ha.cancelled, ha.ended⟩) (fun _ hw => hw) rfl rfl,
        h.log.quiet rfl rfl rfl rfl rfl fun _ => rfl⟩
  | idle _ _ =>
      exact ⟨h.outputs.same rfl rfl rfl fun ha => ⟨⟨ha.cancelled, ha.ended⟩, rfl⟩,
        h.ends.same (fun ha => ⟨ha.cancelled, ha.ended⟩) (fun _ hw => hw) rfl rfl,
        h.log.quiet rfl rfl rfl rfl rfl fun _ => rfl⟩
  | joins work inputQueue _ hget _ =>
      obtain ⟨hitems, -⟩ := BoundedQueue.getNowait_eq_some hget
      refine ⟨h.outputs.same rfl rfl rfl fun ha => ⟨⟨ha.cancelled, ha.ended⟩, rfl⟩,
        h.ends.same (fun ha => ⟨ha.cancelled, ha.ended⟩) (fun w hw => ?_) rfl rfl,
        h.log.quiet rfl rfl rfl rfl rfl fun _ => rfl⟩
      rw [Stream.waiting, hitems]
      exact hw
  | ends work inputQueue m halive hget hend =>
      obtain ⟨hitems, -⟩ := BoundedQueue.getNowait_eq_some hget
      have ha : st.Alive := ⟨(alive_iff.mp halive).1, (alive_iff.mp halive).2⟩
      have hreceived := hintake.received (.inr ha.cancelled)
      have hfinal := h.final_noFlush hbacklog hreceived ha hitems hend
      have houtputs : Outputs ((st.flagged false).queued inputQueue) :=
        h.outputs.same rfl rfl rfl fun ha => ⟨⟨ha.cancelled, ha.ended⟩, rfl⟩
      have hlog : Log capabilities ((st.flagged false).queued inputQueue) :=
        h.log.quiet rfl rfl rfl rfl rfl fun _ => rfl
      exact Accounts.completeWithoutFlush houtputs hlog m fun _ => hfinal.congr rfl rfl

/-- The audio the scheduler has emitted when the result of a work item has reached its stream:
that of all hops before the item. -/
def Stream.caughtUp (st : Stream κ) (row : Bytes) : List OutputAudio :=
  st.history.emitted ++ (st.session.pendingSource.map fun previous => .ofRow previous row).toList

theorem Working.caughtUp_intervals {before after : List SourceHop} {last : Option Bool}
    (hw : Working st fl before after last) (houtputs : Outputs st) (ha : st.Alive) (row : Bytes) :
    (st.caughtUp row).map OutputAudio.interval = before.map SourceHop.interval := by
  rw [Stream.caughtUp, List.map_append, houtputs.delayed ha before hw.applied, hw.pending]
  cases hlast : before.getLast? with
  | none =>
      obtain rfl := List.getLast?_eq_none_iff.mp hlast
      rfl
  | some previous =>
      obtain ⟨init, rfl⟩ := List.getLast?_eq_some_iff.mp hlast
      rw [List.dropLast_concat, List.map_append]
      rfl

theorem ofSource_injective : Function.Injective ModelWork.ofSource := fun _ _ h =>
  Option.some.inj (congrArg ModelWork.source h)

/-- A live stream after the result of its work item reached it. -/
theorem Outputs.advance {flight : Flight κ} (houtputs : Outputs st) (hintake : Intake settings st)
    (hbacklog : Backlog st (some flight)) (ha : st.Alive) {row : Bytes}
    (hrow : row.length = 2 * hopSamples)
    (hemitted : st'.history.emitted = st.caughtUp row)
    (happlied : st'.history.applied = st.history.applied ++ [flight.work])
    (hsamples : st'.session.outputSamples =
      total OutputAudio.validSamples (st.caughtUp row))
    (hstart : st'.session.inputStartSample = st.session.inputStartSample) : Outputs st' := by
  obtain ⟨before, after, last, hw⟩ := hbacklog.working ha.cancelled ha.ended
  have hbefore : before <+: st.history.hops := by
    rw [hw.hops, List.append_assoc]
    exact List.prefix_append _ _
  have hintervals := hw.caughtUp_intervals houtputs ha row
  constructor
  · rw [hemitted, hstart]
    exact (hintake.tiles.of_isPrefix hbefore).of_map_eq hintervals
  · rw [hemitted]
    intro audio hmem
    obtain hmem | hmem := List.mem_append.mp hmem
    · exact houtputs.bytes audio hmem
    · obtain ⟨previous, hprevious, rfl⟩ := Option.map_eq_some_iff.mp (Option.mem_toList.mp hmem)
      rw [hw.pending] at hprevious
      have hvalid := (hintake.shape previous
        (hbefore.subset (List.mem_of_getLast? hprevious))).2
      simp only [OutputAudio.ofRow, List.length_take, hrow]
      omega
  · rw [hsamples, hemitted]
  · intro _ before' hbefore'
    rw [hemitted, hintervals]
    rw [happlied, hw.applied] at hbefore'
    have hdrop := congrArg List.dropLast hbefore'
    rw [List.dropLast_concat, ← List.map_dropLast] at hdrop
    rw [List.map_injective_iff.mpr ofSource_injective hdrop]

/-- The counts of a stream whose flush is answered: everything was emitted. -/
theorem Accounts.final_flush {flight : Flight κ} (h : Accounts capabilities st (some flight))
    (hbacklog : Backlog st (some flight)) (hreceived : Received settings st.readerSide)
    (ha : st.Alive) (hflush : flight.work.terminalFlush = true) (row : Bytes)
    {history : History} (haccepted : history.accepted = st.history.accepted)
    (hemitted : history.emitted = st.caughtUp row) :
    Final history ⟨st.session.inputSamples,
      total OutputAudio.validSamples (st.caughtUp row), true⟩ := by
  obtain ⟨before, after, last, hw⟩ := hbacklog.working ha.cancelled ha.ended
  have hwaiting := hw.waiting
  rw [Option.map_some, Option.toList_some, List.singleton_append] at hwaiting
  have htotal : total OutputAudio.validSamples (st.caughtUp row) =
      total SourceHop.validSamples before :=
    total_of_map_eq (hw.caughtUp_intervals h.outputs ha row)
  obtain ⟨hop, _, -, hwork, -⟩ | ⟨rfl, rfl, -, -⟩ | ⟨-, -, hwork, -⟩ := waiting_cases hwaiting
  · rw [hwork] at hflush
    cases hflush
  · have hpast := hw.pastEnd (by simp)
    have hall : st.history.hops = before := by
      rw [hw.hops, Reader.hops_of_pastEnd hpast, List.append_nil, List.append_nil]
    have hends := h.ends.flush ha flight.work (by simp [Stream.waiting]) hflush
    have hinput := hreceived.inputSamples
    simp only [Stream.readerSide] at hinput
    refine ⟨by rw [haccepted]; exact hinput, by rw [hemitted], fun _ => ?_, by rintro ⟨⟩⟩
    rw [htotal, ← hall, hends]
  · rw [hwork] at hflush
    cases hflush

/-- The round of a live stream ends after the result reached it. -/
theorem Accounts.finishHop {flight : Flight κ} (h : Accounts capabilities st (some flight))
    (hintake : Intake settings st) (hbacklog : Backlog st (some flight)) (ha : st.Alive)
    {row : Bytes} (hrow : row.length = 2 * hopSamples) (st' : Stream κ)
    (hemitted : st'.history.emitted = st.caughtUp row)
    (happlied : st'.history.applied = st.history.applied ++ [flight.work])
    (hsamples : st'.session.outputSamples = total OutputAudio.validSamples (st.caughtUp row))
    (hreader : st'.readerSide = st.readerSide)
    (hqueue : st'.session.inputQueue = st.session.inputQueue)
    (hlog : Log capabilities st') (m : Metrics) :
    Accounts capabilities (finishHop flight.work st' m).1.1 none := by
  have hreceived := hintake.received (.inr ha.cancelled)
  have hstart : st'.session.inputStartSample = st.session.inputStartSample :=
    congrArg ReaderSide.inputStartSample hreader
  have hinput : st'.session.inputSamples = st.session.inputSamples :=
    congrArg ReaderSide.inputSamples hreader
  have houtputs := h.outputs.advance hintake hbacklog ha hrow hemitted happlied hsamples hstart
  unfold Server.finishHop
  split
  · next hflush =>
      refine Accounts.complete houtputs hlog true m fun _ => ?_
      rw [hinput, hsamples]
      exact h.final_flush hbacklog hreceived ha hflush row (congrArg ReaderSide.accepted hreader)
        hemitted
  · refine ⟨houtputs, h.ends.same (fun _ => ha) (fun w hw => ?_)
      (congrArg ReaderSide.hops hreader) hinput, hlog⟩
    rw [Stream.waiting, hqueue] at hw
    exact List.mem_append_right _ hw

theorem Accounts.land {flight : Flight κ} (h : Accounts capabilities st (some flight))
    (hintake : Intake settings st) (hbacklog : Backlog st (some flight)) {row : Option Bytes}
    {updated : Option κ} (hrow : ∃ bytes, row = some bytes ∧ bytes.length = 2 * hopSamples)
    (hl : Landed flight.work row updated st st') : Accounts capabilities st' none := by
  obtain ⟨bytes, rfl, hbytes⟩ := hrow
  cases hl with
  | dead hdead =>
      have hdead' : ¬ st.Alive := fun ha => by simp [ha.cancelled, ha.ended] at hdead
      exact ⟨h.outputs, .dead hdead', h.log⟩
  | silent caches m halive _ hp =>
      have ha : st.Alive := ⟨(alive_iff.mp halive).1, (alive_iff.mp halive).2⟩
      have hcaught : st.caughtUp bytes = st.history.emitted := by
        rw [Stream.caughtUp, hp]
        exact List.append_nil _
      have hlog : Log capabilities (st.advances flight.work caches) :=
        h.log.quiet rfl rfl rfl rfl rfl fun _ => rfl
      exact h.finishHop hintake hbacklog ha hbytes (st.advances flight.work caches) hcaught.symm rfl
        (by rw [hcaught]; exact h.outputs.samples) rfl rfl hlog m
  | full caches previous _ m halive _ hp hrow _ =>
      have hlog : Log capabilities (st.advances flight.work caches) :=
        h.log.quiet rfl rfl rfl rfl rfl fun _ => rfl
      exact h.die rfl rfl rfl rfl (hlog.fail _ _ m)
  | emitted caches previous row outputQueue m halive _ hp hrow hput =>
      obtain rfl := Option.some.inj hrow
      have ha : st.Alive := ⟨(alive_iff.mp halive).1, (alive_iff.mp halive).2⟩
      have hcaught : st.caughtUp bytes = st.history.emitted ++ [.ofRow previous bytes] := by
        rw [Stream.caughtUp, hp]
        rfl
      have hlog : Log capabilities (st.advances flight.work caches) :=
        h.log.quiet rfl rfl rfl rfl rfl fun _ => rfl
      have hsamples : ((st.advances flight.work caches).emits (.ofRow previous bytes)
          outputQueue).session.outputSamples =
          total OutputAudio.validSamples (st.caughtUp bytes) := by
        rw [hcaught, total_append, total_cons, total_nil, ← h.outputs.samples]
        rfl
      exact h.finishHop hintake hbacklog ha hbytes
        ((st.advances flight.work caches).emits (.ofRow previous bytes) outputQueue)
        hcaught.symm rfl hsamples rfl rfl (hlog.emits ha.ended hput) m

theorem Accounts.flagged (h : Accounts capabilities st fl) (scheduled : Bool) :
    Accounts capabilities (st.flagged scheduled) fl :=
  ⟨h.outputs.same rfl rfl rfl fun ha => ⟨⟨ha.cancelled, ha.ended⟩, rfl⟩,
    h.ends.same (fun ha => ⟨ha.cancelled, ha.ended⟩) (fun _ hw => hw) rfl rfl,
    h.log.quiet rfl rfl rfl rfl rfl fun _ => rfl⟩

/-! ## The generator -/

theorem Accounts.offGenerator (h : Accounts capabilities st fl) (hoff : OffGenerator st st')
    (hlog : Log capabilities st') : Accounts capabilities st' fl where
  outputs := h.outputs.same (congrArg SchedulerSide.emitted hoff.schedulerSide)
    (congrArg SchedulerSide.outputSamples hoff.schedulerSide)
    (congrArg ReaderSide.inputStartSample hoff.readerSide)
    fun ha => ⟨⟨hoff.cancelled ▸ ha.cancelled, hoff.ended ▸ ha.ended⟩,
      congrArg SchedulerSide.applied hoff.schedulerSide⟩
  ends := h.ends.same (fun ha => ⟨hoff.cancelled ▸ ha.cancelled, hoff.ended ▸ ha.ended⟩)
    (fun w hw => by
      have hqueue : st'.session.inputQueue = st.session.inputQueue :=
        congrArg SchedulerSide.inputQueue hoff.schedulerSide
      rw [Stream.waiting, hqueue] at hw
      exact hw)
    (congrArg ReaderSide.hops hoff.readerSide) (congrArg ReaderSide.inputSamples hoff.readerSide)
  log := hlog

end Accounts

/-! ## Every run -/

/-- `infer_batch`, when it returns, gives a row of a hop's samples and caches for each stream
of the batch. -/
def StreamingModel.RowPerStream (model : StreamingModel κ) : Prop :=
  ∀ hops caches wav updated, hops.length = caches.length →
    model.returns hops caches wav updated →
    wav.length = hops.length ∧ (∀ row ∈ wav, row.length = hopSamples) ∧
      updated.length = hops.length

/-- A row of a hop's samples and caches for every work item. -/
def Env.rows : Env κ where
  answers _ row updated :=
    (∃ bytes, row = some bytes ∧ bytes.length = 2 * hopSamples) ∧ updated.isSome = true
  opens _ _ := True

theorem StreamingModel.RowPerStream.delivers {model : StreamingModel κ} (h : model.RowPerStream) :
    model.Delivers Env.rows := by
  intro active wav updated hreturns j flight hj
  obtain ⟨hwav, hrow, hupdated⟩ := h _ _ _ _ (by simp) hreturns
  rw [List.length_map] at hwav hupdated
  have hlt : j < active.length := (List.getElem?_eq_some_iff.mp hj).1
  constructor
  · refine ⟨float32ToPcm16le (wav.get ⟨j, hwav ▸ hlt⟩), ?_, ?_⟩
    · rw [List.getElem?_map, List.getElem?_eq_getElem (hwav ▸ hlt)]
      rfl
    · rw [float32ToPcm16le_length, hrow _ (List.get_mem wav _)]
  · rw [List.getElem?_eq_getElem (hupdated ▸ hlt)]
    rfl

theorem rows_answer {flight : Flight κ} {row : Option Bytes} {updated : Option κ}
    (h : Env.rows.answers flight row updated) : row.isSome = true ∧ updated.isSome = true := by
  obtain ⟨⟨bytes, rfl, -⟩, hu⟩ := h
  exact ⟨rfl, hu⟩

theorem log_new (settings : ServerSettings) (model : StreamingModel κ) (start : StartStream) :
    Log (capabilities settings model) (Stream.admitted settings model start) where
  running _ := ⟨[], rfl, ⟨rfl, rfl⟩, rfl, .inl ⟨rfl, .inl ⟨rfl, rfl⟩⟩⟩
  transcript := .running [] ⟨rfl, rfl⟩ rfl

theorem outputs_new (settings : ServerSettings) (model : StreamingModel κ) (start : StartStream) :
    Outputs (Stream.admitted settings model start) where
  tiles := trivial
  bytes := fun _ hmem => absurd hmem List.not_mem_nil
  samples := rfl
  delayed _ before hbefore := by
    obtain rfl : before = [] := List.map_eq_nil_iff.mp hbefore.symm
    rfl

/-- The invariants of a stream's data together. -/
theorem ledger_invariant (settings : ServerSettings) (model : StreamingModel κ) :
    LocalInvariant settings model Env.rows fun st fl =>
      (Intake settings st ∧ Backlog st fl) ∧ Accounts (capabilities settings model) st fl := by
  have hbacklog := backlog_invariant settings model (fun _ _ _ => rows_answer)
  refine ((intake_invariant settings model Env.rows).and hbacklog.admitted
    hbacklog.unannounced hbacklog.refused
    fun st fl st' fl' _ hb hr => hbacklog.round st fl st' fl' hb hr).and ?_ ?_ ?_ ?_
  · exact fun start => ⟨outputs_new settings model start,
      .unended fun _ _ hmem => absurd hmem List.not_mem_nil, log_new settings model start⟩
  · exact fun start => ⟨(outputs_new settings model start).same rfl rfl rfl
      fun ha => ⟨⟨rfl, ha.ended⟩, rfl⟩,
      .unended fun _ _ hmem => absurd hmem List.not_mem_nil, ⟨nofun, .nothing rfl⟩⟩
  · exact fun start violation => ⟨(outputs_new settings model start).same rfl rfl rfl
      fun ha => ⟨⟨ha.cancelled, ha.ended⟩, rfl⟩,
      .unended fun _ _ hmem => absurd hmem List.not_mem_nil, ⟨nofun, .nothing rfl⟩⟩
  · intro st fl st' fl' hinv h hr
    obtain ⟨hintake, hbacklog⟩ := hinv
    cases hr with
    | read message m hr => exact h.readMessage hintake hbacklog hr message m
    | eof m _ => exact h.readEof _ m
    | readFail failure m _ => exact h.failReader failure m
    | put scheduled m hw hq => exact h.put hintake hbacklog hw hq scheduled m
    | putOverflow scheduled m _ _ =>
        exact h.die rfl rfl rfl rfl (h.log.failReader rfl rfl rfl rfl)
    | afterAccepted m he => exact h.offGenerator ⟨rfl, rfl, rfl, rfl⟩ (h.log.afterAccepted he m)
    | afterAudio m he => exact h.offGenerator ⟨rfl, rfl, rfl, rfl⟩ (h.log.afterAudio he m)
    | handle m m' he hget hh =>
        have hoff := handleEvent_offGenerator hh
        exact h.offGenerator ⟨hoff.readerSide, hoff.schedulerSide, hoff.cancelled, hoff.ended⟩
          (h.log.handle he hget hh)
    | handleRaise m m' _ _ _ => exact h.die rfl rfl rfl rfl (h.log.stop rfl rfl rfl)
    | finish m _ => exact h.die rfl rfl rfl rfl (h.log.stop rfl rfl rfl)
    | take m => exact h.take hintake hbacklog (takeWork_taken st m) _
    | apply m hres ho scheduled =>
        exact (h.land hintake hbacklog hres.1 (applyResult_landed ho)).flagged scheduled
    | applyRaised m hres ho =>
        exact absurd ho (applyResult_ne_raised (rows_answer hres).1 (rows_answer hres).2 st m)
    | fail m => exact h.die rfl rfl rfl rfl (h.log.fail _ _ m)

/-- The last element of a list that occurs nowhere before. -/
theorem append_cons_eq_concat {α : Type*} {l init rest : List α} {a b : α}
    (h : l ++ a :: rest = init ++ [b]) (hnot : a ∉ init) : l = init ∧ a = b ∧ rest = [] := by
  induction rest using List.reverseRecOn with
  | nil =>
      obtain ⟨hl, ha⟩ := List.append_inj' h rfl
      exact ⟨hl, List.singleton_inj.mp ha, rfl⟩
  | append_singleton rest c _ =>
      exfalso
      rw [← List.cons_append, ← List.append_assoc] at h
      obtain ⟨hinit, -⟩ := List.append_inj' h rfl
      exact hnot (hinit ▸ List.mem_append_right _ List.mem_cons_self)

/-- The audio messages before a `StreamEnded` and its counts account for every sample: the
messages are numbered from zero, cover adjacent non-empty intervals from the start of the
stream and carry two bytes a sample. -/
structure Accounted (inputStartSample : Nat) (accepted : List AudioChunk)
    (messages : List EnhancedAudio) (ended : StreamEnded) : Prop where
  numbered : messages.map (fun message => message.outputSequence.toNat) =
    List.range messages.length
  adjacent : Tiles (fun message => message.outputStartSample.toNat)
    (fun message => message.validSamples.toNat) inputStartSample messages
  bytes : ∀ message ∈ messages, message.pcmS16le.length = 2 * message.validSamples.toNat
  outputSamples : total (fun message => message.validSamples.toNat) messages =
    ended.outputSamples.toNat
  inputSamples : ended.inputSamples.toNat = total AudioChunk.samples accepted
  flushed : ended.flushed = true → ended.outputSamples = ended.inputSamples
  unflushed : ended.flushed = false → ended.outputSamples.toNat =
    hopSamples * (ended.inputSamples.toNat / hopSamples - 1)

theorem Accounts.accounted {st : Stream κ} (houtputs : Outputs st) {messages : List EnhancedAudio}
    (hsent : Sent st.history.emitted messages)
    (hall : messages.length = st.history.emitted.length) {completion : StreamCompletion}
    (hfinal : Final st.history completion) {ended : StreamEnded}
    (hended : streamEnded? completion = some ended) :
    Accounted st.session.inputStartSample st.history.accepted messages ended := by
  obtain ⟨hinput, houtput, hflushed⟩ := streamEnded?_spec hended
  have hevents : messages.map EnhancedAudio.event = st.history.emitted := by
    rw [hsent.events, hall, List.take_length]
  have hintervals : messages.map (fun message =>
      (message.outputStartSample.toNat, message.validSamples.toNat)) =
      st.history.emitted.map OutputAudio.interval := by
    rw [← hevents, List.map_map]
    rfl
  constructor
  · exact hsent.numbered
  · exact houtputs.tiles.of_map_eq hintervals
  · intro message hmem
    exact houtputs.bytes message.event (hevents ▸ List.mem_map_of_mem hmem)
  · rw [houtput, hfinal.outputSamples]
    exact total_of_map_eq hintervals
  · rw [hinput, hfinal.inputSamples]
  · intro hf
    apply UInt64.toNat_inj.mp
    rw [houtput, hinput]
    exact hfinal.flushed (hflushed ▸ hf)
  · intro hf
    rw [houtput, hinput]
    exact hfinal.unflushed (hflushed ▸ hf)

/-- Whenever the generator of a stream yields `StreamEnded`, the messages before it are the
acceptance and audio messages that account for every sample: a flush emits all that was
accepted, and without a flush the partial hop and the last full one are missing. -/
theorem stream_accounting {settings : ServerSettings} {model : StreamingModel κ}
    (hmodel : model.RowPerStream) {s : ServerState κ} (h : (system settings model).Reachable s)
    {i : Nat} {st : Stream κ} (hst : s.streams[i]? = some st) {before after : List ServerMessage}
    {ended : StreamEnded} (hy : st.history.yielded = before ++ .ended ended :: after) :
    after = [] ∧ ∃ messages : List EnhancedAudio,
      before = .accepted (capabilities settings model) :: messages.map .audio ∧
      Accounted st.session.inputStartSample st.history.accepted messages ended := by
  obtain ⟨-, houtputs, -, hlog⟩ := reachable_stream hmodel.delivers (fun _ _ => trivial)
    (ledger_invariant settings model) h hst
  cases hlog.transcript with
  | nothing hy' => simp [hy'] at hy
  | running messages _ hy' =>
      have hmem : ServerMessage.ended ended ∈ st.history.yielded := by
        rw [hy]
        exact List.mem_append_right _ List.mem_cons_self
      simp [hy'] at hmem
  | ended messages message completion hsent hall _ hfinal hmessage hy' =>
      rw [hy'] at hy
      obtain ⟨hbefore, hended, hafter⟩ := append_cons_eq_concat hy.symm (by simp)
      obtain rfl : ended = message := by simpa using hended
      exact ⟨hafter, messages, hbefore, Accounts.accounted houtputs hsent hall hfinal hmessage⟩

/-- A model that answers silence. -/
def silenceModel : StreamingModel Unit where
  modelName := "FastEnhancer-B"
  modelRevision := ""
  checkpointSha256 := ""
  cudaDeviceName := "test-double"
  initializeStream := ()
  returns hops caches wav updated :=
    wav = hops.map (fun _ => List.replicate hopSamples 0) ∧ updated = caches

instance (hops : List Tensor) (caches : List Unit) (wav : List Tensor) (updated : List Unit) :
    Decidable (silenceModel.returns hops caches wav updated) :=
  inferInstanceAs (Decidable (_ ∧ _))

theorem silenceModel_rowPerStream : silenceModel.RowPerStream := by
  rintro hops caches wav updated hlen ⟨rfl, rfl⟩
  refine ⟨List.length_map _, fun row hrow => ?_, hlen.symm⟩
  obtain ⟨hop, -, rfl⟩ := List.mem_map.mp hrow
  exact List.length_replicate

/-- One chunk of 300 samples from offset 100, flushed. -/
def flushedStream : List (Event Unit) :=
  let batch : List (Event Unit) :=
    [.gather, .dispatch, .inferenceReturned [List.replicate hopSamples 0] [()]]
  [.enhance (testStart "a" 100), .resume 0, .deliver 0 (testAudio 0 100 300), .put 0,
    .deliver 0 (.endStream true), .put 0, .put 0] ++ batch ++ batch ++ [.resume 0, .resume 0] ++
    batch ++ [.resume 0, .resume 0, .resume 0]

/-- The counts of that stream. -/
theorem stream_accounting_flushed :
    ∃ (s : ServerState Unit) (st : Stream Unit) (messages : List EnhancedAudio)
      (ended : StreamEnded),
      (system .defaults silenceModel).run (.init .defaults) flushedStream = some s ∧
      s.streams[0]? = some st ∧ ended.outputSamples = 300 ∧
      Accounted st.session.inputStartSample st.history.accepted messages ended := by
  obtain ⟨s, hrun, hr, hp⟩ := Lts.System.Reachable.of_run (system .defaults silenceModel)
    flushedStream (fun s => s.streams[0]?.any fun (st : Stream Unit) =>
      decide (st.history.yielded.getLast? = some (.ended ⟨300, 300, true⟩)))
    (by decide +kernel) (by decide +kernel)
  cases hst : s.streams[0]? with
  | none =>
      rw [hst] at hp
      cases hp
  | some st =>
      rw [hst, Option.any_some, decide_eq_true_eq] at hp
      obtain ⟨before, hy⟩ := List.getLast?_eq_some_iff.mp hp
      obtain ⟨-, messages, -, haccounted⟩ :=
        stream_accounting silenceModel_rowPerStream hr hst hy
      exact ⟨s, st, messages, _, hrun, hst, rfl, haccounted⟩

end VoxLattice.Server
