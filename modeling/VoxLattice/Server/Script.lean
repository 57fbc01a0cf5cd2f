import VoxLattice.Server.Liveness
import VoxLattice.Server.Reading
import VoxLattice.Server.Sources

/-!
# A client that plays a script

The client of stream `i` sends a list of messages and ends its stream.  `scriptedSystem` is the
server with this client: the steps are those of the server, and the log of the reader is kept
beside the state.  Nothing cuts the reader off (`Undisturbed`), and all other tasks and streams
go on as they like.

In a run in which the client's inputs are delivered and the scheduler keeps taking input
(`Served`) the reader ends, and it has accepted exactly the documented grammar
(`requests_accept_grammar`): each step leaves the reader alone, or takes an input, or puts an
item, so what is left to do gets less.
-/

namespace VoxLattice.Server

open Intervals Acceptors

variable {κ : Type*}

/-! ## The system -/

/-- The server and the log of a reader. -/
structure Scripted (κ : Type*) where
  server : ServerState κ
  log : ReaderLog

/-- The log of a reader that has taken no input. -/
def ReaderLog.empty : ReaderLog := ⟨[], [], [], []⟩

/-- The reader of stream `i` is at work. -/
def ServerState.reads (s : ServerState κ) (i : Nat) : Bool :=
  s.streams[i]?.any fun st => decide (st.reader ≠ .done)

/-- The call of stream `i` has ended. -/
def ServerState.finished (s : ServerState κ) (i : Nat) : Bool :=
  s.streams[i]?.any fun st => decide (st.enhance = .finished)

/-- The log after a step of the server. -/
def observe (i : Nat) (e : Event κ) (before after : ServerState κ) (log : ReaderLog) :
    ReaderLog :=
  match before.streams[i]?, after.streams[i]? with
  | some st, some st' => log.add i e st st'
  | _, _ => log

/-- The client plays its script, the reader is not cut off, and the ready queue does not
overflow. -/
def Undisturbed (settings : ServerSettings) (model : StreamingModel κ) (i : Nat)
    (messages : List ClientMessage) (s : Scripted κ) (e : Event κ) : Prop :=
  (e.ofReader i = true → ∀ x ∈ e.input?, s.log.inputs ++ [x] <+: inputSequence messages) ∧
  e.disturbs i = false ∧
  ∀ server ∈ step settings model s.server e, server.readyOverflow = false ∧
    (s.server.reads i = true → server.finished i = false)

instance (settings : ServerSettings) (model : StreamingModel κ) (i : Nat)
    (messages : List ClientMessage) (s : Scripted κ) (e : Event κ) :
    Decidable (Undisturbed settings model i messages s e) :=
  inferInstanceAs (Decidable (_ ∧ _))

/-- The server with a client that plays a script. -/
def scriptedSystem (settings : ServerSettings) (model : StreamingModel κ) (i : Nat)
    (messages : List ClientMessage) : Lts.System (Scripted κ) (Event κ) where
  init := ⟨.init settings, .empty⟩
  step s e := (step settings model s.server e).map fun server =>
    ⟨server, observe i e s.server server s.log⟩
  allows s e := allows model s.server e ∧ Undisturbed settings model i messages s e

instance (settings : ServerSettings) (model : StreamingModel κ) [∀ hops caches wav updated,
    Decidable (model.returns hops caches wav updated)] (i : Nat) (messages : List ClientMessage)
    (s : Scripted κ) (e : Event κ) :
    Decidable ((scriptedSystem settings model i messages).allows s e) :=
  inferInstanceAs (Decidable (_ ∧ _))

/-! ## What a step does -/

/-- What a step does to the reader of a stream and its log. -/
inductive Advance (i : Nat) (e : Event κ) (st : Stream κ) (log : ReaderLog) (st' : Stream κ)
    (log' : ReaderLog) : Prop where
  /-- Another task acts. -/
  | other (he : e.ofReader i = false) (hreader : st'.reader = st.reader) (hlog : log' = log)
  /-- The reader takes an input. -/
  | input (x) (hr : st.reader ≠ .done) (he : e.ofReader i = true) (hinput : e.input? = some x)
      (hlog : log'.inputs = log.inputs ++ [x])
  /-- The reader puts an item. -/
  | put (hr : st.reader ≠ .done) (he : e = .put i) (hlog : log'.inputs = log.inputs)
      (hworks : st'.reader.works.length < st.reader.works.length)

section Steps

variable {settings : ServerSettings} {model : StreamingModel κ} {i : Nat}
  {messages : List ClientMessage} {s s' : Scripted κ} {e : Event κ} {st st' : Stream κ}

theorem afterPut_works {work : ModelWork} (hw : st.reader.work? = some work)
    (q : BoundedQueue ModelWork) (scheduled : Bool) (m : Metrics) :
    (afterPut ((st.queued q).flagged scheduled) m).1.reader.works.length <
      st.reader.works.length := by
  have hreturned := afterPut_put hw q scheduled m
  generalize afterPut ((st.queued q).flagged scheduled) m = next at hreturned ⊢
  cases hreturned with
  | hop hop rest hr =>
      have hreader : st.reader = .accepting (hop :: rest) := hr
      change (Reader.ofHops rest).works.length < st.reader.works.length
      rw [hreader, Reader.works_ofHops]
      simp [Reader.works]
  | nothing hop hr _ =>
      have hreader : st.reader = .finishingPartial hop := hr
      have hafter : (completeEmptyFlush
          { (st.queued q).flagged scheduled with reader := .reading true } m).1.reader =
            .reading true := congrArg ReaderSide.reader (complete_readerSide true _ m)
      simp [hreader, hafter, Reader.works]
  | remainder hop hr _ =>
      have hreader : st.reader = .finishingPartial hop := hr
      simp [hreader, Reader.works]
  | flush hr =>
      have hreader : st.reader = .finishingFlush := hr
      simp [hreader, Reader.works]
  | noFlush hr =>
      have hreader : st.reader = .finishingNoFlush := hr
      simp [hreader, Reader.works]

theorem ReaderStep.advance (h : ReaderStep settings i st e st') (he : e.ofReader i = true)
    (log : ReaderLog) : Advance i e st log st' (log.add i e st st') := by
  have hwork := h.at_work
  rw [ReaderLog.add_reader he]
  cases h with
  | read message m hr => exact .input (some message) hwork he rfl rfl
  | eof m hr => exact .input none hwork he rfl rfl
  | @put work q scheduled m hw =>
      exact .put hwork rfl (List.append_nil _) (afterPut_works hw q scheduled m)

theorem server_step (h : (scriptedSystem settings model i messages).Step s e s') :
    (system settings model).Step s.server e s'.server ∧
      s'.log = observe i e s.server s'.server s.log := by
  obtain ⟨server, hstep, rfl⟩ := Option.map_eq_some_iff.mp h.eq
  exact ⟨⟨h.allowed.1, hstep⟩, rfl⟩

theorem server_reachable (h : (scriptedSystem settings model i messages).Reachable s) :
    (system settings model).Reachable s.server := by
  induction h with
  | init => exact .init
  | step _ hs ih => exact ih.step (server_step hs).1

/-- A step of another task leaves an undisturbed reader alone. -/
theorem other_step {env : Env κ} {fl fl' : Option (Flight κ)}
    (h : (scriptedSystem settings model i messages).Step s e s')
    (hst : s.server.streams[i]? = some st) (hst' : s'.server.streams[i]? = some st')
    (heff : StreamStep settings env i e st fl st' fl') (he : e.ofReader i = false) :
    st'.readerSide = st.readerSide := by
  rcases heff.offReader he with hside | ⟨hcancelled, hfinished⟩
  · exact hside
  · by_cases hdone : st.reader = .done
    · rw [hcancelled, ← hdone]
      rfl
    · exfalso
      have hquiet := (h.allowed.2.2.2 s'.server (server_step h).1.eq).2
      have hreads : s.server.reads i = true := by
        rw [ServerState.reads, hst]
        exact decide_eq_true hdone
      have hended : s'.server.finished i = true := by
        rw [ServerState.finished, hst']
        exact decide_eq_true hfinished
      exact absurd (hended.symm.trans (hquiet hreads)) nofun

/-- What a step does to a reader at work or at its end. -/
theorem reads_step (hreach : (scriptedSystem settings model i messages).Reachable s)
    (h : (scriptedSystem settings model i messages).Step s e s')
    (hst : s.server.streams[i]? = some st) (hreads : Reads settings st s.log) :
    ∃ st', s'.server.streams[i]? = some st' ∧ Reads settings st' s'.log ∧
      st'.session.inputStartSample = st.session.inputStartSample ∧
      Advance i e st s.log st' s'.log := by
  have hserver := server_reachable hreach
  obtain ⟨hstep, hlog⟩ := server_step h
  obtain ⟨st', hst', heff⟩ := step_effect model.delivers_any (reachable_scheduling hserver) hstep
    hst
  have hadd : s'.log = s.log.add i e st st' := by rw [hlog, observe, hst, hst']
  have hboth : Reads settings st' (s.log.add i e st st') ∧
      Advance i e st s.log st' (s.log.add i e st st') := by
    cases he : e.ofReader i with
    | false =>
        have hside := other_step h hst hst' heff he
        rw [ReaderLog.add_other he]
        exact ⟨hreads.same hside, .other he (congrArg ReaderSide.reader hside) rfl⟩
    | true =>
        obtain ⟨-, hdisturbs, hquiet⟩ := h.allowed.2
        obtain ⟨st₁, hst₁, hreader⟩ := reader_step hstep.eq he hdisturbs
          (hquiet s'.server hstep.eq).1 hst
        obtain rfl := Option.some.inj (hst'.symm.trans hst₁)
        have huntouched := reachable_stream model.delivers_any (fun _ _ => trivial)
          (untouched_invariant settings model Env.any) hserver hst
        exact ⟨hreads.reader (reachable_intake hserver hst) huntouched he hreader,
          hreader.advance he s.log⟩
  rw [hadd]
  exact ⟨st', hst', hboth.1, heff.grows.start, hboth.2⟩

/-- What is known of a reader at any time. -/
inductive Watched (settings : ServerSettings) (i : Nat) (s : Scripted κ) : Prop where
  /-- The stream has not come into being. -/
  | absent (hst : s.server.streams[i]? = none) (hlog : s.log = .empty)
  /-- The call was refused or its acceptance was, and there is no reader. -/
  | refused (st : Stream κ) (hst : s.server.streams[i]? = some st) (hr : st.reader = .done)
      (hlog : s.log = .empty)
  | reads (st : Stream κ) (hst : s.server.streams[i]? = some st) (h : Reads settings st s.log)

theorem reads_new (settings : ServerSettings) (model : StreamingModel κ) (start : StartStream) :
    Reads settings (Stream.admitted settings model start) .empty := by
  refine .conforming [] .audio ⟨.reading, rfl, .nil, ?_, rfl, rfl⟩
  rw [pcmOf_nil, worksOf, hopsOf_nil]
  rfl

theorem reachable_watched (h : (scriptedSystem settings model i messages).Reachable s) :
    Watched settings i s := by
  induction h with
  | init => exact .absent rfl rfl
  | @step s e s' hreach h ih =>
      obtain ⟨hstep, hlog⟩ := server_step h
      cases ih with
      | absent hst hempty =>
          rw [observe, hst] at hlog
          cases hst' : s'.server.streams[i]? with
          | none => exact .absent hst' (hlog.trans hempty)
          | some st' =>
              obtain ⟨-, -, ⟨start, rfl⟩ | ⟨start, rfl⟩ | ⟨start, violation, rfl, -⟩⟩ :=
                step_new hstep hst hst'
              · refine .reads _ hst' ?_
                rw [hlog, hempty]
                exact reads_new settings model start
              · exact .refused _ hst' rfl (hlog.trans hempty)
              · exact .refused _ hst' rfl (hlog.trans hempty)
      | refused st hst hr hempty =>
          obtain ⟨st', hst', heff⟩ := step_effect model.delivers_any
            (reachable_scheduling (server_reachable hreach)) hstep hst
          have hadd : s'.log = s.log.add i e st st' := by rw [hlog, observe, hst, hst']
          cases he : e.ofReader i with
          | false =>
              have hside := other_step h hst hst' heff he
              have hreader : st'.reader = st.reader := congrArg ReaderSide.reader hside
              exact .refused st' hst' (hreader.trans hr)
                (hadd.trans ((ReaderLog.add_other he).trans hempty))
          | true =>
              obtain ⟨-, hdisturbs, hquiet⟩ := h.allowed.2
              obtain ⟨st₁, -, hreader⟩ := reader_step hstep.eq he hdisturbs
                (hquiet s'.server hstep.eq).1 hst
              exact absurd hr hreader.at_work
      | reads st hst hreads =>
          obtain ⟨st', hst', hreads', -⟩ := reads_step hreach h hst hreads
          exact .reads st' hst' hreads'

/-- The inputs of the reader are those of the script. -/
theorem inputs_follow (h : (scriptedSystem settings model i messages).Reachable s) :
    s.log.inputs <+: inputSequence messages := by
  induction h with
  | init => exact List.nil_prefix
  | @step s e s' _ h ih =>
      rw [(server_step h).2]
      unfold observe
      split
      · cases he : e.ofReader i with
        | false =>
            rw [ReaderLog.add_other he]
            exact ih
        | true =>
            rw [ReaderLog.add_reader he]
            cases hinput : e.input? with
            | none => exact (List.append_nil s.log.inputs).symm ▸ ih
            | some x => exact h.allowed.2.1 he x hinput
      · exact ih

end Steps

/-! ## The run of a reader -/

/-- The reader of stream `i` waits for an input. -/
def ServerState.awaits (s : ServerState κ) (i : Nat) : Bool :=
  s.streams[i]?.any fun st => decide (st.reader = .reading false ∨ st.reader = .reading true)

/-- The reader of stream `i` has an item to put and no room for it. -/
def ServerState.putBlocked (s : ServerState κ) (i : Nat) : Bool :=
  s.streams[i]?.any fun st => st.reader.work?.isSome && st.session.inputQueue.full

/-- The inputs are delivered, the scheduler keeps taking input, and a put that has room
returns. -/
structure Served {settings : ServerSettings} {model : StreamingModel κ} {i : Nat}
    {messages : List ClientMessage} (tr : (scriptedSystem settings model i messages).Trace) :
    Prop where
  delivers : tr.LeadsTo (fun s => s.server.awaits i = true)
    fun e => e.ofReader i = true ∧ e.input?.isSome = true
  takes : ∀ t, (tr.state t).server.putBlocked i = true →
    ∃ u, t ≤ u ∧ (tr.state u).server.putBlocked i = false
  puts : tr.LeadsTo (fun s => s.server.putEnabled i = true) (·.isPut i = true)

/-- The inputs and then the items a reader has still before it. -/
def Scripted.left (i : Nat) (messages : List ClientMessage) (s : Scripted κ) : Nat × Nat :=
  (messages.length + 1 - s.log.inputs.length,
    (s.server.streams[i]?.map fun st => st.reader.works.length).getD 0)

/-- Less is left: of the inputs, or as many of them and fewer items. -/
def Less : Nat × Nat → Nat × Nat → Prop := Prod.Lex (· < ·) (· < ·)

theorem less_wellFounded : WellFounded Less := WellFounded.prod_lex wellFounded_lt wellFounded_lt

theorem Less.trans {a b c : Nat × Nat} (h : Less a b) (h' : Less b c) : Less a c := by
  rw [Less, Prod.lex_def] at *
  omega

section Trace

variable {settings : ServerSettings} {model : StreamingModel κ} {i : Nat}
  {messages : List ClientMessage} {tr : (scriptedSystem settings model i messages).Trace}
  {t u : Nat} {st : Stream κ}

/-- What the reader has made of its inputs at an instant. -/
structure ReadsAt (tr : (scriptedSystem settings model i messages).Trace) (t : Nat)
    (st : Stream κ) : Prop where
  stream : (tr.state t).server.streams[i]? = some st
  reads : Reads settings st (tr.state t).log

theorem ReadsAt.left (h : ReadsAt tr t st) : (tr.state t).left i messages =
    (messages.length + 1 - (tr.state t).log.inputs.length, st.reader.works.length) := by
  rw [Scripted.left, h.stream]
  rfl

/-- A reader at work has made something of its inputs. -/
theorem ReadsAt.of_work (hst : (tr.state t).server.streams[i]? = some st)
    (hr : st.reader ≠ .done) : ReadsAt tr t st := by
  cases reachable_watched (tr.reachable t) with
  | absent hnone _ => exact absurd (hst.symm.trans hnone) nofun
  | refused st' hst' hdone _ =>
      obtain rfl := Option.some.inj (hst.symm.trans hst')
      exact absurd hdone hr
  | reads st' hst' h =>
      obtain rfl := Option.some.inj (hst.symm.trans hst')
      exact ⟨hst, h⟩

/-- The next instant. -/
theorem ReadsAt.next (h : ReadsAt tr t st) : ∃ st', ReadsAt tr (t + 1) st' ∧
    st'.session.inputStartSample = st.session.inputStartSample ∧
    ((tr.event t = none ∧ st' = st ∧ (tr.state (t + 1)).log = (tr.state t).log) ∨
      ∃ e, tr.event t = some e ∧ Advance i e st (tr.state t).log st' (tr.state (t + 1)).log) := by
  cases he : tr.event t with
  | none =>
      have hstays := tr.stays t he
      exact ⟨st, ⟨hstays ▸ h.stream, hstays ▸ h.reads⟩, rfl, .inl ⟨rfl, rfl, by rw [hstays]⟩⟩
  | some e =>
      obtain ⟨st', hst', hreads, hstart, hadvance⟩ :=
        reads_step (tr.reachable t) (tr.moves t e he) h.stream h.reads
      exact ⟨st', ⟨hst', hreads⟩, hstart, .inr ⟨e, rfl, hadvance⟩⟩

/-- From one instant to the next the reader and its log stay, or less is left. -/
theorem ReadsAt.next_left {st' : Stream κ} (h : ReadsAt tr t st) (h' : ReadsAt tr (t + 1) st') :
    (st'.reader = st.reader ∧ (tr.state (t + 1)).log = (tr.state t).log) ∨
      st.reader ≠ .done ∧
        Less ((tr.state (t + 1)).left i messages) ((tr.state t).left i messages) := by
  obtain ⟨st₁, h₁, -, hnext⟩ := h.next
  obtain rfl := Option.some.inj (h'.stream.symm.trans h₁.stream)
  rw [h.left, h'.left]
  rcases hnext with ⟨-, rfl, hlog⟩ | ⟨e, -, hadvance⟩
  · exact .inl ⟨rfl, hlog⟩
  · cases hadvance with
    | other _ hreader hlog => exact .inl ⟨hreader, hlog⟩
    | input x hr _ _ hlog =>
        refine .inr ⟨hr, Prod.Lex.left _ _ ?_⟩
        have hle := (inputs_follow (tr.reachable (t + 1))).length_le
        rw [hlog, List.length_append, List.length_singleton, inputSequence, List.length_append,
          List.length_map, List.length_singleton] at hle
        rw [hlog, List.length_append, List.length_singleton]
        omega
    | put hr _ hlog hworks =>
        rw [hlog]
        exact .inr ⟨hr, Prod.Lex.right _ hworks⟩

/-- The same for any later instant. -/
theorem ReadsAt.later (h : ReadsAt tr t st) (htu : t ≤ u) : ∃ st', ReadsAt tr u st' ∧
    st'.session.inputStartSample = st.session.inputStartSample ∧
    ((st'.reader = st.reader ∧ (tr.state u).log = (tr.state t).log) ∨
      st.reader ≠ .done ∧ Less ((tr.state u).left i messages) ((tr.state t).left i messages)) := by
  induction u, htu using Nat.le_induction with
  | base => exact ⟨st, h, rfl, .inl ⟨rfl, rfl⟩⟩
  | succ u htu ih =>
      obtain ⟨st₁, h₁, hstart₁, hbefore⟩ := ih
      obtain ⟨st₂, h₂, hstart₂, -⟩ := h₁.next
      refine ⟨st₂, h₂, hstart₂.trans hstart₁, ?_⟩
      rcases h₁.next_left h₂ with ⟨hreader, hlog⟩ | ⟨hr, hless⟩
      · have hleft : (tr.state (u + 1)).left i messages = (tr.state u).left i messages := by
          rw [h₁.left, h₂.left, hreader, hlog]
        rw [hreader, hlog, hleft]
        exact hbefore
      · rcases hbefore with ⟨hreader, hlog⟩ | ⟨hr', hless'⟩
        · have hleft : (tr.state u).left i messages = (tr.state t).left i messages := by
            rw [h₁.left, h.left, hreader, hlog]
          exact .inr ⟨hreader ▸ hr, hleft ▸ hless⟩
        · exact .inr ⟨hr', hless.trans hless'⟩

/-- A step of the reader leaves less. -/
theorem ReadsAt.less (h : ReadsAt tr t st) {e : Event κ} (he : tr.event t = some e)
    (hown : e.ofReader i = true) :
    Less ((tr.state (t + 1)).left i messages) ((tr.state t).left i messages) := by
  obtain ⟨st', h', -, ⟨hnone, -⟩ | ⟨e', he', hadvance⟩⟩ := h.next
  · exact absurd (hnone.symm.trans he) nofun
  · obtain rfl := Option.some.inj (he.symm.trans he')
    rcases h.next_left h' with ⟨hreader, hlog⟩ | ⟨-, hless⟩
    · cases hadvance with
      | other hother _ _ => exact absurd (hown.symm.trans hother) nofun
      | input x _ _ _ hinputs =>
          rw [hlog, List.self_eq_append_right] at hinputs
          cases hinputs
      | put _ _ _ hworks => exact absurd (hreader ▸ hworks) (Nat.lt_irrefl _)
    · exact hless

/-- A reader at work puts an item or waits for an input. -/
theorem Reads.awaits {log : ReaderLog} (h : Reads settings st log) (hw : st.reader.work? = none)
    (hr : st.reader ≠ .done) : st.reader = .reading false ∨ st.reader = .reading true := by
  cases h with
  | broken _ _ _ _ _ h => exact absurd h.place hr
  | conforming chunks stage h =>
      have hplace := h.place
      generalize st.reader = reader at hplace hw hr ⊢
      cases hplace with
      | reading => exact .inl rfl
      | waiting _ => exact .inr rfl
      | done _ => exact absurd rfl hr
      | accepting _ _ => cases hw
      | finishingPartial _ => cases hw
      | finishingFlush => cases hw
      | finishingNoFlush => cases hw

theorem isPut_ofReader {e : Event κ} (h : e.isPut i = true) : e.ofReader i = true := by
  cases e with
  | put j => exact decide_eq_true (beq_iff_eq.mp h)
  | _ => cases h

/-- The reader comes to its end. -/
theorem Served.ends (hserved : Served tr) (h : ReadsAt tr t st) :
    ∃ u, t ≤ u ∧ ∃ st', ReadsAt tr u st' ∧ st'.reader = .done := by
  have hprogress (v : Nat) (htv : t ≤ v) (hgoal : ¬ ∃ st', ReadsAt tr v st' ∧ st'.reader = .done) :
      ∃ w, v ≤ w ∧ ((∃ st', ReadsAt tr w st' ∧ st'.reader = .done) ∨
        Less ((tr.state w).left i messages) ((tr.state v).left i messages)) := by
    obtain ⟨st₁, h₁, -⟩ := h.later htv
    -- an event of the reader that is bound to come leaves less
    have hevent (w : Nat) (hvw : v ≤ w) (e : Event κ) (he : tr.event w = some e)
        (hown : e.ofReader i = true) :
        ∃ w, v ≤ w ∧ ((∃ st', ReadsAt tr w st' ∧ st'.reader = .done) ∨
          Less ((tr.state w).left i messages) ((tr.state v).left i messages)) := by
      obtain ⟨st₂, h₂, -, ⟨hreader, hlog⟩ | ⟨-, hless⟩⟩ := h₁.later hvw
      · refine ⟨w + 1, hvw.trans w.le_succ, .inr ?_⟩
        have hleft : (tr.state w).left i messages = (tr.state v).left i messages := by
          rw [h₁.left, h₂.left, hreader, hlog]
        exact hleft ▸ h₂.less he hown
      · exact ⟨w, hvw, .inr hless⟩
    cases hwork : st₁.reader.work? with
    | none =>
        have hawaits : (tr.state v).server.awaits i = true := by
          rw [ServerState.awaits, h₁.stream]
          exact decide_eq_true (h₁.reads.awaits hwork fun hdone => hgoal ⟨st₁, h₁, hdone⟩)
        obtain ⟨w, hvw, e, he, hown, -⟩ := hserved.delivers v hawaits
        exact hevent w hvw e he hown
    | some work =>
        obtain ⟨u, hvu, hunblocked⟩ : ∃ u, v ≤ u ∧ (tr.state u).server.putBlocked i = false := by
          cases hblocked : (tr.state v).server.putBlocked i with
          | false => exact ⟨v, le_refl v, hblocked⟩
          | true => exact hserved.takes v hblocked
        obtain ⟨st₂, h₂, -, ⟨hreader, -⟩ | ⟨-, hless⟩⟩ := h₁.later hvu
        · have henabled : (tr.state u).server.putEnabled i = true := by
            rw [ServerState.putBlocked, h₂.stream, Option.any_some, hreader, hwork,
              Option.isSome_some, Bool.true_and] at hunblocked
            rw [ServerState.putEnabled, h₂.stream, Option.any_some, hreader, hwork, hunblocked]
            rfl
          obtain ⟨w, huw, e, he, hput⟩ := hserved.puts u henabled
          exact hevent w (hvu.trans huw) e he (isPut_ofReader hput)
        · exact ⟨u, hvu, .inr hless⟩
  obtain ⟨u, htu, hdone⟩ := Lts.System.Trace.eventually_of_measure less_wellFounded
    (fun v => (tr.state v).left i messages) _ hprogress t (le_refl t)
  exact ⟨u, htu, hdone⟩

/-- What has ended stays. -/
theorem ReadsAt.stays (h : ReadsAt tr t st) (hr : st.reader = .done) (htu : t ≤ u) :
    (tr.state u).log = (tr.state t).log := by
  obtain ⟨st', -, -, ⟨-, hlog⟩ | ⟨hwork, -⟩⟩ := h.later htu
  · exact hlog
  · exact absurd hr hwork

end Trace

/-! ## The grammar is accepted -/

/-- What a reader makes of the messages of a client, seen from its end. -/
structure ReaderOutcome (settings : ServerSettings) (start : Nat) (messages : List ClientMessage)
    (log : ReaderLog) : Prop where
  /-- There is a failure just if the messages are not accepted. -/
  failure_iff : log.failures ≠ [] ↔ ¬ Accepted settings start messages
  /-- The scheduler gets the hops of the accepted audio and the item that ends the stream, or the
  stream completes. -/
  accepted : ∀ chunks flush, messages = chunks.map .audio ++ [.endStream flush] →
    ValidChunks settings start chunks → log.works = finalWorks start (pcmOf chunks) flush ∧
      log.completions = completionsOf (pcmOf chunks) (.closed flush)
  /-- The failure is that of the first input that offends, and nothing is put after it. -/
  refused : ¬ Accepted settings start messages → ∃ chunks stage x tail violation,
    inputSequence messages = inputsOf chunks stage ++ x :: tail ∧
    Longest (fun inputs => ∃ chunks stage, Conforms settings start inputs chunks stage)
      (inputSequence messages) (inputsOf chunks stage) ∧
    Offends settings start chunks stage x violation ∧ log.failures = [violation] ∧
    log.works = worksOf start (pcmOf chunks) stage ∧
    log.completions = completionsOf (pcmOf chunks) stage

theorem Reads.outcome {settings : ServerSettings} {st : Stream κ} {log : ReaderLog}
    {messages : List ClientMessage} (h : Reads settings st log) (hr : st.reader = .done)
    (hfollows : log.inputs <+: inputSequence messages) :
    ReaderOutcome settings st.session.inputStartSample messages log := by
  cases h with
  | conforming chunks stage h =>
      have hplace := h.place
      rw [hr] at hplace
      cases hplace with
      | done flush =>
          have hall : log.inputs = inputSequence messages := by
            refine (List.prefix_concat_iff.mp hfollows).resolve_right fun hshort => ?_
            have hend : none ∈ log.inputs := by
              rw [(conforms_iff.mp h.conforms).1]
              exact List.mem_append_right _ (List.mem_singleton_self none)
            obtain ⟨message, -, hnone⟩ := List.mem_map.mp (hshort.subset hend)
            cases hnone
          have hconforms := hall ▸ h.conforms
          have haccepted : Accepted settings st.session.inputStartSample messages :=
            accepted_iff.mpr ⟨chunks, flush, hconforms⟩
          have hworks := h.works
          rw [hr] at hworks
          refine ⟨iff_of_false (not_not.mpr h.failures) (not_not.mpr haccepted),
            fun chunks' flush' heq hvalid => ?_, fun hnot => absurd haccepted hnot⟩
          have hconforms' : Conforms settings st.session.inputStartSample (inputSequence messages)
              chunks' (.closed flush') :=
            conforms_iff.mpr ⟨by rw [heq]; simp [inputSequence, inputsOf], hvalid⟩
          obtain ⟨rfl, hstage⟩ := hconforms.unique hconforms'
          cases hstage
          exact ⟨(List.append_nil _).symm.trans hworks, h.completions⟩
  | broken inputs chunks stage x violation h =>
      obtain ⟨tail, htail⟩ := hfollows
      rw [h.inputs, List.append_assoc] at htail
      have hnot := h.offends.not_accepted h.conforms htail.symm
      have hlongest := h.offends.longest h.conforms htail.symm
      rw [(conforms_iff.mp h.conforms).1] at htail hlongest
      refine ⟨iff_of_true (by rw [h.failures]; rintro ⟨⟩) hnot,
        fun chunks flush heq hvalid => absurd ⟨chunks, flush, heq, hvalid⟩ hnot, fun _ => ?_⟩
      exact ⟨chunks, stage, x, tail, violation, htail.symm, hlongest, h.offends, h.failures,
        h.works, h.completions⟩

/-- The reader of a stream comes to its end, and then it has accepted exactly the documented
grammar: whatever its client sends, whatever the other streams do, and in whatever order the
tasks run, while the scheduler keeps taking input and nothing cuts the reader off. -/
theorem requests_accept_grammar {settings : ServerSettings} {model : StreamingModel κ} {i : Nat}
    {messages : List ClientMessage} {tr : (scriptedSystem settings model i messages).Trace}
    (hserved : Served tr) {t : Nat} {st : Stream κ}
    (hst : (tr.state t).server.streams[i]? = some st) (hr : st.reader ≠ .done) :
    ∃ u st', t ≤ u ∧ (tr.state u).server.streams[i]? = some st' ∧ st'.reader = .done ∧
      (∀ v, u ≤ v → (tr.state v).log = (tr.state u).log) ∧
      ReaderOutcome settings st.session.inputStartSample messages (tr.state u).log := by
  have h := ReadsAt.of_work hst hr
  obtain ⟨u, htu, st₁, h₁, hdone⟩ := hserved.ends h
  obtain ⟨st₂, h₂, hstart, -⟩ := h.later htu
  obtain rfl := Option.some.inj (h₁.stream.symm.trans h₂.stream)
  refine ⟨u, st₁, htu, h₁.stream, hdone, fun v huv => h₁.stays hdone huv, ?_⟩
  rw [← hstart]
  exact h₁.reads.outcome hdone (inputs_follow (tr.reachable u))

/-- A chunk of 300 samples and a flush. -/
def flushedScript : List ClientMessage := [testAudio 0 100 300, .endStream true]

/-- The client plays that script, and the run then stands still. -/
def flushedScriptTrace : (scriptedSystem .defaults silenceModel 0 flushedScript).Trace :=
  .ofRun _ [.enhance (testStart "a" 100), .deliver 0 (testAudio 0 100 300), .put 0,
    .deliver 0 (.endStream true), .put 0, .put 0, .closeInput 0]
    (by decide +kernel) (by decide +kernel)

theorem flushedScriptTrace_served : Served flushedScriptTrace where
  delivers := Lts.System.Trace.ofRun_leadsTo (by decide +kernel)
  takes t _ := by
    refine ⟨max t 7, le_max_left t 7, ?_⟩
    rw [flushedScriptTrace, Lts.System.Trace.ofRun_state_last (le_max_right t 7)]
    decide +kernel
  puts := Lts.System.Trace.ofRun_leadsTo (by decide +kernel)

/-- The reader accepts it. -/
theorem requests_accept_grammar_flushed :
    ∃ u st, (flushedScriptTrace.state u).server.streams[0]? = some st ∧ st.reader = .done ∧
      ReaderOutcome .defaults 100 flushedScript (flushedScriptTrace.state u).log := by
  have hopened : ((flushedScriptTrace.state 1).server.streams[0]?.any fun (st : Stream Unit) =>
      decide (st.reader = .reading false ∧ st.session.inputStartSample = 100)) = true := by
    decide +kernel
  cases hst : (flushedScriptTrace.state 1).server.streams[0]? with
  | none =>
      rw [hst] at hopened
      cases hopened
  | some st =>
      rw [hst, Option.any_some, decide_eq_true_eq] at hopened
      obtain ⟨u, st', -, hst', hdone, -, houtcome⟩ :=
        requests_accept_grammar flushedScriptTrace_served hst (by rw [hopened.1]; nofun)
      rw [hopened.2] at houtcome
      exact ⟨u, st', hst', hdone, houtcome⟩

end VoxLattice.Server
