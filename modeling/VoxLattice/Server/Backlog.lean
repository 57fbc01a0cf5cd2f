import VoxLattice.Server.Streams

/-!
# From the rechunker to the model

A hop passes from the reader, which holds it until it is put, through the input queue and the
batch in inference to the session it came from.  While a stream is live these places, in this
order, hold exactly the hops the rechunker returned (`Working`), followed by the item that ends
the stream once the reader has put it.

`Backlog` adds what outlives the stream: the items whose results reached the session are an
initial segment of the hops, and the flush only comes after all of them.
-/

namespace VoxLattice.Server

variable {κ : Type*}

/-- The hops a reader has still to put. -/
def Reader.hops : Reader → List SourceHop
  | .accepting hops => hops
  | .finishingPartial hop => [hop]
  | _ => []

/-- The reader has put the last work item, or it has stopped. -/
def Reader.pastEnd : Reader → Bool
  | .reading true | .done => true
  | _ => false

/-- The work item that ends a stream, if it was put; the flag is `flush`. -/
def ending : Option Bool → List ModelWork
  | none => []
  | some true => [.flush]
  | some false => [.noFlush]

/-- Where the hops of a live stream are: `before` reached the session, `after` are in inference
or in the input queue. -/
structure Working (st : Stream κ) (fl : Option (Flight κ)) (before after : List SourceHop)
    (last : Option Bool) : Prop where
  applied : st.history.applied = before.map .ofSource
  waiting : (fl.map Flight.work).toList ++ st.session.inputQueue.items =
    after.map .ofSource ++ ending last
  hops : st.history.hops = before ++ after ++ st.reader.hops
  pending : st.session.pendingSource = before.getLast?
  flight : ∀ flight ∈ fl, flight.work.terminalNoFlush = false
  pastEnd : last ≠ none → st.reader.pastEnd = true
  last : st.reader = .reading true → last ≠ none

/-- The work items whose results reached a session are hops in order, and at last the flush. -/
def InOrder (st : Stream κ) : Prop :=
  ∃ before flushed, st.history.applied =
      before.map ModelWork.ofSource ++ (if flushed = true then [ModelWork.flush] else []) ∧
    before <+: st.history.hops ∧
    (flushed = true → before = st.history.hops ∧ st.reader.pastEnd = true)

theorem InOrder.of_hops {st : Stream κ} (before : List SourceHop)
    (happlied : st.history.applied = before.map .ofSource) (hle : before <+: st.history.hops) :
    InOrder st := ⟨before, false, by simpa using happlied, hle, nofun⟩

/-- The invariant of the hops and work items of a stream. -/
structure Backlog (st : Stream κ) (fl : Option (Flight κ)) : Prop where
  working : st.session.cancelled = false → st.session.ended = false →
    ∃ before after last, Working st fl before after last
  inOrder : InOrder st
  ended : st.session.ended = true → st.reader.pastEnd = true

theorem ofHops_hops (hops : List SourceHop) : (Reader.ofHops hops).hops = hops := by
  cases hops <;> rfl

theorem ofHops_ne_reading (hops : List SourceHop) : Reader.ofHops hops ≠ .reading true := by
  cases hops <;> simp [Reader.ofHops]

section Invariant

variable {settings : ServerSettings} {st st' : Stream κ} {fl fl' : Option (Flight κ)}

/-- The stream is no longer live, and its hops and its applied items are what they were. -/
theorem Backlog.die (h : Backlog st fl) (hdead : st'.session.cancelled = true)
    (happlied : st'.history.applied = st.history.applied)
    (hhops : st'.history.hops = st.history.hops)
    (hpast : st.reader.pastEnd = true → st'.reader.pastEnd = true)
    (hended : st'.session.ended = true → st.session.ended = true ∨ st'.reader.pastEnd = true) :
    Backlog st' fl' where
  working hc := absurd (hc.symm.trans hdead) Bool.false_ne_true
  inOrder := by
    rw [InOrder, happlied, hhops]
    obtain ⟨before, flushed, heq, hle, hflushed⟩ := h.inOrder
    exact ⟨before, flushed, heq, hle, fun hf => ⟨(hflushed hf).1, hpast (hflushed hf).2⟩⟩
  ended he := (hended he).elim (fun he => hpast (h.ended he)) id

theorem Backlog.failReader (h : Backlog st fl) (failure : ProtocolViolation) (m : Metrics) :
    Backlog (failReader failure st m).1 fl :=
  h.die rfl rfl rfl (fun _ => rfl) fun _ => .inr rfl

theorem Backlog.fail (h : Backlog st fl) (status : StatusCode) (detail : String) (m : Metrics) :
    Backlog (fail status detail st m).1 fl' :=
  h.die rfl rfl rfl id .inl

/-- Once the stream is dead, the work in inference does not matter. -/
theorem Backlog.dead (h : Backlog st fl)
    (hdead : (st.session.cancelled || st.session.ended) = true) : Backlog st fl' where
  working hc he := by simp [hc, he] at hdead
  inOrder := h.inOrder
  ended := h.ended

/-- The stream completes, with its reader past the end. -/
theorem InOrder.complete (h : InOrder st) (hpast : st.reader.pastEnd = true) (flushed : Bool)
    (m : Metrics) : Backlog (complete flushed st m).1 fl := by
  have hcompletes := complete_completes flushed st m
  generalize Server.complete flushed st m = next at hcompletes ⊢
  cases hcompletes with
  | already he => exact ⟨fun _ he' => absurd (he'.symm.trans he) nofun, h, fun _ => hpast⟩
  | queued _ _ _ => exact ⟨fun _ he => absurd he nofun, h, fun _ => hpast⟩
  | full _ _ => exact ⟨fun hc => absurd hc nofun, h, fun _ => hpast⟩

theorem InOrder.completeWithoutFlush (h : InOrder st) (hpast : st.reader.pastEnd = true)
    (m : Metrics) : Backlog (completeWithoutFlush st m).1 fl :=
  have hdropped : InOrder { st with session := { st.session with pendingSource := none } } := h
  hdropped.complete hpast false m

/-- A change on the generator's side. -/
theorem Backlog.offGenerator (h : Backlog st fl) (hoff : OffGenerator st st') :
    Backlog st' fl := by
  have hreader : st'.reader = st.reader := hoff.reader
  have hhops : st'.history.hops = st.history.hops := congrArg ReaderSide.hops hoff.readerSide
  have happlied : st'.history.applied = st.history.applied :=
    congrArg SchedulerSide.applied hoff.schedulerSide
  have hqueue : st'.session.inputQueue = st.session.inputQueue :=
    congrArg SchedulerSide.inputQueue hoff.schedulerSide
  have hpending : st'.session.pendingSource = st.session.pendingSource :=
    congrArg SchedulerSide.pendingSource hoff.schedulerSide
  constructor
  · intro hc he
    obtain ⟨before, after, last, hw⟩ := h.working (hoff.cancelled ▸ hc) (hoff.ended ▸ he)
    refine ⟨before, after, last, ?_, ?_, ?_, ?_, hw.flight, ?_, ?_⟩
    · rw [happlied]
      exact hw.applied
    · rw [hqueue]
      exact hw.waiting
    · rw [hhops, hreader]
      exact hw.hops
    · rw [hpending]
      exact hw.pending
    · rw [hreader]
      exact hw.pastEnd
    · rw [hreader]
      exact hw.last
  · rw [InOrder, happlied, hhops, hreader]
    exact h.inOrder
  · rw [hoff.ended, hreader]
    exact h.ended

/-! ### The reader -/

/-- A reader short of the end has put no terminal item. -/
theorem Working.last_eq_none {before after : List SourceHop} {last : Option Bool}
    (h : Working st fl before after last) (hr : st.reader.pastEnd = false) : last = none := by
  by_contra hne
  exact absurd (hr.symm.trans (h.pastEnd hne)) Bool.false_ne_true

/-- Before the end, the applied items are hops only. -/
theorem Backlog.applied_hops (h : Backlog st fl) (hr : st.reader.pastEnd = false) :
    ∃ before, st.history.applied = before.map .ofSource ∧ before <+: st.history.hops := by
  obtain ⟨before, flushed, heq, hle, hflushed⟩ := h.inOrder
  cases flushed with
  | true => exact absurd (hr.symm.trans (hflushed rfl).2) Bool.false_ne_true
  | false => exact ⟨before, by simpa using heq, hle⟩

theorem Backlog.not_ended (h : Backlog st fl) (hr : st.reader.pastEnd = false) :
    st.session.ended = false := by
  cases he : st.session.ended with
  | false => rfl
  | true => exact absurd (hr.symm.trans (h.ended he)) Bool.false_ne_true

/-- The reader goes on, with more hops from the rechunker, none of them lost. -/
theorem Backlog.receive (h : Backlog st fl) (hops : List SourceHop)
    (hr : st.reader.pastEnd = false)
    (happlied : st'.history.applied = st.history.applied)
    (hqueue : st'.session.inputQueue = st.session.inputQueue)
    (hpending : st'.session.pendingSource = st.session.pendingSource)
    (hcancelled : st'.session.cancelled = st.session.cancelled)
    (hended : st'.session.ended = st.session.ended)
    (hhops : st'.history.hops = st.history.hops ++ hops)
    (hreader : st'.reader.hops = st.reader.hops ++ hops) (hr' : st'.reader ≠ .reading true) :
    Backlog st' fl where
  working := by
    intro hc he
    obtain ⟨before, after, last, hw⟩ := h.working (hcancelled ▸ hc) (hended ▸ he)
    obtain rfl := hw.last_eq_none hr
    refine ⟨before, after, none, ?_, ?_, ?_, ?_, hw.flight, fun hne => absurd rfl hne,
      fun hr'' => absurd hr'' hr'⟩
    · rw [happlied]
      exact hw.applied
    · rw [hqueue]
      exact hw.waiting
    · rw [hhops, hreader, hw.hops, List.append_assoc]
    · rw [hpending]
      exact hw.pending
  inOrder := by
    obtain ⟨before, heq, hle⟩ := h.applied_hops hr
    exact .of_hops before (happlied.trans heq) (hhops ▸ hle.trans (List.prefix_append _ _))
  ended he := absurd ((h.not_ended hr).symm.trans (hended ▸ he)) Bool.false_ne_true

theorem Backlog.finishInput (h : Backlog st fl) (hr : st.reader = .reading false) (flush : Bool)
    (m : Metrics) : Backlog (finishInput flush st m).1 fl := by
  have hpast : st.reader.pastEnd = false := by rw [hr]; rfl
  have hholds : st.reader.hops = [] := by rw [hr]; rfl
  have hspec := finishInput_finished flush st m
  generalize (Server.finishInput flush st m).1 = st' at hspec
  cases hspec with
  | noFlush _ =>
      exact h.receive [] hpast rfl rfl rfl rfl rfl (List.append_nil _).symm
        (by rw [hholds]; rfl) nofun
  | failed failure m => exact h.failReader failure m
  | hop hop rechunker _ _ =>
      exact h.receive [hop] hpast rfl rfl rfl rfl rfl rfl (by rw [hholds]; rfl) nofun
  | nothing rechunker m _ _ _ =>
      obtain ⟨before, heq, hle⟩ := h.applied_hops hpast
      refine InOrder.complete ?_ rfl true m
      exact .of_hops before heq hle
  | flush rechunker _ _ _ =>
      exact h.receive [] hpast rfl rfl rfl rfl rfl (List.append_nil _).symm
        (by rw [hholds]; rfl) nofun

theorem Backlog.readMessage (h : Backlog st fl) {sawEnd : Bool} (hr : st.reader = .reading sawEnd)
    (message : ClientMessage) (m : Metrics) :
    Backlog (readMessage settings sawEnd message st m).1 fl := by
  have hread := readMessage_read settings sawEnd message st m
  generalize Server.readMessage settings sawEnd message st m = next at hread ⊢
  cases hread with
  | afterEnd _ => exact h.failReader _ m
  | duplicateStart _ => exact h.failReader _ m
  | empty => exact h.failReader _ m
  | accepted chunk st' m' haccept =>
      obtain ⟨hops, rechunker, rfl⟩ := acceptAudio_accepts haccept
      refine h.receive hops (by rw [hr]; rfl) rfl rfl rfl rfl rfl rfl ?_ (ofHops_ne_reading hops)
      rw [hr]
      exact ofHops_hops hops
  | refused chunk st' m' violation haccept =>
      obtain ⟨hhistory, -, hended, -⟩ := acceptAudio_error haccept
      exact h.die rfl (congrArg History.applied hhistory) (congrArg History.hops hhistory)
        (fun _ => rfl) fun _ => .inr rfl
  | ended flush => exact h.finishInput hr flush m

theorem Backlog.readEof (h : Backlog st fl) {sawEnd : Bool} (hr : st.reader = .reading sawEnd)
    (m : Metrics) : Backlog (readEof sawEnd st m).1 fl := by
  unfold Server.readEof
  split
  · next hsaw =>
      subst hsaw
      refine ⟨fun hc he => ?_, ?_, fun _ => rfl⟩
      · obtain ⟨before, after, last, hw⟩ := h.working hc he
        have hhops := hw.hops
        rw [hr] at hhops
        exact ⟨before, after, last, hw.applied, hw.waiting, hhops, hw.pending, hw.flight,
          fun _ => rfl, nofun⟩
      · obtain ⟨before, flushed, heq, hle, hflushed⟩ := h.inOrder
        exact ⟨before, flushed, heq, hle, fun hf => ⟨(hflushed hf).1, rfl⟩⟩
  · exact h.failReader _ m

/-- The reader puts a hop it holds. -/
theorem Backlog.putHop (h : Backlog st fl) {hop : SourceHop} {rest : List SourceHop}
    (hr : st.reader.pastEnd = false) (hholds : st.reader.hops = hop :: rest)
    {q : BoundedQueue ModelWork} (hq : q.items = st.session.inputQueue.items ++ [.ofSource hop])
    (scheduled : Bool) {reader : Reader} (hreader : reader.hops = rest)
    (hr' : reader ≠ .reading true) :
    Backlog { (st.queued q).flagged scheduled with reader } fl where
  working := by
    intro hc he
    obtain ⟨before, after, last, hw⟩ := h.working hc he
    obtain rfl := hw.last_eq_none hr
    refine ⟨before, after ++ [hop], none, hw.applied, ?_, ?_, hw.pending, hw.flight,
      fun hne => absurd rfl hne, fun hr'' => absurd hr'' hr'⟩
    · have hwaiting := hw.waiting
      simp only [Stream.flagged, Stream.queued, hq, ending, List.append_nil, List.map_append,
        List.map_cons, List.map_nil] at hwaiting ⊢
      rw [← List.append_assoc, hwaiting]
    · have hhops := hw.hops
      rw [hholds] at hhops
      simp only [Stream.flagged, Stream.queued, hreader, hhops, List.append_assoc,
        List.singleton_append]
  inOrder := by
    obtain ⟨before, heq, hle⟩ := h.applied_hops hr
    exact .of_hops before heq hle
  ended he := absurd ((h.not_ended hr).symm.trans he) Bool.false_ne_true

/-- The reader puts the item that ends the stream. -/
theorem Backlog.putEnd (h : Backlog st fl) (hr : st.reader.pastEnd = false)
    (hholds : st.reader.hops = []) (last : Bool) {q : BoundedQueue ModelWork}
    (hq : q.items = st.session.inputQueue.items ++ ending (some last)) (scheduled : Bool) :
    Backlog { (st.queued q).flagged scheduled with reader := .reading true } fl where
  working := by
    intro hc he
    obtain ⟨before, after, last', hw⟩ := h.working hc he
    obtain rfl := hw.last_eq_none hr
    refine ⟨before, after, some last, hw.applied, ?_, ?_, hw.pending, hw.flight, fun _ => rfl,
      fun _ => nofun⟩
    · have hwaiting := hw.waiting
      simp only [Stream.flagged, Stream.queued, hq, ending, List.append_nil] at hwaiting ⊢
      rw [← List.append_assoc, hwaiting]
    · have hhops := hw.hops
      rw [hholds] at hhops
      exact hhops
  inOrder := by
    obtain ⟨before, heq, hle⟩ := h.applied_hops hr
    exact .of_hops before heq hle
  ended _ := rfl

theorem Backlog.put (h : Backlog st fl) {work : ModelWork} (hw : st.reader.work? = some work)
    {q : BoundedQueue ModelWork} (hq : st.session.inputQueue.putNowait work = some q)
    (scheduled : Bool) (m : Metrics) :
    Backlog (afterPut ((st.queued q).flagged scheduled) m).1 fl := by
  obtain ⟨-, hitems, -⟩ := BoundedQueue.putNowait_eq_some hq
  have hreturned := afterPut_put hw q scheduled m
  generalize afterPut ((st.queued q).flagged scheduled) m = next at hreturned ⊢
  cases hreturned with
  | hop hop rest hr =>
      have hreader : st.reader = .accepting (hop :: rest) := hr
      exact h.putHop (by rw [hreader]; rfl) (by rw [hreader]; rfl) hitems scheduled
        (ofHops_hops rest) (ofHops_ne_reading rest)
  | nothing hop hr _ =>
      have hreader : st.reader = .finishingPartial hop := hr
      obtain ⟨before, heq, hle⟩ := h.applied_hops (by rw [hreader]; rfl)
      refine InOrder.complete ?_ rfl true m
      exact .of_hops before heq hle
  | remainder hop hr _ =>
      have hreader : st.reader = .finishingPartial hop := hr
      exact h.putHop (by rw [hreader]; rfl) (by rw [hreader]; rfl) hitems scheduled rfl nofun
  | flush hr =>
      have hreader : st.reader = .finishingFlush := hr
      exact h.putEnd (by rw [hreader]; rfl) (by rw [hreader]; rfl) true hitems scheduled
  | noFlush hr =>
      have hreader : st.reader = .finishingNoFlush := hr
      exact h.putEnd (by rw [hreader]; rfl) (by rw [hreader]; rfl) false hitems scheduled

/-! ### The scheduler -/

/-- The first of the waiting items of a live stream. -/
theorem waiting_cases {work : ModelWork} {rest : List ModelWork} {after : List SourceHop}
    {last : Option Bool} (h : work :: rest = after.map .ofSource ++ ending last) :
    (∃ hop after', after = hop :: after' ∧ work = .ofSource hop ∧
      rest = after'.map .ofSource ++ ending last) ∨
    (after = [] ∧ last = some true ∧ work = .flush ∧ rest = []) ∨
    (after = [] ∧ last = some false ∧ work = .noFlush ∧ rest = []) := by
  cases after with
  | cons hop after' =>
      obtain ⟨hwork, hrest⟩ := List.cons.inj h
      exact .inl ⟨hop, after', rfl, hwork, hrest⟩
  | nil =>
      obtain _ | _ | _ := last
      · cases h
      · obtain ⟨hwork, hrest⟩ := List.cons.inj h
        exact .inr (.inr ⟨rfl, rfl, hwork, hrest⟩)
      · obtain ⟨hwork, hrest⟩ := List.cons.inj h
        exact .inr (.inl ⟨rfl, rfl, hwork, hrest⟩)

theorem Backlog.flagged (h : Backlog st fl) (scheduled : Bool) :
    Backlog (st.flagged scheduled) fl where
  working hc he := by
    obtain ⟨before, after, last, hw⟩ := h.working hc he
    exact ⟨before, after, last, hw.applied, hw.waiting, hw.hops, hw.pending, hw.flight, hw.pastEnd,
      hw.last⟩
  inOrder := h.inOrder
  ended := h.ended

theorem alive_iff : (st.session.cancelled || st.session.ended) = false ↔
    st.session.cancelled = false ∧ st.session.ended = false := by simp

theorem Backlog.take (h : Backlog st none) {work : Option ModelWork} (ht : Taken st st' work)
    (i : Nat) : Backlog st' (work.map fun work => ⟨i, work, st'.session.caches⟩) := by
  cases ht with
  | dead hdead => exact (h.flagged false).dead hdead
  | idle _ _ => exact h.flagged false
  | ends work inputQueue m halive hget hend =>
      obtain ⟨before, after, last, hw⟩ := h.working (alive_iff.mp halive).1 (alive_iff.mp halive).2
      obtain ⟨hitems, -⟩ := BoundedQueue.getNowait_eq_some hget
      have hwaiting := hw.waiting
      rw [hitems] at hwaiting
      have hinOrder : InOrder ((st.flagged false).queued inputQueue) := h.inOrder
      refine hinOrder.completeWithoutFlush (hw.pastEnd ?_) m
      obtain ⟨hop, _, -, rfl, -⟩ | ⟨-, rfl, -⟩ | ⟨-, rfl, -⟩ := waiting_cases hwaiting
      · cases hend
      · simp
      · simp
  | joins work inputQueue halive hget hend =>
      obtain ⟨hitems, -⟩ := BoundedQueue.getNowait_eq_some hget
      refine ⟨fun hc he => ?_, h.inOrder, h.ended⟩
      obtain ⟨before, after, last, hw⟩ := h.working hc he
      have hwaiting := hw.waiting
      rw [hitems] at hwaiting
      exact ⟨before, after, last, hw.applied, hwaiting, hw.hops, hw.pending,
        fun flight hflight => by
          obtain rfl := Option.mem_some.mp hflight
          exact hend, hw.pastEnd, hw.last⟩

theorem Reader.hops_of_pastEnd {reader : Reader} (h : reader.pastEnd = true) :
    reader.hops = [] := by
  cases reader with
  | reading _ => rfl
  | done => rfl
  | finishingFlush => rfl
  | finishingNoFlush => rfl
  | accepting _ => cases h
  | finishingPartial _ => cases h

/-- A reader past the end has nothing to put. -/
theorem Reader.work?_of_pastEnd {reader : Reader} (h : reader.pastEnd = true) :
    reader.work? = none := by
  cases reader with
  | reading _ => rfl
  | done => rfl
  | accepting _ => cases h
  | finishingPartial _ => cases h
  | finishingFlush => cases h
  | finishingNoFlush => cases h

theorem Reader.pastEnd_of_work {reader : Reader} {work : ModelWork}
    (h : reader.work? = some work) : reader.pastEnd = false := by
  by_contra hpast
  rw [Reader.work?_of_pastEnd (by simpa using hpast)] at h
  cases h

/-- The result of a live stream's work item reaches it. -/
theorem Backlog.advance {flight : Flight κ} (h : Backlog st (some flight)) (st' : Stream κ)
    (halive : (st.session.cancelled || st.session.ended) = false)
    (happlied : st'.history.applied = st.history.applied ++ [flight.work])
    (hpending : st'.session.pendingSource =
      if flight.work.terminalFlush then none else flight.work.source)
    (hqueue : st'.session.inputQueue = st.session.inputQueue)
    (hhops : st'.history.hops = st.history.hops) (hreader : st'.reader = st.reader)
    (hended : st'.session.ended = st.session.ended) (m : Metrics) :
    InOrder st' ∧ Backlog (finishHop flight.work st' m).1.1 none := by
  obtain ⟨before, after, last, hw⟩ := h.working (alive_iff.mp halive).1 (alive_iff.mp halive).2
  have hwaiting := hw.waiting
  rw [Option.map_some, Option.toList_some, List.singleton_append] at hwaiting
  obtain ⟨hop, after', rfl, hwork, hrest⟩ | ⟨rfl, rfl, hwork, hrest⟩ | ⟨-, -, hwork, -⟩ :=
    waiting_cases hwaiting
  · have hhops' : st'.history.hops = before ++ [hop] ++ after' ++ st'.reader.hops := by
      rw [hhops, hreader, hw.hops]
      simp
    have happlied' : st'.history.applied = (before ++ [hop]).map .ofSource := by
      rw [happlied, hw.applied, hwork, List.map_append]
      rfl
    have hinOrder : InOrder st' := .of_hops (before ++ [hop]) happlied' (by
      rw [hhops', List.append_assoc]
      exact List.prefix_append _ _)
    refine ⟨hinOrder, ?_⟩
    rw [finishHop, if_neg (by rw [hwork]; nofun)]
    refine ⟨fun hc he => ⟨before ++ [hop], after', last, happlied', ?_, hhops', ?_, nofun, ?_, ?_⟩,
      hinOrder, fun he => ?_⟩
    · rw [hqueue, hrest]
      rfl
    · rw [hpending, hwork, List.getLast?_append]
      rfl
    · rw [hreader]
      exact hw.pastEnd
    · rw [hreader]
      exact hw.last
    · rw [hreader]
      exact h.ended (hended ▸ he)
  · have hpast : st.reader.pastEnd = true := hw.pastEnd (by simp)
    have hall : before = st.history.hops := by
      rw [hw.hops, Reader.hops_of_pastEnd hpast, List.append_nil, List.append_nil]
    have hinOrder : InOrder st' := by
      refine ⟨before, true, ?_, ?_, fun _ => ⟨?_, ?_⟩⟩
      · rw [happlied, hw.applied, hwork]
        rfl
      · rw [hhops, hall]
      · rw [hhops, hall]
      · rw [hreader]
        exact hpast
    refine ⟨hinOrder, ?_⟩
    rw [finishHop, if_pos (by rw [hwork]; rfl)]
    exact hinOrder.complete (hreader ▸ hpast) true m
  · have hflight := hw.flight flight rfl
    rw [hwork] at hflight
    cases hflight

theorem Backlog.land {flight : Flight κ} (h : Backlog st (some flight)) {row : Option Bytes}
    {updated : Option κ} (hl : Landed flight.work row updated st st') : Backlog st' none := by
  cases hl with
  | dead hdead => exact h.dead hdead
  | silent caches m halive _ _ =>
      exact (h.advance (st.advances flight.work caches) halive rfl rfl rfl rfl rfl rfl m).2
  | full caches previous bytes m halive _ _ _ _ =>
      have hinOrder := (h.advance (st.advances flight.work caches) halive rfl rfl rfl rfl rfl rfl
        m).1
      exact ⟨fun hc => absurd hc (by simp [Server.fail, Stream.cancel]), hinOrder, h.ended⟩
  | emitted caches previous bytes outputQueue m halive _ _ _ _ =>
      exact (h.advance ((st.advances flight.work caches).emits (.ofRow previous bytes) outputQueue)
        halive rfl rfl rfl rfl rfl rfl m).2

end Invariant

theorem backlog_new (settings : ServerSettings) (model : StreamingModel κ) (start : StartStream) :
    Backlog (Stream.admitted settings model start) none where
  working _ _ := ⟨[], [], none, rfl, rfl, rfl, rfl, nofun, fun hne => absurd rfl hne, nofun⟩
  inOrder := .of_hops [] rfl (List.prefix_refl _)
  ended := nofun

theorem backlog_invariant (settings : ServerSettings) (model : StreamingModel κ) {env : Env κ}
    (hd : ∀ flight row updated, env.answers flight row updated →
      row.isSome = true ∧ updated.isSome = true) :
    LocalInvariant settings model env Backlog where
  admitted := backlog_new settings model
  unannounced start := ⟨nofun, .of_hops [] rfl (List.prefix_refl _), nofun⟩
  refused start violation :=
    ⟨fun _ _ => ⟨[], [], none, rfl, rfl, rfl, rfl, nofun, fun hne => absurd rfl hne, nofun⟩,
      .of_hops [] rfl (List.prefix_refl _), nofun⟩
  round st fl st' fl' h hr := by
    cases hr with
    | read message m hr => exact h.readMessage hr message m
    | eof m hr => exact h.readEof hr m
    | readFail failure m _ => exact h.failReader failure m
    | put scheduled m hw hq => exact h.put hw hq scheduled m
    | putOverflow scheduled m _ _ => exact h.die rfl rfl rfl (fun _ => rfl) fun _ => .inr rfl
    | afterAccepted m _ => exact h.offGenerator ⟨rfl, rfl, rfl, rfl⟩
    | afterAudio m _ => exact h.offGenerator ⟨rfl, rfl, rfl, rfl⟩
    | @handle _ _ q _ m m' _ _ hh =>
        have hq : Backlog (st.withOutput q) fl := h.offGenerator ⟨rfl, rfl, rfl, rfl⟩
        exact hq.offGenerator (handleEvent_offGenerator hh)
    | handleRaise m m' _ _ _ => exact h.die rfl rfl rfl (fun _ => rfl) fun _ => .inr rfl
    | finish m _ => exact h.die rfl rfl rfl (fun _ => rfl) fun _ => .inr rfl
    | take m => exact h.take (takeWork_taken st m) _
    | apply m _ ho scheduled => exact (h.land (applyResult_landed ho)).flagged scheduled
    | applyRaised m hres ho =>
        exact absurd ho (applyResult_ne_raised (hd _ _ _ hres).1 (hd _ _ _ hres).2 st m)
    | fail m => exact h.fail _ _ m

end VoxLattice.Server
