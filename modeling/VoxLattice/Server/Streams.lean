import VoxLattice.Server.Capacity

/-!
# One stream

A round touches one stream at most, and a stream learns of the others only through the batches
it shares with them.  `StreamRound` is what one round does to one stream and to its work item
in inference.  The metrics, which all streams share, are arbitrary here: no stream reads them.

`reachable_stream` turns an invariant of these local rounds into an invariant of every stream
in every run.  It needs that a stream has at most one work item in inference, which is the
invariant `Turns`.
-/

namespace VoxLattice.Server

variable {κ : Type*}

/-- The work item of a stream in inference. -/
def flightOf (i : Nat) (flights : List (Flight κ)) : Option (Flight κ) :=
  flights.find? fun flight => flight.stream == i

/-- What one round does to one stream and its work item in inference. -/
inductive StreamRound (settings : ServerSettings) (env : Env κ) :
    Stream κ → Option (Flight κ) → Stream κ → Option (Flight κ) → Prop where
  | read {st fl sawEnd} (message m) (hr : st.reader = .reading sawEnd) :
      StreamRound settings env st fl (readMessage settings sawEnd message st m).1 fl
  | eof {st fl sawEnd} (m) (hr : st.reader = .reading sawEnd) :
      StreamRound settings env st fl (readEof sawEnd st m).1 fl
  | readFail {st fl sawEnd} (failure m) (hr : st.reader = .reading sawEnd) :
      StreamRound settings env st fl (failReader failure st m).1 fl
  | put {st fl work q} (scheduled m) (hw : st.reader.work? = some work)
      (hq : st.session.inputQueue.putNowait work = some q) :
      StreamRound settings env st fl (afterPut ((st.queued q).flagged scheduled) m).1 fl
  | putOverflow {st fl work q} (scheduled m) (hw : st.reader.work? = some work)
      (hq : st.session.inputQueue.putNowait work = some q) :
      StreamRound settings env st fl (failReader ⟨.internal, "request processing failed"⟩
        ((st.queued q).flagged scheduled) m).1 fl
  | afterAccepted {st fl} (m) (he : st.enhance = .accepted) :
      StreamRound settings env st fl (afterAccepted st m).1 fl
  | afterAudio {st fl} (m) (he : st.enhance = .audio) :
      StreamRound settings env st fl (afterAudio st m).1 fl
  | handle {st fl event q st'} (m m') (he : st.enhance = .waiting)
      (hget : st.session.outputQueue.getNowait = some (event, q))
      (hh : handleEvent event (st.withOutput q) m = (some st', m')) :
      StreamRound settings env st fl st' fl
  | handleRaise {st fl event q} (m m') (he : st.enhance = .waiting)
      (hget : st.session.outputQueue.getNowait = some (event, q))
      (hh : handleEvent event (st.withOutput q) m = (none, m')) :
      StreamRound settings env st fl (finallyBlock (st.withOutput q) m').1 fl
  | finish {st fl} (m) (he : st.enhance ≠ .finished) :
      StreamRound settings env st fl (finallyBlock st m).1 fl
  | take {st i} (m) :
      StreamRound settings env st none (takeWork st m).1.1
        ((takeWork st m).2.map fun work => ⟨i, work, (takeWork st m).1.1.session.caches⟩)
  | apply {st flight row updated} (m) (hres : env.answers flight row updated)
      (ho : (applyResult flight.work row updated st m).2 ≠ .raised) (scheduled) :
      StreamRound settings env st (some flight)
        ((applyResult flight.work row updated st m).1.1.flagged scheduled) none
  | applyRaised {st flight row updated} (m) (hres : env.answers flight row updated)
      (ho : (applyResult flight.work row updated st m).2 = .raised) :
      StreamRound settings env st (some flight)
        (applyResult flight.work row updated st m).1.1 (some flight)
  | fail {st flight} (m) :
      StreamRound settings env st (some flight) (failInference st m).1 none

/-! ## From rounds to local rounds -/

section Flights

variable {flight : Flight κ} {flights : List (Flight κ)} {i : Nat}

theorem flightOf_cons_self : flightOf flight.stream (flight :: flights) = some flight := by
  simp [flightOf]

theorem flightOf_cons_ne (h : flight.stream ≠ i) :
    flightOf i (flight :: flights) = flightOf i flights := by
  simp [flightOf, h]

theorem flightOf_eq_none : flightOf i flights = none ↔ i ∉ flights.map Flight.stream := by
  simp [flightOf]

theorem flightOf_append (taken : List (Flight κ)) :
    flightOf i (flights ++ taken) = (flightOf i flights).or (flightOf i taken) := by
  simp [flightOf, List.find?_append]

theorem flightOf_toList {work : Option ModelWork} {caches : κ} (j : Nat) :
    flightOf i (work.map fun work => (⟨j, work, caches⟩ : Flight κ)).toList =
      if j = i then work.map fun work => ⟨j, work, caches⟩ else none := by
  cases work with
  | none => simp [flightOf]
  | some work => by_cases hij : j = i <;> simp [flightOf, hij]

end Flights

/-- A property of a stream and its work item in inference holds of all streams. -/
structure AllStreams (P : Stream κ → Option (Flight κ) → Prop) (streams : List (Stream κ))
    (flights : List (Flight κ)) : Prop where
  known : ∀ flight ∈ flights, flight.stream < streams.length
  each : ∀ (i : Nat) (st : Stream κ), streams[i]? = some st → P st (flightOf i flights)

section AllStreams

variable {P : Stream κ → Option (Flight κ) → Prop} {streams : List (Stream κ)}
  {flights flights' : List (Flight κ)} {i : Nat} {st st' : Stream κ}

/-- A round changes one stream and no other stream's work item. -/
theorem AllStreams.set (h : AllStreams P streams flights) (hst : streams[i]? = some st)
    (hknown : ∀ flight ∈ flights', flight.stream = i ∨ flight ∈ flights)
    (hothers : ∀ j, i ≠ j → flightOf j flights' = flightOf j flights)
    (hP : P st' (flightOf i flights')) : AllStreams P (streams.set i st') flights' where
  known := by
    intro flight hflight
    rw [List.length_set]
    obtain rfl | hflight := hknown flight hflight
    · exact (List.getElem?_eq_some_iff.mp hst).1
    · exact h.known flight hflight
  each := by
    intro j st₁ hj
    rw [get?_set hst] at hj
    split at hj
    · next hij =>
        cases hj
        exact hij ▸ hP
    · next hij =>
        rw [hothers j hij]
        exact h.each j st₁ hj

/-- A round changes one stream and no work item. -/
theorem AllStreams.keep (h : AllStreams P streams flights) (hst : streams[i]? = some st)
    (hP : P st (flightOf i flights) → P st' (flightOf i flights)) :
    AllStreams P (streams.set i st') flights :=
  h.set hst (fun _ hf => .inr hf) (fun _ _ => rfl) (hP (h.each i st hst))

theorem AllStreams.append (h : AllStreams P streams flights) {new : Stream κ} (hP : P new none) :
    AllStreams P (streams ++ [new]) flights where
  known := fun flight hflight => by
    rw [List.length_append]
    exact Nat.lt_add_right _ (h.known flight hflight)
  each := by
    intro j st₁ hj
    obtain hj | ⟨rfl, rfl⟩ := get?_append_new hj
    · exact h.each j st₁ hj
    · rw [flightOf_eq_none.mpr]
      · exact hP
      · intro hmem
        obtain ⟨flight, hflight, heq⟩ := List.mem_map.mp hmem
        exact absurd (h.known flight hflight) (by omega)

/-- The result of a stream's work item reaches it. -/
theorem AllStreams.land {flight : Flight κ} (h : AllStreams P streams (flight :: flights))
    (hbatch : ((flight :: flights).map Flight.stream).Nodup)
    (hst : streams[flight.stream]? = some st) (hP : P st (some flight) → P st' none) :
    AllStreams P (streams.set flight.stream st') flights := by
  refine h.set hst (fun fl hfl => .inr (List.mem_cons_of_mem _ hfl)) ?_ ?_
  · intro j hij
    rw [flightOf_cons_ne hij]
  · rw [flightOf_eq_none.mpr (List.nodup_cons.mp hbatch).1]
    exact hP (flightOf_cons_self ▸ h.each flight.stream st hst)

end AllStreams

section Rounds

variable {settings : ServerSettings} {model : StreamingModel κ} {env : Env κ}
  {P : Stream κ → Option (Flight κ) → Prop}

/-- A property that new streams have and local rounds preserve. -/
structure LocalInvariant (settings : ServerSettings) (model : StreamingModel κ) (env : Env κ)
    (P : Stream κ → Option (Flight κ) → Prop) : Prop where
  admitted : ∀ start, P (.admitted settings model start) none
  unannounced : ∀ start, P (.unannounced settings model start) none
  refused : ∀ start violation, P (.refused settings model start violation) none
  round : ∀ st fl st' fl', P st fl → StreamRound settings env st fl st' fl' → P st' fl'

/-- A local invariant whose proof uses another one. -/
theorem LocalInvariant.and {Q : Stream κ → Option (Flight κ) → Prop}
    (hP : LocalInvariant settings model env P)
    (hadmitted : ∀ start, Q (.admitted settings model start) none)
    (hunannounced : ∀ start, Q (.unannounced settings model start) none)
    (hrefused : ∀ start violation, Q (.refused settings model start violation) none)
    (hround : ∀ st fl st' fl', P st fl → Q st fl → StreamRound settings env st fl st' fl' →
      Q st' fl') : LocalInvariant settings model env fun st fl => P st fl ∧ Q st fl where
  admitted start := ⟨hP.admitted start, hadmitted start⟩
  unannounced start := ⟨hP.unannounced start, hunannounced start⟩
  refused start violation := ⟨hP.refused start violation, hrefused start violation⟩
  round st fl st' fl' h hr := ⟨hP.round st fl st' fl' h.1 hr, hround st fl st' fl' h.1 h.2 hr⟩

variable {s s' : ServerState κ} {g : List Nat} {f : List (Flight κ)} {i : Nat} {st : Stream κ}

/-- The round of a task that changes one stream by a function of it. -/
theorem AllStreams.onStream (hP : LocalInvariant settings model env P)
    (h : AllStreams P s.streams f) (hst : s.streams[i]? = some st)
    {change : Stream κ → Metrics → Stream κ × Metrics}
    (hr : ∀ fl, StreamRound settings env st fl (change st s.metrics).1 fl) :
    AllStreams P (s.onStream i change).streams f := by
  rw [ServerState.onStream_eq hst]
  exact h.keep hst fun hst' => hP.round _ _ _ _ hst' (hr _)

theorem AllStreams.finish (hP : LocalInvariant settings model env P)
    (h : AllStreams P s.streams f) (hst : s.streams[i]? = some st) (he : st.enhance ≠ .finished) :
    AllStreams P (finish i s).streams f := by
  rw [finish_eq hst]
  exact h.keep hst fun hst' => hP.round _ _ _ _ hst' (.finish s.metrics he)

/-- A put, the notification after it and what the reader does then are one local round. -/
theorem AllStreams.put {work : ModelWork} {q : BoundedQueue ModelWork} {raised : Bool}
    (hP : LocalInvariant settings model env P) (h : AllStreams P s.streams f)
    (hst : s.streams[i]? = some st)
    (hn : notify (s.onStream i (enqueue work q)) i = (s', raised))
    {change : Stream κ → Metrics → Stream κ × Metrics}
    (hr : ∀ fl scheduled m,
      StreamRound settings env st fl (change ((st.queued q).flagged scheduled) m).1 fl) :
    AllStreams P (s'.onStream i change).streams f := by
  obtain ⟨scheduled, hstreams⟩ := notify_enqueue hst hn
  have hst₂ := get?_set hst ((st.queued q).flagged scheduled) i
  rw [if_pos rfl, ← hstreams] at hst₂
  rw [ServerState.onStream_eq hst₂]
  have hkeep : AllStreams P (s.streams.set i
      (change ((st.queued q).flagged scheduled) s'.metrics).1) f :=
    h.keep hst fun hst' => hP.round _ _ _ _ hst' (hr _ scheduled s'.metrics)
  change AllStreams P (s'.streams.set i _) f
  rw [hstreams, List.set_set]
  exact hkeep

theorem AllStreams.enhance (hP : LocalInvariant settings model env P)
    (h : AllStreams P s.streams f) (first : ClientMessage) :
    AllStreams P (enhance settings model first s).streams f := by
  have hspec := enhance_spec settings model first s
  generalize Server.enhance settings model first s = s' at hspec
  cases hspec with
  | invalid _ _ => exact h
  | refused start violation _ _ => exact h.append (hP.refused start violation)
  | unannounced start _ _ _ _ => exact h.append (hP.unannounced start)
  | admitted start _ _ _ _ => exact h.append (hP.admitted start)

theorem AllStreams.round (hP : LocalInvariant settings model env P) {c c' : Core κ}
    (hs : Scheduling c) (h : AllStreams P c.server.streams c.flights)
    (hr : Round settings model env c c') : AllStreams P c'.server.streams c'.flights := by
  cases hr with
  | suspend loop => exact h
  | enhance first _ => exact h.enhance hP first
  | read message hst hr => exact h.onStream hP hst fun _ => .read message _ hr
  | eof hst hr => exact h.onStream hP hst fun _ => .eof _ hr
  | readFail failure hst hr => exact h.onStream hP hst fun _ => .readFail failure _ hr
  | put hst hw hq hn => exact h.put hP hst hn fun _ scheduled m => .put scheduled m hw hq
  | putOverflow hst hw hq hn =>
      exact h.put hP hst hn fun _ scheduled m => .putOverflow scheduled m hw hq
  | afterAccepted hst he => exact h.onStream hP hst fun _ => .afterAccepted _ he
  | afterAudio hst he => exact h.onStream hP hst fun _ => .afterAudio _ he
  | handle hst he hget hh =>
      exact h.keep hst fun hst' => hP.round _ _ _ _ hst' (.handle _ _ he hget hh)
  | @handleRaise s _ _ i st event q m' hst he hget hh =>
      have hst₁ := ServerState.get?_withStream hst (st.withOutput q) m' i
      rw [if_pos rfl] at hst₁
      have hfinish := finish_eq hst₁
      change AllStreams P (Server.finish i (s.withStream i (st.withOutput q) m')).streams _
      rw [hfinish]
      have hkeep := h.keep hst fun hst' => hP.round _ _ _ _ hst' (.handleRaise _ _ he hget hh)
      simpa [ServerState.withStream] using hkeep
  | finish hst he => exact h.finish hP hst he
  | gather _ => exact h
  | takeUnknown _ => exact h
  | @take s g f i st st' m' work hst ht =>
      have hfree : flightOf i f = none := flightOf_eq_none.mpr fun hi =>
        (List.nodup_append.mp hs.turns.batch).2.2 i List.mem_cons_self i hi rfl
      have hPst := h.each i st hst
      rw [hfree] at hPst
      have htake := hP.round _ _ _ _ hPst (.take (i := i) s.metrics)
      rw [ht] at htake
      refine h.set hst ?_ ?_ ?_
      · intro flight hflight
        refine (List.mem_append.mp hflight).elim .inr fun hmem => .inl ?_
        obtain ⟨_, _, rfl⟩ := Option.map_eq_some_iff.mp (Option.mem_toList.mp hmem)
        rfl
      · intro j hij
        rw [flightOf_append, flightOf_toList, if_neg hij, Option.or_none]
      · rw [flightOf_append, hfree, Option.none_or, flightOf_toList, if_pos rfl]
        exact htake
  | applyUnknown hst =>
      exact absurd hst (by simpa using h.known _ List.mem_cons_self)
  | @apply s f flight row updated st st' m' hst hres ha =>
      refine h.land hs.turns.batch hst fun hPst => ?_
      have happly := hP.round _ _ _ _ hPst
        (.apply s.metrics hres (by simp [ha]) st'.session.scheduled)
      rw [ha] at happly
      exact happly
  | @applyNotify s s' f flight row updated st st' m' raised hst hres ha hn =>
      have hst₁ := ServerState.get?_withStream hst st' m' flight.stream
      rw [if_pos rfl] at hst₁
      have hspec := notify_spec (s.withStream flight.stream st' m') flight.stream
      rw [hn] at hspec
      obtain ⟨-, scheduled, hstreams⟩ := hspec.streams hst₁
      have hland : AllStreams P (s.streams.set flight.stream (st'.flagged scheduled)) f := by
        refine h.land hs.turns.batch hst fun hPst => ?_
        have happly := hP.round _ _ _ _ hPst (.apply s.metrics hres (by simp [ha]) scheduled)
        rw [ha] at happly
        exact happly
      change AllStreams P s'.streams f
      rw [hstreams, ServerState.withStream, List.set_set]
      exact hland
  | @applyRaised s f flight row updated st st' m' hst hres ha =>
      refine h.keep hst fun hPst => ?_
      rw [flightOf_cons_self] at hPst ⊢
      have happly := hP.round _ _ _ _ hPst (.applyRaised s.metrics hres (by simp [ha]))
      rw [ha] at happly
      exact happly
  | failUnknown hst =>
      exact absurd hst (by simpa using h.known _ List.mem_cons_self)
  | @fail s f flight st hst =>
      rw [ServerState.onStream_eq hst]
      exact h.land hs.turns.batch hst fun hPst => hP.round _ _ _ _ hPst (.fail s.metrics)
  | close => exact h

/-- A local invariant holds of all streams in every reachable state. -/
theorem reachable_streams (hd : model.Delivers env) (ho : ∀ s first, env.opens s first)
    (hP : LocalInvariant settings model env P) (h : (system settings model).Reachable s) :
    AllStreams P s.streams s.loop.flights := by
  have hinv : Scheduling s.core ∧ AllStreams P s.core.server.streams s.core.flights := by
    refine reachable_invariant
      (I := fun c => Scheduling c ∧ AllStreams P c.server.streams c.flights) hd ho ⟨?_, ?_, ?_⟩
      (fun c c' hc hr => ⟨hc.1.round hr, hc.2.round hP hc.1 hr⟩) h
    · exact reachable_scheduling
        (Lts.System.Reachable.init : (system settings model).Reachable _)
    · exact fun flight hflight => absurd hflight List.not_mem_nil
    · exact fun j st₁ hj => by simp [ServerState.init, ServerState.core] at hj
  exact hinv.2

/-- A local invariant holds of every stream in every reachable state. -/
theorem reachable_stream (hd : model.Delivers env) (ho : ∀ s first, env.opens s first)
    (hP : LocalInvariant settings model env P) (h : (system settings model).Reachable s)
    (hst : s.streams[i]? = some st) : P st (flightOf i s.loop.flights) :=
  (reachable_streams hd ho hP h).each i st hst

end Rounds

end VoxLattice.Server
