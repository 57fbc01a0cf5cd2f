import Mathlib.Data.Finset.Card
import VoxLattice.Server.Frames
import VoxLattice.Server.Wakeup

/-!
# The capacity of the ready queue

`max_active_streams` bounds the registry and is the capacity of the ready queue.  The two
lifetimes differ: a session leaves the registry when its call ends, but its entry in the ready
queue stays until the loop takes it.  A session admitted in between can find the ready queue
full.

The sessions that count are the `occupants`: those registered or in the ready queue.  While
every session is admitted with fewer occupants than the capacity, the ready queue has room for
every notification.  A notified session is registered and not in the queue, so the queue and
the session are at most as many as the occupants.
-/

namespace VoxLattice.Server

variable {κ : Type*}

open VoxLattice.Server.Stream (Calm)

/-- But for its flag, a gathered session changes calmly. -/
theorem takeWork_calm (st : Stream κ) (m : Metrics) :
    Calm { st with session := { st.session with scheduled := false } } (takeWork st m).1.1 := by
  unfold takeWork
  dsimp only
  split
  · exact .refl _
  · split
    · exact .refl _
    · next work inputQueue hget =>
        obtain ⟨hitems, -⟩ := BoundedQueue.getNowait_eq_some hget
        have hpop : Calm { st with session := { st.session with scheduled := false } }
            { st with session := { st.session with scheduled := false, inputQueue } } :=
          ⟨rfl, id, fun hq => by simp [hitems] at hq, fun ha =>
            ⟨ha.cancelled, ha.ended, by simp [hitems]⟩⟩
        split
        · exact hpop.trans (completeWithoutFlush_calm _ m)
        · exact hpop

/-! ## The registry -/

/-- The registry has every registered session that is not cancelled, once, and a session it
refused has neither a reader nor work. -/
structure Registered (streams : List (Stream κ)) (registry : List (String × Nat)) : Prop where
  entry : ∀ (i : Nat) (st : Stream κ), streams[i]? = some st → st.registered = true →
    st.session.cancelled = false → (st.session.streamId, i) ∈ registry
  refused : ∀ (i : Nat) (st : Stream κ), streams[i]? = some st → st.registered = false →
    st.reader = .done ∧ st.session.inputQueue.items = []
  keys : (registry.map Prod.fst).Nodup

section Registered

variable {streams : List (Stream κ)} {registry : List (String × Nat)} {i : Nat}
  {st st' : Stream κ}

theorem Registered.set (h : Registered streams registry) (hst : streams[i]? = some st)
    (hid : st'.session.streamId = st.session.streamId) (hreg : st'.registered = st.registered)
    (hcan : st'.session.cancelled = false → st.session.cancelled = false)
    (hr : st.registered = false → st'.reader = .done ∧ st'.session.inputQueue.items = []) :
    Registered (streams.set i st') registry where
  entry := by
    intro j st₁ hj hreg' hcan'
    rw [get?_set hst] at hj
    split at hj
    · next hij =>
        cases hj
        rw [hid, ← hij]
        exact h.entry i st hst (hreg ▸ hreg') (hcan hcan')
    · exact h.entry j st₁ hj hreg' hcan'
  refused := by
    intro j st₁ hj hreg'
    rw [get?_set hst] at hj
    split at hj
    · cases hj
      exact hr (hreg ▸ hreg')
    · exact h.refused j st₁ hj hreg'
  keys := h.keys

theorem Registered.calm (h : Registered streams registry) (hst : streams[i]? = some st)
    (hc : Calm st st') (hr : st.reader = .done → st'.reader = .done) :
    Registered (streams.set i st') registry :=
  h.set hst hc.streamId hc.registered hc.cancelled fun hreg =>
    ⟨hr (h.refused i st hst hreg).1, hc.inputQueue (h.refused i st hst hreg).2⟩

/-- A session whose reader is at work is registered. -/
theorem Registered.of_reader (h : Registered streams registry) (hst : streams[i]? = some st)
    (hr : st.reader ≠ .done) : st.registered = true :=
  (Bool.eq_false_or_eq_true st.registered).resolve_right fun hreg =>
    hr (h.refused i st hst hreg).1

/-- A session that is notified is in the registry. -/
theorem Registered.of_work (h : Registered streams registry) (hst : streams[i]? = some st)
    (hwork : st.session.inputQueue.items ≠ []) (hcan : st.session.cancelled = false) :
    i ∈ registry.map Prod.snd := by
  have hreg : st.registered = true := (Bool.eq_false_or_eq_true st.registered).resolve_right
    fun hreg => hwork (h.refused i st hst hreg).2
  exact List.mem_map.mpr ⟨_, h.entry i st hst hreg hcan, rfl⟩

theorem Registered.refuse (h : Registered streams registry) {new : Stream κ}
    (hreg : new.registered = true → new.session.cancelled = true) (hr : new.reader = .done)
    (hq : new.session.inputQueue.items = []) : Registered (streams ++ [new]) registry where
  entry := by
    intro j st₁ hj hreg' hcan'
    obtain hj | ⟨-, rfl⟩ := get?_append_new hj
    · exact h.entry j st₁ hj hreg' hcan'
    · exact absurd (hcan'.symm.trans (hreg hreg')) Bool.false_ne_true
  refused := by
    intro j st₁ hj hreg'
    obtain hj | ⟨-, rfl⟩ := get?_append_new hj
    · exact h.refused j st₁ hj hreg'
    · exact ⟨hr, hq⟩
  keys := h.keys

theorem lookup_eq_none_iff {streamId : String} :
    registry.lookup streamId = none ↔ streamId ∉ registry.map Prod.fst := by
  simp only [List.lookup_eq_none_iff, List.mem_map, not_exists, not_and]
  exact ⟨fun h x hx he => absurd he.symm (by simpa using h x hx),
    fun h x hx => by simpa using fun he => h x hx he.symm⟩

theorem Registered.add (h : Registered streams registry) {new : Stream κ}
    (hreg : new.registered = true) (hfresh : registry.lookup new.session.streamId = none) :
    Registered (streams ++ [new]) (registry ++ [(new.session.streamId, streams.length)]) where
  entry := by
    intro j st₁ hj hreg' hcan'
    obtain hj | ⟨rfl, rfl⟩ := get?_append_new hj
    · exact List.mem_append_left _ (h.entry j st₁ hj hreg' hcan')
    · exact List.mem_append_right _ (List.mem_singleton.mpr rfl)
  refused := by
    intro j st₁ hj hreg'
    obtain hj | ⟨-, rfl⟩ := get?_append_new hj
    · exact h.refused j st₁ hj hreg'
    · exact absurd (hreg'.symm.trans hreg) Bool.false_ne_true
  keys := by
    rw [List.map_append]
    refine List.Nodup.append h.keys (List.nodup_singleton _) ?_
    rw [List.map_cons, List.map_nil, List.disjoint_singleton]
    exact lookup_eq_none_iff.mp hfresh

theorem mem_of_lookup {streamId : String} (h : registry.lookup streamId = some i) :
    (streamId, i) ∈ registry := by
  obtain ⟨l₁, l₂, heq, -⟩ := List.lookup_eq_some_iff.mp h
  simp [heq]

/-- `remove` takes no entry of another session out. -/
theorem Registered.mem_remove (h : Registered streams registry) {streamId : String} {i j : Nat}
    {key : String} (hj : (key, j) ∈ registry) (hij : i ≠ j) :
    (key, j) ∈ registryRemove registry streamId i := by
  unfold registryRemove
  split
  · next hlookup =>
      refine List.mem_filter.mpr ⟨hj, ?_⟩
      simp only [bne_iff_ne, ne_eq]
      rintro rfl
      have heq := List.inj_on_of_nodup_map h.keys hj (mem_of_lookup hlookup) rfl
      exact hij (Prod.mk.inj heq).2.symm
  · exact hj

theorem registryRemove_sublist (registry : List (String × Nat)) (streamId : String) (i : Nat) :
    (registryRemove registry streamId i).Sublist registry := by
  unfold registryRemove
  split
  · exact List.filter_sublist
  · exact List.Sublist.refl _

/-- The call of a stream ends. -/
theorem Registered.remove (h : Registered streams registry) (hst : streams[i]? = some st)
    (hcan : st.session.cancelled = true) (streamId : String) :
    Registered streams (registryRemove registry streamId i) where
  entry := by
    intro j st₁ hj hreg' hcan'
    refine h.mem_remove (h.entry j st₁ hj hreg' hcan') ?_
    rintro rfl
    obtain rfl := Option.some.inj (hst.symm.trans hj)
    exact absurd (hcan'.symm.trans hcan) Bool.false_ne_true
  refused := h.refused
  keys := h.keys.sublist ((registryRemove_sublist registry streamId i).map Prod.fst)

end Registered

/-! ## Room for every notification -/

/-- The sessions that are registered or in the ready queue. -/
def occupants (registry : List (String × Nat)) (ready : List Nat) : Finset Nat :=
  (registry.map Prod.snd ++ ready).toFinset

/-- The registry takes the session of a call. -/
def admits (settings : ServerSettings) (s : ServerState κ) (first : ClientMessage) : Bool :=
  match validateStart first with
  | .error _ => false
  | .ok start => (registryAdd settings s.registry start.streamId s.streams.length).isOk

/-- A session is admitted only while the occupants are fewer than `max_active_streams`. -/
def AdmitsInTime (settings : ServerSettings) (s : ServerState κ) : Event κ → Prop
  | .enhance first => admits settings s first = true →
    (occupants s.registry s.ready.items).card < settings.maxActiveStreams
  | _ => True

instance (settings : ServerSettings) (s : ServerState κ) (e : Event κ) :
    Decidable (AdmitsInTime settings s e) :=
  match e with
  | .enhance _ => inferInstanceAs (Decidable (_ → _))
  | .deliver .. | .closeInput _ | .idleTimeout _ | .requestError _ | .put _ | .resume _
  | .cancelCall _ | .gather | .dispatch | .inferenceReturned .. | .inferenceRaised
  | .closeScheduler => .isTrue trivial

/-- The same, as rounds assume it. -/
def Env.admitting (settings : ServerSettings) : Env κ :=
  ⟨fun _ _ _ => True, fun s first => AdmitsInTime settings s (.enhance first)⟩

/-- The registry is in order, and the ready queue has never been full. -/
structure Capacity (settings : ServerSettings) (s : ServerState κ) : Prop where
  registered : Registered s.streams s.registry
  maxsize : s.ready.maxsize = settings.maxActiveStreams
  room : (occupants s.registry s.ready.items).card ≤ settings.maxActiveStreams
  overflow : s.readyOverflow = false

theorem occupants_mono {registry registry' : List (String × Nat)} {ready ready' : List Nat}
    (h : registry'.Sublist registry) (h' : ready'.Sublist ready) :
    (occupants registry' ready').card ≤ (occupants registry ready).card :=
  Finset.card_le_card fun _ hi => List.mem_toFinset.mpr
    (((h.map Prod.snd).append h').subset (List.mem_toFinset.mp hi))

/-- Room for one stream. -/
def oneStream : ServerSettings :=
  { ServerSettings.defaults with maxActiveStreams := 1, maxActiveStreams_pos := by decide }

section Capacity

variable {settings : ServerSettings} {model : StreamingModel κ} {s s' : ServerState κ}
  {g : List Nat} {f : List (Flight κ)} {i : Nat} {st st' : Stream κ}

theorem Capacity.calm (h : Capacity settings s) (hst : s.streams[i]? = some st)
    (hc : Calm st st') (hr : st.reader = .done → st'.reader = .done) (m : Metrics) :
    Capacity settings (s.withStream i st' m) :=
  ⟨h.registered.calm hst hc hr, h.maxsize, h.room, h.overflow⟩

theorem Capacity.onStream (h : Capacity settings s) (hst : s.streams[i]? = some st)
    {change : Stream κ → Metrics → Stream κ × Metrics} (hc : ∀ st m, Calm st (change st m).1)
    (hr : st.reader = .done → (change st s.metrics).1.reader = .done) :
    Capacity settings (s.onStream i change) := by
  rw [ServerState.onStream_eq hst]
  exact h.calm hst (hc st s.metrics) hr _

theorem Capacity.finish (h : Capacity settings s) (hst : s.streams[i]? = some st) :
    Capacity settings (finish i s) := by
  rw [finish_eq hst]
  have hc := h.calm hst (finallyBlock_calm st s.metrics) (fun _ => rfl)
    (finallyBlock st s.metrics).2
  have hst' := get?_set hst (finallyBlock st s.metrics).1 i
  rw [if_pos rfl] at hst'
  split
  · exact ⟨hc.registered.remove hst' rfl _, hc.maxsize,
      (occupants_mono (registryRemove_sublist _ _ _) (List.Sublist.refl _)).trans hc.room,
      hc.overflow⟩
  · exact ⟨hc.registered, hc.maxsize, hc.room, hc.overflow⟩

theorem Capacity.enhance (h : Capacity settings s) {first : ClientMessage}
    (ho : AdmitsInTime settings s (.enhance first)) :
    Capacity settings (enhance settings model first s) := by
  have hspec := enhance_spec settings model first s
  generalize Server.enhance settings model first s = s' at hspec
  cases hspec with
  | invalid _ _ => exact h
  | refused _ _ _ _ =>
      exact ⟨h.registered.refuse nofun rfl rfl, h.maxsize, h.room, h.overflow⟩
  | unannounced _ _ _ _ _ =>
      exact ⟨h.registered.refuse (fun _ => rfl) rfl rfl, h.maxsize, h.room, h.overflow⟩
  | admitted start hstart hfresh hroom _ =>
      refine ⟨h.registered.add rfl hfresh, h.maxsize, ?_, h.overflow⟩
      have hadd : registryAdd settings s.registry start.streamId s.streams.length =
          .ok (s.registry ++ [(start.streamId, s.streams.length)]) := by
        rw [registryAdd, if_neg (by simp [hfresh]), if_neg (by omega)]
      have hlt := ho (by simp [admits, hstart, hadd, Except.isOk, Except.toBool])
      have hsub : occupants (s.registry ++ [(start.streamId, s.streams.length)]) s.ready.items ⊆
          insert s.streams.length (occupants s.registry s.ready.items) := by
        intro j hj
        simp only [occupants, List.map_append, List.map_cons, List.map_nil, List.append_assoc,
          List.mem_toFinset, List.mem_append, List.mem_singleton, Finset.mem_insert] at hj ⊢
        tauto
      have hcard := Finset.card_le_card hsub
      have hinsert := Finset.card_insert_le s.streams.length (occupants s.registry s.ready.items)
      dsimp only
      omega

/-- A notified session is registered and not in the ready queue, which therefore has room. -/
theorem Capacity.notify {raised : Bool} (h : Capacity settings s)
    (hturns : Turns s.streams s.ready.items g f) (hn : notify s i = (s', raised)) :
    Capacity settings s' := by
  have hspec := notify_spec s i
  rw [hn] at hspec
  cases hspec with
  | dropped _ => exact h
  | queued st ready hst _ hcan _ hwork hput =>
      obtain ⟨-, hitems, hmax⟩ := BoundedQueue.putNowait_eq_some hput
      have hmem := h.registered.of_work hst hwork hcan
      have hsub : occupants s.registry (s.ready.items ++ [i]) ⊆
          occupants s.registry s.ready.items := by
        intro j hj
        simp only [occupants, List.mem_toFinset, List.mem_append, List.mem_singleton] at hj ⊢
        exact hj.elim .inl fun hj => hj.elim .inr fun hji => .inl (hji ▸ hmem)
      refine ⟨?_, hmax.trans h.maxsize, ?_, h.overflow⟩
      · exact h.registered.set hst rfl rfl id (h.registered.refused i st hst)
      · rw [hitems]
        exact (Finset.card_le_card hsub).trans h.room
  | overflowed st hst _ hcan hflag hwork hput =>
      exfalso
      have hmem := h.registered.of_work hst hwork hcan
      have hnew : i ∉ s.ready.items := fun hi => by
        obtain ⟨st₁, hst₁, hflag₁⟩ := hturns.flagged i (List.mem_append_left _ hi)
        obtain rfl := Option.some.inj (hst.symm.trans hst₁)
        exact absurd (hflag.symm.trans hflag₁) Bool.false_ne_true
      have hfull := (BoundedQueue.full_iff.mp (BoundedQueue.putNowait_eq_none.mp hput)).2
      have hnodup : (i :: s.ready.items).Nodup :=
        List.nodup_cons.mpr ⟨hnew, (List.nodup_append.mp hturns.nodup).1⟩
      have hsub : (i :: s.ready.items).toFinset ⊆ occupants s.registry s.ready.items := by
        intro j hj
        simp only [occupants, List.mem_toFinset, List.mem_cons, List.mem_append] at hj ⊢
        exact hj.elim (fun hji => .inl (hji ▸ hmem)) .inr
      have hcard := Finset.card_le_card hsub
      rw [List.toFinset_card_of_nodup hnodup, List.length_cons] at hcard
      have hroom := h.room
      have hmax := h.maxsize
      omega

/-- A reader at work puts a work item, notifies and goes on. -/
theorem Capacity.put {raised : Bool} (h : Capacity settings s)
    (hturns : Turns s.streams s.ready.items g f) (hst : s.streams[i]? = some st)
    {work : ModelWork} {q : BoundedQueue ModelWork} (hw : st.reader.work? = some work)
    (hn : Server.notify (s.onStream i (enqueue work q)) i = (s', raised))
    {change : Stream κ → Metrics → Stream κ × Metrics} (hc : ∀ st m, Calm st (change st m).1) :
    Capacity settings (s'.onStream i change) := by
  have hreader : st.reader ≠ .done := Reader.ne_done_of_work hw
  have hreg : ¬ st.registered = false := by simp [h.registered.of_reader hst hreader]
  obtain ⟨scheduled, hstreams⟩ := notify_enqueue hst hn
  rw [ServerState.onStream_eq hst] at hn
  have hput : Capacity settings (s.withStream i (enqueue work q st s.metrics).1
      (enqueue work q st s.metrics).2) :=
    ⟨h.registered.set hst rfl rfl id fun hfalse => absurd hfalse hreg, h.maxsize, h.room,
      h.overflow⟩
  have hst₂ := get?_set hst ((st.queued q).flagged scheduled) i
  rw [if_pos rfl, ← hstreams] at hst₂
  exact (hput.notify (hturns.set hst id) hn).onStream hst₂ hc fun hdone => absurd hdone hreader

theorem Capacity.round {c c' : Core κ} (h : Scheduling c ∧ Capacity settings c.server)
    (hr : Round settings model (Env.admitting settings) c c') : Capacity settings c'.server := by
  obtain ⟨hs, h⟩ := h
  cases hr with
  | suspend loop => exact ⟨h.registered, h.maxsize, h.room, h.overflow⟩
  | enhance first ho => exact h.enhance ho
  | read message hst hr =>
      exact h.onStream hst (readMessage_calm settings _ message) (by simp [hr])
  | eof hst hr => exact h.onStream hst (readEof_calm _) (by simp [hr])
  | readFail failure hst hr => exact h.onStream hst (failReader_calm failure) (by simp [hr])
  | put hst hw _ hn => exact h.put hs.turns hst hw hn afterPut_calm
  | putOverflow hst hw _ hn => exact h.put hs.turns hst hw hn (failReader_calm _)
  | afterAccepted hst _ => exact h.onStream hst afterAccepted_calm id
  | afterAudio hst _ => exact h.onStream hst afterAudio_calm id
  | handle hst _ _ hh =>
      exact h.calm hst ((handleEvent_calm hh).after (.of_eq rfl rfl rfl rfl))
        (fun hdone => (handleEvent_offGenerator hh).reader.trans hdone) _
  | @handleRaise s _ _ i st event q m' hst _ _ _ =>
      have hc : Calm st { st with session := { st.session with outputQueue := q } } :=
        .of_eq rfl rfl rfl rfl
      exact (h.calm hst hc id m').finish (by rw [ServerState.get?_withStream hst, if_pos rfl])
  | finish hst _ => exact h.finish hst
  | gather hget =>
      obtain ⟨hitems, hmax⟩ := BoundedQueue.getNowait_eq_some hget
      have hroom := h.room
      dsimp only at hroom
      rw [hitems] at hroom
      exact ⟨h.registered, hmax.trans h.maxsize,
        (occupants_mono (List.Sublist.refl _) (List.sublist_cons_self _ _)).trans hroom, h.overflow⟩
  | takeUnknown _ => exact h
  | @take s g f i st st' m' work hst ht =>
      have hcalm := takeWork_calm st s.metrics
      have hreader := (takeWork_offScheduler st s.metrics).reader
      rw [ht] at hcalm hreader
      exact ⟨h.registered.set hst hcalm.streamId hcalm.registered hcalm.cancelled fun hreg =>
        ⟨hreader.trans (h.registered.refused i st hst hreg).1,
          hcalm.inputQueue (h.registered.refused i st hst hreg).2⟩, h.maxsize, h.room, h.overflow⟩
  | applyUnknown _ => exact h
  | @apply s f flight row updated st st' m' hst _ ha =>
      have hcalm := applyResult_calm flight.work row updated st s.metrics
      have hreader := (applyResult_offScheduler flight.work row updated st s.metrics).reader
      rw [ha] at hcalm hreader
      exact h.calm hst hcalm (fun hdone => hreader.trans hdone) m'
  | @applyNotify s s' f flight row updated st st' m' raised hst _ ha hn =>
      have hcalm := applyResult_calm flight.work row updated st s.metrics
      have hreader := (applyResult_offScheduler flight.work row updated st s.metrics).reader
      rw [ha] at hcalm hreader
      exact (h.calm hst hcalm (fun hdone => hreader.trans hdone) m').notify
        (hs.turns.calm hst hcalm) hn
  | @applyRaised s f flight row updated st st' m' hst _ ha =>
      have hcalm := applyResult_calm flight.work row updated st s.metrics
      have hreader := (applyResult_offScheduler flight.work row updated st s.metrics).reader
      rw [ha] at hcalm hreader
      exact h.calm hst hcalm (fun hdone => hreader.trans hdone) m'
  | failUnknown _ => exact h
  | @fail s f flight st hst =>
      exact h.onStream hst (fail_calm _ _) id
  | close => exact ⟨h.registered, h.maxsize, h.room, h.overflow⟩

/-- In a run that admits every session in time, no notification ever finds the ready queue
full: no `put_nowait` on it raises. -/
theorem ready_never_full
    (h : ((system settings model).restrict (AdmitsInTime settings)).Reachable s) :
    s.readyOverflow = false := by
  have hdelivers : model.Delivers (Env.admitting settings) := fun _ _ _ _ _ _ _ => trivial
  have hinit : Scheduling (ServerState.init settings : ServerState κ).core :=
    reachable_scheduling (Lts.System.Reachable.init : (system settings model).Reachable _)
  have hcapacity : Capacity settings (ServerState.init settings : ServerState κ) :=
    ⟨⟨fun i st hst => by simp [ServerState.init] at hst,
      fun i st hst => by simp [ServerState.init] at hst, List.nodup_nil⟩, rfl, Nat.zero_le _, rfl⟩
  have hinv : Scheduling s.core ∧ Capacity settings s.core.server :=
    restricted_invariant (I := fun c => Scheduling c ∧ Capacity settings c.server) hdelivers
      (fun _ _ hC => hC) ⟨hinit, hcapacity⟩
      (fun c c' hc hr => ⟨hc.1.round hr, Capacity.round hc hr⟩) h
  exact hinv.2.overflow

/-- A run that fills the ready queue to its capacity. -/
theorem ready_never_full_one_stream :
    ∃ s, (system oneStream identityDelayModel).run (.init oneStream)
        [.enhance (testStart "a" 0), .deliver 0 (testAudio 0 0 256), .put 0] = some s ∧
      s.ready.full = true ∧ s.readyOverflow = false := by
  obtain ⟨s, hrun, hr, hp⟩ := Lts.System.Reachable.of_run
    ((system oneStream identityDelayModel).restrict (AdmitsInTime oneStream))
    [.enhance (testStart "a" 0), .deliver 0 (testAudio 0 0 256), .put 0]
    (fun s => s.ready.full) (by decide +kernel) (by decide +kernel)
  exact ⟨s, hrun, hp, ready_never_full hr⟩

end Capacity

/-- A stream ends with its entry still in the ready queue, and another takes its place. -/
def replacement : List (Event Tensor) :=
  [.enhance (testStart "a" 0), .deliver 0 (testAudio 0 0 256), .put 0, .gather, .dispatch,
    .deliver 0 (testAudio 1 256 256), .put 0, .cancelCall 0, .enhance (testStart "b" 0),
    .deliver 1 (testAudio 0 0 256), .put 1]

/-- The ready queue overflows, and the new stream fails. -/
theorem ready_full_after_replacement :
    ∃ s, (system oneStream identityDelayModel).Reachable s ∧ s.readyOverflow = true ∧
      s.streams.map (fun st => st.session.outputQueue.items) =
        [[], [.failure ⟨.internal, "request processing failed"⟩]] := by
  obtain ⟨s, -, hr, hp⟩ := Lts.System.Reachable.of_run
    (system oneStream identityDelayModel) replacement
    (fun s => s.readyOverflow && s.streams.map (fun st => st.session.outputQueue.items) ==
      [[], [.failure ⟨.internal, "request processing failed"⟩]])
    (by decide +kernel) (by decide +kernel)
  simp only [Bool.and_eq_true, beq_iff_eq] at hp
  exact ⟨s, hr, hp.1, hp.2⟩

end VoxLattice.Server
