import VoxLattice.Server.Changes

/-!
# Admission

The registry maps a stream ID to the session whose call holds it.  A call holds its ID from its
admission to its `finally` block.  A refused call runs the same block with a session of the
same ID: the flag `registered` keeps it from the registry, and the identity check of `remove`
would, too.

`Roster` ties the registry to the calls.  It is kept by every round, so the registry can be
read off the calls at any time.  The rest of the module is about steps: a refused call touches
nothing but its own session, and an ID that a call gave up is free until another call is
admitted with it.
-/

namespace VoxLattice.Server

variable {κ : Type*}

/-- The registry took the session, and the `finally` block of its call has not run. -/
structure Stream.Holds (st : Stream κ) (streamId : String) : Prop where
  registered : st.registered = true
  unfinished : st.enhance ≠ .finished
  streamId : st.session.streamId = streamId

/-- The registry is the IDs held by the calls, each held once. -/
structure Roster (settings : ServerSettings) (s : ServerState κ) : Prop where
  /-- `max_active_streams` bounds the registry. -/
  room : s.registry.length ≤ settings.maxActiveStreams
  /-- An ID has one entry at most. -/
  keys : (s.registry.map Prod.fst).Nodup
  /-- The entries are the calls that hold an ID. -/
  entry : ∀ (streamId : String) (i : Nat), (streamId, i) ∈ s.registry ↔
    ∃ st, s.streams[i]? = some st ∧ st.Holds streamId

/-! ## The registry -/

section Registry

variable {registry : List (String × Nat)} {streamId : String} {i : Nat}

theorem lookup_of_mem (hkeys : (registry.map Prod.fst).Nodup) (h : (streamId, i) ∈ registry) :
    registry.lookup streamId = some i := by
  cases hlookup : registry.lookup streamId with
  | none => exact absurd (List.mem_map_of_mem h) (lookup_eq_none_iff.mp hlookup)
  | some j =>
      have heq := List.inj_on_of_nodup_map hkeys (mem_of_lookup hlookup) h rfl
      rw [(Prod.mk.inj heq).2]

theorem registryRemove_of_mem (hkeys : (registry.map Prod.fst).Nodup)
    (h : (streamId, i) ∈ registry) :
    registryRemove registry streamId i = registry.filter fun entry => entry.1 != streamId := by
  rw [registryRemove, if_pos (lookup_of_mem hkeys h)]

/-- `remove` takes the entry of the session out, and no other. -/
theorem mem_registryRemove (hkeys : (registry.map Prod.fst).Nodup)
    (h : (streamId, i) ∈ registry) {entry : String × Nat} :
    entry ∈ registryRemove registry streamId i ↔ entry ∈ registry ∧ entry ≠ (streamId, i) := by
  rw [registryRemove_of_mem hkeys h, List.mem_filter, bne_iff_ne]
  refine and_congr_right fun hentry => not_congr ⟨fun heq => ?_, fun heq => by rw [heq]⟩
  exact List.inj_on_of_nodup_map hkeys hentry h heq

end Registry

/-! ## The roster of a run -/

section Roster

variable {settings : ServerSettings} {model : StreamingModel κ} {env : Env κ}
  {s s' : ServerState κ} {i : Nat} {st st' : Stream κ}

/-- A change of a stream that does not end its call. -/
theorem Change.holds_iff {m m' : Metrics} (h : Change settings (st, m) (st', m'))
    (streamId : String) : st'.Holds streamId ↔ st.Holds streamId := by
  obtain ⟨hid, hreg⟩ := h.known
  have hfin := h.finished_iff
  constructor
  · intro hh
    exact ⟨hreg ▸ hh.registered, fun he => hh.unfinished (hfin.mpr he), hid ▸ hh.streamId⟩
  · intro hh
    exact ⟨hreg ▸ hh.registered, fun he => hh.unfinished (hfin.mp he), hid ▸ hh.streamId⟩

theorem withOutput_holds_iff (st : Stream κ) (q : BoundedQueue OutputEvent) (streamId : String) :
    (st.withOutput q).Holds streamId ↔ st.Holds streamId :=
  ⟨fun hh => ⟨hh.registered, hh.unfinished, hh.streamId⟩,
    fun hh => ⟨hh.registered, hh.unfinished, hh.streamId⟩⟩

theorem Roster.change (h : Roster settings s) (hst : s.streams[i]? = some st)
    (hholds : ∀ streamId, st'.Holds streamId ↔ st.Holds streamId)
    (hstreams : s'.streams = s.streams.set i st') (hregistry : s'.registry = s.registry) :
    Roster settings s' where
  room := hregistry ▸ h.room
  keys := hregistry ▸ h.keys
  entry := by
    intro streamId j
    rw [hregistry, h.entry, hstreams, get?_set hst]
    split
    · next hij =>
        subst hij
        simp [hst, hholds]
    · exact Iff.rfl

/-- A new session that has no entry in the registry. -/
theorem Roster.refuse (h : Roster settings s) {new : Stream κ}
    (hnew : ∀ streamId, ¬ new.Holds streamId) :
    Roster settings { s with streams := s.streams ++ [new] } where
  room := h.room
  keys := h.keys
  entry := by
    intro streamId j
    rw [h.entry]
    constructor
    · rintro ⟨st, hst, hholds⟩
      exact ⟨st, List.getElem?_append_left (List.getElem?_eq_some_iff.mp hst).1 ▸ hst, hholds⟩
    · rintro ⟨st, hst, hholds⟩
      rcases get?_append_new hst with hst | ⟨-, rfl⟩
      · exact ⟨st, hst, hholds⟩
      · exact absurd hholds (hnew streamId)

/-- A new session that the registry takes. -/
theorem Roster.admit (h : Roster settings s) {new : Stream κ} {streamId : String}
    (hnew : new.Holds streamId) (hfresh : s.registry.lookup streamId = none)
    (hroom : s.registry.length < settings.maxActiveStreams) (m : Metrics) :
    Roster settings { s with
      streams := s.streams ++ [new]
      registry := s.registry ++ [(streamId, s.streams.length)]
      metrics := m } where
  room := by
    rw [List.length_append]
    exact hroom
  keys := by
    rw [List.map_append]
    refine List.Nodup.append h.keys (List.nodup_singleton _) ?_
    rw [List.map_cons, List.map_nil, List.disjoint_singleton]
    exact lookup_eq_none_iff.mp hfresh
  entry := by
    intro key j
    rw [List.mem_append, List.mem_singleton, h.entry]
    constructor
    · rintro (⟨st, hst, hholds⟩ | heq)
      · exact ⟨st, List.getElem?_append_left (List.getElem?_eq_some_iff.mp hst).1 ▸ hst, hholds⟩
      · obtain ⟨rfl, rfl⟩ := Prod.mk.inj heq
        exact ⟨new, List.getElem?_concat_length, hnew⟩
    · rintro ⟨st, hst, hholds⟩
      rcases get?_append_new hst with hst | ⟨rfl, rfl⟩
      · exact .inl ⟨st, hst, hholds⟩
      · exact .inr (by rw [← hholds.streamId, hnew.streamId])

theorem finallyBlock_not_holds (st : Stream κ) (m : Metrics) (streamId : String) :
    ¬ (finallyBlock st m).1.Holds streamId := fun hholds => hholds.unfinished rfl

/-- The call of a stream ends. -/
theorem Roster.finish (h : Roster settings s) (hst : s.streams[i]? = some st)
    (he : st.enhance ≠ .finished) : Roster settings (finish i s) := by
  rw [finish_eq hst]
  cases hreg : st.registered with
  | false =>
      refine h.change hst (fun streamId => iff_of_false (finallyBlock_not_holds st _ _) ?_) rfl rfl
      exact fun hholds => absurd (hreg.symm.trans hholds.registered) Bool.false_ne_true
  | true =>
      have hmem : (st.session.streamId, i) ∈ s.registry :=
        (h.entry _ _).mpr ⟨st, hst, ⟨hreg, he, rfl⟩⟩
      have hsub := registryRemove_sublist s.registry st.session.streamId i
      refine ⟨hsub.length_le.trans h.room, h.keys.sublist (hsub.map Prod.fst), ?_⟩
      intro streamId j
      simp only [if_true]
      rw [mem_registryRemove h.keys hmem, h.entry, ServerState.get?_withStream hst]
      split
      · next hij =>
          subst hij
          refine iff_of_false ?_ ?_
          · rintro ⟨⟨st₁, hst₁, hholds⟩, hne⟩
            obtain rfl := Option.some.inj (hst.symm.trans hst₁)
            exact hne (by rw [hholds.streamId])
          · rintro ⟨st₁, hst₁, hholds⟩
            obtain rfl := Option.some.inj hst₁
            exact finallyBlock_not_holds st _ _ hholds
      · next hij => exact and_iff_left fun heq => hij (Prod.mk.inj heq).2.symm

theorem Roster.touched (h : Roster settings s) (ht : Touched settings model env s s') :
    Roster settings s' := by
  cases ht with
  | still hstreams hregistry _ =>
      exact ⟨hregistry ▸ h.room, hregistry ▸ h.keys, by rw [hregistry, hstreams]; exact h.entry⟩
  | enhance first _ hs' =>
      have hspec := enhance_spec settings model first s
      rw [← hs'] at hspec
      cases hspec with
      | invalid _ _ => exact h
      | refused _ _ _ _ => exact h.refuse fun _ hholds => Bool.noConfusion hholds.registered
      | unannounced _ _ _ _ _ => exact h.refuse fun _ hholds => hholds.unfinished rfl
      | admitted start _ hfresh hroom _ =>
          exact h.admit ⟨rfl, Generator.noConfusion, rfl⟩ hfresh hroom _
  | change i st st' hst hc hstreams hregistry =>
      exact h.change hst hc.holds_iff hstreams hregistry
  | handleRaise i st event q m' hst he _ _ hs' =>
      have hdrop : Roster settings (s.withStream i (st.withOutput q) m') :=
        h.change hst (withOutput_holds_iff st q) rfl rfl
      have hst' := ServerState.get?_withStream hst (st.withOutput q) m' i
      rw [if_pos rfl] at hst'
      rw [hs']
      exact hdrop.finish hst' (by simp [Stream.withOutput, he])
  | finish i st hst he hs' =>
      rw [hs']
      exact h.finish hst he

theorem reachable_roster (h : (system settings model).Reachable s) : Roster settings s :=
  reachable_invariant (I := fun c => Roster settings c.server) model.delivers_any
    (fun _ _ => trivial) ⟨Nat.zero_le _, List.nodup_nil, fun streamId i => by
      simp [ServerState.init, ServerState.core]⟩ (fun _ _ hc hr => hc.touched hr.touched) h

/-! ## A refused call -/

/-- The registry and every session but one are as before. -/
structure Apart (i : Nat) (s s' : ServerState κ) : Prop where
  registry : s'.registry = s.registry
  streams : ∀ j, j ≠ i → s'.streams[j]? = s.streams[j]?

theorem Apart.withStream (hst : s.streams[i]? = some st) (st' : Stream κ) (m : Metrics) :
    Apart i s (s.withStream i st' m) where
  registry := rfl
  streams j hj := by rw [ServerState.get?_withStream hst, if_neg (Ne.symm hj)]

theorem Apart.onStream (hst : s.streams[i]? = some st)
    (f : Stream κ → Metrics → Stream κ × Metrics) : Apart i s (s.onStream i f) := by
  rw [ServerState.onStream_eq hst]
  exact .withStream hst _ _

/-- The `finally` block of a call that was refused. -/
theorem Apart.finish (hst : s.streams[i]? = some st) (hreg : st.registered = false) :
    Apart i s (finish i s) := by
  have happart := Apart.withStream hst (finallyBlock st s.metrics).1 (finallyBlock st s.metrics).2
  rw [finish_eq hst, hreg]
  exact ⟨rfl, happart.streams⟩

theorem Apart.resume (h : resume i s = some s') (hst : s.streams[i]? = some st)
    (hreg : st.registered = false) : Apart i s s' := by
  simp only [Server.resume, hst] at h
  split at h
  · cases h
    exact .onStream hst afterAccepted
  · cases h
    exact .onStream hst afterAudio
  · split at h
    · cases h
    · next event q _ =>
        split at h
        · next st' m' _ =>
            cases h
            exact .withStream hst st' m'
        · next m' _ =>
            cases h
            have hst' := ServerState.get?_withStream hst (st.withOutput q) m' i
            rw [if_pos rfl] at hst'
            have hdrop := Apart.withStream hst (st.withOutput q) m'
            have hfinish := Apart.finish hst' hreg
            exact ⟨hfinish.registry, fun j hj => (hfinish.streams j hj).trans (hdrop.streams j hj)⟩
  · cases h
    exact .finish hst hreg
  · cases h
    exact .finish hst hreg
  · cases h

/-! ## An ID that was given up -/

/-- The event opens a call with the ID, and the registry takes its session. -/
def Admits (settings : ServerSettings) (s : ServerState κ) (streamId : String) : Event κ → Prop
  | .enhance first => admits settings s first = true ∧
    ∃ start, validateStart first = .ok start ∧ start.streamId = streamId
  | _ => False

theorem finish_registry_subset (i : Nat) (s : ServerState κ) :
    (finish i s).registry ⊆ s.registry := by
  cases hst : s.streams[i]? with
  | none =>
      rw [Server.finish, hst]
      exact List.Subset.refl _
  | some st =>
      rw [finish_eq hst]
      dsimp only
      split
      · exact (registryRemove_sublist _ _ _).subset
      · exact List.Subset.refl _

/-- Only a new call adds an entry. -/
theorem Touched.registry_subset (ht : Touched settings model env s s')
    (hclosed : ∀ s first, ¬ env.opens s first) : s'.registry ⊆ s.registry := by
  cases ht with
  | still _ hregistry _ => exact hregistry ▸ List.Subset.refl _
  | enhance first ho _ => exact absurd ho (hclosed s first)
  | change _ _ _ _ _ _ hregistry => exact hregistry ▸ List.Subset.refl _
  | handleRaise i st event q m' _ _ _ _ hs' => exact hs' ▸ finish_registry_subset i _
  | finish i st _ _ hs' => exact hs' ▸ finish_registry_subset i s

/-- A step adds an entry only where it admits a call. -/
theorem step_registry {e : Event κ} (h : (system settings model).Step s e s') :
    s'.registry ⊆ s.registry ∨ ∃ first, e = .enhance first := by
  by_cases he : ∃ first, e = .enhance first
  · exact .inr he
  · have hrounds : Rounds settings model ⟨fun _ _ _ => True, fun _ _ => False⟩ s.core s'.core :=
      step_rounds (fun _ _ _ _ _ _ _ => trivial) (fun first hf => he ⟨first, hf⟩) h
    refine .inl ?_
    change s'.core.server.registry ⊆ s.core.server.registry
    generalize s'.core = c' at hrounds ⊢
    induction hrounds with
    | refl => exact List.Subset.refl _
    | tail _ hr ih =>
        exact List.Subset.trans (hr.touched.registry_subset fun _ _ => id) ih

/-- A call whose session the registry does not take. -/
theorem enhance_refused {first : ClientMessage} (h : admits settings s first = false) :
    (enhance settings model first s).registry = s.registry ∧
    ∀ (j : Nat) (st : Stream κ), s.streams[j]? = some st →
      (enhance settings model first s).streams[j]? = some st := by
  have hspec := enhance_spec settings model first s
  generalize Server.enhance settings model first s = s' at hspec
  cases hspec with
  | invalid _ _ => exact ⟨rfl, fun _ _ hj => hj⟩
  | refused _ _ _ _ =>
      exact ⟨rfl, fun j st hj =>
        List.getElem?_append_left (List.getElem?_eq_some_iff.mp hj).1 ▸ hj⟩
  | unannounced _ _ _ _ _ =>
      exact ⟨rfl, fun j st hj =>
        List.getElem?_append_left (List.getElem?_eq_some_iff.mp hj).1 ▸ hj⟩
  | admitted start hstart hfresh hroom _ =>
      have hadd : registryAdd settings s.registry start.streamId s.streams.length =
          .ok (s.registry ++ [(start.streamId, s.streams.length)]) := by
        rw [registryAdd, if_neg (by simp [hfresh]), if_neg (by omega)]
      simp [admits, hstart, hadd, Except.isOk, Except.toBool] at h

/-- A step after which an ID is present, and was not before, admits a call with it. -/
theorem step_admits {streamId : String} {e : Event κ} (h : (system settings model).Step s e s')
    (hbefore : streamId ∉ s.registry.map Prod.fst) (hafter : streamId ∈ s'.registry.map Prod.fst) :
    Admits settings s streamId e := by
  rcases step_registry h with hsub | ⟨first, rfl⟩
  · exact absurd (List.map_subset _ hsub hafter) hbefore
  · obtain rfl : enhance settings model first s = s' := Option.some.inj h.eq
    cases hadmits : admits settings s first with
    | false =>
        rw [(enhance_refused hadmits).1] at hafter
        exact absurd hafter hbefore
    | true =>
        refine ⟨hadmits, ?_⟩
        have hspec := enhance_spec settings model first s
        generalize Server.enhance settings model first s = s' at hspec hafter
        cases hspec with
        | invalid _ _ => exact absurd hafter hbefore
        | refused _ _ _ _ => exact absurd hafter hbefore
        | unannounced _ _ _ _ _ => exact absurd hafter hbefore
        | admitted start hstart _ _ _ =>
            refine ⟨start, hstart, ?_⟩
            rw [List.map_append, List.mem_append] at hafter
            exact (List.mem_singleton.mp (hafter.resolve_left hbefore)).symm

/-- An ID that is not present stays so until a call with it is admitted. -/
theorem absent_until_admitted {streamId : String} {t : ServerState κ}
    (hl : (system settings model).Leads s t) (hbefore : streamId ∉ s.registry.map Prod.fst)
    (hafter : streamId ∈ t.registry.map Prod.fst) :
    ∃ u e u', (system settings model).Leads s u ∧ (system settings model).Step u e u' ∧
      Admits settings u streamId e ∧ (system settings model).Leads u' t := by
  induction hl with
  | refl => exact absurd hafter hbefore
  | @tail u t hsu hut ih =>
      obtain ⟨e, hut⟩ := hut
      by_cases hu : streamId ∈ u.registry.map Prod.fst
      · obtain ⟨v, e', v', hsv, hstep, hadmits, hvu⟩ := ih hu
        exact ⟨v, e', v', hsv, hstep, hadmits, hvu.tail ⟨e, hut⟩⟩
      · exact ⟨u, e, t, hsu, hut, step_admits hut hu hafter, .refl⟩

/-- The call that held an ID has just ended. -/
theorem Roster.absent {streamId : String} (h : Roster settings s) (h' : Roster settings s')
    {e : Event κ} (hstep : (system settings model).Step s e s') (hst : s.streams[i]? = some st)
    (hholds : st.Holds streamId) (hst' : s'.streams[i]? = some st')
    (hfin : st'.enhance = .finished) : streamId ∉ s'.registry.map Prod.fst := by
  intro hmem
  obtain ⟨⟨key, j⟩, hj, rfl⟩ := List.mem_map.mp hmem
  have hi : (key, i) ∈ s.registry := (h.entry _ _).mpr ⟨st, hst, hholds⟩
  rcases step_registry hstep with hsub | ⟨first, rfl⟩
  · obtain rfl : j = i := (Prod.mk.inj (List.inj_on_of_nodup_map h.keys (hsub hj) hi rfl)).2
    obtain ⟨st₁, hst₁, hholds₁⟩ := (h'.entry _ _).mp hj
    obtain rfl := Option.some.inj (hst'.symm.trans hst₁)
    exact hholds₁.unfinished hfin
  · obtain rfl : enhance settings model first s = s' := Option.some.inj hstep.eq
    have hlt : i < s.streams.length := (List.getElem?_eq_some_iff.mp hst).1
    have hkeep : (enhance settings model first s).streams[i]? = some st := by
      have hspec := enhance_spec settings model first s
      generalize Server.enhance settings model first s = s' at hspec
      cases hspec with
      | invalid _ _ => exact hst
      | refused _ _ _ _ => exact List.getElem?_append_left hlt ▸ hst
      | unannounced _ _ _ _ _ => exact List.getElem?_append_left hlt ▸ hst
      | admitted _ _ _ _ _ => exact List.getElem?_append_left hlt ▸ hst
    obtain rfl := Option.some.inj (hkeep.symm.trans hst')
    exact hholds.unfinished hfin

/-! ## Every run -/

/-- What admission guarantees in a state. -/
structure Admission (settings : ServerSettings) (model : StreamingModel κ) (s : ServerState κ) :
    Prop where
  /-- The registry is the IDs held by the calls, each held once, and within its bound. -/
  roster : Roster settings s
  /-- A call that is refused touches neither the registry nor any session. -/
  refused : ∀ first, admits settings s first = false →
    ∀ s', (system settings model).Step s (.enhance first) s' →
      s'.registry = s.registry ∧
        ∀ (j : Nat) (st : Stream κ), s.streams[j]? = some st → s'.streams[j]? = some st
  /-- Nor does it when it goes on, is cancelled, and cleans up. -/
  cleanup : ∀ (i : Nat) (st : Stream κ), s.streams[i]? = some st → st.registered = false →
    ∀ e s', e = .resume i ∨ e = .cancelCall i → (system settings model).Step s e s' →
      Apart i s s'
  /-- After the call that held an ID has ended, the ID is absent until another call is admitted
  with it. -/
  freed : ∀ (streamId : String) (i : Nat) (st : Stream κ), s.streams[i]? = some st →
    st.Holds streamId → ∀ e s' st', (system settings model).Step s e s' →
      s'.streams[i]? = some st' → st'.enhance = .finished → streamId ∉ s'.registry.map Prod.fst ∧
        ∀ t, (system settings model).Leads s' t → streamId ∈ t.registry.map Prod.fst →
          ∃ u e' u', (system settings model).Leads s' u ∧ (system settings model).Step u e' u' ∧
            Admits settings u streamId e' ∧ (system settings model).Leads u' t

/-- Admission is sound in every reachable state. -/
theorem admission_sound (h : (system settings model).Reachable s) :
    Admission settings model s where
  roster := reachable_roster h
  refused first hfirst s' hstep := by
    obtain rfl : enhance settings model first s = s' := Option.some.inj hstep.eq
    exact enhance_refused hfirst
  cleanup i st hst hreg e s' he hstep := by
    rcases he with rfl | rfl
    · exact .resume hstep.eq hst hreg
    · have heq := hstep.eq
      simp only [system, step, hst] at heq
      split at heq
      · cases heq
      · cases heq
        exact .finish hst hreg
  freed streamId i st hst hholds e s' st' hstep hst' hfin := by
    have habsent := (reachable_roster h).absent (reachable_roster (h.step hstep)) hstep hst hholds
      hst' hfin
    exact ⟨habsent, fun t hl hmem => absent_until_admitted hl habsent hmem⟩

end Roster

/-- A second call with the ID of a live one is refused and cleans up, and the live one keeps its
entry. -/
theorem admission_sound_duplicate :
    ∃ s, (system .defaults identityDelayModel).run (.init .defaults)
        [.enhance (testStart "a" 0), .enhance (testStart "a" 0), .resume 1] = some s ∧
      s.registry = [("a", 0)] ∧
      (s.streams.map fun st => (st.registered, st.session.cancelled)) =
        [(true, false), (false, true)] ∧
      Admission .defaults identityDelayModel s := by
  obtain ⟨s, hrun, hr, hp⟩ := Lts.System.Reachable.of_run (system .defaults identityDelayModel)
    [.enhance (testStart "a" 0), .enhance (testStart "a" 0), .resume 1]
    (fun s => s.registry == [("a", 0)] &&
      (s.streams.map fun st => (st.registered, st.session.cancelled)) ==
        [(true, false), (false, true)]) (by decide +kernel) (by decide +kernel)
  simp only [Bool.and_eq_true, beq_iff_eq] at hp
  exact ⟨s, hrun, hp.1, hp.2, admission_sound hr⟩

end VoxLattice.Server
