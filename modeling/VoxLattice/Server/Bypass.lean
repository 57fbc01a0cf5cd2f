import VoxLattice.Server.Prompt

/-!
# Bounded bypass

The sessions that wait for their turn form one line: those gathered for the batch, then those
in the ready queue.  A session joins at the end of the line, stands in it once, and leaves it
at its turn.  So between the moment a session joins and its turn, another session has its turn
before it at most once: it was ahead, and if it joins again it stands behind.

`bypassSystem` is the server with a counter of the work items of one session dequeued while
another one waits.
-/

namespace VoxLattice.Server

variable {κ : Type*}

/-! ## Counting -/

/-- The sessions that wait for their turn, in the order of their turns. -/
def ServerState.waiting (s : ServerState κ) : List Nat := s.loop.gathered ++ s.ready.items

/-- The work items in the input queue of a session. -/
def ServerState.backlog (s : ServerState κ) (i : Nat) : Nat :=
  (s.streams[i]?.map fun st => st.session.inputQueue.items.length).getD 0

/-- The work items of `other` that an event dequeues before the turn of `session`.  The loop of
`_run` comes to the gathered sessions in order. -/
def overtakes (session other : Nat) (s : ServerState κ) : Event κ → Nat
  | .dispatch =>
    s.backlog other -
      (takeBatch (s.loop.gathered.takeWhile (· != session)) s).1.backlog other
  | _ => 0

/-- The server with a counter: the work items of `other` dequeued since `session` joined the
ready queue, up to the turn of `session`. -/
def bypassSystem (settings : ServerSettings) (model : StreamingModel κ) (session other : Nat) :
    Lts.System (ServerState κ × Nat) (Event κ) where
  init := (.init settings, 0)
  step := fun (s, n) e => (step settings model s e).map fun s' =>
    (s', if session ∈ s.waiting then n + overtakes session other s e else 0)
  allows := fun (s, _) e => allows model s e

instance (settings : ServerSettings) (model : StreamingModel κ) (session other : Nat)
    [∀ hops caches wav updated, Decidable (model.returns hops caches wav updated)]
    (x : ServerState κ × Nat) (e : Event κ) :
    Decidable ((bypassSystem settings model session other).allows x e) :=
  inferInstanceAs (Decidable (allows model x.1 e))

/-! ## What a turn takes -/

section Turn

variable {s s' : ServerState κ} {i : Nat} {st : Stream κ}

/-- A turn takes one work item at most. -/
theorem takeWork_length (st : Stream κ) (m : Metrics) :
    st.session.inputQueue.items.length ≤
      (takeWork st m).1.1.session.inputQueue.items.length + 1 := by
  have htaken := takeWork_taken st m
  generalize (takeWork st m).1.1 = st' at htaken ⊢
  generalize (takeWork st m).2 = work at htaken
  cases htaken with
  | dead _ => exact Nat.le_succ _
  | idle _ _ => exact Nat.le_succ _
  | ends work inputQueue m' _ hget _ =>
      rw [(BoundedQueue.getNowait_eq_some hget).1, completeWithoutFlush_inputQueue]
      exact Nat.le_refl _
  | joins work inputQueue _ hget _ =>
      rw [(BoundedQueue.getNowait_eq_some hget).1]
      exact Nat.le_refl _

/-- Only a session that is gathered ahead overtakes, and by one work item at most. -/
theorem overtakes_dispatch {session other : Nat} (hn : s.loop.gathered.Nodup) :
    overtakes session other s .dispatch ≤
      if other ∈ s.loop.gathered.takeWhile (· != session) then 1 else 0 := by
  have hahead := hn.sublist (List.takeWhile_sublist (· != session))
  change s.backlog other -
    (takeBatch (s.loop.gathered.takeWhile (· != session)) s).1.backlog other ≤ _
  unfold ServerState.backlog
  by_cases hmem : other ∈ s.loop.gathered.takeWhile (· != session)
  · rw [if_pos hmem]
    cases hst : s.streams[other]? with
    | none => simp
    | some st =>
        obtain ⟨m, hst', -⟩ := get?_takeBatch_mem hahead hmem hst
        have hlength := takeWork_length st m
        rw [hst']
        simp only [Option.map_some, Option.getD_some]
        omega
  · rw [if_neg hmem, (get?_takeBatch_not_mem hmem s).1, Nat.sub_self]

end Turn

/-! ## The line -/

section Line

variable {settings : ServerSettings} {model : StreamingModel κ} {s s' : ServerState κ}
  {e : Event κ}

theorem applyBatch_waiting (pcmHops : List Bytes) (updated : List κ) (f : List (Flight κ))
    (index : Nat) (s : ServerState κ) :
    (applyBatch pcmHops updated index f s).loop.gathered = [] ∧
      s.ready.items <+: (applyBatch pcmHops updated index f s).ready.items := by
  induction f generalizing index s with
  | nil => exact ⟨rfl, List.prefix_refl _⟩
  | cons flight rest ih =>
      rw [applyBatch]
      split
      · exact ih _ s
      · next st _ =>
          cases ha : applyResult flight.work pcmHops[index]? updated[index]? st s.metrics with
          | mk stm outcome =>
              dsimp only
              cases outcome with
              | settled => exact ih _ _
              | raised => exact ⟨rfl, List.prefix_refl _⟩
              | renotify =>
                  dsimp only
                  have hready := notify_ready
                    { s with streams := s.streams.set flight.stream stm.1, metrics := stm.2 }
                    flight.stream
                  split
                  · next s₁ hn =>
                      rw [hn] at hready
                      exact ⟨(ih _ s₁).1, hready.trans (ih _ s₁).2⟩
                  · next s₁ hn =>
                      rw [hn] at hready
                      exact ⟨rfl, hready⟩

theorem failBatch_waiting (f : List (Flight κ)) (s : ServerState κ) :
    (failBatch f s).loop.gathered = [] ∧ (failBatch f s).ready = s.ready := by
  induction f generalizing s with
  | nil => exact ⟨rfl, rfl⟩
  | cons flight rest ih =>
      rw [failBatch]
      exact ⟨(ih _).1, (ih _).2.trans (onStream_ready s flight.stream failInference)⟩

/-- What a step does to the line. -/
inductive LineMove (s s' : ServerState κ) : Event κ → Prop where
  /-- Sessions join at its end. -/
  | joins {e : Event κ} (hd : e ≠ .dispatch) (h : s.waiting <+: s'.waiting) : LineMove s s' e
  /-- The gathered sessions have their turns. -/
  | turns (h : s'.waiting = s.ready.items) : LineMove s s' .dispatch
  /-- The scheduler is closed, and the gathered sessions never have their turns. -/
  | closed (h : s'.waiting = s.ready.items) : LineMove s s' .closeScheduler

theorem LineMove.stays (hd : e ≠ .dispatch) (hloop : s'.loop = s.loop)
    (hready : s.ready.items <+: s'.ready.items) : LineMove s s' e := by
  refine .joins hd ?_
  rw [ServerState.waiting, ServerState.waiting, hloop]
  exact List.prefix_append_right_inj _ |>.mpr hready

theorem step_line (h : (system settings model).Step s e s') : LineMove s s' e := by
  cases step_cases h.eq with
  | enhance _ => exact .stays (by rintro ⟨⟩) (by simp) (by simp)
  | deliver _ _ _ => exact .stays (by rintro ⟨⟩) (by simp) (by simp)
  | closeInput _ _ => exact .stays (by rintro ⟨⟩) (by simp) (by simp)
  | idleTimeout _ _ => exact .stays (by rintro ⟨⟩) (by simp) (by simp)
  | requestError _ _ => exact .stays (by rintro ⟨⟩) (by simp) (by simp)
  | cancelCall _ _ => exact .stays (by rintro ⟨⟩) (by simp) (by simp)
  | put h =>
      obtain ⟨hloop, hready⟩ := put_loop h
      exact .stays (by rintro ⟨⟩) hloop hready
  | resume h =>
      obtain ⟨hloop, hready⟩ := resume_loop h
      exact .stays (by rintro ⟨⟩) hloop (by rw [hready])
  | gatherFirst hloop hget =>
      refine .joins (by rintro ⟨⟩) ?_
      rw [ServerState.waiting, hloop, (BoundedQueue.getNowait_eq_some hget).1]
      exact List.prefix_refl _
  | gatherNext hloop hget _ =>
      refine .joins (by rintro ⟨⟩) ?_
      rw [ServerState.waiting, hloop, (BoundedQueue.getNowait_eq_some hget).1]
      simp [ServerState.waiting, Loop.gathered]
  | @dispatch sessions _ =>
      refine .turns ?_
      rw [ServerState.waiting, Loop.taken_gathered]
      exact congrArg BoundedQueue.items (takeBatch_ready sessions s)
  | @inferenceReturned active wav updated hloop =>
      obtain ⟨hgathered, hready⟩ := applyBatch_waiting (wav.map float32ToPcm16le) updated
        active 0 s
      refine .joins (by rintro ⟨⟩) ?_
      rw [ServerState.waiting, ServerState.waiting, hgathered, hloop]
      exact hready
  | @inferenceRaised active hloop =>
      obtain ⟨hgathered, hready⟩ := failBatch_waiting active s
      refine .joins (by rintro ⟨⟩) ?_
      rw [ServerState.waiting, ServerState.waiting, hgathered, hready, hloop]
      exact List.prefix_refl _
  | closeScheduler => exact .closed rfl

end Line

/-! ## Every run -/

/-- The counter is right, and zero as long as `other` is to have its turn before `session`. -/
structure Bypass (session other : Nat) (s : ServerState κ) (n : Nat) : Prop where
  once : n ≤ 1
  ahead : session ∈ s.waiting → other ∈ s.waiting.takeWhile (· != session) → n = 0

section Bypass

variable {settings : ServerSettings} {model : StreamingModel κ} {s s' : ServerState κ}
  {e : Event κ} {session other n : Nat}

/-- Whoever joins behind a session is not ahead of it. -/
theorem takeWhile_append_mem {a : Nat} {l : List Nat} (ha : a ∈ l) (l' : List Nat) :
    (l ++ l').takeWhile (· != a) = l.takeWhile (· != a) := by
  induction l with
  | nil => cases ha
  | cons x rest ih =>
      rw [List.cons_append, List.takeWhile_cons, List.takeWhile_cons]
      split
      · next hx =>
          have hne : x ≠ a := by simpa using hx
          rw [ih ((List.mem_cons.mp ha).resolve_left (Ne.symm hne))]
      · rfl

/-- All of a line is ahead of a session that stands behind it. -/
theorem takeWhile_append_not_mem {a : Nat} {l : List Nat} (ha : a ∉ l) (l' : List Nat) :
    (l ++ l').takeWhile (· != a) = l ++ l'.takeWhile (· != a) := by
  refine List.takeWhile_append_of_pos fun x hx => ?_
  simp only [bne_iff_ne, ne_eq]
  rintro rfl
  exact ha hx

/-- The gathered sessions leave the line, whether they have their turns or not. -/
theorem Bypass.leave (h : Bypass session other s n) (hs : Scheduling s.core)
    (hmem : session ∈ s.waiting) (hwaiting : s'.waiting = s.ready.items) {k : Nat}
    (hk : k ≤ if other ∈ s.loop.gathered.takeWhile (· != session) then 1 else 0) :
    Bypass session other s' (n + k) := by
  have hnodup : (s.ready.items ++ s.loop.gathered).Nodup := hs.turns.nodup
  obtain ⟨-, -, hdisjoint⟩ := List.nodup_append.mp hnodup
  have hahead := h.ahead hmem
  by_cases hgathered : session ∈ s.loop.gathered
  · have hready : session ∉ s.ready.items := fun hready => hdisjoint _ hready _ hgathered rfl
    rw [ServerState.waiting, takeWhile_append_mem hgathered] at hahead
    refine ⟨?_, fun hwaits => absurd (hwaiting ▸ hwaits) hready⟩
    have honce := h.once
    split at hk
    · next hother =>
        rw [hahead hother]
        omega
    · omega
  · rw [ServerState.waiting, takeWhile_append_not_mem hgathered, List.mem_append] at hahead
    have hall := takeWhile_append_not_mem hgathered []
    rw [List.append_nil, List.takeWhile_nil, List.append_nil] at hall
    rw [hall] at hk
    have honce := h.once
    split at hk
    · next hother =>
        refine ⟨by rw [hahead (.inl hother)]; omega, fun _ hahead' => ?_⟩
        rw [hwaiting] at hahead'
        exact absurd rfl (hdisjoint _ ((List.takeWhile_sublist _).subset hahead') _ hother)
    · refine ⟨by omega, fun _ hahead' => ?_⟩
      rw [hwaiting] at hahead'
      rw [hahead (.inr hahead')]
      omega

theorem Bypass.step (h : Bypass session other s n) (hs : Scheduling s.core)
    (hstep : (system settings model).Step s e s') :
    Bypass session other s'
      (if session ∈ s.waiting then n + overtakes session other s e else 0) := by
  by_cases hmem : session ∈ s.waiting
  · rw [if_pos hmem]
    have hline := step_line hstep
    cases hline with
    | joins hd hjoin =>
        have hzero : overtakes session other s e = 0 := by
          cases e <;> first | rfl | exact absurd rfl hd
        obtain ⟨new, hnew⟩ := hjoin
        rw [hzero, Nat.add_zero]
        refine ⟨h.once, fun _ hother => h.ahead hmem ?_⟩
        rwa [← hnew, takeWhile_append_mem hmem] at hother
    | turns hwaiting =>
        have hnodup : s.loop.gathered.Nodup := (List.nodup_append.mp hs.turns.nodup).2.1
        exact h.leave hs hmem hwaiting (overtakes_dispatch hnodup)
    | closed hwaiting => exact h.leave hs hmem hwaiting (Nat.zero_le _)
  · rw [if_neg hmem]
    exact ⟨Nat.zero_le _, fun _ _ => rfl⟩

/-- A reachable state of the server with the counter. -/
theorem reachable_bypass {x : ServerState κ × Nat}
    (h : (bypassSystem settings model session other).Reachable x) :
    (system settings model).Reachable x.1 ∧ Bypass session other x.1 x.2 := by
  induction h with
  | init => exact ⟨.init, Nat.zero_le _, fun _ _ => rfl⟩
  | @step x e x' hx hstep ih =>
      obtain ⟨s, n⟩ := x
      obtain ⟨hreach, hbypass⟩ := ih
      have heq := hstep.eq
      simp only [bypassSystem, Option.map_eq_some_iff] at heq
      obtain ⟨s', hs', rfl⟩ := heq
      have hserver : (system settings model).Step s e s' := ⟨hstep.allowed, hs'⟩
      exact ⟨hreach.step hserver, hbypass.step (reachable_scheduling hreach) hserver⟩

/-- Between the moment a session joins the ready queue and its turn, every other session has at
most one work item dequeued. -/
theorem bypassed_at_most_once {x : ServerState κ × Nat}
    (h : (bypassSystem settings model session other).Reachable x) : x.2 ≤ 1 :=
  (reachable_bypass h).2.once

end Bypass

/-- The other session was ahead and had its turn first. -/
theorem bypassed_at_most_once_ahead :
    ∃ x, (bypassSystem .defaults identityDelayModel 0 1).run (.init .defaults, 0)
        [.enhance (testStart "a" 0), .enhance (testStart "b" 0), .deliver 1 (testAudio 0 0 512),
          .put 1, .put 1, .deliver 0 (testAudio 0 0 256), .put 0, .gather, .dispatch] = some x ∧
      x.1.waiting = [0] ∧ x.2 = 1 ∧ x.2 ≤ 1 := by
  obtain ⟨x, hrun, hr, hp⟩ := Lts.System.Reachable.of_run
    (bypassSystem .defaults identityDelayModel 0 1)
    [.enhance (testStart "a" 0), .enhance (testStart "b" 0), .deliver 1 (testAudio 0 0 512),
      .put 1, .put 1, .deliver 0 (testAudio 0 0 256), .put 0, .gather, .dispatch]
    (fun x => x.1.waiting == [0] && x.2 == 1) (by decide +kernel) (by decide +kernel)
  simp only [Bool.and_eq_true, beq_iff_eq] at hp
  exact ⟨x, hrun, hp.1, hp.2, bypassed_at_most_once hr⟩

end VoxLattice.Server
