import VoxLattice.Plugin.Loop

/-!
# The delay between two attempts

The delay of a wait doubles from wait to wait, up to its maximum, and begins anew when a
generation returns.  A generation that reached `ACTIVE` and was then broken by an exception does
not begin it anew.  So the delay is that of the waits since a generation last returned, and the
one the waits since a generation was last `ACTIVE` ask for just where the two agree, or where the
maximum hides the difference (`backoff_exact`).
-/

namespace VoxLattice.Plugin

/-! ## The waits of a run -/

/-- The callback says that a generation is `ACTIVE`. -/
def Callback.isActive : Callback → Bool
  | .onGeneration _ .active => true
  | _ => false

/-- The worker, with the waits that are over. -/
structure PacedWorker where
  worker : GRPCWorker
  /-- The waits since a generation last reached `ACTIVE`, or since the start. -/
  waits : Nat
  /-- The waits since a generation last returned, or since the start. -/
  sinceReturn : Nat

namespace PacedWorker

/-- A step of the worker, which may be the end of a wait. -/
def step (config : TransportConfig) (p : PacedWorker) (e : WorkerEvent) : Option PacedWorker :=
  (p.worker.step config e).map fun (worker, made) =>
    let waited := if e = .backoffOver then 1 else 0
    { worker
      waits := if made.any Callback.isActive then 0 else p.waits + waited
      sinceReturn :=
        if p.worker.run.streaming?.isSome ∧ worker.run = .finalizing then 0
        else p.sinceReturn + waited }

/-- The event ends a generation that has reached `ACTIVE`, with a `ValueError`, an `RpcError` or a
`ConnectionError`. -/
def breaksActive (config : TransportConfig) (p : PacedWorker) (e : WorkerEvent) : Bool :=
  (match p.worker.run with
    | .streaming streaming => streaming.accepted
    | _ => false) &&
  (p.worker.step config e).any fun result =>
    result.1.run.streaming?.isNone && decide (result.1.run ≠ .finalizing)

/-- A generation that has reached `ACTIVE` is broken only where no wait has been made since the
start or since a generation last returned, or where all waits have one length. -/
def Steady (config : TransportConfig) (p : PacedWorker) (e : WorkerEvent) : Prop :=
  p.breaksActive config e = true →
    p.sinceReturn = 0 ∨ config.reconnectMaxDelayS ≤ config.reconnectMinDelayS

instance (config : TransportConfig) (p : PacedWorker) (e : WorkerEvent) :
    Decidable (p.Steady config e) :=
  inferInstanceAs (Decidable (_ → _))

end PacedWorker

/-- The worker with its waits.  Nothing is asked of the events. -/
def pacedSystem (config : TransportConfig) : Lts.System PacedWorker WorkerEvent where
  init := ⟨.new config, 0, 0⟩
  step := PacedWorker.step config
  allows _ _ := True

instance (config : TransportConfig) (p : PacedWorker) (e : WorkerEvent) :
    Decidable ((pacedSystem config).allows p e) :=
  inferInstanceAs (Decidable True)

/-- The delay after `k` waits. -/
def RemoteFastEnhancerConfig.delay (config : RemoteFastEnhancerConfig) (k : Nat) : ℚ :=
  min (config.reconnectMinDelayS * 2 ^ k) config.reconnectMaxDelayS

/-! ## The delays -/

section Delay

variable {config : RemoteFastEnhancerConfig}

theorem delays_ordered (config : RemoteFastEnhancerConfig) :
    0 < config.reconnectMinDelayS ∧ config.reconnectMinDelayS ≤ config.reconnectMaxDelayS := by
  have haccepted := config.accepted
  unfold ConfigFields.postInit at haccepted
  split at haccepted
  · cases haccepted
  · split at haccepted
    · cases haccepted
    · split at haccepted
      · cases haccepted
      · split at haccepted
        · cases haccepted
        · next hdelays => exact not_not.mp hdelays

theorem delay_zero (config : RemoteFastEnhancerConfig) :
    config.delay 0 = config.reconnectMinDelayS := by
  rw [RemoteFastEnhancerConfig.delay, pow_zero, mul_one]
  exact min_eq_left (delays_ordered config).2

/-- A wait doubles the delay, up to the maximum. -/
theorem delay_succ (config : RemoteFastEnhancerConfig) (k : Nat) :
    config.delay (k + 1) =
      min (config.delay k * 2) config.reconnectMaxDelayS := by
  have hpos : 0 ≤ config.reconnectMaxDelayS :=
    (delays_ordered config).1.le.trans (delays_ordered config).2
  have hdouble : config.reconnectMaxDelayS ≤ config.reconnectMaxDelayS * 2 := by linarith
  rw [RemoteFastEnhancerConfig.delay, RemoteFastEnhancerConfig.delay, pow_succ, ← mul_assoc,
    min_mul_of_nonneg _ _ (by norm_num : (0 : ℚ) ≤ 2), min_assoc]
  exact congrArg _ (min_eq_right hdouble).symm

/-- Two numbers of waits ask for one delay just if they agree or the delay is at its maximum. -/
theorem delay_eq_iff {j k : Nat} (h : k ≤ j) :
    config.delay j = config.delay k ↔
      k = j ∨ config.reconnectMaxDelayS ≤ config.reconnectMinDelayS * 2 ^ k := by
  have hpos := (delays_ordered config).1
  constructor
  · intro heq
    by_contra hne
    rw [not_or, not_le] at hne
    obtain ⟨hne, hlt⟩ := hne
    have hmore : config.reconnectMinDelayS * 2 ^ k < config.reconnectMinDelayS * 2 ^ j :=
      mul_lt_mul_of_pos_left
        (pow_lt_pow_right₀ (by norm_num) (lt_of_le_of_ne h hne)) hpos
    rw [RemoteFastEnhancerConfig.delay, RemoteFastEnhancerConfig.delay, min_eq_left hlt.le] at heq
    exact absurd heq (lt_min hmore hlt).ne'
  · rintro (rfl | hmax)
    · rfl
    · have hmore : config.reconnectMinDelayS * 2 ^ k ≤ config.reconnectMinDelayS * 2 ^ j :=
        mul_le_mul_of_nonneg_left (pow_le_pow_right₀ (by norm_num) h) hpos.le
      rw [RemoteFastEnhancerConfig.delay, RemoteFastEnhancerConfig.delay, min_eq_right hmax,
        min_eq_right (hmax.trans hmore)]

end Delay

/-! ## Steps -/

namespace PacedWorker

open GRPCWorker

variable {config : TransportConfig} {p p' : PacedWorker} {e : WorkerEvent}

/-- Only a generation that is `ACTIVE` handles audio or returns after a `StreamEnded`. -/
theorem handle_active (config : TransportConfig) (message : Server.ServerMessage)
    (streaming : Streaming) :
    match streaming.handle config message with
    | .accepted streaming' => streaming'.accepted = true
    | .audio streaming' _ _ => streaming.accepted = true ∧ streaming'.accepted = true
    | .returned => streaming.accepted = true
    | .raised _ => True := by
  cases haccepted : streaming.accepted with
  | false =>
      cases message with
      | accepted accepted =>
          cases hvalid : validateAccepted config accepted <;>
            simp [Streaming.handle, haccepted, hvalid]
      | _ => simp [Streaming.handle, haccepted]
  | true =>
      cases message with
      | audio audio =>
          by_cases hsequence : audio.outputSequence.toNat = streaming.outputSequence
          · by_cases hstart : audio.outputStartSample.toNat = streaming.expectedOutput
            · by_cases hbytes :
                  audio.validSamples = 0 ∨ audio.pcmS16le.length ≠ audio.validSamples.toNat * 2
              · simp [Streaming.handle, haccepted, hsequence, hstart, hbytes]
              · simp [Streaming.handle, haccepted, hsequence, hstart, hbytes]
            · simp [Streaming.handle, haccepted, hsequence, hstart]
          · simp [Streaming.handle, haccepted, hsequence]
      | _ => simp [Streaming.handle, haccepted]

theorem outside_of_streaming {run : RunPlace} {streaming : Streaming}
    (h : run.streaming? = some streaming) : run.ending = false ∧ run.dead = false := by
  cases run with
  | streaming _ => exact ⟨rfl, rfl⟩
  | resetting _ _ => exact ⟨rfl, rfl⟩
  | _ => cases h

/-- Neither the delay nor the counts of waits change. -/
structure SamePace (p p' : PacedWorker) : Prop where
  backoff : p'.worker.backoff = p.worker.backoff
  waits : p'.waits = p.waits
  sinceReturn : p'.sinceReturn = p.sinceReturn

/-- What a step does to the delay, to the counts and to the place that matters to them. -/
inductive Paces (config : TransportConfig) (e : WorkerEvent) (p p' : PacedWorker) : Prop where
  /-- Another thread moves. -/
  | other (same : SamePace p p') (run : p'.worker.run = p.worker.run)
      (stop : p.worker.stop = true → p'.worker.stop = true)
  | outside (same : SamePace p p') (before : p.worker.run.streaming? = none)
      (after : p'.worker.run.streaming? = none)
      (ending : p.worker.run.ending = true → p.worker.stop = true →
        p'.worker.run.ending = true)
      (dead : p.worker.run.dead = true → p'.worker.run.dead = true)
      (stop : p'.worker.stop = p.worker.stop)
  | enters (same : SamePace p p') (before : p.worker.run = .storing)
      (after : ∃ n start, p'.worker.run = .streaming ⟨false, n, start⟩)
  | inside (same : SamePace p p') (streaming streaming' : Streaming)
      (before : p.worker.run.streaming? = some streaming)
      (after : p'.worker.run.streaming? = some streaming')
      (accepted : streaming'.accepted = streaming.accepted)
  | dies (same : SamePace p p') (streaming : Streaming)
      (before : p.worker.run.streaming? = some streaming) (after : p'.worker.run = .dying)
  /-- A generation reaches `ACTIVE`. -/
  | reaches (backoff : p'.worker.backoff = p.worker.backoff) (waits : p'.waits = 0)
      (sinceReturn : p'.sinceReturn = p.sinceReturn) (streaming streaming' : Streaming)
      (before : p.worker.run = .streaming streaming)
      (after : p'.worker.run = .streaming streaming') (accepted : streaming'.accepted = true)
  | returned (backoff : p'.worker.backoff = config.reconnectMinDelayS)
      (waits : p'.waits = p.waits) (sinceReturn : p'.sinceReturn = 0) (streaming : Streaming)
      (before : p.worker.run = .streaming streaming) (after : p'.worker.run = .finalizing)
      (stop : p'.worker.stop = p.worker.stop)
      (how : streaming.accepted = true ∨ p.worker.stop = true)
  | broken (same : SamePace p p') (streaming : Streaming)
      (before : p.worker.run = .streaming streaming)
      (after : p'.worker.run.streaming? = none)
      (breaks : streaming.accepted = true → p.breaksActive config e = true)
  | rested (before : p.worker.run = .resting) (after : p'.worker.run = .top)
      (backoff : p'.worker.backoff = min (p.worker.backoff * 2) config.reconnectMaxDelayS)
      (waits : p'.waits = p.waits + 1) (sinceReturn : p'.sinceReturn = p.sinceReturn + 1)

theorem breaksActive_of_step {w : GRPCWorker} {made : Option Callback} {streaming : Streaming}
    (hs : p.worker.step config e = some (w, made)) (hrun : p.worker.run = .streaming streaming)
    (haccepted : streaming.accepted = true) (hout : w.run.streaming? = none)
    (hreturned : w.run ≠ .finalizing) : p.breaksActive config e = true := by
  simp [breaksActive, hs, hrun, haccepted, hout, hreturned]

theorem step_paces (hs : p.step config e = some p') : Paces config e p p' := by
  obtain ⟨⟨w, made⟩, hstep, rfl⟩ := Option.map_eq_some_iff.mp hs
  have hsame (hbackoff : w.backoff = p.worker.backoff) (hevent : e ≠ .backoffOver)
      (hactive : made.any Callback.isActive = false)
      (hreturned : ¬ (p.worker.run.streaming?.isSome = true ∧ w.run = .finalizing)) :
      SamePace p ⟨w, if made.any Callback.isActive then 0
        else p.waits + if e = .backoffOver then 1 else 0,
        if p.worker.run.streaming?.isSome ∧ w.run = .finalizing then 0
        else p.sinceReturn + if e = .backoffOver then 1 else 0⟩ := by
    rw [hactive, if_neg hreturned, if_neg hevent]
    exact ⟨hbackoff, rfl, rfl⟩
  cases GRPCWorker.step_moves hstep with
  | other run backoff stop _ event =>
      refine .other (hsame backoff event rfl ?_) run stop
      rw [run]
      rintro ⟨hinside, hfinal⟩
      rw [hfinal] at hinside
      cases hinside
  | outside before after _ _ ending dead backoff stop quiet _ event =>
      refine .outside (hsame backoff event ?_ ?_) before after ending dead stop
      · cases made with
        | none => rfl
        | some callback =>
            cases callback with
            | onGeneration _ state => cases state <;> first | rfl | cases quiet
            | onAudio _ _ _ => rfl
            | onProtocolError _ _ => rfl
      · rw [before]
        rintro ⟨⟨⟩, -⟩
  | enters event before eq =>
      subst eq
      refine .enters (hsame rfl ?_ rfl ?_) before ⟨_, _, rfl⟩
      · rw [event]
        nofun
      · rintro ⟨-, ⟨⟩⟩
  | resets k streaming event before after backoff stop =>
      refine .inside (hsame backoff ?_ rfl ?_) streaming streaming (by rw [before]; rfl)
        (by rw [after]; rfl) rfl
      · rw [event]
        nofun
      · rw [after]
        rintro ⟨-, ⟨⟩⟩
  | resumes k streaming event before eq =>
      subst eq
      refine .inside (hsame rfl ?_ rfl ?_) streaming streaming (by rw [before]; rfl) rfl rfl
      · rw [event]
        nofun
      · rintro ⟨-, ⟨⟩⟩
  | dies k streaming event before eq =>
      subst eq
      refine .dies (hsame rfl ?_ rfl ?_) streaming (by rw [before]; rfl) rfl
      · rw [event]
        nofun
      · rintro ⟨-, ⟨⟩⟩
  | accepted message streaming streaming' event before handled eq =>
      subst event eq
      have haccepted := handle_active config message streaming
      rw [handled] at haccepted
      refine .reaches rfl rfl ?_ streaming streaming' before rfl haccepted
      show (if _ ∧ _ then 0 else _) = _
      rw [if_neg (by rintro ⟨-, ⟨⟩⟩), if_neg nofun, Nat.add_zero]
  | audio message streaming streaming' start pcm event before handled eq =>
      subst event eq
      have haccepted := handle_active config message streaming
      rw [handled] at haccepted
      exact .inside (hsame rfl nofun rfl (by rintro ⟨-, ⟨⟩⟩)) streaming streaming'
        (by rw [before]; rfl) rfl (haccepted.2.trans haccepted.1.symm)
  | returned streaming before eq how =>
      subst eq
      have hevent : e ≠ .backoffOver := by
        rcases how with ⟨message, rfl, -⟩ | ⟨rfl, -⟩ <;> nofun
      refine .returned rfl ?_ ?_ streaming before rfl rfl ?_
      · show p.waits + (if _ then _ else _) = _
        rw [if_neg hevent, Nat.add_zero]
      · exact if_pos ⟨by rw [before]; rfl, rfl⟩
      · rcases how with ⟨message, -, handled⟩ | ⟨-, hstop⟩
        · have haccepted := handle_active config message streaming
          rw [handled] at haccepted
          exact .inl haccepted
        · exact .inr hstop
  | refused message streaming detail event before handled eq =>
      subst event eq
      exact .broken (hsame rfl nofun rfl (by rintro ⟨-, ⟨⟩⟩)) streaming before rfl
        fun haccepted => breaksActive_of_step hstep before haccepted rfl nofun
  | broken streaming before eq how =>
      subst eq
      have hevent : e ≠ .backoffOver := by
        rcases how with ⟨rfl, -⟩ | rfl <;> nofun
      exact .broken (hsame rfl hevent rfl (by rintro ⟨-, ⟨⟩⟩)) streaming before rfl
        fun haccepted => breaksActive_of_step hstep before haccepted rfl nofun
  | rested event before eq =>
      subst event eq
      refine .rested before rfl rfl ?_ ?_
      · rfl
      · show (if _ ∧ _ then 0 else _) = _
        rw [if_neg (by rintro ⟨-, ⟨⟩⟩), if_pos rfl]

/-! ## Runs -/

/-- What the waits and the delay have to do with each other. -/
structure Paced (config : RemoteFastEnhancerConfig) (p : PacedWorker) : Prop where
  delay : p.worker.backoff = config.delay p.sinceReturn
  active : ∀ streaming, p.worker.run.streaming? = some streaming → streaming.accepted = true →
    p.waits = 0
  /-- A generation that returned without being `ACTIVE` was stopped, and no wait follows. -/
  behind : p.waits ≤ p.sinceReturn ∨ p.worker.stop = true ∧ p.worker.run.ending = true

end PacedWorker

namespace PacedWorker

variable {config : RemoteFastEnhancerConfig} {p p' : PacedWorker} {e : WorkerEvent}

theorem paced_init (config : RemoteFastEnhancerConfig) :
    Paced config ⟨.new config.transportConfig, 0, 0⟩ where
  delay := (delay_zero config).symm
  active _ hplace _ := by cases hplace
  behind := .inl (Nat.le_refl 0)

theorem SamePace.delay (h : SamePace p p') (hp : Paced config p) :
    p'.worker.backoff = config.delay p'.sinceReturn := by
  rw [h.backoff, h.sinceReturn, hp.delay]

theorem Paced.waits_le (h : Paced config p) {run : RunPlace} (hrun : p.worker.run = run)
    (hplace : run.ending = false) : p.waits ≤ p.sinceReturn := by
  rcases h.behind with hle | ⟨-, hending⟩
  · exact hle
  · rw [hrun, hplace] at hending
    cases hending

theorem Paced.step (h : Paced config p) (hs : p.step config.transportConfig e = some p') :
    Paced config p' := by
  cases step_paces hs with
  | other same run stop =>
      refine ⟨same.delay h, ?_, ?_⟩
      · rw [run, same.waits]
        exact h.active
      · rw [run, same.waits, same.sinceReturn]
        exact h.behind.imp_right fun hstop => ⟨stop hstop.1, hstop.2⟩
  | outside same before after ending dead stop =>
      refine ⟨same.delay h, ?_, ?_⟩
      · rw [after]
        nofun
      · rw [same.waits, same.sinceReturn, stop]
        exact h.behind.imp_right fun hstop => ⟨hstop.1, ending hstop.2 hstop.1⟩
  | enters same before after =>
      obtain ⟨n, start, hrun⟩ := after
      refine ⟨same.delay h, ?_, ?_⟩
      · rw [hrun]
        rintro _ ⟨⟩ ⟨⟩
      · rw [same.waits, same.sinceReturn]
        exact .inl (h.waits_le before rfl)
  | inside same streaming streaming' before after accepted =>
      refine ⟨same.delay h, ?_, ?_⟩
      · rw [after, same.waits]
        rintro _ ⟨⟩ haccepted
        exact h.active streaming before (accepted ▸ haccepted)
      · rw [same.waits, same.sinceReturn]
        exact .inl (h.waits_le rfl (outside_of_streaming before).1)
  | dies same streaming before after =>
      refine ⟨same.delay h, ?_, ?_⟩
      · rw [after]
        nofun
      · rw [same.waits, same.sinceReturn]
        exact .inl (h.waits_le rfl (outside_of_streaming before).1)
  | reaches backoff waits sinceReturn streaming streaming' before after accepted =>
      refine ⟨?_, fun _ _ _ => waits, .inl ?_⟩
      · rw [backoff, sinceReturn, h.delay]
      · rw [waits]
        exact Nat.zero_le _
  | returned backoff waits sinceReturn streaming before after stop how =>
      refine ⟨?_, ?_, ?_⟩
      · rw [backoff, sinceReturn, delay_zero]
        rfl
      · rw [after]
        nofun
      · rw [waits, sinceReturn, stop, after]
        rcases how with haccepted | hstop
        · rw [h.active streaming (by rw [before]; rfl) haccepted]
          exact .inl (Nat.le_refl 0)
        · exact .inr ⟨hstop, rfl⟩
  | broken same streaming before after breaks =>
      refine ⟨same.delay h, ?_, ?_⟩
      · rw [after]
        nofun
      · rw [same.waits, same.sinceReturn]
        exact .inl (h.waits_le before rfl)
  | rested before after backoff waits sinceReturn =>
      refine ⟨?_, ?_, ?_⟩
      · rw [backoff, sinceReturn, delay_succ, h.delay]
        rfl
      · rw [after]
        nofun
      · rw [waits, sinceReturn]
        exact .inl (Nat.succ_le_succ (h.waits_le before rfl))

theorem reachable_paced (h : (pacedSystem config.transportConfig).Reachable p) :
    Paced config p :=
  Lts.System.Reachable.invariant (I := Paced config) (paced_init config)
    (fun _ _ _ hI hs => hI.step hs.eq) h

/-- The two counts agree, or the difference does not matter. -/
def Even (config : RemoteFastEnhancerConfig) (p : PacedWorker) : Prop :=
  p.waits = p.sinceReturn ∨ config.reconnectMaxDelayS ≤ config.reconnectMinDelayS

/-- Where every step is steady, the counts agree outside of an `ACTIVE` generation, unless no wait
will follow. -/
inductive Evens (config : RemoteFastEnhancerConfig) (p : PacedWorker) : Prop where
  | even (h : Even config p)
  | active (streaming : Streaming) (place : p.worker.run.streaming? = some streaming)
      (accepted : streaming.accepted = true)
  | stopped (stop : p.worker.stop = true) (ending : p.worker.run.ending = true)
  | dead (h : p.worker.run.dead = true)

theorem SamePace.even (h : SamePace p p') (hp : Even config p) : Even config p' := by
  rw [Even, h.waits, h.sinceReturn]
  exact hp

/-- Between the start of a generation and `ACTIVE`, and in a wait, the counts agree. -/
theorem Evens.of_place (h : Evens config p) (hending : p.worker.run.ending = false)
    (hdead : p.worker.run.dead = false)
    (hplace : ∀ streaming, p.worker.run.streaming? = some streaming →
      streaming.accepted = false) : Even config p := by
  cases h with
  | even heven => exact heven
  | active streaming place accepted =>
      rw [hplace streaming place] at accepted
      cases accepted
  | stopped _ ending =>
      rw [hending] at ending
      cases ending
  | dead h =>
      rw [hdead] at h
      cases h

theorem Evens.step (h : Evens config p) (hpaced : Paced config p)
    (hsteady : p.Steady config.transportConfig e)
    (hs : p.step config.transportConfig e = some p') : Evens config p' := by
  cases step_paces hs with
  | other same run stop =>
      cases h with
      | even heven => exact .even (same.even heven)
      | active streaming place accepted => exact .active streaming (run ▸ place) accepted
      | stopped hstop ending => exact .stopped (stop hstop) (run ▸ ending)
      | dead hdead => exact .dead (run ▸ hdead)
  | outside same before after ending dead stop =>
      cases h with
      | even heven => exact .even (same.even heven)
      | active streaming place accepted =>
          rw [before] at place
          cases place
      | stopped hstop hending => exact .stopped (stop ▸ hstop) (ending hending hstop)
      | dead hdead => exact .dead (dead hdead)
  | enters same before after =>
      refine .even (same.even (h.of_place (by rw [before]; rfl) (by rw [before]; rfl) ?_))
      rw [before]
      nofun
  | inside same streaming streaming' before after accepted =>
      cases haccepted : streaming.accepted with
      | true => exact .active streaming' after (accepted.trans haccepted)
      | false =>
          obtain ⟨hending, hdead⟩ := outside_of_streaming before
          refine .even (same.even (h.of_place hending hdead ?_))
          rw [before]
          rintro _ ⟨⟩
          exact haccepted
  | dies same streaming before after => exact .dead (by rw [after]; rfl)
  | reaches _ _ _ streaming streaming' _ after accepted =>
      exact .active streaming' (by rw [after]; rfl) accepted
  | returned _ waits sinceReturn streaming before after stop how =>
      rcases how with haccepted | hstop
      · refine .even (.inl ?_)
        rw [waits, sinceReturn, hpaced.active streaming (by rw [before]; rfl) haccepted]
      · exact .stopped (stop ▸ hstop) (by rw [after]; rfl)
  | broken same streaming before after breaks =>
      refine .even (same.even ?_)
      cases haccepted : streaming.accepted with
      | true =>
          rw [Even, hpaced.active streaming (by rw [before]; rfl) haccepted]
          exact (hsteady (breaks haccepted)).imp_left Eq.symm
      | false =>
          refine h.of_place (by rw [before]; rfl) (by rw [before]; rfl) ?_
          rw [before]
          rintro _ ⟨⟩
          exact haccepted
  | rested before after _ waits sinceReturn =>
      refine .even ?_
      rw [Even, waits, sinceReturn, Nat.succ_inj]
      refine h.of_place (by rw [before]; rfl) (by rw [before]; rfl) ?_
      rw [before]
      nofun

theorem reachable_evens
    (h : ((pacedSystem config.transportConfig).restrict
      (Steady config.transportConfig)).Reachable p) : Evens config p :=
  Lts.System.Reachable.invariant₂ (I := Evens config) (.even (.inl rfl))
    (fun _ _ _ hreach hI hs =>
      hI.step (reachable_paced hreach.of_restrict) hs.allowed.2 hs.eq) h

end PacedWorker

/-- In a wait the delay is that of the waits since a generation last returned.  It is that of the
waits since a generation was last `ACTIVE` just if there are as many of them, or the maximum is
reached.  In a run whose steps are all steady it always is. -/
theorem backoff_exact (config : RemoteFastEnhancerConfig) (p : PacedWorker)
    (h : (pacedSystem config.transportConfig).Reachable p) (hwait : p.worker.run = .resting) :
    p.worker.backoff = config.delay p.sinceReturn ∧
    (p.worker.backoff = config.delay p.waits ↔ p.waits = p.sinceReturn ∨
      config.reconnectMaxDelayS ≤ config.reconnectMinDelayS * 2 ^ p.waits) ∧
    (((pacedSystem config.transportConfig).restrict
        (PacedWorker.Steady config.transportConfig)).Reachable p →
      p.worker.backoff = config.delay p.waits) := by
  have hpaced := PacedWorker.reachable_paced h
  have hle := hpaced.waits_le hwait rfl
  have hexact : p.worker.backoff = config.delay p.waits ↔ p.waits = p.sinceReturn ∨
      config.reconnectMaxDelayS ≤ config.reconnectMinDelayS * 2 ^ p.waits := by
    rw [hpaced.delay]
    exact delay_eq_iff hle
  refine ⟨hpaced.delay, hexact, fun hsteady => hexact.mpr ?_⟩
  have heven := (PacedWorker.reachable_evens hsteady).of_place (by rw [hwait]; rfl)
    (by rw [hwait]; rfl) (by rw [hwait]; nofun)
  refine heven.imp_right fun hmax => hmax.trans ?_
  exact le_mul_of_one_le_right (delays_ordered config).1.le (one_le_pow₀ (by norm_num))

/-- A generation that reaches `ACTIVE` is broken by an `RpcError`, and the worker waits. -/
def brokenGeneration (k startSample : Nat) : List WorkerEvent :=
  testConnects ++ testSends startSample 256 ++ testCalls ++
    [.response (.accepted testAccepted)] ++ testFails k

/-- The first wait after a generation that was `ACTIVE`. -/
theorem backoff_exact_first :
    ∃ p, (pacedSystem testConfig.transportConfig).Reachable p ∧ p.worker.run = .resting ∧
      p.worker.backoff = testConfig.delay p.waits := by
  obtain ⟨p, -, hreach, hp⟩ := Lts.System.Reachable.of_run
    ((pacedSystem testConfig.transportConfig).restrict
      (PacedWorker.Steady testConfig.transportConfig)) (brokenGeneration 0 0)
    (fun (p : PacedWorker) => decide (p.worker.run = .resting))
    (by decide +kernel) (by decide +kernel)
  have hwait : p.worker.run = .resting := of_decide_eq_true hp
  exact ⟨p, hreach.of_restrict, hwait,
    (backoff_exact testConfig p hreach.of_restrict hwait).2.2 hreach⟩

/-- After two generations that were `ACTIVE`, the second wait is twice as long as the first. -/
theorem backoff_accumulates :
    ¬ ∀ p, (pacedSystem testConfig.transportConfig).Reachable p → p.worker.run = .resting →
      p.worker.backoff = testConfig.delay p.waits := by
  intro hexact
  obtain ⟨p, -, hreach, hp⟩ := Lts.System.Reachable.of_run
    (pacedSystem testConfig.transportConfig)
    (brokenGeneration 0 0 ++ [.backoffOver] ++ brokenGeneration 1 256)
    (fun (p : PacedWorker) => decide (p.worker.run = .resting ∧ p.waits = 0 ∧
      p.worker.backoff = 1 / 5))
    (by decide +kernel) (by decide +kernel)
  obtain ⟨hwait, hwaits, hbackoff⟩ := of_decide_eq_true hp
  have hdelay := hexact p hreach hwait
  rw [hwaits, hbackoff, delay_zero] at hdelay
  exact absurd hdelay (by decide +kernel)

end VoxLattice.Plugin
