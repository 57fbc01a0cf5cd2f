import Mathlib.Order.WellFounded
import Mathlib.Data.List.Basic
import Mathlib.Logic.Relation

/-!
# Labelled transition systems

A system is an initial state, an executable partial step, and the assumption it makes on its
environment.  `step` says what an event does where it can happen at all; `allows` says which
events the environment offers.  Keeping the two apart lets a run be evaluated while the
assumption stays a proposition.

*Runs.*  `Reachable` collects the states of all finite runs, for every choice of events.  The
induction over a run is done once, in `Reachable.invariant`; `Reachable.invariant₂` hands the
step lemma the invariants already known.  `Leads` relates a state to the later ones.

*Answers.*  Where an event carries what a part of the system computes, a run cannot be written down
before it is made.  `play` makes it: such an event is left out of the list, and the state supplies
it (`Reachable.of_play`).

*Restriction.*  `restrict` keeps only the runs whose every step meets a condition on the state
before it.  A property that holds "in every run whose steps all meet the condition" is an
invariant of the restricted system.

*Infinite runs.*  A `Trace` may stand still between events, so a system that has nothing left
to do still has traces.  `Trace.LeadsTo` states a fairness assumption, `LeadsTo.until` carries
what is known to the awaited event, and `Trace.eventually_of_measure` is the liveness rule: if
the measure of every state short of the goal is bettered later on, the goal is reached.  An
evaluated run is a trace (`Trace.ofRun`), whose fairness is decided along the run (`Keeps`).
-/

namespace Lts

/-- A transition system over states `σ` and events `ε`. -/
structure System (σ ε : Type*) where
  /-- The state every run starts in. -/
  init : σ
  /-- The effect of an event, or `none` where the event cannot happen. -/
  step : σ → ε → Option σ
  /-- The events the environment may offer in a state. -/
  allows : σ → ε → Prop

namespace System

variable {σ ε : Type*} (sys : System σ ε)

/-- One step of the system: the environment offers the event and the event happens. -/
structure Step (s : σ) (e : ε) (s' : σ) : Prop where
  /-- The environment offers the event. -/
  allowed : sys.allows s e
  /-- The event leads to the new state. -/
  eq : sys.step s e = some s'

/-- The states of all finite runs. -/
inductive Reachable : σ → Prop where
  | init : Reachable sys.init
  | step {s e s'} : Reachable s → sys.Step s e s' → Reachable s'

/-- The state after a list of events, if all of them happen. -/
def run : σ → List ε → Option σ
  | s, [] => some s
  | s, e :: es => (sys.step s e).bind fun s' => run s' es

/-- Every event of the list is one the environment offers when its turn comes. -/
def Allowed : σ → List ε → Prop
  | _, [] => True
  | s, e :: es => sys.allows s e ∧ ∀ s' ∈ sys.step s e, Allowed s' es

instance Allowed.decidable [∀ s e, Decidable (sys.allows s e)] :
    (s : σ) → (es : List ε) → Decidable (sys.Allowed s es)
  | _, [] => .isTrue trivial
  | s, e :: es =>
    have : ∀ s', Decidable (sys.Allowed s' es) := fun s' => decidable s' es
    inferInstanceAs (Decidable (_ ∧ ∀ s' ∈ sys.step s e, sys.Allowed s' es))

/-- Every state of a run has the property. -/
def Throughout (P : σ → Prop) : σ → List ε → Prop
  | s, [] => P s
  | s, e :: es => P s ∧ ∀ s' ∈ sys.step s e, Throughout P s' es

/-- The system whose runs take only steps that meet `C`. -/
def restrict (C : σ → ε → Prop) : System σ ε where
  init := sys.init
  step := sys.step
  allows s e := sys.allows s e ∧ C s e

instance restrict.decidable (C : σ → ε → Prop) [∀ s e, Decidable (sys.allows s e)]
    [∀ s e, Decidable (C s e)] (s : σ) (e : ε) : Decidable ((sys.restrict C).allows s e) :=
  inferInstanceAs (Decidable (_ ∧ _))

variable {sys}

/-! ## Invariants -/

/-- What holds initially and is preserved by every step holds in every reachable state. -/
theorem Reachable.invariant {I : σ → Prop} (hinit : I sys.init)
    (hstep : ∀ s e s', I s → sys.Step s e s' → I s') {s : σ} (h : sys.Reachable s) : I s := by
  induction h with
  | init => exact hinit
  | step _ hs ih => exact hstep _ _ _ ih hs

/-- The same, with the reachability of the state before the step at hand. -/
theorem Reachable.invariant₂ {I : σ → Prop} (hinit : I sys.init)
    (hstep : ∀ s e s', sys.Reachable s → I s → sys.Step s e s' → I s') {s : σ}
    (h : sys.Reachable s) : I s := by
  induction h with
  | init => exact hinit
  | step hr hs ih => exact hstep _ _ _ hr ih hs

theorem Reachable.run {s s' : σ} {es : List ε} (h : sys.Reachable s) (ha : sys.Allowed s es)
    (hr : sys.run s es = some s') : sys.Reachable s' := by
  induction es generalizing s with
  | nil =>
      cases hr
      exact h
  | cons e es ih =>
      cases hs : sys.step s e with
      | none => simp [System.run, hs] at hr
      | some t =>
          simp only [System.run, hs, Option.bind_some] at hr
          exact ih (h.step ⟨ha.1, hs⟩) (ha.2 t hs) hr

/-- A run that was evaluated leads to a reachable state. -/
theorem Reachable.of_run (sys : System σ ε) (es : List ε) (p : σ → Bool)
    (ha : sys.Allowed sys.init es) (h : (sys.run sys.init es).any p = true) :
    ∃ s, sys.run sys.init es = some s ∧ sys.Reachable s ∧ p s = true := by
  cases hs : sys.run sys.init es with
  | none => simp [hs] at h
  | some s => exact ⟨s, rfl, Reachable.init.run ha hs, by simpa [hs] using h⟩

/-! ## Runs with answers -/

/-- The state after a list of events.  `none` stands for the event that a state itself decides, and
every other event has to pass a test. -/
def play (sys : System σ ε) (answer : σ → ε) (chosen : σ → ε → Bool) :
    σ → List (Option ε) → Option σ
  | s, [] => some s
  | s, none :: es => (sys.step s (answer s)).bind fun s' => play sys answer chosen s' es
  | s, some e :: es =>
    if chosen s e then (sys.step s e).bind fun s' => play sys answer chosen s' es else none

section Play

variable {answer : σ → ε} {chosen : σ → ε → Bool}

theorem Reachable.play
    (hanswer : ∀ s s', sys.Reachable s → sys.step s (answer s) = some s' →
      sys.allows s (answer s))
    (hchosen : ∀ s e, chosen s e = true → sys.allows s e) {s s' : σ} {es : List (Option ε)}
    (h : sys.Reachable s) (hs : sys.play answer chosen s es = some s') : sys.Reachable s' := by
  induction es generalizing s with
  | nil =>
      cases hs
      exact h
  | cons e es ih =>
      cases e with
      | none =>
          obtain ⟨s₁, hs₁, hrest⟩ := Option.bind_eq_some_iff.mp hs
          exact ih (h.step ⟨hanswer s s₁ h hs₁, hs₁⟩) hrest
      | some e =>
          rw [System.play] at hs
          split at hs
          · next he =>
              obtain ⟨s₁, hs₁, hrest⟩ := Option.bind_eq_some_iff.mp hs
              exact ih (h.step ⟨hchosen s e he, hs₁⟩) hrest
          · cases hs

/-- A run with answers that was evaluated leads to a reachable state. -/
theorem Reachable.of_play
    (hanswer : ∀ s s', sys.Reachable s → sys.step s (answer s) = some s' →
      sys.allows s (answer s))
    (hchosen : ∀ s e, chosen s e = true → sys.allows s e) (es : List (Option ε)) (p : σ → Bool)
    (h : (sys.play answer chosen sys.init es).any p = true) :
    ∃ s, sys.Reachable s ∧ p s = true := by
  obtain ⟨s, hs, hp⟩ := (Option.any_eq_true _ _).mp h
  exact ⟨s, .play hanswer hchosen .init hs, hp⟩

end Play

/-! ## Later states -/

/-- Some steps lead from one state to the other. -/
def Leads (sys : System σ ε) : σ → σ → Prop :=
  Relation.ReflTransGen fun s s' => ∃ e, sys.Step s e s'

theorem Reachable.leads {s s' : σ} (h : sys.Reachable s) (hl : sys.Leads s s') :
    sys.Reachable s' := by
  induction hl with
  | refl => exact h
  | tail _ hs ih =>
      obtain ⟨e, hs⟩ := hs
      exact ih.step hs

/-! ## Restriction -/

theorem Step.of_restrict {C : σ → ε → Prop} {s s' : σ} {e : ε}
    (h : (sys.restrict C).Step s e s') : sys.Step s e s' := ⟨h.allowed.1, h.eq⟩

theorem Reachable.of_restrict {C : σ → ε → Prop} {s : σ} (h : (sys.restrict C).Reachable s) :
    sys.Reachable s := by
  induction h with
  | init => exact .init
  | step _ hs ih => exact ih.step hs.of_restrict

/-- A run whose steps all meet `C` is a run of the restricted system. -/
theorem Reachable.restrict {C : σ → ε → Prop} {s : σ} (h : sys.Reachable s)
    (hC : ∀ s e s', sys.Step s e s' → C s e) : (sys.restrict C).Reachable s := by
  induction h with
  | init => exact .init
  | step _ hs ih => exact ih.step ⟨⟨hs.allowed, hC _ _ _ hs⟩, hs.eq⟩

/-- A condition that every step of a restricted run meets as well. -/
theorem Reachable.restrict_of {C C' : σ → ε → Prop} {s : σ} (h : (sys.restrict C).Reachable s)
    (hC : ∀ s e s', (sys.restrict C).Reachable s → (sys.restrict C).Step s e s' → C' s e) :
    (sys.restrict C').Reachable s := by
  induction h with
  | init => exact .init
  | step hr hs ih => exact ih.step ⟨⟨hs.allowed.1, hC _ _ _ hr hs⟩, hs.eq⟩

theorem allowed_of_forall (h : ∀ s e, sys.allows s e) {s : σ} {es : List ε} :
    sys.Allowed s es := by
  induction es generalizing s with
  | nil => trivial
  | cons e es ih => exact ⟨h s e, fun s' _ => ih⟩

/-- If a step leads from a state with the property to one with it just where `C` holds, then a run
keeps the property just where each of its steps meets `C`. -/
theorem throughout_iff_allowed {P : σ → Prop} {C : σ → ε → Prop}
    (hstep : ∀ s e s', sys.Reachable s → P s → sys.Step s e s' → (P s' ↔ C s e)) {s : σ}
    {es : List ε} (h : sys.Reachable s) (hP : P s) (hrun : (sys.run s es).isSome = true)
    (ha : sys.Allowed s es) : sys.Throughout P s es ↔ (sys.restrict C).Allowed s es := by
  induction es generalizing s with
  | nil => exact ⟨fun _ => trivial, fun _ => hP⟩
  | cons e es ih =>
      obtain ⟨s', hs'⟩ : ∃ s', sys.step s e = some s' := by
        cases hs' : sys.step s e with
        | none => simp [run, hs'] at hrun
        | some s' => exact ⟨s', rfl⟩
      have hs : sys.Step s e s' := ⟨ha.1, hs'⟩
      have hrest (hP' : P s') : sys.Throughout P s' es ↔ (sys.restrict C).Allowed s' es :=
        ih (h.step hs) hP' (by simpa [run, hs'] using hrun) (ha.2 s' hs')
      have hiff := hstep s e s' h hP hs
      constructor
      · rintro ⟨-, hall⟩
        have hall' := hall s' hs'
        have hP' : P s' := by
          cases es with
          | nil => exact hall'
          | cons _ _ => exact hall'.1
        refine ⟨⟨ha.1, hiff.mp hP'⟩, fun t ht => ?_⟩
        obtain rfl := Option.some.inj (hs'.symm.trans ht)
        exact (hrest hP').mp hall'
      · rintro ⟨⟨-, hC⟩, hall⟩
        refine ⟨hP, fun t ht => ?_⟩
        obtain rfl := Option.some.inj (hs'.symm.trans ht)
        exact (hrest (hiff.mpr hC)).mpr (hall s' hs')

/-! ## Infinite runs -/

/-- An infinite run.  At an instant with no event the state stays. -/
structure Trace (sys : System σ ε) where
  /-- The state at every instant. -/
  state : ℕ → σ
  /-- The event between two instants, if any. -/
  event : ℕ → Option ε
  /-- The run starts where the system does. -/
  init : state 0 = sys.init
  /-- An event moves the state by a step. -/
  moves : ∀ t e, event t = some e → sys.Step (state t) e (state (t + 1))
  /-- Without an event nothing changes. -/
  stays : ∀ t, event t = none → state (t + 1) = state t

namespace Trace

variable (tr : Trace sys)

theorem reachable (t : ℕ) : sys.Reachable (tr.state t) := by
  induction t with
  | zero =>
      rw [tr.init]
      exact .init
  | succ t ih =>
      cases he : tr.event t with
      | none =>
          rw [tr.stays t he]
          exact ih
      | some e => exact ih.step (tr.moves t e he)

/-- The well-founded liveness rule: if from every instant short of the goal either the goal is
reached or the measure is bettered later on, then the goal is reached. -/
theorem eventually_of_measure {α : Type*} {r : α → α → Prop} (hwf : WellFounded r)
    (μ : ℕ → α) (goal : ℕ → Prop) {t₀ : ℕ}
    (hprogress : ∀ t, t₀ ≤ t → ¬ goal t → ∃ u, t ≤ u ∧ (goal u ∨ r (μ u) (μ t))) (t : ℕ)
    (ht : t₀ ≤ t) : ∃ u, t ≤ u ∧ goal u := by
  induction hm : μ t using hwf.induction generalizing t with
  | h a ih =>
      subst hm
      by_cases hg : goal t
      · exact ⟨t, le_refl t, hg⟩
      · obtain ⟨u, htu, hu | hlt⟩ := hprogress t ht hg
        · exact ⟨u, htu, hu⟩
        · obtain ⟨v, huv, hv⟩ := ih _ hlt u (ht.trans htu) rfl
          exact ⟨v, htu.trans huv, hv⟩

/-- A property that stays until an event happens still holds when the event happens. -/
theorem exists_until {P A : ℕ → Prop} {t : ℕ} (ht : P t)
    (hstep : ∀ u, t ≤ u → P u → ¬ A u → P (u + 1)) (hA : ∃ u, t ≤ u ∧ A u) :
    ∃ u, t ≤ u ∧ P u ∧ A u := by
  by_contra hnone
  push Not at hnone
  have hP : ∀ u, t ≤ u → P u := by
    intro u htu
    induction u, htu using Nat.le_induction with
    | base => exact ht
    | succ u htu ih => exact hstep u htu ih (hnone u htu ih)
  obtain ⟨u, htu, hu⟩ := hA
  exact hnone u htu (hP u htu) hu

/-- The fairness assumptions: whenever `P` holds, an event of `A` happens then or later. -/
def LeadsTo (tr : Trace sys) (P : σ → Prop) (A : ε → Prop) : Prop :=
  ∀ t, P (tr.state t) → ∃ u, t ≤ u ∧ ∃ e, tr.event u = some e ∧ A e

/-- What holds until the awaited event happens still holds when it happens. -/
theorem LeadsTo.until {P : σ → Prop} {A : ε → Prop} (h : tr.LeadsTo P A) {t : ℕ}
    (hP : P (tr.state t)) {Q : ℕ → Prop} (hQ : Q t)
    (hstep : ∀ u, t ≤ u → Q u → (∀ e, tr.event u = some e → ¬ A e) → Q (u + 1)) :
    ∃ u, t ≤ u ∧ Q u ∧ ∃ e, tr.event u = some e ∧ A e :=
  exists_until hQ
    (fun u htu hu hA => hstep u htu hu fun e he hAe => hA ⟨e, he, hAe⟩) (h t hP)

end Trace

/-! ## Finite runs as traces -/

theorem run_append (s : σ) (es es' : List ε) :
    sys.run s (es ++ es') = (sys.run s es).bind fun s' => sys.run s' es' := by
  induction es generalizing s with
  | nil => rfl
  | cons e es ih =>
      rw [List.cons_append, run, run]
      cases sys.step s e with
      | none => rfl
      | some s' => exact ih s'

theorem run_take_isSome {s : σ} {es : List ε} (h : (sys.run s es).isSome = true) (t : ℕ) :
    (sys.run s (es.take t)).isSome = true := by
  rw [← List.take_append_drop t es, run_append] at h
  cases hs : sys.run s (es.take t) with
  | none => simp [hs] at h
  | some s' => rfl

/-- What an evaluated run promises: whenever `P` holds, one of the events to come is in `A`, and
`P` fails at the end. -/
def Keeps (sys : System σ ε) (P : σ → Prop) (A : ε → Prop) : σ → List ε → Prop
  | s, [] => ¬ P s
  | s, e :: es => (P s → ∃ e' ∈ e :: es, A e') ∧ ∀ s' ∈ sys.step s e, Keeps sys P A s' es

instance Keeps.decidable (P : σ → Prop) (A : ε → Prop) [DecidablePred P] [DecidablePred A] :
    (s : σ) → (es : List ε) → Decidable (sys.Keeps P A s es)
  | s, [] => inferInstanceAs (Decidable (¬ P s))
  | s, e :: es =>
    have : ∀ s', Decidable (sys.Keeps P A s' es) := fun s' => decidable P A s' es
    inferInstanceAs (Decidable ((P s → ∃ e' ∈ e :: es, A e') ∧ ∀ s' ∈ sys.step s e, _))

/-- The rest of a run keeps what the run promises. -/
theorem Keeps.drop {P : σ → Prop} {A : ε → Prop} {s s' : σ} {es : List ε}
    (h : sys.Keeps P A s es) {t : ℕ} (hs : sys.run s (es.take t) = some s') :
    sys.Keeps P A s' (es.drop t) := by
  induction es generalizing s t with
  | nil =>
      rw [List.take_nil, run, Option.some.injEq] at hs
      rw [List.drop_nil, ← hs]
      exact h
  | cons e es ih =>
      cases t with
      | zero =>
          rw [List.take_zero, run, Option.some.injEq] at hs
          rw [List.drop_zero, ← hs]
          exact h
      | succ t =>
          rw [List.take_succ_cons, run, Option.bind_eq_some_iff] at hs
          obtain ⟨s₁, hs₁, hs⟩ := hs
          exact ih (h.2 s₁ hs₁) hs

theorem Allowed.drop {s s' : σ} {es : List ε} (h : sys.Allowed s es) {t : ℕ}
    (hs : sys.run s (es.take t) = some s') : sys.Allowed s' (es.drop t) := by
  induction es generalizing s t with
  | nil =>
      rw [List.drop_nil]
      trivial
  | cons e es ih =>
      cases t with
      | zero =>
          rw [List.take_zero, run, Option.some.injEq] at hs
          rw [List.drop_zero, ← hs]
          exact h
      | succ t =>
          rw [List.take_succ_cons, run, Option.bind_eq_some_iff] at hs
          obtain ⟨s₁, hs₁, hs⟩ := hs
          exact ih (h.2 s₁ hs₁) hs

namespace Trace

/-- A finite run, which then stands still. -/
def ofRun (sys : System σ ε) (es : List ε) (ha : sys.Allowed sys.init es)
    (hrun : (sys.run sys.init es).isSome = true) : Trace sys where
  state t := (sys.run sys.init (es.take t)).get (run_take_isSome hrun t)
  event t := es[t]?
  init := by simp [run]
  moves := by
    intro t e he
    obtain ⟨s, hs⟩ := Option.isSome_iff_exists.mp (run_take_isSome hrun t)
    obtain ⟨s', hs'⟩ := Option.isSome_iff_exists.mp (run_take_isSome hrun (t + 1))
    have hdrop : es.drop t = e :: es.drop (t + 1) := by
      obtain ⟨hlt, heq⟩ := List.getElem?_eq_some_iff.mp he
      rw [List.drop_eq_getElem_cons hlt, heq]
    have hallowed := ha.drop hs
    rw [hdrop] at hallowed
    have hstep : sys.step s e = some s' := by
      rw [List.take_add_one, he, run_append, hs] at hs'
      simpa [run, Option.bind_eq_some_iff] using hs'
    simp only [hs, hs', Option.get_some]
    exact ⟨hallowed.1, hstep⟩
  stays := by
    intro t he
    have hlen := List.getElem?_eq_none_iff.mp he
    simp only [List.take_of_length_le hlen, List.take_of_length_le (Nat.le_succ_of_le hlen)]

variable {es : List ε} {ha : sys.Allowed sys.init es}
  {hrun : (sys.run sys.init es).isSome = true}

theorem ofRun_state {t : ℕ} {s : σ} (h : sys.run sys.init (es.take t) = some s) :
    (ofRun sys es ha hrun).state t = s := by
  simp only [ofRun, h, Option.get_some]

/-- After its last event a run stands still. -/
theorem ofRun_state_last {t : ℕ} (h : es.length ≤ t) :
    (ofRun sys es ha hrun).state t = (ofRun sys es ha hrun).state es.length := by
  simp only [ofRun, List.take_of_length_le h, List.take_length]

/-- A run that keeps its promise is fair. -/
theorem ofRun_leadsTo {P : σ → Prop} {A : ε → Prop} (h : sys.Keeps P A sys.init es) :
    (ofRun sys es ha hrun).LeadsTo P A := by
  intro t hP
  obtain ⟨s, hs⟩ := Option.isSome_iff_exists.mp (run_take_isSome hrun t)
  rw [ofRun_state hs] at hP
  have hkeeps := h.drop hs
  cases hdrop : es.drop t with
  | nil =>
      rw [hdrop] at hkeeps
      exact absurd hP hkeeps
  | cons e rest =>
      rw [hdrop] at hkeeps
      obtain ⟨e', hmem, hA⟩ := hkeeps.1 hP
      rw [← hdrop] at hmem
      obtain ⟨k, hk⟩ := List.mem_iff_getElem?.mp hmem
      rw [List.getElem?_drop] at hk
      exact ⟨t + k, Nat.le_add_right t k, e', hk, hA⟩

end Trace

end System

end Lts
