import Mathlib.Data.Fin.Tuple.Basic
import Mathlib.Data.List.Basic

/-!
# Machines that answer every input

A step takes an input and the state, and returns an output and the next state.  `run` feeds a list
of inputs.  A `cascade` feeds what one machine answers to another.

`state`, `output` and `final` are for inputs over a finite axis of time, as the axis of a tensor.
There, machines are put together: `wrap` puts functions around one, `each` runs one for every index
of a family, and `chain` feeds each of a list of machines what the one before it answers.  The
lemmas say that running the whole over the axis is running the parts, one after the other, each over
all of the axis.
-/

namespace Mealy

variable {σ τ ι κ ο : Type*}

/-! ## Lists of inputs -/

/-- The outputs, and the state at the end. -/
def run (step : ι → σ → ο × σ) : σ → List ι → List ο × σ
  | s, [] => ([], s)
  | s, x :: xs =>
    let (y, s) := step x s
    let (ys, s) := run step s xs
    (y :: ys, s)

/-- What one machine answers goes to another. -/
def cascade (first : ι → σ → κ × σ) (second : κ → τ → ο × τ) (x : ι) (s : σ × τ) :
    ο × (σ × τ) :=
  let (y, s₁) := first x s.1
  let (z, s₂) := second y s.2
  (z, (s₁, s₂))

section Run

variable (step : ι → σ → ο × σ) (s : σ)

@[simp] theorem run_nil : run step s [] = ([], s) := rfl

@[simp] theorem run_cons (x : ι) (xs : List ι) :
    run step s (x :: xs) =
      ((step x s).1 :: (run step (step x s).2 xs).1, (run step (step x s).2 xs).2) := rfl

@[simp] theorem run_length (xs : List ι) : (run step s xs).1.length = xs.length := by
  induction xs generalizing s with
  | nil => rfl
  | cons x xs ih => exact congrArg Nat.succ (ih _)

/-- What every answer to the inputs is, every output is. -/
theorem run_forall {P : ο → Prop} {xs : List ι} (h : ∀ x ∈ xs, ∀ s, P (step x s).1) :
    ∀ y ∈ (run step s xs).1, P y := by
  induction xs generalizing s with
  | nil => exact fun y hy => absurd hy List.not_mem_nil
  | cons x xs ih =>
      rw [run_cons, List.forall_mem_cons]
      exact ⟨h x List.mem_cons_self s, ih _ fun x hx => h x (List.mem_cons_of_mem _ hx)⟩

/-- Inputs in two parts. -/
theorem run_append (xs ys : List ι) :
    run step s (xs ++ ys) = ((run step s xs).1 ++ (run step (run step s xs).2 ys).1,
      (run step (run step s xs).2 ys).2) := by
  induction xs generalizing s with
  | nil => rfl
  | cons x xs ih => rw [List.cons_append, run_cons, ih, run_cons, List.cons_append]

/-- A machine that keeps a function of the state and answers from it. -/
theorem run_state_map (f : σ → τ) {step : ι → σ → ο × σ} {step' : ι → τ → ο × τ}
    (h : ∀ x s, step' x (f s) = ((step x s).1, f (step x s).2)) (s : σ) (xs : List ι) :
    run step' (f s) xs = ((run step s xs).1, f (run step s xs).2) := by
  induction xs generalizing s with
  | nil => rfl
  | cons x xs ih =>
      rw [run_cons, h, ih, run_cons]

/-- A function of the outputs. -/
theorem run_map {ο' : Type*} (f : ο → ο') (xs : List ι) :
    run (fun x s => (f (step x s).1, (step x s).2)) s xs =
      ((run step s xs).1.map f, (run step s xs).2) := by
  induction xs generalizing s with
  | nil => rfl
  | cons x xs ih => rw [run_cons, ih, run_cons, List.map_cons]

/-- A function of the inputs. -/
theorem run_comap {ι' : Type*} (f : ι' → ι) (xs : List ι') :
    run (fun x => step (f x)) s xs = run step s (xs.map f) := by
  induction xs generalizing s with
  | nil => rfl
  | cons x xs ih => rw [run_cons, ih, List.map_cons, run_cons]

/-- The second machine reads what the first one answered. -/
theorem run_cascade (first : ι → σ → κ × σ) (second : κ → τ → ο × τ) (s : σ) (t : τ)
    (xs : List ι) :
    run (cascade first second) (s, t) xs =
      ((run second t (run first s xs).1).1, ((run first s xs).2,
        (run second t (run first s xs).1).2)) := by
  induction xs generalizing s t with
  | nil => rfl
  | cons x xs ih =>
      rw [run_cons, run_cons, run_cons]
      exact congrArg (fun r => ((cascade first second x (s, t)).1 :: r.1, r.2)) (ih _ _)

end Run

/-! ## An axis of time -/

section Axis

variable {T : ℕ} (step : ι → σ → ο × σ) (s : σ) (xs : Fin T → ι)

/-- The state before each input, and the one at the end. -/
def state : Fin (T + 1) → σ := Fin.induction s fun t s => (step (xs t) s).2

/-- The answer to each input. -/
def output (t : Fin T) : ο := (step (xs t) (state step s xs t.castSucc)).1

/-- The state at the end. -/
def final : σ := state step s xs (Fin.last T)

@[simp] theorem state_zero : state step s xs 0 = s := rfl

@[simp] theorem state_succ (t : Fin T) :
    state step s xs t.succ = (step (xs t) (state step s xs t.castSucc)).2 := rfl

/-- Machines that agree on the states that are reached. -/
theorem state_congr {step step' : ι → σ → ο × σ} {P : σ → Prop}
    (h : ∀ x s, P s → step x s = step' x s ∧ P (step x s).2) {s : σ} (hs : P s) (xs : Fin T → ι)
    (t : Fin (T + 1)) : state step s xs t = state step' s xs t ∧ P (state step s xs t) := by
  induction t using Fin.induction with
  | zero => exact ⟨rfl, hs⟩
  | succ t ih =>
      obtain ⟨heq, hP⟩ := ih
      obtain ⟨hstep, hnext⟩ := h (xs t) _ hP
      refine ⟨?_, hnext⟩
      rw [state_succ, state_succ, ← heq, hstep]

theorem output_congr {step step' : ι → σ → ο × σ} {P : σ → Prop}
    (h : ∀ x s, P s → step x s = step' x s ∧ P (step x s).2) {s : σ} (hs : P s) (xs : Fin T → ι)
    (t : Fin T) : output step s xs t = output step' s xs t := by
  obtain ⟨heq, hP⟩ := state_congr h hs xs t.castSucc
  rw [output, output, ← heq, (h _ _ hP).1]

theorem state_tail {T : ℕ} (xs : Fin (T + 1) → ι) (t : Fin (T + 1)) :
    state step s xs t.succ = state step (step (xs 0) s).2 (fun t => xs t.succ) t := by
  induction t using Fin.induction with
  | zero => rfl
  | succ t ih => rw [state_succ, Fin.castSucc_succ, ih, state_succ]

/-- A list of inputs as an axis of time. -/
theorem run_ofFn {T : ℕ} (xs : Fin T → ι) :
    run step s (List.ofFn xs) = (List.ofFn (output step s xs), final step s xs) := by
  induction T generalizing s with
  | zero => rfl
  | succ T ih =>
      have houtput (t : Fin T) : output step s xs t.succ =
          output step (step (xs 0) s).2 (fun t => xs t.succ) t := by
        rw [output, output, Fin.castSucc_succ, state_tail]
      have hfinal : final step s xs = final step (step (xs 0) s).2 fun t => xs t.succ :=
        state_tail step s xs (Fin.last T)
      rw [List.ofFn_succ, run_cons, ih, List.ofFn_succ, hfinal]
      simp only [houtput]
      rfl

/-- One input. -/
theorem output_one (x : Fin 1 → ι) : output step s x 0 = (step (x 0) s).1 := rfl

theorem final_one (x : Fin 1 → ι) : final step s x = (step (x 0) s).2 := rfl

end Axis

/-! ## Machines put together -/

section Wrap

variable {T : ℕ} {ι' ο' : Type*} (before : ι' → ι) (after : ι' → ο → ο') (step : ι → σ → ο × σ)

/-- A machine behind a function of its inputs and before a function of its outputs. -/
def wrap (x : ι') (s : σ) : ο' × σ := (after x (step (before x) s).1, (step (before x) s).2)

variable (s : σ) (xs : Fin T → ι')

theorem state_wrap (t : Fin (T + 1)) :
    state (wrap before after step) s xs t = state step s (fun t => before (xs t)) t := by
  induction t using Fin.induction with
  | zero => rfl
  | succ t ih => rw [state_succ, state_succ, ih, wrap]

theorem output_wrap (t : Fin T) : output (wrap before after step) s xs t =
    after (xs t) (output step s (fun t => before (xs t)) t) := by
  rw [output, state_wrap, wrap, output]

end Wrap

section Each

variable {T : ℕ} {φ : Type*} (step : ι → σ → ο × σ)

/-- One machine for every index of a family. -/
def each (xs : φ → ι) (ss : φ → σ) : (φ → ο) × (φ → σ) :=
  (fun i => (step (xs i) (ss i)).1, fun i => (step (xs i) (ss i)).2)

variable (ss : φ → σ) (xs : Fin T → φ → ι)

theorem state_each (t : Fin (T + 1)) (i : φ) :
    state (each step) ss xs t i = state step (ss i) (fun t => xs t i) t := by
  induction t using Fin.induction with
  | zero => rfl
  | succ t ih => exact congrArg (fun s => (step (xs t i) s).2) ih

theorem output_each (t : Fin T) (i : φ) :
    output (each step) ss xs t i = output step (ss i) (fun t => xs t i) t :=
  congrArg (fun s => (step (xs t i) s).1) (state_each step ss xs _ i)

end Each

section Chain

/-- A list of machines, each with its own state. -/
def chain : List (ι → σ → ι × σ) → ι → List σ → ι × List σ
  | [], x, _ => (x, [])
  | _ :: _, x, [] => (x, [])
  | step :: rest, x, s :: ss =>
    let (y, s) := step x s
    let (z, ss) := chain rest y ss
    (z, s :: ss)

variable {T : ℕ} (step : ι → σ → ι × σ) (rest : List (ι → σ → ι × σ)) (s : σ) (ss : List σ)
  (xs : Fin T → ι)

/-- Every machine keeps its state. -/
theorem chain_length {steps : List (ι → σ → ι × σ)} {ss : List σ} (h : ss.length = steps.length)
    (x : ι) : (chain steps x ss).2.length = steps.length := by
  induction steps generalizing ss x with
  | nil => rfl
  | cons step rest ih =>
      cases ss with
      | nil => simp at h
      | cons s ss => exact congrArg Nat.succ (ih (Nat.succ.inj h) _)

theorem state_chain_cons (t : Fin (T + 1)) :
    state (chain (step :: rest)) (s :: ss) xs t =
      state step s xs t :: state (chain rest) ss (output step s xs) t := by
  induction t using Fin.induction with
  | zero => rfl
  | succ t ih => rw [state_succ, ih, chain, state_succ, state_succ, output]

theorem output_chain_cons (t : Fin T) :
    output (chain (step :: rest)) (s :: ss) xs t =
      output (chain rest) ss (output step s xs) t := by
  rw [output, state_chain_cons, chain, output, output]

theorem final_chain_cons : final (chain (step :: rest)) (s :: ss) xs =
    final step s xs :: final (chain rest) ss (output step s xs) :=
  state_chain_cons step rest s ss xs _

theorem output_chain_nil (t : Fin T) :
    output (chain ([] : List (ι → σ → ι × σ))) ss xs t = xs t := by
  rw [output, chain]

theorem final_chain_nil : final (chain ([] : List (ι → σ → ι × σ))) [] xs = [] := by
  have h (t : Fin (T + 1)) : state (chain ([] : List (ι → σ → ι × σ))) [] xs t = [] := by
    induction t using Fin.induction with
    | zero => rfl
    | succ t _ => rw [state_succ, chain]
  exact h _

end Chain

end Mealy
