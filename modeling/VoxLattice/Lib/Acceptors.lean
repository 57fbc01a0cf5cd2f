import Mathlib.Data.List.Induction

/-!
# Loops over messages

A loop that takes messages one at a time handles a message and goes on, or is left there.  What
it does on a sequence is settled by the longest beginning it survives: its outputs are those of
this beginning, and the message after it is where the loop is left (`run_left`).

*Grammars.*  A set of sequences that is described by other means is compared with the sequences
that a loop survives; `Longest` is the notion both are compared through.  The message after the
longest beginning in the set is the first that does not belong (`Longest.offends`).
-/

namespace Acceptors

variable {σ μ ο χ : Type*}

/-! ## Longest beginnings -/

/-- `part` is the longest beginning of the sequence that has `P`. -/
structure Longest (P : List μ → Prop) (messages part : List μ) : Prop where
  starts : part <+: messages
  holds : P part
  longest : ∀ other, other <+: messages → P other → other.length ≤ part.length

namespace Longest

variable {P : List μ → Prop} {messages part : List μ}

/-- The message after the longest beginning does not belong. -/
theorem offends {m : μ} {tail : List μ} (h : Longest P messages part)
    (heq : messages = part ++ m :: tail) : ¬ P (part ++ [m]) := by
  intro hlonger
  have hle := h.longest (part ++ [m]) ⟨tail, by simp [heq]⟩ hlonger
  rw [List.length_append, List.length_singleton] at hle
  omega

theorem exists_longest (hnil : P []) (messages : List μ) : ∃ part, Longest P messages part := by
  induction messages using List.reverseRecOn with
  | nil =>
      refine ⟨[], List.prefix_rfl, hnil, fun other hother _ => ?_⟩
      exact (List.prefix_nil.mp hother) ▸ Nat.le_refl _
  | append_singleton messages m ih =>
      by_cases hall : P (messages ++ [m])
      · exact ⟨_, List.prefix_rfl, hall, fun other hother _ => hother.length_le⟩
      · obtain ⟨part, hpart⟩ := ih
        refine ⟨part, hpart.starts.trans (List.prefix_append messages [m]), hpart.holds, ?_⟩
        intro other hother hP
        obtain rfl | hshort := List.prefix_concat_iff.mp hother
        · exact absurd hP hall
        · exact hpart.longest other hshort hP

end Longest

/-! ## Loops -/

/-- A loop with state `σ` over messages `μ`, with outputs `ο` and ways `χ` to leave it. -/
structure Acceptor (σ μ ο χ : Type*) where
  /-- The round of a message. -/
  round : σ → μ → Except χ (σ × List ο)

namespace Acceptor

variable (a : Acceptor σ μ ο χ)

/-- The outputs on a sequence, and how the loop was left or the state it waits in. -/
def run : σ → List μ → List ο × Except χ σ
  | s, [] => ([], .ok s)
  | s, m :: rest =>
    match a.round s m with
    | .error exit => ([], .error exit)
    | .ok (s', outputs) => (outputs ++ (run s' rest).1, (run s' rest).2)

/-- The loop survives the sequence. -/
def Survives (s : σ) (messages : List μ) (outputs : List ο) (s' : σ) : Prop :=
  a.run s messages = (outputs, .ok s')

variable {a} {s s' s'' : σ} {messages messages' : List μ} {outputs outputs' : List ο}

theorem run_round {m : μ} (h : a.round s m = .ok (s', outputs)) :
    a.run s (m :: messages) = (outputs ++ (a.run s' messages).1, (a.run s' messages).2) := by
  rw [run, h]

theorem run_exit {m : μ} {exit : χ} (h : a.round s m = .error exit) :
    a.run s (m :: messages) = ([], .error exit) := by
  rw [run, h]

theorem Survives.nil : a.Survives s [] [] s := rfl

theorem Survives.run_append (h : a.Survives s messages outputs s') :
    a.run s (messages ++ messages') =
      (outputs ++ (a.run s' messages').1, (a.run s' messages').2) := by
  induction messages generalizing s outputs with
  | nil =>
      cases h
      rfl
  | cons m rest ih =>
      unfold Survives at h
      rw [List.cons_append]
      cases hround : a.round s m with
      | error exit =>
          rw [run_exit hround] at h
          cases h
      | ok made =>
          obtain ⟨mid, first⟩ := made
          rw [run_round hround, Prod.mk.injEq] at h
          obtain ⟨rfl, hstate⟩ := h
          have hrest : a.Survives mid rest (a.run mid rest).1 s' := Prod.ext rfl hstate
          rw [run_round hround, ih hrest, List.append_assoc]

theorem Survives.append (h : a.Survives s messages outputs s')
    (h' : a.Survives s' messages' outputs' s'') :
    a.Survives s (messages ++ messages') (outputs ++ outputs') s'' := by
  unfold Survives at h' ⊢
  rw [h.run_append, h']

theorem Survives.round {m : μ} (h : a.Survives s messages outputs s')
    (hround : a.round s' m = .ok (s'', outputs')) :
    a.Survives s (messages ++ [m]) (outputs ++ outputs') s'' := by
  refine h.append ?_
  unfold Survives
  rw [run_round hround]
  exact Prod.ext (List.append_nil _) rfl

/-- The loop is left at the message after what it survives. -/
theorem Survives.run_left {m : μ} {tail : List μ} {exit : χ}
    (h : a.Survives s messages outputs s') (hround : a.round s' m = .error exit) :
    a.run s (messages ++ m :: tail) = (outputs, .error exit) := by
  rw [h.run_append, run_exit hround, List.append_nil]

/-- Where the loop survives just the sequences with `P`, the longest beginning with `P` is what
it survives, and it is left at the next message, if there is one. -/
theorem run_longest {P : List μ → Prop} {part : List μ}
    (hP : ∀ ms, P ms ↔ ∃ outputs s', a.Survives s ms outputs s')
    (h : Longest P messages part) :
    ∃ outputs s', a.Survives s part outputs s' ∧ ∀ rest, messages = part ++ rest →
      rest = [] ∧ a.run s messages = (outputs, .ok s') ∨
      ∃ m tail exit, rest = m :: tail ∧ a.round s' m = .error exit ∧
        a.run s messages = (outputs, .error exit) := by
  obtain ⟨outputs, s', hpart⟩ := (hP part).mp h.holds
  refine ⟨outputs, s', hpart, fun rest heq => ?_⟩
  cases rest with
  | nil =>
      rw [List.append_nil] at heq
      exact .inl ⟨rfl, heq ▸ hpart⟩
  | cons m tail =>
      cases hround : a.round s' m with
      | error exit => exact .inr ⟨m, tail, exit, rfl, hround, heq ▸ hpart.run_left hround⟩
      | ok made => exact absurd ((hP _).mpr ⟨_, _, hpart.round hround⟩) (h.offends heq)

end Acceptor

end Acceptors
