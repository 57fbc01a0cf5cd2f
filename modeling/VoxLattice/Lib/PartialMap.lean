import Mathlib.Data.List.Basic
import Mathlib.Data.Option.Basic

/-!
# Partial maps from positions

A partial map says which positions hold something, and what.  `union` puts two of them together,
`dropBelow` forgets the positions below a bound, and `Covers` says that a range has no gap.  A
buffer made of pieces stands for the union of its pieces (`unions`); as long as they are pairwise
apart, their order does not matter (`unions_eq_some`).
-/

namespace PartialMap

variable {α : Type*}

/-- Nothing is defined. -/
def empty : Nat → Option α := fun _ => none

/-- What either map defines, the first one first. -/
def union (m m' : Nat → Option α) : Nat → Option α := fun p => (m p).or (m' p)

/-- The positions from `low` on. -/
def dropBelow (low : Nat) (m : Nat → Option α) : Nat → Option α :=
  fun p => if low ≤ p then m p else none

/-- What some map of the list defines, the first one first. -/
def unions (l : List (Nat → Option α)) : Nat → Option α := l.foldr union empty

/-- No position is defined twice. -/
def Apart (m m' : Nat → Option α) : Prop := ∀ p, m p = none ∨ m' p = none

/-- Every position of the range is defined. -/
def Covers (m : Nat → Option α) (start count : Nat) : Prop :=
  ∀ p, start ≤ p → p < start + count → (m p).isSome = true

variable {m m' : Nat → Option α} {l : List (Nat → Option α)} {p : Nat} {x : α}

theorem ext_some (h : ∀ p x, m p = some x ↔ m' p = some x) : m = m' :=
  funext fun p => Option.ext (h p)

@[simp] theorem unions_nil : unions ([] : List (Nat → Option α)) p = none := rfl

@[simp] theorem unions_cons : unions (m :: l) p = (m p).or (unions l p) := rfl

theorem unions_eq_none : unions l p = none ↔ ∀ m ∈ l, m p = none := by
  induction l with
  | nil => simp
  | cons m l ih => rw [unions_cons, Option.or_eq_none_iff, ih, List.forall_mem_cons]

theorem union_eq_some (h : Apart m m') :
    union m m' p = some x ↔ m p = some x ∨ m' p = some x := by
  rw [union]
  rcases h p with hnone | hnone
  · simp [hnone]
  · simp [hnone]

/-- Of maps that are pairwise apart, any one may define a position. -/
theorem unions_eq_some (h : l.Pairwise Apart) : unions l p = some x ↔ ∃ m ∈ l, m p = some x := by
  induction l with
  | nil => simp
  | cons m l ih =>
      obtain ⟨hm, hl⟩ := List.pairwise_cons.mp h
      have hapart : Apart m (unions l) := fun q => by
        by_cases hq : m q = none
        · exact .inl hq
        · exact .inr (unions_eq_none.mpr fun m' hmem => ((hm m' hmem) q).resolve_left hq)
      rw [unions_cons, ← union, union_eq_some hapart, ih hl, List.exists_mem_cons_iff]

theorem dropBelow_eq_some {low : Nat} :
    dropBelow low m p = some x ↔ low ≤ p ∧ m p = some x := by
  rw [dropBelow]
  split
  · next h => simp [h]
  · next h => simp [h]

end PartialMap
