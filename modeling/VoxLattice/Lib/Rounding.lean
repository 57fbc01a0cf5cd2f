import Mathlib.Algebra.Order.Field.Basic
import Mathlib.Algebra.Order.Floor.Ring
import Mathlib.Algebra.Ring.Parity
import Mathlib.Tactic.Linarith

/-!
# The nearest integer, ties to even

`NearestEven x n` says what rounding is to achieve, without an algorithm: `n` is within a half of
`x`, and even where two integers are.  An integer so described is unique
(`NearestEven.unique`), grows with `x` (`NearestEven.mono`) and stays between the integers
that `x` stays between (`NearestEven.bounds`).
-/

namespace Rounding

variable {K : Type*} [Field K] [LinearOrder K]

/-- `n` is the nearest integer to `x`, the even one of two. -/
structure NearestEven (x : K) (n : ℤ) : Prop where
  /-- No integer is nearer. -/
  near : |x - n| ≤ 1 / 2
  /-- Of two that are equally near, it is the even one. -/
  tie : |x - n| = 1 / 2 → Even n

variable [IsStrictOrderedRing K]

theorem nearestEven_intCast (n : ℤ) : NearestEven (n : K) n := by
  constructor
  · rw [sub_self, abs_zero]
    positivity
  · intro h
    rw [sub_self, abs_zero] at h
    linarith

/-- Rounding keeps the order. -/
theorem NearestEven.mono {x y : K} {n m : ℤ} (hx : NearestEven x n) (hy : NearestEven y m)
    (h : x ≤ y) : n ≤ m := by
  by_contra hlt
  have hle : m + 1 ≤ n := by omega
  have hcast : (m : K) + 1 ≤ n := by exact_mod_cast hle
  obtain ⟨hxlow, hxhigh⟩ := abs_le.mp hx.near
  obtain ⟨hylow, hyhigh⟩ := abs_le.mp hy.near
  -- both are half way between `m` and `m + 1`
  have hxtie : x - n = -(1 / 2) := by linarith
  have hytie : y - m = 1 / 2 := by linarith
  have hnm : (n : K) = m + 1 := by linarith
  have hn : n = m + 1 := by exact_mod_cast hnm
  have hneven : Even n := hx.tie (by rw [hxtie, abs_neg, abs_of_pos (by positivity)])
  have hmeven : Even m := hy.tie (by rw [hytie, abs_of_pos (by positivity)])
  rw [hn, Int.even_add_one] at hneven
  exact hneven hmeven

theorem NearestEven.unique {x : K} {n m : ℤ} (hn : NearestEven x n) (hm : NearestEven x m) :
    n = m :=
  le_antisymm (hn.mono hm le_rfl) (hm.mono hn le_rfl)

/-- What lies between two integers is rounded to something between them. -/
theorem NearestEven.bounds {x : K} {n low high : ℤ} (h : NearestEven x n) (hlow : (low : K) ≤ x)
    (hhigh : x ≤ high) : low ≤ n ∧ n ≤ high :=
  ⟨(nearestEven_intCast low).mono h hlow, h.mono (nearestEven_intCast high) hhigh⟩

/-- What is half way above an even integer is rounded down to it. -/
theorem NearestEven.le_iff {x : K} {n m : ℤ} (h : NearestEven x n) (hm : Even m) :
    n ≤ m ↔ x ≤ m + 1 / 2 := by
  constructor
  · intro hle
    have hcast : (n : K) ≤ m := by exact_mod_cast hle
    have hnear := (abs_le.mp h.near).2
    linarith
  · intro hle
    have hhalf : (m : K) + 1 / 2 - m = 1 / 2 := add_sub_cancel_left _ _
    have hdown : NearestEven ((m : K) + 1 / 2) m := by
      constructor
      · rw [hhalf, abs_of_pos (by positivity)]
      · exact fun _ => hm
    exact h.mono hdown hle

end Rounding
