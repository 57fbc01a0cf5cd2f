import Mathlib.Data.List.Basic

/-!
# Bounded first-in first-out queues

The queue carries its bound as a field, so a queue longer than its capacity cannot be built.
Capacity `0` means no bound, as in the standard library this models.  `putNowait` and
`getNowait` are the non-blocking operations; `none` is the exception they raise.

A consumer that empties the queue and puts one item back always finds room
(`clear_putNowait`), whatever the capacity.
-/

/-- A queue of capacity `maxsize`, oldest item first. -/
@[ext] structure BoundedQueue (α : Type*) where
  /-- The capacity; `0` is unbounded. -/
  maxsize : Nat
  /-- The items, oldest first. -/
  items : List α
  /-- The items fit. -/
  bounded : 0 < maxsize → items.length ≤ maxsize

namespace BoundedQueue

variable {α : Type*}

/-- The empty queue of a capacity. -/
def new (maxsize : Nat) : BoundedQueue α := ⟨maxsize, [], fun _ => Nat.zero_le _⟩

/-- No item is queued. -/
def empty (q : BoundedQueue α) : Bool := q.items.isEmpty

/-- There is no room for another item. -/
def full (q : BoundedQueue α) : Bool := decide (0 < q.maxsize ∧ q.maxsize ≤ q.items.length)

/-- Put at the tail, or `none` when the queue is full. -/
def putNowait (q : BoundedQueue α) (a : α) : Option (BoundedQueue α) :=
  if h : q.full then none
  else some ⟨q.maxsize, q.items ++ [a], fun hpos => by
    simp only [full, decide_eq_true_eq, not_and] at h
    have := h hpos
    simp only [List.length_append, List.length_cons, List.length_nil]
    omega⟩

/-- Take the head, or `none` when the queue is empty. -/
def getNowait (q : BoundedQueue α) : Option (α × BoundedQueue α) :=
  match h : q.items with
  | [] => none
  | a :: rest => some (a, ⟨q.maxsize, rest, fun hpos => by
      have := q.bounded hpos
      rw [h] at this
      exact Nat.le_of_succ_le this⟩)

/-- The queue after its consumer took everything. -/
def clear (q : BoundedQueue α) : BoundedQueue α := new q.maxsize

/-- The queue after its consumer took everything and one item was put. -/
def only (q : BoundedQueue α) (a : α) : BoundedQueue α := ⟨q.maxsize, [a], fun h => h⟩

@[simp] theorem new_items (n : Nat) : (new n : BoundedQueue α).items = [] := rfl

@[simp] theorem new_maxsize (n : Nat) : (new n : BoundedQueue α).maxsize = n := rfl

@[simp] theorem clear_items (q : BoundedQueue α) : q.clear.items = [] := rfl

@[simp] theorem clear_maxsize (q : BoundedQueue α) : q.clear.maxsize = q.maxsize := rfl

@[simp] theorem only_items (q : BoundedQueue α) (a : α) : (q.only a).items = [a] := rfl

@[simp] theorem only_maxsize (q : BoundedQueue α) (a : α) : (q.only a).maxsize = q.maxsize := rfl

@[simp] theorem empty_iff {q : BoundedQueue α} : q.empty = true ↔ q.items = [] := by
  simp [empty]

@[simp] theorem empty_eq_false_iff {q : BoundedQueue α} : q.empty = false ↔ q.items ≠ [] := by
  simp [empty]

theorem full_iff {q : BoundedQueue α} :
    q.full = true ↔ 0 < q.maxsize ∧ q.maxsize ≤ q.items.length := by
  simp [full]

theorem putNowait_eq_none {q : BoundedQueue α} {a : α} :
    q.putNowait a = none ↔ q.full = true := by
  unfold putNowait
  split <;> simp_all

/-- A put that returns has appended the item to a queue with room. -/
theorem putNowait_eq_some {q q' : BoundedQueue α} {a : α} (h : q.putNowait a = some q') :
    q.full = false ∧ q'.items = q.items ++ [a] ∧ q'.maxsize = q.maxsize := by
  unfold putNowait at h
  split at h
  · cases h
  · next hfull =>
      cases h
      exact ⟨by simpa using hfull, rfl, rfl⟩

/-- A queue with room takes an item. -/
theorem exists_putNowait {q : BoundedQueue α} (h : q.items.length < q.maxsize) (a : α) :
    ∃ q', q.putNowait a = some q' ∧ q'.items = q.items ++ [a] ∧ q'.maxsize = q.maxsize := by
  cases hput : q.putNowait a with
  | none => exact absurd (full_iff.mp (putNowait_eq_none.mp hput)).2 (Nat.not_le.mpr h)
  | some q' => exact ⟨q', rfl, (putNowait_eq_some hput).2⟩

theorem getNowait_eq_none {q : BoundedQueue α} : q.getNowait = none ↔ q.items = [] := by
  unfold getNowait
  split <;> simp_all

/-- A get that returns has taken the head. -/
theorem getNowait_eq_some {q q' : BoundedQueue α} {a : α} (h : q.getNowait = some (a, q')) :
    q.items = a :: q'.items ∧ q'.maxsize = q.maxsize := by
  unfold getNowait at h
  split at h
  · cases h
  · next hitems =>
      cases h
      exact ⟨hitems, rfl⟩

/-- A queue with a head gives it. -/
theorem exists_getNowait {q : BoundedQueue α} {a : α} {rest : List α} (h : q.items = a :: rest) :
    ∃ q', q.getNowait = some (a, q') ∧ q'.items = rest ∧ q'.maxsize = q.maxsize := by
  cases hget : q.getNowait with
  | none =>
      rw [getNowait_eq_none.mp hget] at h
      cases h
  | some result =>
      obtain ⟨b, q'⟩ := result
      obtain ⟨hitems, hmax⟩ := getNowait_eq_some hget
      rw [h] at hitems
      cases hitems
      exact ⟨q', rfl, rfl, hmax⟩

/-- After a drain there is room for one item. -/
theorem clear_putNowait (q : BoundedQueue α) (a : α) : q.clear.putNowait a = some (q.only a) := by
  unfold putNowait
  have hroom : ¬ q.clear.full = true := by
    rw [full_iff, clear_maxsize, clear_items, List.length_nil]
    omega
  rw [dif_neg hroom]
  rfl

end BoundedQueue
