import Mathlib.Algebra.BigOperators.Group.List.Basic
import Mathlib.Algebra.GroupWithZero.Nat
import Mathlib.Data.List.Infix

/-!
# Lists of adjacent intervals

Many parts of a streaming protocol are lists of items that each cover an interval of one
sample axis: source hops, output events, wire messages.  `Tiles p l` says that the items of
`l`, in order, cover adjacent non-empty intervals from position `p` on, and `total` is the
length they cover together.  An item is seen through two functions, its start and its length,
so that one set of lemmas serves all of these lists.
-/

namespace Intervals

variable {α β : Type*} {start len : α → Nat}

/-- The length a list of items covers. -/
def total (len : α → Nat) (l : List α) : Nat := (l.map len).sum

/-- The items cover adjacent non-empty intervals, the first of them starting at `p`. -/
def Tiles (start len : α → Nat) : Nat → List α → Prop
  | _, [] => True
  | p, a :: l => start a = p ∧ 0 < len a ∧ Tiles start len (p + len a) l

@[simp] theorem total_nil : total len [] = 0 := rfl

@[simp] theorem total_cons (a : α) (l : List α) : total len (a :: l) = len a + total len l := by
  simp [total]

@[simp] theorem total_append (l l' : List α) :
    total len (l ++ l') = total len l + total len l' := by
  simp [total]

/-- Items of one length cover that length as often as there are items. -/
theorem total_of_forall_eq {n : Nat} {l : List α} (h : ∀ a ∈ l, len a = n) :
    total len l = l.length * n := by
  induction l with
  | nil => simp
  | cons a l ih =>
      rw [total_cons, h a (List.mem_cons_self ..), ih fun b hb => h b (List.mem_cons_of_mem _ hb),
        List.length_cons, Nat.succ_mul, Nat.add_comm]

theorem total_le_of_isPrefix {l l' : List α} (h : l <+: l') : total len l ≤ total len l' := by
  obtain ⟨m, rfl⟩ := h
  rw [total_append]
  exact Nat.le_add_right _ _

@[simp] theorem tiles_nil (p : Nat) : Tiles start len p [] := trivial

@[simp] theorem tiles_cons {p : Nat} {a : α} {l : List α} :
    Tiles start len p (a :: l) ↔
      start a = p ∧ 0 < len a ∧ Tiles start len (p + len a) l := Iff.rfl

theorem tiles_append {p : Nat} {l l' : List α} :
    Tiles start len p (l ++ l') ↔
      Tiles start len p l ∧ Tiles start len (p + total len l) l' := by
  induction l generalizing p with
  | nil => simp
  | cons a l ih => simp [ih, and_assoc, Nat.add_assoc]

theorem tiles_singleton {p : Nat} {a : α} :
    Tiles start len p [a] ↔ start a = p ∧ 0 < len a := by simp

theorem Tiles.of_isPrefix {p : Nat} {l l' : List α} (h : Tiles start len p l')
    (hl : l <+: l') : Tiles start len p l := by
  obtain ⟨m, rfl⟩ := hl
  exact (tiles_append.mp h).1

/-- The item after an initial segment starts where the segment ends. -/
theorem Tiles.start_eq {p : Nat} {l m : List α} {a : α}
    (h : Tiles start len p (l ++ a :: m)) : start a = p + total len l :=
  (tiles_append.mp h).2.1

/-- Where the items have one length, their places say where they start. -/
theorem Tiles.start_of_forall_eq {n p : Nat} {l : List α} (h : Tiles start len p l)
    (hlen : ∀ a ∈ l, len a = n) {k : Nat} {a : α} (hk : l[k]? = some a) :
    start a = p + n * k := by
  induction l generalizing p k with
  | nil => simp at hk
  | cons b l ih =>
      obtain ⟨hb, -, htail⟩ := h
      cases k with
      | zero =>
          rw [List.getElem?_cons_zero, Option.some.injEq] at hk
          rw [← hk, hb, Nat.mul_zero, Nat.add_zero]
      | succ k =>
          rw [List.getElem?_cons_succ] at hk
          have hstart := ih htail (fun a ha => hlen a (List.mem_cons_of_mem _ ha)) hk
          rw [hstart, hlen b List.mem_cons_self, Nat.mul_succ]
          omega

/-- Lists that cover the same intervals tile alike. -/
theorem Tiles.of_map_eq {start' len' : β → Nat} {p : Nat} {l : List α} {l' : List β}
    (h : Tiles start' len' p l')
    (heq : l.map (fun a => (start a, len a)) = l'.map fun b => (start' b, len' b)) :
    Tiles start len p l := by
  induction l generalizing l' p with
  | nil => trivial
  | cons a l ih =>
      cases l' with
      | nil => cases heq
      | cons b l' =>
          obtain ⟨hab, hl⟩ := List.cons.inj heq
          obtain ⟨hs, hlen⟩ := Prod.mk.inj hab
          obtain ⟨hp, hpos, ht⟩ := h
          exact ⟨hs.trans hp, hlen ▸ hpos, ih (hlen ▸ ht) hl⟩

theorem total_of_map_eq {start' len' : β → Nat} {l : List α} {l' : List β}
    (heq : l.map (fun a => (start a, len a)) = l'.map fun b => (start' b, len' b)) :
    total len l = total len' l' := by
  have hmap : (l.map fun a => (start a, len a)).map Prod.snd =
      (l'.map fun b => (start' b, len' b)).map Prod.snd := congrArg _ heq
  simp only [List.map_map] at hmap
  exact congrArg List.sum hmap

/-- Every item covers something. -/
theorem Tiles.length_le_total {p : Nat} {l : List α} (h : Tiles start len p l) :
    l.length ≤ total len l := by
  induction l generalizing p with
  | nil => simp
  | cons a l ih =>
      obtain ⟨-, hpos, htail⟩ := h
      have hrest := ih htail
      rw [List.length_cons, total_cons]
      omega

/-- The items cover adjacent intervals, which may be empty. -/
def Adjacent (start len : α → Nat) : Nat → List α → Prop
  | _, [] => True
  | p, a :: l => start a = p ∧ Adjacent start len (p + len a) l

@[simp] theorem adjacent_nil (p : Nat) : Adjacent start len p [] := trivial

@[simp] theorem adjacent_cons {p : Nat} {a : α} {l : List α} :
    Adjacent start len p (a :: l) ↔ start a = p ∧ Adjacent start len (p + len a) l := Iff.rfl

theorem adjacent_append {p : Nat} {l l' : List α} :
    Adjacent start len p (l ++ l') ↔
      Adjacent start len p l ∧ Adjacent start len (p + total len l) l' := by
  induction l generalizing p with
  | nil => simp
  | cons a l ih => simp [ih, and_assoc, Nat.add_assoc]

/-- Every item lies between the start of the tiling and its end. -/
theorem Tiles.mem_bounds {p : Nat} {l : List α} (h : Tiles start len p l) {a : α} (ha : a ∈ l) :
    p ≤ start a ∧ start a + len a ≤ p + total len l ∧ 0 < len a := by
  obtain ⟨l₁, l₂, rfl⟩ := List.append_of_mem ha
  obtain ⟨-, hs, hpos, -⟩ := tiles_append.mp h
  simp only [total_append, total_cons]
  omega

end Intervals
