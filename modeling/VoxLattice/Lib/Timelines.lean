import VoxLattice.Lib.Intervals
import VoxLattice.Lib.Samples

/-!
# Pieces put end to end

Items that cover adjacent intervals, each with the samples of its interval, make one signal: it has
at every position of an item the sample the item has there (`Adjacent.sample_flatMap`).  If the
samples of every item are an excerpt of the same data, so is the signal
(`Adjacent.flatMap_slice`).
-/

namespace Intervals

open Samples

variable {α β : Type*} {start len : β → Nat} {first w : Nat} {l : List β}

theorem Tiles.adjacent (h : Tiles start len first l) : Adjacent start len first l := by
  induction l generalizing first with
  | nil => trivial
  | cons b l ih => exact ⟨h.1, ih h.2.2⟩

theorem Adjacent.le (h : Adjacent start len first l) {b : β} (hb : b ∈ l) : first ≤ start b := by
  induction l generalizing first with
  | nil => cases hb
  | cons c l ih =>
      obtain ⟨hc, hl⟩ := h
      rcases List.mem_cons.mp hb with rfl | hb
      · exact hc.ge
      · exact (Nat.le_add_right _ _).trans (ih hl hb)

variable {samples : β → List α}

theorem length_flatMap_total (hlen : ∀ b ∈ l, (samples b).length = len b * w) :
    (l.flatMap samples).length = total len l * w := by
  induction l with
  | nil => simp
  | cons b l ih =>
      obtain ⟨hb, hl⟩ := List.forall_mem_cons.mp hlen
      rw [List.flatMap_cons, List.length_append, hb, ih hl, total_cons, Nat.add_mul]

/-- The signal has the samples of the items. -/
theorem Adjacent.sample_flatMap (h : Adjacent start len first l)
    (hlen : ∀ b ∈ l, (samples b).length = len b * w) {b : β} (hb : b ∈ l) {position : Nat}
    (hlow : start b ≤ position) (hhigh : position < start b + len b) :
    sample w (l.flatMap samples) (position - first) =
      sample w (samples b) (position - start b) := by
  induction l generalizing first with
  | nil => cases hb
  | cons c l ih =>
      obtain ⟨hc, hl⟩ := h
      obtain ⟨hclen, hllen⟩ := List.forall_mem_cons.mp hlen
      rw [List.flatMap_cons]
      rcases List.mem_cons.mp hb with rfl | hb
      · have hfits : (position - first + 1) * w ≤ (samples b).length := by
          rw [hclen]
          exact Nat.mul_le_mul_right w (by omega)
        rw [sample_append_left hfits, hc]
      · have hle := hl.le hb
        have hsplit : position - first = len c + (position - (first + len c)) := by omega
        rw [hsplit, sample_append_right hclen, ih hl hllen hb]

/-- Excerpts put end to end are an excerpt. -/
theorem Adjacent.flatMap_slice {data : List α} (h : Adjacent start len first l)
    (hslice : ∀ b ∈ l, samples b = slice w data (start b) (len b)) :
    l.flatMap samples = slice w data first (total len l) := by
  induction l generalizing first with
  | nil => simp [slice]
  | cons b l ih =>
      obtain ⟨hb, hl⟩ := h
      obtain ⟨hbslice, hlslice⟩ := List.forall_mem_cons.mp hslice
      rw [List.flatMap_cons, ih hl hlslice, hbslice, hb, slice_append_slice, total_cons]

end Intervals
