import Mathlib.Data.Nat.ModEq
import Mathlib.Algebra.Ring.Int.Defs
import Mathlib.Data.Nat.Cast.Basic
import Mathlib.Logic.Function.Basic

/-! A cyclic buffer as a record of a growing list: each pushed item goes to its index
modulo the capacity, so the slots hold the most recent items and any window of them is a suffix. -/
namespace CyclicBuffer
variable {α : Type*} {capacity : Nat} {slot : Nat → α} {items : List α}

/-- The most recent items sit at their indices modulo the capacity. -/
def Holds (capacity : Nat) (slot : Nat → α) (items : List α) : Prop :=
  ∀ j (h : j < items.length), items.length ≤ j + capacity → slot (j % capacity) = items[j]

/-- The contents of n consecutive slots, from the given one on and around the end. -/
def window (capacity : Nat) (slot : Nat → α) (first n : Nat) : List α :=
  (List.range n).map (fun i => slot ((first + i) % capacity))

@[simp] theorem length_window (first n : Nat) : (window capacity slot first n).length = n := by
  simp [window]

/-- Any slots hold nothing. -/
theorem holds_nil : Holds capacity slot [] := by
  intro j h
  simp at h

/-- One more item takes the slot of the oldest. -/
theorem Holds.push (h : Holds capacity slot items) (a : α) :
    Holds capacity (Function.update slot (items.length % capacity) a) (items ++ [a]) := by
  intro j hj hrecent
  rw [List.length_append, List.length_singleton] at hj hrecent
  rcases Nat.lt_succ_iff_lt_or_eq.mp hj with hlt | rfl
  · -- an older item that is still recent has another residue
    have hne : j % capacity ≠ items.length % capacity := by
      intro heq
      have hdvd : capacity ∣ items.length - j :=
        (Nat.modEq_iff_dvd' hlt.le).mp heq
      have hle := Nat.le_of_dvd (by omega) hdvd
      omega
    rw [Function.update_of_ne hne, List.getElem_append_left hlt]
    exact h j hlt (by omega)
  · simp

/-- The same push into a memory with integer addresses. -/
theorem Holds.push_at {memory : Int → α} (h : Holds capacity (fun k : Nat => memory k) items)
    (a : α) :
    Holds capacity
      (fun k : Nat => Function.update memory (items.length % capacity : Nat) a k)
      (items ++ [a]) := by
  have hslots := Function.update_comp_eq_of_injective memory (Nat.cast_injective (R := Int))
    (items.length % capacity) a
  have hpush := h.push a
  rw [show (fun k : Nat => memory k) = memory ∘ Nat.cast from rfl, ← hslots] at hpush
  exact hpush

/-- A window that ends at the last push is a suffix of the list. -/
theorem Holds.window_eq (h : Holds capacity slot items) (first : Nat) {n : Nat} (hn : n ≤ capacity)
    (hle : n ≤ items.length) (hfirst : first % capacity = (items.length - n) % capacity) :
    window capacity slot first n = items.drop (items.length - n) := by
  apply List.ext_getElem
  · simp only [length_window, List.length_drop]
    omega
  · intro i hi hi'
    have hin : i < n := by simpa using hi
    have hmod : (first + i) % capacity = (items.length - n + i) % capacity := by
      rw [Nat.add_mod, hfirst, ← Nat.add_mod]
    simp only [window, List.getElem_map, List.getElem_range, List.getElem_drop, hmod]
    exact h _ (by omega) (by omega)

end CyclicBuffer
