import Mathlib.Data.List.Basic
import Mathlib.Tactic.Choose

/-! Past-time properties of a growing list of events: what held at a position, what has held
since then, and matching each event of one kind with its own earlier event of another. -/
namespace Trace
variable {α : Type*}

def At (t : List α) (i : Nat) (P : α → Prop) : Prop := ∃ e, t[i]? = some e ∧ P e

def Clear (t : List α) (i j : Nat) (Q : α → Prop) : Prop := ∀ k, i < k → k < j → ¬ At t k Q

/-- A has held, and Q has not held after that. -/
def Since (A Q : α → Prop) (t : List α) : Prop := ∃ i, At t i A ∧ Clear t i t.length Q

/-- Each T comes after an A with no Q between the two. -/
def Preceded (T A Q : α → Prop) (t : List α) : Prop :=
  ∀ i, At t i T → ∃ a, a < i ∧ At t a A ∧ Clear t a i Q

/-- As Preceded, and different Ts have different As. -/
def Matched (T A Q : α → Prop) (t : List α) : Prop :=
  ∃ origin : Nat → Nat,
    (∀ i, At t i T → origin i < i ∧ At t (origin i) A ∧ Clear t (origin i) i Q) ∧
    ∀ i j, At t i T → At t j T → origin i = origin j → i = j

variable {T A Q P : α → Prop} {t : List α} {e : α} {i j : Nat}

/-- Only a place inside the trace has an event. -/
theorem At.lt (h : At t i P) : i < t.length := by
  obtain ⟨e, he, -⟩ := h
  exact (List.getElem?_eq_some_iff.mp he).1

/-- A weaker description fits as well. -/
theorem At.mono {P' : α → Prop} (h : At t i P) (hP : ∀ e, P e → P' e) : At t i P' := by
  obtain ⟨e, he, hp⟩ := h
  exact ⟨e, he, hP e hp⟩

/-- An event of the longer trace is an old one or the last. -/
theorem at_concat : At (t ++ [e]) i P ↔ At t i P ∨ i = t.length ∧ P e := by
  rcases Nat.lt_trichotomy i t.length with hlt | rfl | hgt
  · simp [At, List.getElem?_append_left hlt, Nat.ne_of_lt hlt]
  · simp [At]
  · have hnone : (t ++ [e])[i]? = none := by
      rw [List.getElem?_eq_none_iff, List.length_append, List.length_singleton]
      omega
    have hnone' : t[i]? = none := by
      rw [List.getElem?_eq_none_iff]
      omega
    simp [At, hnone, hnone', Nat.ne_of_gt hgt]

/-- Old events stay where they are. -/
theorem At.concat (h : At t i P) : At (t ++ [e]) i P := at_concat.mpr (.inl h)

/-- A stretch clear of more is clear of less. -/
theorem Clear.mono {Q' : α → Prop} (h : Clear t i j Q) (hQ : ∀ e, Q' e → Q e) : Clear t i j Q' :=
  fun k hi hj hat => h k hi hj (hat.mono hQ)

/-- What comes last lies beyond every earlier interval. -/
theorem Clear.concat (h : Clear t i j Q) (hj : j ≤ t.length) : Clear (t ++ [e]) i j Q := by
  intro k hik hkj hat
  rcases at_concat.mp hat with hat | ⟨rfl, -⟩
  · exact h k hik hkj hat
  · omega

/-- One event more that is no Q. -/
theorem Clear.extend (h : Clear t i t.length Q) (he : ¬ Q e) :
    Clear (t ++ [e]) i (t ++ [e]).length Q := by
  intro k hik _ hat
  rcases at_concat.mp hat with hat | ⟨-, hq⟩
  · exact h k hik hat.lt hat
  · exact he hq

/-- An event that undoes nothing leaves things as they were. -/
theorem Since.concat (h : Since A Q t) (he : ¬ Q e) : Since A Q (t ++ [e]) := by
  obtain ⟨i, hat, hclear⟩ := h
  exact ⟨i, hat.concat, hclear.extend he⟩

/-- The last event is at the end. -/
theorem at_last (he : P e) : At (t ++ [e]) t.length P := at_concat.mpr (.inr ⟨rfl, he⟩)

/-- Nothing lies behind it. -/
theorem clear_last : Clear (t ++ [e]) t.length (t ++ [e]).length Q := by
  intro k hik hkj
  rw [List.length_append, List.length_singleton] at hkj
  omega

/-- What has just happened is not undone yet. -/
theorem since_last (he : A e) : Since A Q (t ++ [e]) := ⟨t.length, at_last he, clear_last⟩

/-- Nothing needs a predecessor in the empty trace. -/
theorem preceded_nil : Preceded T A Q [] := fun _ hat => absurd hat.lt (Nat.not_lt_zero _)

/-- One more event, with its predecessor if it needs one. -/
theorem Preceded.concat (h : Preceded T A Q t) (he : T e → Since A Q t) :
    Preceded T A Q (t ++ [e]) := by
  intro i hat
  rcases at_concat.mp hat with hat | ⟨rfl, ht⟩
  · obtain ⟨a, hai, ha, hclear⟩ := h i hat
    exact ⟨a, hai, ha.concat, hclear.concat (Nat.le_of_lt hat.lt)⟩
  · obtain ⟨a, ha, hclear⟩ := he ht
    exact ⟨a, ha.lt, ha.concat, hclear.concat (Nat.le_refl _)⟩

/-- Where the Ts themselves are kept out of the gaps, no A serves two of them. -/
theorem Preceded.matched (h : Preceded T A (fun e => Q e ∨ T e) t) : Matched T A Q t := by
  have horigin : ∀ i, ∃ a, At t i T → a < i ∧ At t a A ∧ Clear t a i (fun e => Q e ∨ T e) := by
    intro i
    rcases Classical.em (At t i T) with hat | hat
    · obtain ⟨a, ha⟩ := h i hat
      exact ⟨a, fun _ => ha⟩
    · exact ⟨0, fun hat' => absurd hat' hat⟩
  choose origin horigin using horigin
  refine ⟨origin, fun i hat => ?_, fun i j hi hj heq => ?_⟩
  · obtain ⟨hlt, ha, hclear⟩ := horigin i hat
    exact ⟨hlt, ha, hclear.mono (fun _ => Or.inl)⟩
  · obtain ⟨hilt, -, hiclear⟩ := horigin i hi
    obtain ⟨hjlt, -, hjclear⟩ := horigin j hj
    -- the earlier of two Ts with one origin would lie in the gap of the later one
    rcases Nat.lt_trichotomy i j with hlt | rfl | hgt
    · exact absurd (hi.mono fun _ => Or.inr) (hjclear i (heq ▸ hilt) hlt)
    · rfl
    · exact absurd (hj.mono fun _ => Or.inr) (hiclear j (heq ▸ hjlt) hgt)

end Trace
