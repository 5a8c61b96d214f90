import Mathlib.Data.List.Basic

/-! The C++ ordered map on Std.ExtTreeMap: operator[] creates a default value,
iteration goes in key order and an iterator survives insertions. -/
namespace OrderedMap
open Std
variable {κ υ : Type} [Ord κ] [TransOrd κ] [Inhabited υ]

/-- What m[k] reads: the stored value, or the default one it creates. -/
def value (m : ExtTreeMap κ υ) (k : κ) : υ := m.getD k default

/-- What m[k] leaves behind when nothing is assigned. -/
def touch (m : ExtTreeMap κ υ) (k : κ) : ExtTreeMap κ υ := m.insertIfNew k default

def modify (m : ExtTreeMap κ υ) (k : κ) (f : υ → υ) : ExtTreeMap κ υ := m.insert k (f (value m k))

/-- m[k] reads what a lookup finds, or the default. -/
theorem value_eq_getD (m : ExtTreeMap κ υ) (k : κ) : value m k = m[k]?.getD default :=
  ExtTreeMap.getD_eq_getD_getElem?

@[simp] theorem value_empty (k : κ) : value (∅ : ExtTreeMap κ υ) k = default := by
  simp [value]

@[simp] theorem value_insert_self (m : ExtTreeMap κ υ) (k : κ) (v : υ) :
    value (m.insert k v) k = v := by
  simp [value]

@[simp] theorem value_modify_self (m : ExtTreeMap κ υ) (k : κ) (f : υ → υ) :
    value (modify m k f) k = f (value m k) := value_insert_self m k _

/-- operator[] leaves its key behind. -/
theorem mem_touch_self (m : ExtTreeMap κ υ) (k : κ) : k ∈ touch m k :=
  ExtTreeMap.mem_insertIfNew_self

variable [LawfulEqOrd κ]

@[simp] theorem value_touch (m : ExtTreeMap κ υ) (k j : κ) : value (touch m k) j = value m j := by
  simp only [value, touch, ExtTreeMap.getD_insertIfNew]
  split
  · rename_i h
    have he : k = j := LawfulEqOrd.eq_of_compare h.1
    rw [ExtTreeMap.getD_eq_fallback (he ▸ h.2)]
  · rfl

/-- An insertion changes no other value. -/
theorem value_insert_of_ne (m : ExtTreeMap κ υ) {k j : κ} (v : υ) (h : k ≠ j) :
    value (m.insert k v) j = value m j := by
  simp [value, ExtTreeMap.getD_insert, h]

/-- Nor does an assignment. -/
theorem value_modify_of_ne (m : ExtTreeMap κ υ) {k j : κ} (f : υ → υ) (h : k ≠ j) :
    value (modify m k f) j = value m j := value_insert_of_ne m _ h

@[simp] theorem getElem?_modify_self (m : ExtTreeMap κ υ) (k : κ) (f : υ → υ) :
    (modify m k f)[k]? = some (f (value m k)) := by
  simp [modify]

/-- Other keys are found as before. -/
theorem getElem?_modify_of_ne (m : ExtTreeMap κ υ) {k j : κ} (f : υ → υ) (h : k ≠ j) :
    (modify m k f)[j]? = m[j]? := by
  simp [modify, ExtTreeMap.getElem?_insert, h]

section Touch

/-- A key that is there keeps its value, and a new one has the default. -/
theorem getElem?_touch (m : ExtTreeMap κ υ) (k j : κ) :
    (touch m k)[j]? = m[j]? ∨ k = j ∧ m[j]? = none ∧ (touch m k)[j]? = some default := by
  rw [touch, ExtTreeMap.getElem?_insertIfNew]
  split
  · rename_i h
    have hkey : k = j := LawfulEqOrd.eq_of_compare h.1
    exact .inr ⟨hkey, ExtTreeMap.getElem?_eq_none (hkey ▸ h.2), rfl⟩
  · exact .inl rfl

/-- operator[] of a key that is there changes nothing. -/
theorem touch_of_mem {m : ExtTreeMap κ υ} {k : κ} (h : k ∈ m) : touch m k = m := by
  apply ExtTreeMap.ext_getElem?
  intro j
  rcases getElem?_touch m k j with hsame | ⟨rfl, hnone, -⟩
  · exact hsame
  · rw [← ExtTreeMap.isSome_getElem?_iff_mem, hnone] at h
    cases h

end Touch

section Iteration

def past (seen : Option κ) (entry : κ × υ) : Bool := seen.all (fun k => compare k entry.1 == .lt)

/-- What an iterator standing on the given key has still to visit, in key order. -/
def remaining (m : ExtTreeMap κ υ) (seen : Option κ) : List (κ × υ) := m.toList.filter (past seen)

/-- The entry an iterator standing on the given key moves to. -/
def entryAfter (m : ExtTreeMap κ υ) (seen : Option κ) : Option (κ × υ) := (remaining m seen).head?

omit [Inhabited υ] [LawfulEqOrd κ] in
/-- From the start everything is left to visit. -/
theorem remaining_none (m : ExtTreeMap κ υ) : remaining m none = m.toList := by
  simp [remaining, past]

omit [Inhabited υ]

/-- What is left to visit is in the map. -/
theorem mem_remaining {m : ExtTreeMap κ υ} {seen : Option κ} {k : κ} {v : υ}
    (h : (k, v) ∈ remaining m seen) : m[k]? = some v :=
  ExtTreeMap.mem_toList_iff_getElem?_eq_some.mp (List.mem_filter.mp h).1

/-- Stepping on: nothing lies between an entry and the next one. -/
theorem remaining_next {m : ExtTreeMap κ υ} {seen : Option κ} {k : κ} {v : υ}
    {rest : List (κ × υ)} (h : remaining m seen = (k, v) :: rest) :
    remaining m (some k) = rest := by
  have hsorted : (remaining m seen).Pairwise (fun a b => compare a.1 b.1 = .lt) :=
    ExtTreeMap.ordered_keys_toList.filter _
  rw [h, List.pairwise_cons] at hsorted
  have hk : past seen (k, v) = true := by
    have hmem : (k, v) ∈ remaining m seen := h ▸ List.mem_cons_self
    exact (List.mem_filter.mp hmem).2
  have hboth : remaining m (some k) = (remaining m seen).filter (past (some k)) := by
    rw [remaining, remaining, List.filter_filter]
    apply List.filter_congr
    rintro ⟨j, w⟩ -
    cases seen with
    | none => simp [past]
    | some i =>
      have hik : compare i k = .lt := by simpa [past] using hk
      cases hkj : compare k j with
      | lt => simp [past, hkj, TransCmp.lt_trans hik hkj]
      | eq => simp [past, hkj]
      | gt => simp [past, hkj]
  have hself : past (υ := υ) (some k) (k, v) = false := by simp [past]
  rw [hboth, h, List.filter_cons_of_neg (by simp [hself]), List.filter_eq_self]
  intro e he
  simpa [past] using hsorted.1 e he

/-- Writing to the entry an iterator stands on does not change what it visits later. -/
theorem remaining_insert (m : ExtTreeMap κ υ) (k : κ) (v : υ) :
    remaining (m.insert k v) (some k) = remaining m (some k) := by
  have hfilter : (m.insert k v).filter (fun j w => past (some k) (j, w)) =
      m.filter (fun j w => past (some k) (j, w)) := by
    apply ExtTreeMap.ext_getElem?
    intro j
    simp only [ExtTreeMap.getElem?_filter', ExtTreeMap.getElem?_insert]
    rcases eq_or_ne k j with rfl | hkj
    · cases m[k]? <;> simp [past]
    · simp [hkj]
  have htoList := congrArg ExtTreeMap.toList hfilter
  simpa only [remaining, ExtTreeMap.toList_filter] using htoList

end Iteration

end OrderedMap
