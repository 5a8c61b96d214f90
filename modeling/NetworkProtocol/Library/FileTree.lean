import NetworkProtocol.Library.CString
import Mathlib.Data.List.Basic

/-! Directory trees and the way a relative path leads through one, name by name; appending to a
path extends its last name. -/
namespace FileTree

abbrev Name := CString

inductive Node where
  | file
  | directory (entries : List (Name × Node))

/-- A directory by its entries, with those of the directories above it, nearest first. -/
structure Place where
  entries : List (Name × Node)
  above : List (List (Name × Node)) := []

namespace Place

/-- One name of a path; the root is its own parent. -/
def enter (place : Place) (name : Name) : Option Place :=
  if name = [] ∨ name = ['.'] then some place
  else if name = ['.', '.'] then
    match place.above with
    | [] => some place
    | entries :: above => some ⟨entries, above⟩
  else
    match place.entries.lookup name with
    | some (.directory entries) => some ⟨entries, place.entries :: place.above⟩
    | _ => none

def walk (place : Place) (names : List Name) : Option Place := names.foldlM enter place

def names (place : Place) : List Name := ['.'] :: ['.', '.'] :: place.entries.map Prod.fst

end Place

def components (path : CString) : List Name := path.splitOnP (· == '/')

/-- The names of a path that lead somewhere else: neither empty nor a single dot. -/
def proper (path : CString) : List Name :=
  (components path).filter (fun name => name ≠ [] ∧ name ≠ ['.'])

/-- The directory a relative path names. -/
def resolve (place : Place) (path : CString) : Option Place :=
  if path = [] then none else place.walk (components path)

/-- The path up to its last name, and that name. -/
def leading (path : CString) : List Name := (components path).dropLast

def lastName (path : CString) : Name := (components path).getLastD []

/-- The extension, written right behind the last name of the path, leads from the directory
where that name is looked up to a directory. -/
def Extends (place : Place) (path extension : CString) : Prop :=
  ∃ base, place.walk (leading path) = some base ∧
    (base.walk (components (lastName path ++ extension))).isSome

section Components
variable {path extension : CString} {c : Char}

/-- Every path has a component, be it an empty one. -/
theorem components_ne_nil (path : CString) : components path ≠ [] := List.splitOnP_ne_nil _ _

/-- A slash begins a new component. -/
theorem components_slash (path : CString) : components ('/' :: path) = [] :: components path := by
  rw [components, List.splitOnP_cons_eq_if_modifyHead, if_pos (by rfl), components]

/-- Any other character belongs to the first one. -/
theorem components_cons (hc : c ≠ '/') (path : CString) :
    components (c :: path) = (components path).modifyHead (c :: ·) := by
  rw [components, List.splitOnP_cons_eq_if_modifyHead, if_neg (by simpa using hc), components]

/-- Appending to a path changes nothing before its last name. -/
theorem components_append (path extension : CString) :
    components (path ++ extension) =
      leading path ++ components (lastName path ++ extension) := by
  rw [leading, lastName]
  induction path with
  | nil => rfl
  | cons c path ih =>
    obtain ⟨name, rest, hnames⟩ := List.exists_cons_of_ne_nil (components_ne_nil path)
    rw [hnames] at ih
    by_cases hc : c = '/'
    · subst hc
      rw [List.cons_append, components_slash, ih, components_slash, hnames]
      rfl
    · rw [List.cons_append, components_cons hc, ih, components_cons hc, hnames]
      cases rest with
      | nil =>
        change (components (name ++ extension)).modifyHead (c :: ·) = components _
        exact (components_cons hc _).symm
      | cons next rest => rfl

/-- A path without a slash is one name. -/
theorem components_name (h : '/' ∉ path) : components path = [path] := by
  induction path with
  | nil => rfl
  | cons c path ih =>
    rw [List.mem_cons, not_or] at h
    rw [components_cons (Ne.symm h.1), ih h.2]
    rfl

/-- Without a slash there is one name at most. -/
theorem length_proper_le (h : '/' ∉ path) : (proper path).length ≤ 1 := by
  rw [proper, components_name h]
  exact List.length_filter_le _ _

/-- A name is its own proper component. -/
theorem proper_name (hslash : '/' ∉ path) (hempty : path ≠ []) (hdot : path ≠ ['.']) :
    proper path = [path] := by
  simp [proper, components_name hslash, hempty, hdot]

/-- A dot and a slash in front name the same place. -/
theorem proper_here (path : CString) : proper ('.' :: '/' :: path) = proper path := by
  rw [proper, components_cons (by decide), components_slash, List.modifyHead_cons, proper]
  simp

/-- Where a path leads is decided by its proper names. -/
theorem resolve_eq_walk_proper {place : Place} (h : path ≠ []) :
    resolve place path = place.walk (proper path) := by
  rw [resolve, if_neg h, proper]
  generalize components path = names
  induction names generalizing place with
  | nil => rfl
  | cons name names ih =>
    by_cases hname : name = [] ∨ name = ['.']
    · have hstay : place.enter name = some place := if_pos hname
      rw [List.filter_cons_of_neg (by simpa [or_iff_not_imp_left] using hname), ← ih, Place.walk,
        List.foldlM_cons, hstay]
      rfl
    · rw [List.filter_cons_of_pos (by simpa [not_or] using hname), Place.walk, Place.walk,
        List.foldlM_cons, List.foldlM_cons]
      congr 1
      funext next
      exact ih

/-- The empty path leads nowhere. -/
theorem resolve_ne_nil {place : Place} (h : (resolve place path).isSome) : path ≠ [] := by
  rintro rfl
  cases h

/-- A path leads on just when what is behind it does from where it leads. -/
theorem resolve_append {place : Place} (hpath : path ≠ []) :
    (resolve place (path ++ extension)).isSome ↔ Extends place path extension := by
  have hne : path ++ extension ≠ [] := List.append_ne_nil_of_left_ne_nil hpath _
  rw [resolve, if_neg hne, components_append, Place.walk, List.foldlM_append, Extends]
  cases h : List.foldlM Place.enter place (leading path) with
  | none => simp [Place.walk, h]
  | some base => simp [Place.walk, h]

end Components

end FileTree
