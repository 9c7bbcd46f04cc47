import Telecommand.File.Tree

/-! # Contents and passages

    A tree as a path sees it has two sides: the contents of its files, and
    its passages, the directories and links that lead on to other entries.
    Files are put into a tree, and written over, without any passage being
    opened or closed (`passage?_put_file`, `passage?_overwrite`), and without
    a change to the contents of any other file. -/

namespace Telecommand.File.Tree

variable {tree : Tree} {location other : Location}

/-- The directory or the link at a location, which leads on to other
    entries. -/
def passage? (tree : Tree) (location : Location) : Option Entry :=
  match tree.find? location with
  | some .directory => some .directory
  | some (.link target) => some (.link target)
  | some (.file _) | none => none

@[simp] theorem find?_nil (tree : Tree) : tree.find? [] = some .directory := if_pos rfl

theorem contents?_eq_some_iff {contents : Bytes} :
    tree.contents? location = some contents
      ↔ tree.find? location = some (.file contents) := by
  rw [contents?]
  cases tree.find? location with
  | none => simp
  | some entry => cases entry <;> simp

/-- Where no passage is, there is a file or nothing. -/
theorem passage?_eq_none_iff :
    tree.passage? location = none
      ↔ tree.find? location = none ∨ ∃ contents, tree.find? location = some (.file contents) := by
  rw [passage?]
  cases tree.find? location with
  | none => simp
  | some entry => cases entry <;> simp

theorem passage?_of_contents? {contents : Bytes} (h : tree.contents? location = some contents) :
    tree.passage? location = none :=
  passage?_eq_none_iff.mpr (.inr ⟨contents, contents?_eq_some_iff.mp h⟩)

theorem passage?_eq_directory_iff :
    tree.passage? location = some .directory ↔ tree.find? location = some .directory := by
  rw [passage?]
  cases tree.find? location with
  | none => simp
  | some entry => cases entry <;> simp

theorem passage?_eq_link_iff {target : Path} :
    tree.passage? location = some (.link target) ↔ tree.find? location = some (.link target) := by
  rw [passage?]
  cases tree.find? location with
  | none => simp
  | some entry => cases entry <;> simp

/-- The root is a passage. -/
theorem ne_nil_of_passage?_eq_none (h : tree.passage? location = none) : location ≠ [] := by
  rintro rfl
  rw [passage?, find?_nil] at h
  cases h

/-! ## Putting files -/

theorem contents?_put_self (contents : Bytes) (h : location ≠ []) :
    (tree.put location (.file contents)).contents? location = some contents :=
  contents?_eq_some_iff.mpr (tree.find?_put_self _ h)

theorem contents?_put_of_ne (entry : Entry) (h : other ≠ location) :
    (tree.put location entry).contents? other = tree.contents? other := by
  rw [contents?, contents?, tree.find?_put_of_ne entry h]

/-- A file that is put where no passage is changes no passage. -/
theorem passage?_put_file (contents : Bytes) (h : tree.passage? location = none)
    (other : Location) :
    (tree.put location (.file contents)).passage? other = tree.passage? other := by
  by_cases hother : other = location
  · rw [hother, h, passage?_eq_none_iff]
    exact .inr ⟨contents, tree.find?_put_self _ (ne_nil_of_passage?_eq_none h)⟩
  · rw [passage?, passage?, tree.find?_put_of_ne _ hother]

/-! ## Writing over files -/

/-- Bytes written over a file stand in front of what the file had behind
    them. -/
theorem contents?_overwrite_self {old : Bytes} (bytes : Bytes)
    (h : tree.contents? location = some old) :
    (tree.overwrite location bytes).contents? location
      = some (bytes ++ old.drop bytes.length) := by
  have hne := ne_nil_of_passage?_eq_none (passage?_of_contents? h)
  rw [overwrite, h]
  exact contents?_put_self _ hne

theorem find?_overwrite_of_ne (bytes : Bytes) (h : other ≠ location) :
    (tree.overwrite location bytes).find? other = tree.find? other := by
  rw [overwrite]
  cases tree.contents? location with
  | none => rfl
  | some old => exact tree.find?_put_of_ne _ h

theorem contents?_overwrite_of_ne (bytes : Bytes) (h : other ≠ location) :
    (tree.overwrite location bytes).contents? other = tree.contents? other := by
  rw [contents?, contents?, find?_overwrite_of_ne bytes h]

theorem passage?_overwrite (tree : Tree) (location : Location) (bytes : Bytes)
    (other : Location) :
    (tree.overwrite location bytes).passage? other = tree.passage? other := by
  rw [overwrite]
  cases hold : tree.contents? location with
  | none => rfl
  | some old => exact passage?_put_file _ (passage?_of_contents? hold) other

end Telecommand.File.Tree
