import Telecommand.Path.Basic

/-! # File trees

    A tree says what stands at each location: a file with its contents, a
    directory, or a symbolic link.  A location is the list of names that
    leads to an entry from the root, so an entry has exactly one. -/

namespace Telecommand.File

/-- Where an entry is: the names that lead to it from the root. -/
abbrev Location := List Name

/-- The path that names a location from the root. -/
def Location.path (location : Location) : Path :=
  ⟨'/' :: ['/'].intercalate (location.map Name.text)⟩

/-- What stands at a location. -/
inductive Entry
  | file (contents : Bytes)
  | directory
  | link (target : Path)
  deriving DecidableEq, Repr

/-- A tree of files, by location; the root is always a directory. -/
structure Tree where
  entries : List (Location × Entry)
  deriving DecidableEq, Repr

namespace Tree

/-- The tree that holds the root alone. -/
def empty : Tree := ⟨[]⟩

/-- The entry at a location. -/
def find? (tree : Tree) (location : Location) : Option Entry :=
  if location = [] then some .directory else tree.entries.lookup location

/-- The tree with an entry put at a location, in place of any other. -/
def put (tree : Tree) (location : Location) (entry : Entry) : Tree :=
  ⟨(location, entry) :: tree.entries.filter fun other => other.1 ≠ location⟩

/-- The contents of the file at a location. -/
def contents? (tree : Tree) (location : Location) : Option Bytes :=
  match tree.find? location with
  | some (.file contents) => some contents
  | _ => none

/-- The tree with bytes written over a file from its start; what the file
    holds beyond them stays. -/
def overwrite (tree : Tree) (location : Location) (bytes : Bytes) : Tree :=
  match tree.contents? location with
  | some old => tree.put location (.file (bytes ++ old.drop bytes.length))
  | none => tree

/-- What was put is there. -/
@[simp] theorem find?_put_self (tree : Tree) {location : Location}
    (entry : Entry) (h : location ≠ []) :
    (tree.put location entry).find? location = some entry := by
  simp [find?, put, h]

/-- Putting an entry changes no other location. -/
theorem find?_put_of_ne (tree : Tree) {location other : Location}
    (entry : Entry) (h : other ≠ location) :
    (tree.put location entry).find? other = tree.find? other := by
  have key : ∀ entries : List (Location × Entry),
      (entries.filter fun e => decide (e.1 ≠ location)).lookup other
        = entries.lookup other := by
    intro entries
    induction entries with
    | nil => rfl
    | cons e rest ih =>
        obtain ⟨l, value⟩ := e
        by_cases hl : l = location
        · subst hl
          have hne : (other == l) = false := by simpa using h
          simpa [List.lookup_cons, hne] using ih
        · cases hb : other == l with
          | true => simp [hl, List.lookup_cons, hb]
          | false => simpa [hl, List.lookup_cons, hb] using ih
  have hne : (other == location) = false := by simpa using h
  unfold find? put
  split
  · rfl
  · simpa only [List.lookup_cons, hne] using key tree.entries

end Tree

end Telecommand.File
