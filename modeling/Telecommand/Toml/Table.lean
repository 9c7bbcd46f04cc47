import Telecommand.Text.Basic

/-! # Tables of TOML

    A settings text is a table of named values.  How a table came about
    decides what may still be added to it: a table written in braces is
    complete, one opened by a header is opened once, and dotted keys add
    only to tables that no header has opened. -/

namespace Telecommand.Toml

/-- How a table came about. -/
inductive Origin
  /-- As a step on the way to a header's table. -/
  | header
  /-- By a header of its own. -/
  | opened
  /-- As a step of a dotted key. -/
  | dotted
  /-- In braces. -/
  | braces
  deriving DecidableEq, Repr

/-- A value that a setting may take. -/
inductive Value
  | string (text : Text)
  | boolean (value : Bool)
  | emptyArray
  | table (origin : Origin) (entries : List (Text × Value))

/-- The named values of a table, in the order they were written. -/
abbrev Entries := List (Text × Value)

namespace Entries

/-- The entries with the value of a key replaced. -/
def replace (key : Text) (value : Value) (entries : Entries) : Entries :=
  entries.map fun entry => if entry.1 = key then (key, value) else entry

/-- Adds a value under a dotted key; no key may be given a value twice. -/
def assign (entries : Entries) : List Text → Value → Option Entries
  | [], _ => none
  | [key], value =>
      match entries.lookup key with
      | none => some (entries ++ [(key, value)])
      | some _ => none
  | key :: rest, value =>
      match entries.lookup key with
      | none => do
          let inner ← assign [] rest value
          some (entries ++ [(key, .table .dotted inner)])
      | some (.table origin inner) =>
          if origin = .dotted ∨ origin = .header then do
            let inner ← assign inner rest value
            some (entries.replace key (.table origin inner))
          else none
      | some _ => none

/-- Opens the table of a header; no header may come twice. -/
def openTable (entries : Entries) : List Text → Option Entries
  | [] => none
  | [key] =>
      match entries.lookup key with
      | none => some (entries ++ [(key, .table .opened [])])
      | some (.table .header inner) =>
          some (entries.replace key (.table .opened inner))
      | some _ => none
  | key :: rest =>
      match entries.lookup key with
      | none => do
          let inner ← openTable [] rest
          some (entries ++ [(key, .table .header inner)])
      | some (.table .braces _) => none
      | some (.table origin inner) => do
          let inner ← openTable inner rest
          some (entries.replace key (.table origin inner))
      | some _ => none

/-- Adds a value under a dotted key in the table of a header. -/
def assignIn (entries : Entries) : List Text → List Text → Value → Option Entries
  | [], key, value => entries.assign key value
  | step :: path, key, value =>
      match entries.lookup step with
      | some (.table origin inner) => do
          let inner ← assignIn inner path key value
          some (entries.replace step (.table origin inner))
      | _ => none

end Entries

end Telecommand.Toml
