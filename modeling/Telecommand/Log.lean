import Telecommand.Text.Basic

/-! # Log records

    A record says how serious an event is, which part of the program
    noticed it, and what happened: a message and named fields.  Records are
    data, so a run can be followed and read back. -/

namespace Telecommand.Log

/-- How serious an event is, from the most to the least. -/
inductive Level
  | error
  | warn
  | info
  | debug
  | trace
  deriving DecidableEq, Repr

/-- The name of a level in print. -/
def Level.name : Level → Text
  | error => "ERROR"
  | warn => "WARN"
  | info => "INFO"
  | debug => "DEBUG"
  | trace => "TRACE"

/-- The place of a level: the higher, the less serious. -/
def Level.rank : Level → Nat
  | error => 1
  | warn => 2
  | info => 3
  | debug => 4
  | trace => 5

/-- The part of the program that an event comes from. -/
inductive Source
  | session
  | compiler
  | shell
  deriving DecidableEq, Repr

/-- The name of a source in print. -/
def Source.name : Source → Text
  | session => "tcscript_compiler::session"
  | compiler => "tcscript_compiler"
  | shell => "tcscript_shell"

/-- A named value of a record. -/
structure Field where
  name : Text
  value : Text
  deriving DecidableEq, Repr

/-- What is noted about an event. -/
structure Record where
  level : Level
  source : Source
  message : Text
  fields : List Field
  deriving DecidableEq, Repr

/-- The fields in print, each after a space. -/
def renderFields (fields : List Field) : Text :=
  fields.flatMap fun field => ' ' :: field.name ++ '=' :: field.value

/-- A record in print: its level, its message and its fields. -/
def Record.render (record : Record) : Text :=
  record.level.name ++ ' ' :: record.message ++ renderFields record.fields

/-- Where records go. -/
class Journal (m : Type → Type) where
  note : Record → m Unit

end Telecommand.Log
