import Telecommand.Script.Session
import Telecommand.Stimulus.Basic
import Telecommand.Toml.Reader

/-! # Settings files

    What a settings file may fix for all runs.  Every setting has a default;
    a file that names anything else, or gives a setting a value of another
    kind, is refused as a whole. -/

namespace Telecommand.Settings

open Script Toml

/-- The settings of a file. -/
structure Config where
  delayMode : DelayMode := .sticky
  layout : Stimulus.Layout := .combined
  /-- The extension of the byte file when no file is named. -/
  outputExtension : Text := "byte"
  /-- The extension of the delay file when no file is named. -/
  delayExtension : Text := "delay"
  /-- Whether a run with faults in the script still succeeds. -/
  allowErrors : Bool := false
  deriving DecidableEq, Repr

/-- Whether a value says nothing more than that it is there. -/
def isUnit : Value → Bool
  | .emptyArray => true
  | .table _ [] => true
  | _ => false

/-- A choice among names: the name as a string, or as the only key of a table
    that says nothing more. -/
def choice? {α : Type} (choices : List (Text × α)) : Value → Option α
  | .string name => choices.lookup name
  | .table _ [(name, value)] => if isUnit value then choices.lookup name else none
  | _ => none

/-- The delay modes by name. -/
def delayModes : List (Text × DelayMode) :=
  [DelayMode.sticky, .oneShot].map fun mode => (mode.name, mode)

/-- The stream layouts by name. -/
def layouts : List (Text × Stimulus.Layout) :=
  [Stimulus.Layout.combined, .split].map fun layout => (layout.name, layout)

/-- A string. -/
def string? : Value → Option Text
  | .string text => some text
  | _ => none

/-- A boolean. -/
def boolean? : Value → Option Bool
  | .boolean value => some value
  | _ => none

namespace Config

/-- The settings with one entry of a file put in. -/
def set? (config : Config) : Text × Value → Option Config
  | (name, value) =>
      if name = "delay_mode" then
        (choice? delayModes value).map ({ config with delayMode := · })
      else if name = "layout" then
        (choice? layouts value).map ({ config with layout := · })
      else if name = "output_extension" then
        (string? value).map ({ config with outputExtension := · })
      else if name = "delay_extension" then
        (string? value).map ({ config with delayExtension := · })
      else if name = "allow_errors" then
        (boolean? value).map ({ config with allowErrors := · })
      else none

/-- The settings that the text of a file fixes, if it is acceptable. -/
def ofText? (text : Text) : Option Config := do
  let entries ← Toml.read? text
  entries.foldlM set? {}

end Config

end Telecommand.Settings
