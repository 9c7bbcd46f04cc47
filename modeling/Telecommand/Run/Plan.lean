import Telecommand.Path.Extension
import Telecommand.Settings.Options

/-! # Plans

    What a run goes by: the defaults, the settings file and the command line
    in layers, where the command line wins.  Output files that are not named
    stand beside the script: the byte file has the script's name and the
    delay file the byte file's name, each with an extension of its own. -/

namespace Telecommand.Run

open Settings

/-- What a run goes by. -/
structure Plan where
  input : Path
  output : Path
  /-- The delay file, in the split layout. -/
  delayFile : Option Path
  delayMode : Script.DelayMode
  layout : Stimulus.Layout
  allowErrors : Bool
  deriving DecidableEq, Repr

namespace Plan

/-- The path that is named, or else another path with an extension; if no
    path can have the extension, that is the failure. -/
def namedOr (named : Option Path) (path : Path) (extension : Text) :
    Except Text Path :=
  match named with
  | some path => .ok path
  | none =>
      match path.withExtension? extension with
      | some path => .ok path
      | none => .error extension

/-- The plan for a command line and a settings file.  It fails only on an
    extension that holds a slash. -/
def resolve (options : Options) (config : Config) : Except Text Plan := do
  let layout := options.layout.getD config.layout
  let output ← namedOr options.output options.input config.outputExtension
  let delayFile ← match layout with
    | .split => some <$> namedOr options.delayFile output config.delayExtension
    | .combined => .ok none
  .ok
    { input := options.input
      output := output
      delayFile := delayFile
      delayMode := options.delayMode.getD config.delayMode
      layout := layout
      allowErrors := options.allowErrors || config.allowErrors }

end Plan

end Telecommand.Run
