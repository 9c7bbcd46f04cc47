import Telecommand.File.Workspace
import Telecommand.Run.Distinct
import Telecommand.Run.Files

/-! # Runs

    A run reads the settings file if there is one, makes sure that script,
    byte file and delay file are three files, compiles the script and writes
    its streams.  It ends in a summary or a failure. -/

namespace Telecommand.Run

open File Settings

/-- What a run has done. -/
structure Summary where
  plan : Plan
  compilation : Script.Compilation
  deriving DecidableEq, Repr

namespace Summary

/-- The number of faulty lines. -/
def faultCount (summary : Summary) : Nat := summary.compilation.faultCount

/-- Whether the run counts as failed: the script has faults, and nothing
    allows them. -/
def isFailure (summary : Summary) : Bool :=
  0 < summary.faultCount && !summary.plan.allowErrors

end Summary

/-- The name of a delay mode in log records. -/
def modeLabel : Script.DelayMode → Text
  | .sticky => "Sticky"
  | .oneShot => "OneShot"

/-- The name of a stream layout in log records. -/
def layoutLabel : Stimulus.Layout → Text
  | .combined => "Combined"
  | .split => "Split"

/-- The record of a compilation that begins. -/
def compiling (plan : Plan) : Log.Record :=
  ⟨.info, .shell, "compiling script",
    [⟨"input", plan.input.text⟩, ⟨"delay_mode", modeLabel plan.delayMode⟩,
      ⟨"layout", layoutLabel plan.layout⟩]⟩

variable {handle : Type} {m : Type → Type} [Monad m] [System handle m] [Log.Journal m]

/-- The settings in a file. -/
def loadConfig (path : Path) : ExceptT Failure m Config := do
  match ← (readText path : m (Except ReadFault Text)) with
  | .error fault => throw (.configUnreadable path fault)
  | .ok text =>
      match Config.ofText? text with
      | some config => return config
      | none => throw (.configRejected path)

/-- Compiles the script that the options name and writes its streams. -/
def run (options : Options) : ExceptT Failure m Summary := do
  let config ← match options.config with
    | some path => loadConfig path
    | none => pure {}
  let plan ← match Plan.resolve options config with
    | .ok plan => pure plan
    | .error extension => throw (.extensionRejected extension)
  plan.requireDistinctFiles
  (Log.Journal.note (compiling plan) : m Unit)
  let compilation ← compileScript plan.delayMode plan.layout plan.input plan.output
    plan.delayFile
  return ⟨plan, compilation⟩

/-- A run in a workspace: its result, and the workspace afterwards. -/
def runIn (workspace : Workspace) (options : Options) :
    Except Failure Summary × Workspace :=
  (run options : ExceptT Failure (StateM Workspace) Summary).run workspace

end Telecommand.Run
