import Telecommand.Path.Basic
import Telecommand.Settings.Config

/-! # Command-line options

    The arguments of a command line are read from left to right.  An option
    that wants a value takes the text behind it in the same argument, or the
    next argument if that does not start with a dash; its value is checked
    when the next option is met or the arguments end.  Every option may be
    given once, and there are no arguments besides options. -/

namespace Telecommand.Settings

open Script

/-- What a command line asks for. -/
structure Options where
  input : Path
  output : Option Path
  delayFile : Option Path
  config : Option Path
  delayMode : Option DelayMode
  layout : Option Stimulus.Layout
  allowErrors : Bool
  verbose : Bool
  deriving DecidableEq, Repr

/-- Why a command line is refused. -/
inductive UsageError
  | missingInput
  | unknownArgument
  | invalidValue
  | repeatedOption
  | unexpectedValue
  deriving DecidableEq, Repr

/-- Why reading the arguments stops without options. -/
inductive Stop
  | misuse (error : UsageError)
  | help
  | version
  deriving DecidableEq, Repr

/-- The options that want a value. -/
inductive Valued
  | input
  | output
  | delayFile
  | delayMode
  | layout
  | config
  deriving DecidableEq, Repr

/-- The options that stand alone. -/
inductive Switch
  | allowErrors
  | verbose
  | help
  | version
  deriving DecidableEq, Repr

/-- An option of either kind. -/
inductive Key
  | valued (option : Valued)
  | switch (option : Switch)
  deriving DecidableEq, Repr

/-- The options by long name. -/
def longNames : List (Text × Key) :=
  [("input", .valued .input), ("output", .valued .output),
   ("delay-file", .valued .delayFile), ("delay-mode", .valued .delayMode),
   ("layout", .valued .layout), ("config", .valued .config),
   ("allow-errors", .switch .allowErrors), ("verbose", .switch .verbose),
   ("help", .switch .help), ("version", .switch .version)]

/-- The options by letter. -/
def letters : List (Char × Key) :=
  [('i', .valued .input), ('o', .valued .output), ('c', .valued .config),
   ('v', .switch .verbose), ('h', .switch .help), ('V', .switch .version)]

/-- What the arguments so far ask for. -/
structure Draft where
  input : Option Path := none
  output : Option Path := none
  delayFile : Option Path := none
  config : Option Path := none
  delayMode : Option DelayMode := none
  layout : Option Stimulus.Layout := none
  allowErrors : Bool := false
  verbose : Bool := false
  /-- An option that was met last, with the argument behind it if that is its
      value. -/
  pending : Option (Valued × Option Text) := none
  deriving DecidableEq, Repr

/-- A path may not be empty. -/
def path? (text : Text) : Option Path :=
  if text = [] then none else some ⟨text⟩

/-- The value of an option that has none yet. -/
def once {α : Type} (old : Option α) (new : Option α) : Except Stop (Option α) :=
  match old, new with
  | some _, _ => .error (.misuse .repeatedOption)
  | none, none => .error (.misuse .invalidValue)
  | none, some value => .ok (some value)

/-- A switch that is not on yet. -/
def onceOn (on : Bool) : Except Stop Bool :=
  if on then .error (.misuse .repeatedOption) else .ok true

namespace Draft

/-- Gives an option its value. -/
def assign (draft : Draft) (option : Valued) (text : Text) : Except Stop Draft :=
  match option with
  | .input =>
      (once draft.input (path? text)).map ({ draft with input := · })
  | .output =>
      (once draft.output (path? text)).map ({ draft with output := · })
  | .delayFile =>
      (once draft.delayFile (path? text)).map ({ draft with delayFile := · })
  | .config =>
      (once draft.config (path? text)).map ({ draft with config := · })
  | .delayMode =>
      (once draft.delayMode (delayModes.lookup text)).map
        ({ draft with delayMode := · })
  | .layout =>
      (once draft.layout (layouts.lookup text)).map ({ draft with layout := · })

/-- Checks the value of the option that was met last. -/
def settle (draft : Draft) : Except Stop Draft :=
  match draft.pending with
  | none => .ok draft
  | some (_, none) => .error (.misuse .invalidValue)
  | some (option, some text) => { draft with pending := none }.assign option text

/-- Turns a switch on. -/
def turnOn (draft : Draft) : Switch → Except Stop Draft
  | .allowErrors =>
      (onceOn draft.allowErrors).map ({ draft with allowErrors := · })
  | .verbose => (onceOn draft.verbose).map ({ draft with verbose := · })
  | .help => .error .help
  | .version => .error .version

/-- Takes an option that was met with or without a value in its own
    argument. -/
def meet (draft : Draft) (option : Valued) (attached : Option Text) :
    Except Stop Draft := do
  let draft ← draft.settle
  match attached with
  | some text => draft.assign option text
  | none => .ok { draft with pending := some (option, none) }

/-- Takes an argument behind two dashes: a long name, and a value behind an
    equals sign if there is one. -/
def takeLong (draft : Draft) (text : Text) : Except Stop Draft :=
  let (name, attached) := match Text.cut? '=' text with
    | some (name, value) => (name, some value)
    | none => (text, none)
  match longNames.lookup name, attached with
  | none, _ => .error (.misuse .unknownArgument)
  | some (.valued option), _ => draft.meet option attached
  | some (.switch _), some _ => .error (.misuse .unexpectedValue)
  | some (.switch option), none => do (← draft.settle).turnOn option

/-- Takes letters behind one dash.  Switches follow each other; what is behind
    the letter of an option that wants a value is that value. -/
def takeLetters (draft : Draft) : Text → Except Stop Draft
  | [] => .ok draft
  | letter :: rest =>
      match letters.lookup letter with
      | none => .error (.misuse .unknownArgument)
      | some (.valued option) =>
          match rest with
          | [] => draft.meet option none
          | '=' :: value => draft.meet option (some value)
          | value => draft.meet option (some value)
      | some (.switch option) => do
          let draft ← draft.settle
          let draft ← draft.turnOn option
          draft.takeLetters rest

/-- Takes an argument. -/
def take (draft : Draft) : Text → Except Stop Draft
  | '-' :: '-' :: text => draft.takeLong text
  | '-' :: letter :: rest => draft.takeLetters (letter :: rest)
  | text =>
      match draft.pending with
      | some (option, none) => .ok { draft with pending := some (option, some text) }
      | _ => .error (.misuse .unknownArgument)

/-- Takes all arguments.  Two dashes alone end the options, so nothing may
    follow them. -/
def takeAll (draft : Draft) : List Text → Except Stop Draft
  | [] => .ok draft
  | arg :: rest =>
      if arg = "--" then
        if rest = [] then .ok draft else .error (.misuse .unknownArgument)
      else do (← draft.take arg).takeAll rest

end Draft

/-- The options on a command line. -/
def Options.ofArguments (args : List Text) : Except Stop Options := do
  let draft ← Draft.takeAll {} args
  let draft ← draft.settle
  match draft.input with
  | none => .error (.misuse .missingInput)
  | some input =>
      .ok
        { input := input
          output := draft.output
          delayFile := draft.delayFile
          config := draft.config
          delayMode := draft.delayMode
          layout := draft.layout
          allowErrors := draft.allowErrors
          verbose := draft.verbose }

end Telecommand.Settings
