import Telecommand.Run.Report

/-! # Console

    What the command-line program shows: a banner, the log records that are
    serious enough, and the summary, with an exit status.  A run that fails
    is reported on the error channel instead of a summary. -/

namespace Telecommand.Console

open Log Run Settings

/-- What the program leaves behind: its exit status and its two channels. -/
structure Output where
  status : Nat
  out : Text
  err : Text
  deriving DecidableEq, Repr

/-- The least serious level that is shown; nothing is shown without one. -/
abbrev Verbosity := Option Level

/-- The verbosities by name. -/
def verbosities : List (Text × Verbosity) :=
  [("off", none), ("error", some .error), ("warn", some .warn),
   ("info", some .info), ("debug", some .debug), ("trace", some .trace)]

/-- The verbosity of a run: the one that is named, or else by the verbose
    switch. -/
def verbosity (verbose : Bool) (named : Option Text) : Verbosity :=
  (named.bind fun name => verbosities.lookup name).getD (some (if verbose then .debug else .info))

/-- Whether a level is shown. -/
def shows (verbosity : Verbosity) (level : Level) : Bool :=
  match verbosity with
  | none => false
  | some least => level.rank ≤ least.rank

/-- A character of a message as it is shown: control characters that a
    terminal would act on are spelled out. -/
def shown (c : Char) : Text :=
  match c with
  | '\x1b' => "\\x1b"
  | '\x07' => "\\x07"
  | '\x08' => "\\x08"
  | '\x0c' => "\\x0c"
  | '\x7f' => "\\x7f"
  | c =>
      if 0x80 ≤ c.toNat ∧ c.toNat ≤ 0x9F then
        "\\u\x7b" ++ Nat.toDigits 16 c.toNat ++ ['\x7d']
      else [c]

/-- A record as it is shown: the level to the right of five columns, the
    source, the message and the fields. -/
def logLine (record : Record) : Text :=
  line (record.level.name.leftpad 5 ' ' ++ ' ' :: record.source.name ++ ": "
    ++ record.message.flatMap shown ++ renderFields record.fields)

/-- The log of a run as far as it is shown. -/
def log (verbosity : Verbosity) (records : List Record) : Text :=
  (records.filter fun record => shows verbosity record.level).flatMap logLine

/-- The causes of a failure, one a line; several are numbered. -/
def causes : List Text → Text
  | [] => []
  | [cause] => line [] ++ line "Caused by:" ++ line ("    " ++ cause)
  | several =>
      line [] ++ line "Caused by:" ++ several.zipIdx.flatMap fun (cause, index) =>
        line ((Text.decimal index).leftpad 5 ' ' ++ ": " ++ cause)

/-- The report of a failure: what was being done, then the causes. -/
def failureReport (failure : Failure) : Text :=
  match failure.chain with
  | [] => []
  | context :: rest => line ("Error: " ++ context) ++ causes rest

/-- The banner that opens the program's output. -/
def opening : Text := line (banner "Commands Generator Script")

/-- What the program leaves behind after a run. -/
def finished (verbosity : Verbosity) (records : List Record) :
    Except Failure Summary → Output
  | .ok summary =>
      { status := if summary.isFailure then 1 else 0
        out := opening ++ log verbosity records ++ line summary.render
        err := [] }
  | .error (.extensionRejected extension) =>
      { status := 101
        out := opening ++ log verbosity records
        err := line [] ++ failureReport (.extensionRejected extension) }
  | .error failure =>
      { status := 1
        out := opening ++ log verbosity records
        err := failureReport failure }

/-- The name and version of the program. -/
def versionText : Text := "tcscript-shell 0.1.0"

/-- How the program is called, line by line. -/
def helpLines : List Text :=
  ["Usage: script2bytes [OPTIONS] --input <FILE>",
   "",
   "Options:",
   "  -i, --input <FILE>       Command script to compile",
   "  -o, --output <FILE>      Byte stream destination",
   "      --delay-file <FILE>  Delay stream destination for the split layout",
   "      --delay-mode <MODE>  sticky or one-shot",
   "      --layout <LAYOUT>    combined or split",
   "  -c, --config <FILE>      Load settings from a TOML file",
   "      --allow-errors       Exit with status 0 even when the script has errors",
   "  -v, --verbose            Log every line and packet",
   "  -h, --help               Print help",
   "  -V, --version            Print version"]

/-- The sentence that reports a misuse. -/
def misuseText : UsageError → Text
  | .missingInput => "error: the option --input <FILE> is required"
  | .unknownArgument => "error: unexpected argument"
  | .invalidValue => "error: an option has no value or an invalid one"
  | .repeatedOption => "error: an option is given more than once"
  | .unexpectedValue => "error: a value for an option that takes none"

/-- What the program leaves behind when its arguments are not those of a
    run. -/
def stopped : Stop → Output
  | .help => { status := 0, out := helpLines.flatMap line, err := [] }
  | .version => { status := 0, out := line versionText, err := [] }
  | .misuse error => { status := 2, out := [], err := line (misuseText error) }

/-- The program in a workspace: its arguments and the verbosity that is named
    for it give its output, and leave the workspace as the run does. -/
def execute (workspace : File.Workspace) (args : List Text) (named : Option Text) :
    Output × File.Workspace :=
  match Options.ofArguments args with
  | .error stop => (stopped stop, workspace)
  | .ok options =>
      let (result, after) := runIn workspace options
      (finished (verbosity options.verbose named)
        (after.records.drop workspace.records.length) result, after)

end Telecommand.Console
