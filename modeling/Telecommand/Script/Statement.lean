import Telecommand.Command.Encoding
import Telecommand.Packet.Basic
import Telecommand.Script.Fault
import Telecommand.Text.Blank

/-! # Statements

    A line is read without its blanks.  It is empty, a comment, a delay
    directive `Wait_us(N)`, or a command `KEYWORD(arg1,arg2,...)`.  What a
    line asks for, and whether it succeeds, depends on the line alone. -/

namespace Telecommand.Script

open Command

/-- A line of a script: its number, counted from one, its text without
    blanks, and whether it is a comment. -/
structure Line where
  number : Nat
  text : Text
  isComment : Bool
  deriving DecidableEq, Repr

/-- What a line asks for. -/
inductive Statement
  | nothing
  | wait (microseconds : UInt64)
  | send (opcode : Opcode)
  deriving DecidableEq, Repr

/-- What a line comes to. -/
inductive Outcome
  | skipped
  | delay (microseconds : UInt64)
  | packet (packet : Packet)
  | rejected (fault : Fault)
  deriving DecidableEq, Repr

/-- The keyword of the delay directive. -/
def delayKeyword : Text := "Wait_us"

/-- The character that opens a comment. -/
def commentMark : Char := '#'

namespace Line

/-- The line that a raw text stands for.  A comment may be indented: its
    mark is the first character that is not blank. -/
def ofRaw (number : Nat) (raw : Text) : Line where
  number := number
  text := Text.compact raw
  isComment := (Text.trimStart raw).head? = some commentMark

/-- The text before the first opening parenthesis. -/
def keyword (line : Line) : Text := Text.before '(' line.text

/-- Whether a line has nothing to say: it is a comment or empty. -/
def isSilent (line : Line) : Bool :=
  line.isComment || line.text = []

/-- The delay of a directive: one argument, a decimal number of 64 bits. -/
def delay? (line : Line) : Option UInt64 :=
  match arguments line.text with
  | .ok [value] =>
      if Text.isDecimal value && Text.decimalValue value < UInt64.size then
        some (UInt64.ofNat (Text.decimalValue value))
      else none
  | _ => none

/-- What a line asks for, by its keyword exactly. -/
def statement (line : Line) : Except Fault Statement :=
  if line.isSilent then .ok .nothing
  else if line.keyword = delayKeyword then
    match line.delay? with
    | some delay => .ok (.wait delay)
    | none => .error .badDelay
  else
    match Opcode.ofKeyword? line.keyword with
    | some opcode => .ok (.send opcode)
    | none => .error (.unknownKeyword line.keyword)

/-- What a line comes to: a command's arguments are encoded as well. -/
def outcome (line : Line) : Outcome :=
  match line.statement with
  | .ok .nothing => .skipped
  | .ok (.wait delay) => .delay delay
  | .ok (.send opcode) =>
      match opcode.encode line.text with
      | .ok payload => .packet ⟨opcode, payload⟩
      | .error refusal => .rejected (.refused refusal)
  | .error fault => .rejected fault

/-- The diagnostic of a line with a fault. -/
def diagnostic (line : Line) (fault : Fault) : Diagnostic :=
  ⟨line.number, line.text, fault⟩

end Line

end Telecommand.Script
