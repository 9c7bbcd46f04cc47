import Telecommand.Command.Argument
import Telecommand.Command.Opcode
import Telecommand.Packet.Payload

/-! # Encoding commands

    How a command's arguments become its payload.  The number of arguments
    is checked first, then each argument in order, so the first bad argument
    is the one reported. -/

namespace Telecommand.Command

variable {α β : Type}

/-- Reads each argument in order, counting positions from the given one; the
    first failure is the result. -/
def readEach (read : Nat → α → Except Refusal β) :
    Nat → List α → Except Refusal (List β)
  | _, [] => .ok []
  | position, arg :: rest => do
      let value ← read position arg
      let values ← readEach read (position + 1) rest
      .ok (value :: values)

/-- Whether an argument carries the marker of a hexadecimal literal. -/
def isMarked (arg : Text) : Bool := arg.head? = some hexMarker

/-- The word of an argument without a marker: four hexadecimal digits of the
    first argument, after its first two bytes. -/
def unmarkedWord (first : Text) (position : Nat) (arg : Text) :
    Except Refusal UInt16 :=
  match (Text.utf8Slice? 2 6 first).filter Text.isHexadecimal with
  | some digits => .ok (UInt16.ofNat (Text.hexValue digits))
  | none => .error (.badHexLiteral position arg .notDigits)

/-- One word of a pair.  The first argument stands in for any argument
    without a marker. -/
def readWord (first : Text) (position : Nat) (arg : Text) :
    Except Refusal UInt16 :=
  if isMarked arg then (hexNumber 16 position arg).map UInt32.toUInt16
  else unmarkedWord first position arg

/-- A word as two bytes, the high one first. -/
def wordBytes (word : UInt16) : Bytes := [(word >>> 8).toUInt8, word.toUInt8]

/-- Two words at the front of a payload, zeros behind. -/
def encodeWordPair (args : List Text) : Except Refusal Payload := do
  let words ← readEach (readWord (args.headD [])) 1 args
  .ok (.ofBytes (words.flatMap wordBytes))

/-- The bits of fields one after the other, then zero bits. -/
def packFields (widths : List UInt32) (padding : UInt32) (args : List Text) :
    Except Refusal Bits := do
  let fields ← readEach (fun position (arg, width) => fieldBits width.toNat position arg)
    1 (args.zip widths)
  .ok (fields.flatten ++ List.replicate padding.toNat false)

/-- Bit fields packed into a payload. -/
def encodeBitFields (widths : List UInt32) (padding : UInt32) (args : List Text) :
    Except Refusal Payload := do
  let bits ← packFields widths padding args
  .ok (.ofBytes bits.toBytes)

/-- One byte: a marked argument is hexadecimal, any other decimal. -/
def readByte (position : Nat) (arg : Text) : Except Refusal UInt8 :=
  if isMarked arg then (hexNumber 8 position arg).map UInt32.toUInt8
  else decimalByte position arg

/-- One byte for each argument. -/
def encodeSixBytes (args : List Text) : Except Refusal Payload := do
  let bytes ← readEach readByte 1 args
  .ok (.ofBytes bytes)

/-- The payload that arguments of a shape make. -/
def Shape.encode : Shape → List Text → Except Refusal Payload
  | .wordPair, args => encodeWordPair args
  | .bitFields widths padding, args => encodeBitFields widths padding args
  | .sixBytes, args => encodeSixBytes args

/-- The payload of a command, from the text that holds its argument list. -/
def Opcode.encode (opcode : Opcode) (raw : Text) : Except Refusal Payload := do
  let args ← arguments raw
  let expected := opcode.shape.argumentCount
  if args.length ≠ expected then
    .error (.wrongArgumentCount expected args.length)
  else
    opcode.shape.encode args

end Telecommand.Command
