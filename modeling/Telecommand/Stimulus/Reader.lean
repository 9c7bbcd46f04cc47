import Telecommand.Stimulus.Basic
import Telecommand.Text.Hex

/-! # Reading streams back

    Stream texts read line by line.  A line is accepted only as it is
    written: a byte as two upper-case digits, a delay as a 64-bit number
    without leading zeros.  Twelve timed bytes make a packet when they are a
    frame and only the first has a delay. -/

namespace Telecommand.Stimulus

variable {α : Type}

/-- The byte that two upper-case digits stand for. -/
def readByte? (digits : Text) : Option UInt8 :=
  let byte := UInt8.ofNat (Text.hexValue digits)
  if Text.hexPair byte = digits then some byte else none

/-- The delay that a decimal numeral without leading zeros stands for. -/
def readDelay? (digits : Text) : Option UInt64 :=
  let delay := UInt64.ofNat (Text.decimalValue digits)
  if Text.decimal delay.toNat = digits then some delay else none

/-- A delay and its byte, with one space between them. -/
def readTimed? (line : Text) : Option (UInt64 × UInt8) := do
  let (delay, byte) ← Text.cut? ' ' line
  return (← readDelay? delay, ← readByte? byte)

/-- The lines of a text in which every line has its end. -/
def endedLines? (text : Text) : Option (List Text) :=
  let pieces := text.splitOn '\n'
  if pieces.getLast? = some [] then some pieces.dropLast else none

/-- The items on the lines of a text. -/
def readLines? (read : Text → Option α) (text : Text) : Option (List α) := do
  (← endedLines? text).mapM read

/-- The packet of twelve timed bytes. -/
def readPacket? (timed : List (UInt64 × UInt8)) : Option TimedPacket :=
  match timed with
  | [] => none
  | (delay, _) :: rest => do
      guard (rest.all fun later => later.1 = 0)
      let packet ← Packet.ofBytes? (timed.map Prod.snd)
      return ⟨delay, packet⟩

/-- The packets of timed bytes, twelve to a packet; the number bounds the
    packets. -/
def readPackets? : Nat → List (UInt64 × UInt8) → Option (List TimedPacket)
  | _, [] => some []
  | 0, _ :: _ => none
  | packets + 1, timed => do
      let packet ← readPacket? (timed.take Packet.frameLength)
      let rest ← readPackets? packets (timed.drop Packet.frameLength)
      return packet :: rest

/-- The packets of a text in the combined layout. -/
def readCombined? (text : Text) : Option (List TimedPacket) := do
  let timed ← readLines? readTimed? text
  readPackets? timed.length timed

end Telecommand.Stimulus
