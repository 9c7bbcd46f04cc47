import Telecommand.Script.Compilation

/-! # Writing scripts

    A packet list as the script that compiles to it: for each packet its
    delay directive and its command, the payload spelled in hexadecimal
    arguments as the opcode's shape cuts it.  Only payloads that the shape can
    fill have such a script: behind the arguments of a word pair or of
    padded fields there is room for zeros alone. -/

namespace Telecommand

variable {α : Type}

/-- Consecutive parts of a list, with the given lengths. -/
def cutInto : List Nat → List α → List (List α)
  | [], _ => []
  | n :: rest, items => items.take n :: cutInto rest (items.drop n)

namespace Command

/-- The opcodes whose shape leaves the last two payload bytes zero. -/
def Opcode.leavesTailZero (opcode : Opcode) : Bool :=
  opcode = .changeParameter || opcode = .readParameter || opcode = .flashErase

/-- The arguments of a shape that spell a payload. -/
def Shape.spell (shape : Shape) (payload : Payload) : List Text :=
  (cutInto shape.digitCounts (payload.bytes.flatMap Text.hexPair)).map (hexMarker :: ·)

end Command

namespace Packet

/-- Whether a packet is the value of some command: where its shape leaves
    the last two payload bytes zero, they are. -/
def IsExpressible (packet : Packet) : Prop :=
  packet.opcode.leavesTailZero = true → packet.payload.bytes.drop 4 = [0, 0]

instance (packet : Packet) : Decidable packet.IsExpressible :=
  inferInstanceAs (Decidable (_ → _))

/-- The command that makes a packet. -/
def command (packet : Packet) : Text :=
  packet.opcode.keyword ++ '('
    :: [','].intercalate (packet.opcode.shape.spell packet.payload) ++ [')']

end Packet

namespace Script

/-- The directive that sets a delay. -/
def directive (delay : UInt64) : Text :=
  delayKeyword ++ '(' :: Text.decimal delay.toNat ++ [')']

/-- The two lines that make a timed packet. -/
def writePacket (timed : TimedPacket) : Text :=
  directive timed.delay ++ '\n' :: timed.packet.command ++ ['\n']

/-- The script that makes a packet list. -/
def write (packets : List TimedPacket) : Text :=
  packets.flatMap writePacket

example :
    (Packet.mk .flashErase ⟨[0x12, 0x34, 0x56, 0x78, 0, 0], rfl⟩).command
      = "Send_FLASH_ERASE(x1,x234,x5,x678)".toList := by decide

end Script

end Telecommand
