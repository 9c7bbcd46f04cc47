import Telecommand.Command.Opcode
import Telecommand.Packet.Payload
import Telecommand.Text.Hex

/-! # Packets

    A packet is an opcode with its payload.  On the wire it is a frame of
    twelve bytes: four of sync marker, the opcode, the payload, and a
    checksum over opcode and payload. -/

namespace Telecommand

open Command

/-- A command with its payload. -/
structure Packet where
  opcode : Opcode
  payload : Payload
  deriving DecidableEq, Repr

namespace Packet

/-- The four bytes that open every frame. -/
def syncMarker : Bytes := [0x52, 0x47, 0x52, 0x7B]

/-- The number of bytes in a frame. -/
def frameLength : Nat := 12

/-- The sum of opcode and payload bytes, modulo 256. -/
def checksum (packet : Packet) : UInt8 :=
  packet.payload.bytes.foldl (· + ·) packet.opcode.byte

/-- The frame of a packet. -/
def toBytes (packet : Packet) : Bytes :=
  syncMarker ++ packet.opcode.byte :: packet.payload.bytes ++ [packet.checksum]

/-- The packet whose frame the bytes are, if they are a frame: twelve bytes
    with the sync marker, a known opcode and a matching checksum. -/
def ofBytes? (bytes : Bytes) : Option Packet :=
  match bytes with
  | [s0, s1, s2, s3, code, p0, p1, p2, p3, p4, p5, sum] => do
      guard ([s0, s1, s2, s3] = syncMarker)
      let opcode ← Opcode.ofByte? code
      let packet : Packet := ⟨opcode, ⟨[p0, p1, p2, p3, p4, p5], rfl⟩⟩
      guard (packet.checksum = sum)
      return packet
  | _ => none

/-- Whether the bytes are a frame. -/
def verify (bytes : Bytes) : Bool := (ofBytes? bytes).isSome

/-- The frame in print: its bytes as two upper-case digits each, spaces
    between. -/
def render (packet : Packet) : Text :=
  [' '].intercalate (packet.toBytes.map Text.hexPair)

/-- A frame has twelve bytes. -/
@[simp] theorem length_toBytes (packet : Packet) :
    packet.toBytes.length = frameLength := by
  simp [toBytes, syncMarker, packet.payload.length_bytes, frameLength]

/-- A frame reads back as its packet. -/
@[simp] theorem ofBytes?_toBytes (packet : Packet) :
    ofBytes? packet.toBytes = some packet := by
  obtain ⟨opcode, bytes, h⟩ := packet
  match bytes, h with
  | [p0, p1, p2, p3, p4, p5], h =>
      -- the sync marker is checked by computation, the checksum is its own
      refine Option.bind_eq_some_iff.mpr ⟨opcode, Opcode.ofByte?_byte opcode, ?_⟩
      exact Option.bind_eq_some_iff.mpr ⟨(), if_pos rfl, rfl⟩

end Packet

end Telecommand
