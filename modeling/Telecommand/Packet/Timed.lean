import Telecommand.Packet.Basic

/-! # Timed packets

    A packet that waits before it is sent.  The delay belongs to the first
    byte of the frame; the other bytes follow at once. -/

namespace Telecommand

/-- A packet with the microseconds to wait before its first byte. -/
structure TimedPacket where
  delay : UInt64
  packet : Packet
  deriving DecidableEq, Repr

namespace TimedPacket

/-- The bytes of the frame, each with the delay before it. -/
def schedule (timed : TimedPacket) : List (UInt64 × UInt8) :=
  (timed.delay :: List.replicate (Packet.frameLength - 1) 0).zip timed.packet.toBytes

/-- Every frame byte has its delay. -/
@[simp] theorem length_schedule (timed : TimedPacket) :
    timed.schedule.length = Packet.frameLength := by
  simp [schedule, Packet.frameLength]

/-- The bytes that go with the delays are the frame. -/
@[simp] theorem map_snd_schedule (timed : TimedPacket) :
    timed.schedule.map Prod.snd = timed.packet.toBytes := by
  rw [schedule, List.map_snd_zip]
  simp [Packet.frameLength]

/-- The delays that go with the bytes are the packet's own, then zeros. -/
@[simp] theorem map_fst_schedule (timed : TimedPacket) :
    timed.schedule.map Prod.fst
      = timed.delay :: List.replicate (Packet.frameLength - 1) 0 := by
  rw [schedule, List.map_fst_zip]
  simp [Packet.frameLength]

end TimedPacket

end Telecommand
