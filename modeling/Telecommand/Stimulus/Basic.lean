import Telecommand.Packet.Timed
import Telecommand.Text.Decimal

/-! # Stimulus streams

    The frames of a packet list as text for a test bench, one byte a line.
    The combined layout puts the delay before each byte on the same line;
    the split layout makes two texts that go together line by line. -/

namespace Telecommand.Stimulus

/-- How bytes and delays are laid out. -/
inductive Layout
  /-- Delay and byte on one line. -/
  | combined
  /-- Bytes and delays in two texts. -/
  | split
  deriving DecidableEq, Repr

/-- The name of a layout in settings. -/
def Layout.name : Layout → Text
  | combined => "combined"
  | split => "split"

/-- A packet list in print. -/
structure Rendered where
  /-- The byte text, in the combined layout with delays. -/
  bytes : Text
  /-- The delay text of the split layout. -/
  delays : Option Text
  deriving DecidableEq, Repr

/-- A byte on a line of its own. -/
def byteLine (byte : UInt8) : Text := Text.hexPair byte ++ ['\n']

/-- A delay on a line of its own. -/
def delayLine (delay : UInt64) : Text := Text.decimal delay.toNat ++ ['\n']

/-- A delay and its byte on one line. -/
def timedLine (delay : UInt64) (byte : UInt8) : Text :=
  Text.decimal delay.toNat ++ ' ' :: byteLine byte

/-- The packets in print. -/
def render (layout : Layout) (packets : List TimedPacket) : Rendered :=
  let timed := packets.flatMap TimedPacket.schedule
  match layout with
  | .combined =>
      { bytes := timed.flatMap fun (delay, byte) => timedLine delay byte
        delays := none }
  | .split =>
      { bytes := timed.flatMap fun (_, byte) => byteLine byte
        delays := some (timed.flatMap fun (delay, _) => delayLine delay) }

end Telecommand.Stimulus
