import Telecommand.Proofs.Packet.Frame
import Telecommand.Proofs.Packet.Stream
import Telecommand.Script.Compilation

/-! # Streams of a compilation

    The byte stream and the delay stream of a compilation go together byte
    by byte, and nothing of its packets is lost in them: the byte stream is
    cut and read as the packets, and the delays stand in the delay stream
    where the frames begin (`streams_read_back`). -/

namespace Telecommand

/-! ## The delays of a frame -/

namespace TimedPacket

/-- The delays of a frame: the packet's own before the first byte, none before
    the others. -/
def frameDelays (timed : TimedPacket) : List UInt64 :=
  timed.delay :: List.replicate (Packet.frameLength - 1) 0

theorem length_frameDelays (timed : TimedPacket) :
    timed.frameDelays.length = Packet.frameLength := by
  rw [frameDelays, List.length_cons, List.length_replicate]
  rfl

/-- Only the first byte of a frame has a delay. -/
theorem getElem?_frameDelays (timed : TimedPacket) {i : Nat} (h : i < Packet.frameLength) :
    timed.frameDelays[i]? = some (if i = 0 then timed.delay else 0) := by
  cases i with
  | zero => rfl
  | succ i =>
      have hrest : i < Packet.frameLength - 1 := by omega
      rw [frameDelays, List.getElem?_cons_succ, List.getElem?_replicate, if_pos hrest,
        if_neg (Nat.succ_ne_zero i)]

end TimedPacket

/-! ## The two streams -/

namespace Script.Compilation

/-- The bytes are those of the packets, which the delays are no part of. -/
theorem byteStream_eq (compilation : Compilation) :
    compilation.byteStream
      = (compilation.packets.map TimedPacket.packet).flatMap Packet.toBytes := by
  rw [byteStream, schedule, List.map_flatMap, List.flatMap_map]
  refine List.flatMap_congr ?_
  intro timed _
  exact timed.map_snd_schedule

theorem delayStream_eq (compilation : Compilation) :
    compilation.delayStream = compilation.packets.flatMap TimedPacket.frameDelays := by
  rw [delayStream, schedule, List.map_flatMap]
  refine List.flatMap_congr ?_
  intro timed _
  exact timed.map_fst_schedule

/-- **The codec is exact, frame by frame and over streams.**  Bytes read as a
    packet exactly if they are its frame.  So the two streams of a compilation
    have twelve entries a packet; the byte stream, cut into frames, reads as
    the packets in order; and the delay of a packet stands in the delay stream
    where its frame begins, with no delay anywhere else. -/
theorem streams_read_back :
    (∀ (bytes : Bytes) (packet : Packet),
        Packet.ofBytes? bytes = some packet ↔ bytes = packet.toBytes)
      ∧ ∀ compilation : Compilation,
          compilation.byteStream.length = 12 * compilation.packets.length
            ∧ compilation.delayStream.length = 12 * compilation.packets.length
            ∧ (Packet.frames compilation.byteStream).flatten = compilation.byteStream
            ∧ (Packet.frames compilation.byteStream).map Packet.ofBytes?
                = compilation.packets.map (fun timed => some timed.packet)
            ∧ ∀ i, compilation.delayStream[i]?
                = compilation.packets[i / 12]?.map fun timed =>
                    if i % 12 = 0 then timed.delay else 0 := by
  constructor
  · intro bytes packet
    rw [Packet.ofBytes?_eq_some_iff, eq_comm]
  · intro compilation
    rw [byteStream_eq, delayStream_eq]
    refine ⟨?_, ?_, ?_, ?_, ?_⟩
    · rw [length_flatMap_of_parts Packet.length_toBytes, List.length_map]
      rfl
    · exact length_flatMap_of_parts TimedPacket.length_frameDelays compilation.packets
    · exact Packet.flatten_frames _
    · rw [Packet.map_ofBytes?_frames, List.map_map]
      rfl
    · intro i
      have hplace : i % Packet.frameLength < Packet.frameLength := Nat.mod_lt i (by decide)
      rw [getElem?_flatMap_of_parts TimedPacket.length_frameDelays (by decide)]
      simp only [TimedPacket.getElem?_frameDelays _ hplace, Option.map_eq_bind]
      rfl

end Script.Compilation

end Telecommand
