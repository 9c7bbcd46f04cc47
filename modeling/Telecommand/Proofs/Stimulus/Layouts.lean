import Telecommand.Proofs.Packet.Stream
import Telecommand.Proofs.Stimulus.Combined
import Telecommand.Script.Compilation

/-! # Two layouts of the same streams

    The combined layout and the split layout carry the same streams
    (`layouts_carry_same_streams`).  All three texts are made of the same
    timed bytes, one line for each, so their lines are the images of one list
    and stand at the same places; the lines of the split layout read back as
    the byte stream and the delay stream. -/

namespace Telecommand.Stimulus

open Script Text

/-- There are twelve timed bytes a packet. -/
theorem length_flatMap_schedule (packets : List TimedPacket) :
    (packets.flatMap TimedPacket.schedule).length = 12 * packets.length :=
  length_flatMap_of_parts TimedPacket.length_schedule packets

/-! ## The lines of each text -/

section Lines

variable (packets : List TimedPacket)

theorem endedLines?_combined :
    endedLines? (render .combined packets).bytes
      = some ((packets.flatMap TimedPacket.schedule).map fun timed =>
          decimal timed.1.toNat ++ ' ' :: hexPair timed.2) := by
  rw [bytes_render_combined]
  exact endedLines?_flatMap lineFeed_notMem_timed _

theorem endedLines?_bytes :
    endedLines? (render .split packets).bytes
      = some ((packets.flatMap TimedPacket.schedule).map fun timed => hexPair timed.2) := by
  refine endedLines?_flatMap (fun timed => ?_) _
  intro h
  exact absurd (isHexDigit_of_mem_hexPair h) (by decide)

theorem endedLines?_delays :
    (render .split packets).delays.bind endedLines?
      = some ((packets.flatMap TimedPacket.schedule).map fun timed =>
          decimal timed.1.toNat) := by
  refine endedLines?_flatMap (fun timed => ?_) _
  intro h
  exact absurd (isHexDigit_of_mem_decimal h) (by decide)

end Lines

/-! ## The lines together -/

/-- How the lines of the three texts of a compilation go together. -/
structure Aligned (compilation : Compilation) (combined bytes delays : List Text) : Prop where
  /-- Each text has twelve lines a packet. -/
  length_combined : combined.length = 12 * compilation.packets.length
  length_bytes : bytes.length = 12 * compilation.packets.length
  length_delays : delays.length = 12 * compilation.packets.length
  /-- A line of the combined text is the delay line and the byte line of the
      same place, with a space between. -/
  combined_line : ∀ i : Nat, combined[i]?
    = delays[i]?.bind fun delay => bytes[i]?.map fun byte => delay ++ ' ' :: byte
  /-- The byte lines, read as two digits each, are the byte stream. -/
  bytes_read : bytes.mapM readByte? = some compilation.byteStream
  /-- The delay lines, read as decimal numbers, are the delay stream. -/
  delays_read : delays.mapM readDelay? = some compilation.delayStream

/-- **The layouts carry the same streams.**  The three texts of the packets of a
    compilation consist of ended lines, which go together place by place. -/
theorem layouts_carry_same_streams (compilation : Compilation) :
    ∃ combined bytes delays,
      endedLines? (render .combined compilation.packets).bytes = some combined
        ∧ endedLines? (render .split compilation.packets).bytes = some bytes
        ∧ (render .split compilation.packets).delays.bind endedLines? = some delays
        ∧ Aligned compilation combined bytes delays := by
  refine ⟨_, _, _, endedLines?_combined _, endedLines?_bytes _, endedLines?_delays _, ?_⟩
  have hlength := length_flatMap_schedule compilation.packets
  refine
    { length_combined := (List.length_map _).trans hlength
      length_bytes := (List.length_map _).trans hlength
      length_delays := (List.length_map _).trans hlength
      combined_line := ?_
      bytes_read := ?_
      delays_read := ?_ }
  · intro i
    rw [List.getElem?_map, List.getElem?_map, List.getElem?_map]
    cases (compilation.packets.flatMap TimedPacket.schedule)[i]? with
    | none => rfl
    | some timed => rfl
  · rw [mapM_eq_some_iff readByte?_eq_some_iff]
    exact List.map_map
  · rw [mapM_eq_some_iff readDelay?_eq_some_iff]
    exact List.map_map

end Telecommand.Stimulus
