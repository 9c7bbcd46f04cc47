import Telecommand.Packet.Timed
import Mathlib.Data.Option.Basic

/-! # Frames

    The frame codec is exact: bytes are read as a packet only if they are its
    frame (`ofBytes?_eq_some_iff`). -/

namespace Telecommand

open Command

namespace Packet

/-- **The frame codec is exact.**  The bytes that read as a packet are its
    frame and no others. -/
theorem ofBytes?_eq_some_iff {bytes : Bytes} {packet : Packet} :
    ofBytes? bytes = some packet ↔ packet.toBytes = bytes := by
  constructor
  · intro h
    unfold ofBytes? at h
    split at h
    · rename_i s0 s1 s2 s3 code p0 p1 p2 p3 p4 p5 sum
      simp only [Option.bind_eq_bind, Option.bind_eq_some_iff, Option.pure_def,
        Option.some.injEq] at h
      obtain ⟨_, hsync, opcode, hopcode, _, hsum, rfl⟩ := h
      have hmarker : [s0, s1, s2, s3] = syncMarker := (Option.guard_eq_some' _).mp hsync
      have hchecksum : checksum ⟨opcode, ⟨[p0, p1, p2, p3, p4, p5], rfl⟩⟩ = sum :=
        (Option.guard_eq_some' _).mp hsum
      rw [toBytes, hchecksum, Opcode.ofByte?_eq_some_iff.mp hopcode, ← hmarker]
      rfl
    · cases h
  · rintro rfl
    exact ofBytes?_toBytes packet

end Packet

end Telecommand
