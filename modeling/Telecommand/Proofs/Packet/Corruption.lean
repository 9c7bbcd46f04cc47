import Telecommand.Proofs.Packet.Frame
import Telecommand.Proofs.Packet.Stream

/-! # Corrupted bytes

    A byte that is corrupted in a stream of frames is noticed in the frame
    that holds it and harms no other (`corruption_is_noticed_and_local`).  The
    reason is the distance of frames: two of them that differ in one place at
    most are one frame (`eq_of_set_toBytes`).  All frames have one sync marker,
    the content of a frame decides its checksum, and the sum of some bytes
    does not stay if one of them alone changes, even where it wraps around
    (`set_eq_self_of_total`). -/

namespace Telecommand.Packet

open Command

/-! ## Sums of bytes -/

/-- The sum of bytes, modulo 256. -/
def total (bytes : Bytes) : UInt8 := bytes.foldl (· + ·) 0

/-- Other starts make other sums. -/
theorem eq_of_foldl_add {first second : UInt8} {bytes : Bytes}
    (h : bytes.foldl (· + ·) first = bytes.foldl (· + ·) second) : first = second := by
  have hsplit (start : UInt8) : bytes.foldl (· + ·) start = start + total bytes := by
    have hzero : bytes.foldl (· + ·) (start + 0) = start + bytes.foldl (· + ·) 0 :=
      List.foldl_assoc
    rwa [UInt8.add_zero] at hzero
  rw [hsplit, hsplit] at h
  exact (UInt8.add_left_inj _).mp h

theorem set_eq_self_of_foldl_add {start value : UInt8} {bytes : Bytes} {i : Nat}
    (h : (bytes.set i value).foldl (· + ·) start = bytes.foldl (· + ·) start) :
    bytes.set i value = bytes := by
  induction bytes generalizing start i with
  | nil => rfl
  | cons byte rest ih =>
      cases i with
      | zero =>
          -- the starts for the rest are the same sum with one summand apart
          have hsum : start + value = start + byte := eq_of_foldl_add h
          rw [List.set_cons_zero, (UInt8.add_right_inj _).mp hsum]
      | succ i => rw [List.set_cons_succ, ih h]

/-- **A sum notices one summand.**  Bytes that keep their sum when one of
    them is replaced stay as they are. -/
theorem set_eq_self_of_total {value : UInt8} {bytes : Bytes} {i : Nat}
    (h : total (bytes.set i value) = total bytes) : bytes.set i value = bytes :=
  set_eq_self_of_foldl_add h

/-! ## The distance of frames -/

/-- The bytes of a frame that its checksum is about: the opcode and the
    payload. -/
def content (packet : Packet) : Bytes := packet.opcode.byte :: packet.payload.bytes

theorem length_content (packet : Packet) : packet.content.length = 7 := by
  rw [content, List.length_cons, packet.payload.length_bytes]

/-- The checksum is the sum of the content. -/
theorem total_content (packet : Packet) : total packet.content = packet.checksum := by
  show packet.payload.bytes.foldl (· + ·) (0 + packet.opcode.byte) = packet.checksum
  rw [UInt8.zero_add]
  rfl

/-- A frame is the sync marker, the content and its sum. -/
theorem toBytes_eq (packet : Packet) :
    packet.toBytes = syncMarker ++ (packet.content ++ [total packet.content]) := by
  rw [total_content, toBytes, List.append_assoc]
  rfl

theorem toBytes_injective {first second : Packet} (h : first.toBytes = second.toBytes) :
    first = second := by
  have hread := ofBytes?_toBytes first
  rw [h, ofBytes?_toBytes] at hread
  exact (Option.some.inj hread).symm

theorem eq_of_content {first second : Packet} (h : first.content = second.content) :
    first = second := by
  refine toBytes_injective ?_
  rw [toBytes_eq, toBytes_eq, h]

/-- Contents with their sums that differ in one place at most are one
    content. -/
theorem eq_of_set_content {first second : Packet} {i : Nat} {value : UInt8}
    (h : (first.content ++ [total first.content]).set i value
      = second.content ++ [total second.content]) : first = second := by
  have hlength : first.content.length = second.content.length := by
    rw [length_content, length_content]
  by_cases hi : i < first.content.length
  · -- the sums agree, so the content has not changed
    rw [List.set_append_left i value hi] at h
    obtain ⟨hcontent, hsum⟩ := List.append_inj h (by rw [List.length_set, hlength])
    have htotal : total (first.content.set i value) = total first.content := by
      rw [hcontent, ← List.singleton_inj.mp hsum]
    rw [set_eq_self_of_total htotal] at hcontent
    exact eq_of_content hcontent
  · -- the contents agree, whatever stands in the place of the sum
    rw [List.set_append_right i value (Nat.le_of_not_lt hi)] at h
    exact eq_of_content (List.append_inj h hlength).1

/-- **The distance of frames.**  If a frame with one byte replaced is a frame,
    it is the same one. -/
theorem eq_of_set_toBytes {first second : Packet} {i : Nat} {value : UInt8}
    (h : first.toBytes.set i value = second.toBytes) : first = second := by
  rw [toBytes_eq, toBytes_eq] at h
  by_cases hi : i < syncMarker.length
  · rw [List.set_append_left i value hi] at h
    have hsealed := (List.append_inj h (List.length_set ..)).2
    exact eq_of_content (List.append_inj hsealed (by rw [length_content, length_content])).1
  · rw [List.set_append_right i value (Nat.le_of_not_lt hi)] at h
    exact eq_of_set_content (List.append_inj h rfl).2

/-- Replacing a byte of a frame by another one makes it no frame. -/
theorem ofBytes?_set {packet : Packet} {i : Nat} {old value : UInt8}
    (hold : packet.toBytes[i]? = some old) (hvalue : value ≠ old) :
    ofBytes? (packet.toBytes.set i value) = none := by
  rw [Option.eq_none_iff_forall_ne_some]
  intro other hother
  have hframe : other.toBytes = packet.toBytes.set i value := ofBytes?_eq_some_iff.mp hother
  have hsame : packet = other := eq_of_set_toBytes hframe.symm
  obtain ⟨hi, -⟩ := List.getElem?_eq_some_iff.mp hold
  have hnew : packet.toBytes[i]? = some value := by
    rw [hsame, hframe, List.getElem?_set_self hi]
  rw [hold] at hnew
  exact hvalue (Option.some.inj hnew).symm

/-! ## A corrupted stream -/

/-- **A corrupted byte is noticed and stays local.**  If a byte of a stream of
    frames gives way to another one, the frame that holds its place is not
    verified, and the frames read as the packets that they were, this one
    apart. -/
theorem corruption_is_noticed_and_local {packets : List Packet} {i : Nat} {old value : UInt8}
    (hold : (packets.flatMap toBytes)[i]? = some old) (hvalue : value ≠ old) :
    verify (frameAt ((packets.flatMap toBytes).set i value) (i / frameLength)) = false
      ∧ (frames ((packets.flatMap toBytes).set i value)).map ofBytes?
          = (packets.map some).set (i / frameLength) none := by
  rw [getElem?_flatMap_of_parts length_toBytes (by decide), Option.bind_eq_some_iff] at hold
  obtain ⟨packet, hpacket, hbyte⟩ := hold
  have hframe := frameAt_flatMap_toBytes hpacket
  have hnone : ofBytes? (packet.toBytes.set (i % frameLength) value) = none :=
    ofBytes?_set hbyte hvalue
  constructor
  · rw [frameAt_set_self, hframe, verify, hnone]
    rfl
  · rw [frames_set, List.map_set, map_ofBytes?_frames, hframe, hnone]

/-- The opcode of the second of two frames turns into another one that is
    defined. -/
theorem corruption_is_noticed_and_local_of_other_opcode :
    let packets : List Packet :=
      [⟨.setTime, ⟨[1, 2, 3, 4, 5, 6], rfl⟩⟩, ⟨.powerOff, ⟨[0, 0, 0, 0, 0, 255], rfl⟩⟩]
    (packets.flatMap toBytes)[16]? = some Opcode.powerOff.byte
      ∧ Opcode.loadConfiguration.byte ≠ Opcode.powerOff.byte
      ∧ verify (frameAt ((packets.flatMap toBytes).set 16 Opcode.loadConfiguration.byte) 1) = false
      ∧ (frames ((packets.flatMap toBytes).set 16 Opcode.loadConfiguration.byte)).map ofBytes?
          = [some ⟨.setTime, ⟨[1, 2, 3, 4, 5, 6], rfl⟩⟩, none] :=
  ⟨rfl, by decide, corruption_is_noticed_and_local rfl (by decide)⟩

end Telecommand.Packet
