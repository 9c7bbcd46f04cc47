import Telecommand.Packet.Basic
import Mathlib.Data.List.Basic

/-! # Streams of frames

    A stream is read twelve bytes at a time (`frames`).  Parts of one length
    that are joined stand at the multiples of this length
    (`drop_flatMap_of_parts`), so the joined frames of a packet list are cut
    into these frames again (`frames_flatMap_toBytes`).  A byte that is
    replaced in a stream is replaced in one frame, the one that holds its
    place (`frames_set`). -/

namespace Telecommand

/-! ## Parts of one length -/

section Parts

variable {α β : Type} {part : α → List β} {size : Nat}

theorem length_flatMap_of_parts (h : ∀ item, (part item).length = size) (items : List α) :
    (items.flatMap part).length = size * items.length := by
  rw [List.length_flatMap, List.map_congr_left fun item _ => h item]
  simp [Nat.mul_comm]

/-- Leaving out whole parts in front leaves the other parts. -/
theorem drop_flatMap_of_parts (h : ∀ item, (part item).length = size) (items : List α)
    (count : Nat) :
    (items.flatMap part).drop (size * count) = (items.drop count).flatMap part := by
  induction count generalizing items with
  | zero => rfl
  | succ count ih =>
      cases items with
      | nil => rw [List.flatMap_nil, List.drop_nil, List.drop_nil, List.flatMap_nil]
      | cons item rest =>
          have hfirst : (part item ++ rest.flatMap part).drop size = rest.flatMap part := by
            rw [← h item, List.drop_left]
          rw [List.flatMap_cons, Nat.mul_succ, Nat.add_comm, ← List.drop_drop, hfirst, ih,
            List.drop_succ_cons]

/-- A place in joined parts is a place in one of them: the quotient by their
    length says in which, the remainder where. -/
theorem getElem?_flatMap_of_parts (h : ∀ item, (part item).length = size) (hsize : 0 < size)
    (items : List α) (i : Nat) :
    (items.flatMap part)[i]? = items[i / size]?.bind fun item => (part item)[i % size]? := by
  have hplace : size * (i / size) + i % size = i := Nat.div_add_mod i size
  have hdrop : (items.flatMap part)[i]?
      = ((items.drop (i / size)).flatMap part)[i % size]? := by
    rw [← drop_flatMap_of_parts h, List.getElem?_drop, hplace]
  have hitem : items[i / size]? = (items.drop (i / size)).head? := List.head?_drop.symm
  rw [hdrop, hitem]
  cases items.drop (i / size) with
  | nil => rfl
  | cons item rest =>
      have hinside : i % size < (part item).length := by
        rw [h item]
        exact Nat.mod_lt i hsize
      rw [List.flatMap_cons, List.getElem?_append_left hinside, List.head?_cons, Option.bind_some]

end Parts

/-! ## Frames of a stream -/

namespace Packet

/-- The bytes of a stream that stand at the place of a frame, the places
    counted from zero: twelve, or fewer where the stream ends before. -/
def frameAt (stream : Bytes) (place : Nat) : Bytes :=
  (stream.drop (frameLength * place)).take frameLength

/-- The number of frames that a stream fills, also in part. -/
def frameCount (stream : Bytes) : Nat :=
  (stream.length + (frameLength - 1)) / frameLength

/-- A stream cut into frames of twelve bytes; what is left at its end is a
    shorter one. -/
def frames (stream : Bytes) : List Bytes :=
  (List.range (frameCount stream)).map (frameAt stream)

theorem getElem?_frames (stream : Bytes) (place : Nat) :
    (frames stream)[place]?
      = if place < frameCount stream then some (frameAt stream place) else none := by
  rw [frames, List.getElem?_map]
  by_cases h : place < frameCount stream
  · rw [if_pos h, List.getElem?_range h, Option.map_some]
  · rw [if_neg h, List.getElem?_eq_none (by rw [List.length_range]; omega), Option.map_none]

/-- Cutting loses nothing: the frames of a stream are the stream. -/
theorem flatten_frames (stream : Bytes) : (frames stream).flatten = stream := by
  have htake (count : Nat) : ((List.range count).map (frameAt stream)).flatten
      = stream.take (frameLength * count) := by
    induction count with
    | zero => rfl
    | succ count ih =>
        rw [List.range_succ, List.map_append, List.flatten_append, ih, List.map_singleton,
          List.flatten_singleton, frameAt, ← List.take_add, Nat.mul_succ]
  rw [frames, htake, List.take_of_length_le]
  simp only [frameCount, frameLength]
  omega

/-! ## The stream of a packet list -/

theorem frameCount_flatMap_toBytes (packets : List Packet) :
    frameCount (packets.flatMap toBytes) = packets.length := by
  rw [frameCount, length_flatMap_of_parts length_toBytes]
  simp only [frameLength]
  omega

theorem frameAt_flatMap_toBytes {packets : List Packet} {place : Nat} {packet : Packet}
    (h : packets[place]? = some packet) :
    frameAt (packets.flatMap toBytes) place = packet.toBytes := by
  obtain ⟨hplace, hpacket⟩ := List.getElem?_eq_some_iff.mp h
  rw [frameAt, drop_flatMap_of_parts length_toBytes, List.drop_eq_getElem_cons hplace, hpacket,
    List.flatMap_cons, ← packet.length_toBytes, List.take_left]

/-- **Cutting inverts joining.**  The frames of a joined packet list are the
    frames of its packets. -/
theorem frames_flatMap_toBytes (packets : List Packet) :
    frames (packets.flatMap toBytes) = packets.map toBytes := by
  refine List.ext_getElem? fun place => ?_
  rw [getElem?_frames, frameCount_flatMap_toBytes, List.getElem?_map]
  by_cases hplace : place < packets.length
  · have hpacket : packets[place]? = some packets[place] := List.getElem?_eq_getElem hplace
    rw [if_pos hplace, hpacket, frameAt_flatMap_toBytes hpacket, Option.map_some]
  · rw [if_neg hplace, List.getElem?_eq_none (Nat.le_of_not_lt hplace), Option.map_none]

/-- The frames of a joined packet list read as its packets. -/
theorem map_ofBytes?_frames (packets : List Packet) :
    (frames (packets.flatMap toBytes)).map ofBytes? = packets.map some := by
  rw [frames_flatMap_toBytes, List.map_map]
  refine List.map_congr_left ?_
  intro packet _
  exact ofBytes?_toBytes packet

/-! ## Replacing a byte -/

variable (stream : Bytes) (i : Nat) (value : UInt8)

/-- The frame that holds a place changes at the remainder of the place. -/
theorem frameAt_set_self :
    frameAt (stream.set i value) (i / frameLength)
      = (frameAt stream (i / frameLength)).set (i % frameLength) value := by
  have hplace : frameLength * (i / frameLength) + i % frameLength = i :=
    Nat.div_add_mod i frameLength
  have hfront : ¬ i < frameLength * (i / frameLength) := by omega
  have hinside : i - frameLength * (i / frameLength) = i % frameLength := by omega
  rw [frameAt, frameAt, List.drop_set, if_neg hfront, List.take_set, hinside]

/-- Every other frame stays. -/
theorem frameAt_set_of_ne {place : Nat} (h : place ≠ i / frameLength) :
    frameAt (stream.set i value) place = frameAt stream place := by
  rw [frameAt, frameAt, List.drop_set]
  by_cases hbehind : i < frameLength * place
  · rw [if_pos hbehind]
  · -- the place is not in this frame either, so it is behind it
    have hbeyond : frameLength ≤ i - frameLength * place := by
      simp only [frameLength] at h hbehind ⊢
      omega
    rw [if_neg hbehind, List.take_set,
      List.set_eq_of_length_le (Nat.le_trans (List.length_take_le _ _) hbeyond)]

/-- **One byte is in one frame.**  A stream with a byte replaced is cut into
    the same frames but for the one that holds the place of the byte. -/
theorem frames_set :
    frames (stream.set i value)
      = (frames stream).set (i / frameLength)
          ((frameAt stream (i / frameLength)).set (i % frameLength) value) := by
  have hcount : frameCount (stream.set i value) = frameCount stream := by
    rw [frameCount, frameCount, List.length_set]
  refine List.ext_getElem? fun place => ?_
  rw [getElem?_frames, hcount, List.getElem?_set]
  by_cases hplace : i / frameLength = place
  · rw [if_pos hplace, ← hplace, frameAt_set_self, frames, List.length_map, List.length_range]
  · rw [if_neg hplace, getElem?_frames, frameAt_set_of_ne stream i value (Ne.symm hplace)]

end Packet

end Telecommand
