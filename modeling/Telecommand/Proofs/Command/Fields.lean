import Telecommand.Proofs.Command.Acceptance

/-! # Bit fields

    Bit fields side by side denote a sum: each field counts its number,
    reduced to its width, above the widths of the later fields and the padding
    (`value_fieldsOf`).  Fields that are 48 bits together fill a payload
    exactly, and the payload as a big-endian number is this sum
    (`packs_encodeBitFields`).

    A shape counts its bits as a 32-bit number, so that it can say 48 of fields
    that are more (`wrapped_bit_length_overruns`); no shape of a command does. -/

namespace Telecommand.Command

open Text

variable {widths : List UInt32} {padding : UInt32} {args numerals : List Text} {bits : Bits}

/-! ## Fields as a number -/

/-- What numbers count as fields of given widths: each is reduced to its
    width and stands above the widths of the later fields and the padding. -/
def fieldsValue (padding : Nat) : List (Nat × Nat) → Nat
  | [] => 0
  | (number, width) :: later =>
      number % 2 ^ width * 2 ^ ((later.map Prod.snd).sum + padding) + fieldsValue padding later

/-- The numbers of a page, an address and a length. -/
example (page address length : Nat) :
    fieldsValue 0 ([page, address, length].zip [8, 24, 16])
      = page % 2 ^ 8 * 2 ^ 40 + (address % 2 ^ 24 * 2 ^ 16 + length % 2 ^ 16) := by
  simp [fieldsValue]

/-- **Fields side by side denote the sum of their numbers**, and zero bits
    behind them double it. -/
theorem value_fieldsOf {widths : List Nat} (hcount : numerals.length = widths.length)
    (padding : Nat) :
    Bits.value ((fieldsOf widths numerals).flatten ++ List.replicate padding false)
      = fieldsValue padding ((numerals.map hexValue).zip widths) := by
  induction numerals generalizing widths with
  | nil =>
      rw [List.length_eq_zero_iff.mp hcount.symm]
      exact Bits.value_replicate_false padding
  | cons digits rest ih =>
      cases widths with
      | nil => cases hcount
      | cons width others =>
          have hrest : rest.length = others.length := Nat.succ.inj hcount
          have hwidths : ((rest.map hexValue).zip others).map Prod.snd = others :=
            List.map_snd_zip (by rw [List.length_map]; omega)
          have hbehind : ((fieldsOf others rest).flatten ++ List.replicate padding false).length
              = others.sum + padding := by
            rw [List.length_append, length_flatten_fieldsOf hrest, List.length_replicate]
          show Bits.value (Bits.fit width (digits.flatMap Bits.ofDigit)
              ++ (fieldsOf others rest).flatten ++ List.replicate padding false)
            = hexValue digits % 2 ^ width
                * 2 ^ ((((rest.map hexValue).zip others).map Prod.snd).sum + padding)
              + fieldsValue padding ((rest.map hexValue).zip others)
          rw [List.append_assoc, Bits.value_append, Bits.value_fit, Bits.value_flatMap_ofDigit,
            hbehind, hwidths, ih hrest]

/-! ## Packing -/

/-- Packed bits are as many as the widths and the padding say, and denote the sum
    of the numbers that the arguments denote. -/
theorem of_packFields (hcount : args.length = widths.length)
    (h : packFields widths padding args = .ok bits) :
    bits.length = (widths.map UInt32.toNat).sum + padding.toNat
      ∧ ∃ numbers, List.Forall₂ Slot.field.Denotes args numbers
        ∧ bits.value
          = fieldsValue padding.toNat (numbers.zip (widths.map UInt32.toNat)) := by
  obtain ⟨numerals, hnumerals, hlength, rfl⟩ := exists_of_packFields hcount h
  have hdigits := (readEach_eq_ok_iff fun place arg digits =>
    @markedDigits_eq_ok_iff digits place arg).mp hnumerals
  refine ⟨?_, numerals.map hexValue, ?_, value_fieldsOf hlength padding.toNat⟩
  · rw [List.length_append, length_flatten_fieldsOf hlength, List.length_replicate]
  · refine List.forall₂_map_right_iff.mpr (hdigits.imp ?_)
    rintro arg digits ⟨rfl, hhex⟩
    exact .marked hhex fun bits hbits => by cases hbits

/-- A bit field takes exactly the marker with one or more digits. -/
theorem Slot.field_accepts_iff {arg : Text} :
    Slot.field.Accepts arg ↔ ∃ digits, arg = hexMarker :: digits ∧ isHexadecimal digits = true := by
  constructor
  · rintro ⟨number, hnumber⟩
    cases hnumber with
    | marked hdigits _ => exact ⟨_, rfl, hdigits⟩
  · rintro ⟨digits, rfl, hdigits⟩
    exact ⟨_, .marked hdigits fun bits hbits => by cases hbits⟩

end Telecommand.Command
