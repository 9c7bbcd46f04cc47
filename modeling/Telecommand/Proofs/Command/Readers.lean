import Telecommand.Proofs.Command.Fields

/-! # Two readers of literals

    A marked literal is read as a number where it stands for a word or a byte,
    and as bits where it stands for a bit field.  Both readers go by its value
    (`readsByValue_of_isHexadecimal`): the number is the value, as long as it
    fits; the bits denote the value, reduced to their width.  So there is a
    number exactly where no bit that is set is cut off the field
    (`keepsSetBits_iff`), and what is no literal has neither, for one and the
    same reason (`literal_readers_agree`).

    Counting the number in words of 64 bits comes to the same
    (`hexNumberInWord_eq`): what has eight significant digits leaves neither
    such a word nor the 32 bits of the result. -/

namespace Telecommand.Command

open Text

variable {digits : Text} {bits position width : Nat}

/-! ## Numbers -/

/-- The number of a literal is its value, as long as this is below the power of
    two; the 32 bits of the number lose nothing of it. -/
theorem hexNumber_eq_ok_iff (h : isHexadecimal digits = true) {number : UInt32} :
    hexNumber bits position (hexMarker :: digits) = .ok number
      ↔ hexValue digits < 2 ^ min bits 32 ∧ number.toNat = hexValue digits := by
  rw [hexNumber_marked h]
  by_cases hfits : hexValue digits < 2 ^ min bits 32
  · have hvalue : (UInt32.ofNat (hexValue digits)).toNat = hexValue digits := by
      refine UInt32.toNat_ofNat_of_lt' (Nat.lt_of_lt_of_le hfits ?_)
      exact Nat.pow_le_pow_right (by decide) (Nat.min_le_right bits 32)
    rw [if_pos hfits]
    constructor
    · intro hnumber
      obtain rfl : UInt32.ofNat (hexValue digits) = number := Except.ok.inj hnumber
      exact ⟨hfits, hvalue⟩
    · rintro ⟨-, hnumber⟩
      rw [← hnumber, UInt32.ofNat_toNat]
  · rw [if_neg hfits]
    constructor
    · intro hnumber
      cases hnumber
    · rintro ⟨hlt, -⟩
      exact absurd hlt hfits

theorem exists_hexNumber_iff (h : isHexadecimal digits = true) :
    (∃ number, hexNumber bits position (hexMarker :: digits) = .ok number)
      ↔ hexValue digits < 2 ^ min bits 32 := by
  constructor
  · rintro ⟨number, hnumber⟩
    exact ((hexNumber_eq_ok_iff h).mp hnumber).1
  · intro hfits
    exact ⟨_, (hexNumber_marked h bits).trans (if_pos hfits)⟩

theorem hexNumber_eq_tooWide_iff (h : isHexadecimal digits = true) :
    hexNumber bits position (hexMarker :: digits)
        = .error (.badHexLiteral position (hexMarker :: digits) (.tooWide bits))
      ↔ 2 ^ min bits 32 ≤ hexValue digits := by
  rw [hexNumber_marked h]
  by_cases hfits : hexValue digits < 2 ^ min bits 32
  · rw [if_pos hfits]
    constructor
    · intro hnumber
      cases hnumber
    · intro hwide
      exact absurd hfits (Nat.not_lt.mpr hwide)
  · rw [if_neg hfits]
    exact ⟨fun _ => Nat.not_lt.mp hfits, fun _ => rfl⟩

/-! ## Numbers in words -/

/-- The value of digits, counted in a word of 64 bits. -/
def hexWord (digits : Text) : UInt64 :=
  digits.foldl (fun word c => 16 * word + UInt64.ofNat ((hexDigit? c).getD 0)) 0

/-- The number of a literal by arithmetic in words: eight significant digits at
    most are counted in 64 bits, and shifting tells whether they fit. -/
def hexNumberInWord (bits : Nat) (position : Nat) (arg : Text) : Except Refusal UInt32 := do
  let digits ← markedDigits position arg
  let word := hexWord (significant digits)
  if (significant digits).length > 8 ∨ word >>> UInt64.ofNat bits ≠ 0 then
    .error (.badHexLiteral position arg (.tooWide bits))
  else
    .ok word.toUInt32

theorem hexWord_eq (digits : Text) : hexWord digits = UInt64.ofNat (hexValue digits) := by
  refine List.foldl_hom UInt64.ofNat ?_
  intro value c
  rw [UInt64.ofNat_add, UInt64.ofNat_mul]
  rfl

/-- Eight digits leave half of a word empty, so that shifting it is shifting
    their value. -/
theorem toNat_hexWord_shiftRight (hlength : digits.length ≤ 8) (hbits : bits < 64) :
    (hexWord digits >>> UInt64.ofNat bits).toNat = hexValue digits >>> bits := by
  have hvalue : (UInt64.ofNat (hexValue digits)).toNat = hexValue digits := by
    refine UInt64.toNat_ofNat_of_lt' (Nat.lt_of_lt_of_le (hexValue_lt digits) ?_)
    exact Nat.pow_le_pow_right (by decide : 0 < 16) (by omega : digits.length ≤ 16)
  have hamount : (UInt64.ofNat bits).toNat = bits :=
    UInt64.toNat_ofNat_of_lt' (Nat.lt_of_lt_of_le hbits (by decide))
  rw [hexWord_eq, UInt64.toNat_shiftRight, hvalue, hamount, Nat.mod_eq_of_lt hbits]

/-- **Words are wide enough.**  Arithmetic in words finds the number of a
    literal, as long as a word can be shifted by so many bits. -/
theorem hexNumberInWord_eq (hbits : bits < 64) (position : Nat) (arg : Text) :
    hexNumberInWord bits position arg = hexNumber bits position arg := by
  cases hdigits : markedDigits position arg with
  | error refusal =>
      rw [hexNumber_of_markedDigits_error hdigits, hexNumberInWord, hdigits]
      rfl
  | ok digits =>
      -- with more digits neither of the two shifts anything
      have hshift (hlength : ¬ (significant digits).length > 8) :
          hexWord (significant digits) >>> UInt64.ofNat bits ≠ 0
            ↔ hexValue (significant digits) >>> bits ≠ 0 := by
        rw [← toNat_hexWord_shiftRight (Nat.not_lt.mp hlength) hbits]
        exact not_congr UInt64.toNat_inj.symm
      have hnarrow : (hexWord (significant digits)).toUInt32
          = UInt32.ofNat (hexValue (significant digits)) := by
        rw [hexWord_eq, UInt64.toUInt32_ofNat']
      rw [hexNumberInWord, hexNumber, hdigits]
      exact if_congr (or_congr_right' hshift) rfl (congrArg Except.ok hnarrow)

/-! ## Bit fields -/

/-- That a bit field of a width lacks no bit of digits that is set. -/
def KeepsSetBits (width : Nat) (digits : Text) : Prop :=
  true ∉ Bits.cutOff width (digits.flatMap Bits.ofDigit)

/-- All bits that are set are kept exactly if the value fits in the width. -/
theorem keepsSetBits_iff : KeepsSetBits width digits ↔ hexValue digits < 2 ^ width := by
  rw [KeepsSetBits, Bits.true_notMem_cutOff_iff, Bits.value_flatMap_ofDigit]

/-- That both readers go by the value of the digits behind a marker. -/
structure ReadsByValue (position : Nat) (digits : Text) : Prop where
  /-- There is a number exactly if the value is below the power of two, and
      below that of 32 bits; it is the value itself. -/
  number_iff : ∀ bits number, hexNumber bits position (hexMarker :: digits) = .ok number
    ↔ hexValue digits < 2 ^ min bits 32 ∧ number.toNat = hexValue digits
  /-- Otherwise the literal is too wide. -/
  tooWide_iff : ∀ bits, hexNumber bits position (hexMarker :: digits)
      = .error (.badHexLiteral position (hexMarker :: digits) (.tooWide bits))
    ↔ 2 ^ min bits 32 ≤ hexValue digits
  /-- There is a bit field for every width: it has this width, is what remains
      of the bits of the digits where some are cut off, and denotes the value
      reduced to the width. -/
  exists_field : ∀ width, ∃ field, fieldBits width position (hexMarker :: digits) = .ok field
    ∧ field.length = width
    ∧ Bits.cutOff width (digits.flatMap Bits.ofDigit) ++ field
      = List.replicate (width - 4 * digits.length) false ++ digits.flatMap Bits.ofDigit
    ∧ field.value = hexValue digits % 2 ^ width
  /-- Up to 32 bits, there is a number exactly if the bit field lacks no bit
      that is set. -/
  number_iff_keeps : ∀ width ≤ 32,
    (∃ number, hexNumber width position (hexMarker :: digits) = .ok number)
      ↔ KeepsSetBits width digits
  /-- Number and bit field of one width denote the same. -/
  same_value : ∀ width number field, hexNumber width position (hexMarker :: digits) = .ok number →
    fieldBits width position (hexMarker :: digits) = .ok field → field.value = number.toNat

theorem value_of_fieldBits (h : isHexadecimal digits = true) {field : Bits}
    (hfield : fieldBits width position (hexMarker :: digits) = .ok field) :
    field.value = hexValue digits % 2 ^ width := by
  rw [fieldBits_marked h] at hfield
  rw [← Except.ok.inj hfield, Bits.value_fit, Bits.value_flatMap_ofDigit]

/-- **Both readers go by the value of a literal.** -/
theorem readsByValue_of_isHexadecimal (h : isHexadecimal digits = true) (position : Nat) :
    ReadsByValue position digits where
  number_iff bits number := hexNumber_eq_ok_iff h
  tooWide_iff bits := hexNumber_eq_tooWide_iff h
  exists_field width := by
    have hfield := @fieldBits_marked digits position h width
    refine ⟨_, hfield, Bits.length_fit _ _, ?_, value_of_fieldBits h hfield⟩
    rw [Bits.cutOff_append_fit, Bits.length_flatMap_ofDigit]
  number_iff_keeps width hwidth := by
    rw [exists_hexNumber_iff h, keepsSetBits_iff, Nat.min_eq_left hwidth]
  same_value width number field hnumber hfield := by
    obtain ⟨hfits, hvalue⟩ := (hexNumber_eq_ok_iff h).mp hnumber
    -- a value that has a number has room in the field, so it is not reduced
    have hlt : hexValue digits < 2 ^ width :=
      Nat.lt_of_lt_of_le hfits (Nat.pow_le_pow_right (by decide) (Nat.min_le_left width 32))
    rw [value_of_fieldBits h hfield, Nat.mod_eq_of_lt hlt, hvalue]

/-! ## Both readers -/

/-- **The readers of numbers and of bit fields agree.**  The marker and one or
    more hexadecimal digits are read by both as the value of the digits, as far
    as this fits.  Whatever else an argument is, both refuse it for the same
    reason.  And arithmetic in words of 64 bits, for which the number of bits
    must be less, finds the same number or the same refusal. -/
theorem literal_readers_agree (position : Nat) (arg : Text) :
    (∀ digits, arg = hexMarker :: digits → isHexadecimal digits = true →
        ReadsByValue position digits)
      ∧ ((¬ ∃ digits, arg = hexMarker :: digits ∧ isHexadecimal digits = true) →
        ∃ refusal, Slot.field.Refuses position arg refusal
          ∧ ∀ size, hexNumber size position arg = .error refusal
            ∧ fieldBits size position arg = .error refusal)
      ∧ ∀ bits < 64, hexNumberInWord bits position arg = hexNumber bits position arg := by
  refine ⟨?_, ?_, fun bits hbits => hexNumberInWord_eq hbits position arg⟩
  · rintro digits - hdigits
    exact readsByValue_of_isHexadecimal hdigits position
  · intro hnone
    rw [← Slot.field_accepts_iff] at hnone
    obtain ⟨refusal, hrefuses⟩ := (Slot.field.denotes_or_refuses position arg).resolve_left hnone
    have herror := isReadBy_markedDigits.error_of_refuses hrefuses
    refine ⟨refusal, hrefuses, ?_⟩
    intro size
    exact ⟨hexNumber_of_markedDigits_error herror size, fieldBits_of_markedDigits_error herror size⟩

/-- The greatest value of eight digits, behind leading zeros, and a literal with
    a sign. -/
theorem literal_readers_agree_of_eight_digits :
    isHexadecimal "00FfffFFFF".toList = true ∧ ReadsByValue 3 "00FfffFFFF".toList
      ∧ (¬ ∃ digits, "x+1".toList = hexMarker :: digits ∧ isHexadecimal digits = true)
      ∧ (∃ refusal, Slot.field.Refuses 1 "x+1".toList refusal
        ∧ ∀ size, hexNumber size 1 "x+1".toList = .error refusal
          ∧ fieldBits size 1 "x+1".toList = .error refusal)
      ∧ 63 < 64 ∧ hexNumberInWord 63 3 "x00FfffFFFF".toList
        = hexNumber 63 3 "x00FfffFFFF".toList := by
  have hnone : ¬ ∃ digits, "x+1".toList = hexMarker :: digits ∧ isHexadecimal digits = true := by
    rintro ⟨digits, harg, hdigits⟩
    obtain ⟨-, rfl⟩ := List.cons.inj harg
    exact absurd hdigits (by decide)
  have hall := literal_readers_agree 3 "x00FfffFFFF".toList
  exact ⟨by decide, hall.1 "00FfffFFFF".toList rfl (by decide), hnone,
    (literal_readers_agree 1 "x+1".toList).2.1 hnone, by decide, hall.2.2 63 (by decide)⟩

end Telecommand.Command
