import Telecommand.Command.Encoding
import Telecommand.Proofs.Bits
import Telecommand.Proofs.Text.Numeral

/-! # Literals

    What the readers of arguments make of a marked hexadecimal literal: a
    number where its value fits (`hexNumber_marked`), a bit field always
    (`fieldBits_marked`).  A decimal literal is counted in bytes, which is
    counting modulo 256 however many digits there are
    (`decimalByte_decimal`).  What is no literal is refused by each reader. -/

namespace Telecommand.Command

open Text

variable {digits : Text} {position : Nat}

theorem markedDigits_marked (h : isHexadecimal digits = true) :
    markedDigits position (hexMarker :: digits) = .ok digits := by
  rw [markedDigits, if_neg (fun hne => hne rfl), if_pos h]

theorem markedDigits_notDigits (h : isHexadecimal digits = false) :
    markedDigits position (hexMarker :: digits)
      = .error (.badHexLiteral position (hexMarker :: digits) .notDigits) := by
  rw [markedDigits, if_neg (fun hne => hne rfl), if_neg (by rw [h]; exact Bool.false_ne_true)]

/-- An argument has the marker when its first character is the marker. -/
theorem isMarked_eq_true_iff {arg : Text} :
    isMarked arg = true ↔ ∃ digits, arg = hexMarker :: digits := by
  rw [isMarked, decide_eq_true_eq, List.head?_eq_some_iff]

theorem isMarked_cons (digits : Text) : isMarked (hexMarker :: digits) = true :=
  isMarked_eq_true_iff.mpr ⟨digits, rfl⟩

theorem markedDigits_unmarked {arg : Text} (h : isMarked arg = false) :
    markedDigits position arg = .error (.badHexLiteral position arg .unmarked) := by
  cases arg with
  | nil => rfl
  | cons c rest =>
      have hc : c ≠ hexMarker := by
        rintro rfl
        rw [isMarked_cons] at h
        exact Bool.noConfusion h
      rw [markedDigits, if_pos hc]

/-- The digits of an argument are read where it is the marker and then
    digits. -/
theorem markedDigits_eq_ok_iff {arg : Text} :
    markedDigits position arg = .ok digits
      ↔ arg = hexMarker :: digits ∧ isHexadecimal digits = true := by
  constructor
  · intro h
    cases hmark : isMarked arg with
    | false =>
        rw [markedDigits_unmarked hmark] at h
        cases h
    | true =>
        obtain ⟨found, rfl⟩ := isMarked_eq_true_iff.mp hmark
        cases hfound : isHexadecimal found with
        | false =>
            rw [markedDigits_notDigits hfound] at h
            cases h
        | true =>
            rw [markedDigits_marked hfound] at h
            obtain rfl : found = digits := Except.ok.inj h
            exact ⟨rfl, hfound⟩
  · rintro ⟨rfl, hdigits⟩
    exact markedDigits_marked hdigits

theorem isHexDigit_of_isHexadecimal (h : isHexadecimal digits = true) :
    ∀ c ∈ digits, isHexDigit c = true := by
  rw [isHexadecimal, Bool.and_eq_true] at h
  exact List.all_eq_true.mp h.2

theorem isHexadecimal_of_digits (hne : digits ≠ [])
    (h : ∀ c ∈ digits, isHexDigit c = true) : isHexadecimal digits = true := by
  rw [isHexadecimal, Bool.and_eq_true]
  exact ⟨by simpa using hne, List.all_eq_true.mpr h⟩

/-- A literal denotes a number of so many bits if its value is below that
    power of two, and never more than 32 bits. -/
theorem hexNumber_marked (h : isHexadecimal digits = true) (bits : Nat) :
    hexNumber bits position (hexMarker :: digits)
      = if hexValue digits < 2 ^ min bits 32 then .ok (UInt32.ofNat (hexValue digits))
        else .error (.badHexLiteral position (hexMarker :: digits) (.tooWide bits)) := by
  -- the reader makes two tests; both bound the value, and the lower bound decides
  have hwide : (significant digits).length > 8 ∨ hexValue digits >>> bits ≠ 0
      ↔ ¬ hexValue digits < 2 ^ min bits 32 := by
    have hlength := length_significant_le_iff (isHexDigit_of_isHexadecimal h) 8
    have hshift : hexValue digits >>> bits = 0 ↔ hexValue digits < 2 ^ bits := by
      rw [Nat.shiftRight_eq_div_pow, Nat.div_eq_zero_iff]
      simp
    have h32 : (16 : Nat) ^ 8 = 2 ^ 32 := by decide
    rw [h32] at hlength
    rcases Nat.le_total bits 32 with hle | hle
    · have hpow : 2 ^ bits ≤ 2 ^ 32 := Nat.pow_le_pow_right (by decide) hle
      rw [Nat.min_eq_left hle, ne_eq, hshift]
      omega
    · have hpow : 2 ^ 32 ≤ 2 ^ bits := Nat.pow_le_pow_right (by decide) hle
      rw [Nat.min_eq_right hle, ne_eq, hshift]
      omega
  rw [hexNumber, markedDigits_marked h]
  show (if (significant digits).length > 8
      ∨ hexValue (significant digits) >>> bits ≠ 0
    then Except.error (Refusal.badHexLiteral position (hexMarker :: digits) (.tooWide bits))
    else .ok (UInt32.ofNat (hexValue (significant digits)))) = _
  rw [hexValue_significant]
  by_cases hlt : hexValue digits < 2 ^ min bits 32
  · rw [if_neg fun hor => hwide.mp hor hlt, if_pos hlt]
  · rw [if_pos (hwide.mpr hlt), if_neg hlt]

theorem hexNumber_fits {bits : Nat} (h : isHexadecimal digits = true) (hbits : bits ≤ 32)
    (hfits : hexValue digits < 2 ^ bits) :
    hexNumber bits position (hexMarker :: digits) = .ok (UInt32.ofNat (hexValue digits)) := by
  rw [hexNumber_marked h, Nat.min_eq_left hbits, if_pos hfits]

theorem hexNumber_tooWide {bits : Nat} (h : isHexadecimal digits = true) (hbits : bits ≤ 32)
    (hwide : 2 ^ bits ≤ hexValue digits) :
    hexNumber bits position (hexMarker :: digits)
      = .error (.badHexLiteral position (hexMarker :: digits) (.tooWide bits)) := by
  rw [hexNumber_marked h, Nat.min_eq_left hbits, if_neg (Nat.not_lt.mpr hwide)]

/-- Where no digits are found there is no number, for the same reason. -/
theorem hexNumber_of_markedDigits_error {arg : Text} {refusal : Refusal}
    (h : markedDigits position arg = .error refusal) (bits : Nat) :
    hexNumber bits position arg = .error refusal := by
  rw [hexNumber, h]
  rfl

/-- What follows the marker must be digits for there to be a number. -/
theorem hexNumber_notDigits (h : isHexadecimal digits = false) (bits : Nat) :
    hexNumber bits position (hexMarker :: digits)
      = .error (.badHexLiteral position (hexMarker :: digits) .notDigits) :=
  hexNumber_of_markedDigits_error (markedDigits_notDigits h) bits

/-- Where no digits are found there is no bit field, for the same reason. -/
theorem fieldBits_of_markedDigits_error {arg : Text} {refusal : Refusal}
    (h : markedDigits position arg = .error refusal) (width : Nat) :
    fieldBits width position arg = .error refusal := by
  rw [fieldBits, h]
  rfl

/-- A literal fills a bit field with its low-order bits. -/
theorem fieldBits_marked (h : isHexadecimal digits = true) (width : Nat) :
    fieldBits width position (hexMarker :: digits)
      = .ok (Bits.fit width (digits.flatMap Bits.ofDigit)) := by
  rw [fieldBits, markedDigits_marked h]
  rfl

/-! ## Decimal literals -/

/-- Counting digits in bytes leaves the low byte of counting them in numbers. -/
theorem foldl_byte (digits : Text) (n : Nat) :
    digits.foldl (fun value c => value * 10 + UInt8.ofNat (c.toNat - '0'.toNat)) (UInt8.ofNat n)
      = UInt8.ofNat (Nat.ofDigitChars 10 digits n) := by
  refine List.foldl_hom UInt8.ofNat ?_
  intro value c
  rw [UInt8.ofNat_add, UInt8.ofNat_mul, UInt8.mul_comm]
  rfl

theorem decimalByte_decimal {arg : Text} (h : isDecimal arg = true) :
    decimalByte position arg = .ok (UInt8.ofNat (decimalValue arg)) := by
  rw [decimalByte, if_pos h]
  exact congrArg Except.ok (foldl_byte arg 0)

theorem decimalByte_notDecimal {arg : Text} (h : isDecimal arg = false) :
    decimalByte position arg = .error (.badDecimalLiteral position arg) := by
  rw [decimalByte, if_neg (by rw [h]; exact Bool.false_ne_true)]

/-- The marker is no decimal digit. -/
theorem isMarked_of_isDecimal {arg : Text} (h : isDecimal arg = true) : isMarked arg = false := by
  cases hmark : isMarked arg with
  | false => rfl
  | true =>
      obtain ⟨digits, rfl⟩ := isMarked_eq_true_iff.mp hmark
      have hdigit : hexMarker.isDigit = false := rfl
      simp only [isDecimal, List.all_cons, hdigit, Bool.false_and, Bool.and_false] at h
      exact Bool.noConfusion h

end Telecommand.Command
