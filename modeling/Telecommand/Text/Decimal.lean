import Telecommand.Text.Basic

/-! # Decimal numerals

    Unsigned numbers in base ten: writing one without leading zeros, and
    the value of a run of ASCII digits of any length. -/

namespace Telecommand.Text

/-- The decimal numeral of a number, without leading zeros. -/
def decimal (n : Nat) : Text := Nat.toDigits 10 n

/-- A text is a decimal numeral when it is one or more ASCII digits. -/
def isDecimal (text : Text) : Bool :=
  !text.isEmpty && text.all Char.isDigit

/-- The value of a decimal numeral. -/
def decimalValue (text : Text) : Nat := Nat.ofDigitChars 10 text 0

/-- Reading a written numeral gives the number back. -/
@[simp] theorem decimalValue_decimal (n : Nat) :
    decimalValue (decimal n) = n := by
  simp [decimalValue, decimal]

/-- A written numeral is a decimal numeral. -/
@[simp] theorem isDecimal_decimal (n : Nat) : isDecimal (decimal n) = true := by
  simp only [isDecimal, decimal, Bool.and_eq_true, Bool.not_eq_true',
    List.isEmpty_eq_false_iff, List.all_eq_true]
  exact ⟨Nat.toDigits_ne_nil, fun c hc =>
    Nat.isDigit_of_mem_toDigits (by decide) (by decide) hc⟩

end Telecommand.Text
