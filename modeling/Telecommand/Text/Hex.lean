import Telecommand.Text.Basic

/-! # Hexadecimal numerals

    Digits of either case are read; bytes are written as two upper-case
    digits. -/

namespace Telecommand.Text

/-- The value of a hexadecimal digit of either case. -/
def hexDigit? (c : Char) : Option Nat :=
  if '0' ≤ c ∧ c ≤ '9' then some (c.toNat - '0'.toNat)
  else if 'a' ≤ c ∧ c ≤ 'f' then some (c.toNat - 'a'.toNat + 10)
  else if 'A' ≤ c ∧ c ≤ 'F' then some (c.toNat - 'A'.toNat + 10)
  else none

/-- Whether a character is a hexadecimal digit. -/
def isHexDigit (c : Char) : Bool := (hexDigit? c).isSome

/-- A text is a hexadecimal numeral when it is one or more digits. -/
def isHexadecimal (text : Text) : Bool :=
  !text.isEmpty && text.all isHexDigit

/-- The value of a hexadecimal numeral. -/
def hexValue (text : Text) : Nat :=
  text.foldl (fun value c => 16 * value + (hexDigit? c).getD 0) 0

/-- The upper-case hexadecimal digit of a number below sixteen. -/
def upperHexDigit (n : Nat) : Char :=
  if n < 10 then Char.ofNat ('0'.toNat + n) else Char.ofNat ('A'.toNat + (n - 10))

/-- A byte as two upper-case hexadecimal digits. -/
def hexPair (byte : UInt8) : Text :=
  [upperHexDigit (byte.toNat / 16), upperHexDigit (byte.toNat % 16)]

/-- A written digit reads back. -/
theorem hexDigit?_upperHexDigit {n : Nat} (h : n < 16) :
    hexDigit? (upperHexDigit n) = some n := by
  have all : ∀ m : Fin 16, hexDigit? (upperHexDigit m.val) = some m.val := by decide
  exact all ⟨n, h⟩

/-- A digit is of one of three ranges, and its value is its place there. -/
theorem hexDigit?_cases {c : Char} {n : Nat} (h : hexDigit? c = some n) :
    (48 ≤ c.toNat ∧ c.toNat ≤ 57 ∧ c.toNat = n + 48)
      ∨ (97 ≤ c.toNat ∧ c.toNat ≤ 102 ∧ c.toNat = n + 87)
      ∨ (65 ≤ c.toNat ∧ c.toNat ≤ 70 ∧ c.toNat = n + 55) := by
  have bound {low high : Char} (h : low ≤ c ∧ c ≤ high) :
      low.toNat ≤ c.toNat ∧ c.toNat ≤ high.toNat := h
  unfold hexDigit? at h
  split at h
  · have := bound ‹_›
    simp at h this
    omega
  · split at h
    · have := bound ‹_›
      simp at h this
      omega
    · split at h
      · have := bound ‹_›
        simp at h this
        omega
      · simp at h

/-- A digit's value is below sixteen. -/
theorem hexDigit?_lt {c : Char} {n : Nat} (h : hexDigit? c = some n) : n < 16 := by
  have := hexDigit?_cases h
  omega

/-- The two digits of a byte read back as its value. -/
@[simp] theorem hexValue_hexPair (byte : UInt8) :
    hexValue (hexPair byte) = byte.toNat := by
  have hb : byte.toNat < 256 := byte.toNat_lt
  simp only [hexValue, hexPair, List.foldl_cons, List.foldl_nil]
  rw [hexDigit?_upperHexDigit (by omega), hexDigit?_upperHexDigit (by omega)]
  simp only [Option.getD_some]
  omega

end Telecommand.Text
