import Telecommand.Text.Utf8

/-! # Bit lists

    Fields narrower or wider than a byte are lists of bits, the most
    significant first.  A bit list has a value as a big-endian number, can
    be fitted to a width, and eight bits at a time make bytes. -/

namespace Telecommand

/-- A list of bits, the most significant first. -/
abbrev Bits := List Bool

namespace Bits

/-- The big-endian number that the bits denote. -/
def value (bits : Bits) : Nat :=
  bits.foldl (fun n bit => 2 * n + bit.toNat) 0

/-- The four bits of a number below sixteen. -/
def ofNibble (n : Nat) : Bits :=
  [n.testBit 3, n.testBit 2, n.testBit 1, n.testBit 0]

/-- The low-order bits that fill a width, with zeros in front where there
    are too few. -/
def fit (width : Nat) (bits : Bits) : Bits :=
  (bits.drop (bits.length - width)).leftpad width false

/-- The bytes of a bit list, eight bits each; an incomplete last group
    makes no byte. -/
def toBytes : Bits → Bytes
  | b7 :: b6 :: b5 :: b4 :: b3 :: b2 :: b1 :: b0 :: rest =>
      UInt8.ofNat (value [b7, b6, b5, b4, b3, b2, b1, b0]) :: toBytes rest
  | _ => []

/-- Fitting gives exactly the width asked for. -/
@[simp] theorem length_fit (width : Nat) (bits : Bits) :
    (fit width bits).length = width := by
  rw [fit, List.length_leftpad, List.length_drop]
  omega

/-- A nibble's bits denote the nibble. -/
theorem value_ofNibble {n : Nat} (h : n < 16) : value (ofNibble n) = n := by
  have all : ∀ m : Fin 16, value (ofNibble m.val) = m.val := by decide
  exact all ⟨n, h⟩

end Bits

end Telecommand
