/-! # Argument shapes

    How a command's arguments fill its six payload bytes.  A shape fixes how
    many arguments the command takes and how many bits they fill. -/

namespace Telecommand.Command

/-- How arguments are arranged in a payload. -/
inductive Shape
  /-- Two 16-bit words. -/
  | wordPair
  /-- Bit fields of the given widths, most significant first, then a number
      of zero bits. -/
  | bitFields (widths : List UInt32) (padding : UInt32)
  /-- Six bytes. -/
  | sixBytes
  deriving DecidableEq, Repr

/-- The number of arguments that a shape takes. -/
def Shape.argumentCount : Shape → Nat
  | .wordPair => 2
  | .bitFields widths _ => widths.length
  | .sixBytes => 6

/-- The number of bits that a shape fills.  Widths and padding are added as
    32-bit numbers, so the sum wraps around. -/
def Shape.bitLength : Shape → Nat
  | .wordPair => 48
  | .bitFields widths padding => (widths.foldl (· + ·) 0 + padding).toNat
  | .sixBytes => 48

/-- The number of hexadecimal digits that fill each argument of a shape. -/
def Shape.digitCounts : Shape → List Nat
  | .wordPair => [4, 4]
  | .bitFields widths _ => widths.map (·.toNat / 4)
  | .sixBytes => [2, 2, 2, 2, 2, 2]

end Telecommand.Command
