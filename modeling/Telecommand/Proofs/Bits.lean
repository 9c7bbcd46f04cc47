import Telecommand.Bits
import Telecommand.Proofs.Text.Numeral

/-! # Bits and bytes

    Whole bytes come out of a bit list one after the other
    (`toBytes_append`), and the eight bits of the two digits of a byte are
    the byte (`toBytes_hexPair`).  So the digits of bytes, spelled in any
    grouping, pack into these bytes again.

    As big-endian numbers, bits and their bytes are the same
    (`bigEndian_toBytes`), the bits of digits are the numeral
    (`value_flatMap_ofDigit`), and fitting to a width takes the remainder by
    its power of two (`value_fit`). -/

namespace Telecommand.Bits

open Text

/-- A field that has its width already stays as it is. -/
theorem fit_of_length_eq {width : Nat} {bits : Bits} (h : bits.length = width) :
    fit width bits = bits := by
  rw [fit, h, Nat.sub_self, List.drop_zero, List.leftpad, h, Nat.sub_self]
  rfl

theorem value_append (front back : Bits) :
    value (front ++ back) = value front * 2 ^ back.length + value back := by
  rw [value, List.foldl_append, foldl_positional]
  rfl

theorem value_lt (bits : Bits) : value bits < 2 ^ bits.length :=
  foldl_positional_lt 2 Bool.toNat_lt bits

/-- The first bit counts two to the number of the others. -/
theorem value_cons (bit : Bool) (rest : Bits) :
    value (bit :: rest) = bit.toNat * 2 ^ rest.length + value rest := by
  have hfirst : value [bit] = bit.toNat := Nat.zero_add _
  rw [← hfirst]
  exact value_append [bit] rest

/-- Bits of one length are told apart by their value. -/
theorem eq_of_value_eq {bits bits' : Bits} (hlength : bits.length = bits'.length)
    (hvalue : value bits = value bits') : bits = bits' := by
  induction bits generalizing bits' with
  | nil => exact (List.length_eq_zero_iff.mp hlength.symm).symm
  | cons bit rest ih =>
      cases bits' with
      | nil => cases hlength
      | cons bit' rest' =>
          have hrest : rest.length = rest'.length := Nat.succ.inj hlength
          have hlow := value_lt rest
          have hlow' := value_lt rest'
          rw [value_cons, value_cons, ← hrest] at hvalue
          rw [← hrest] at hlow'
          have hbit : bit = bit' := by
            cases bit <;> cases bit' <;> simp at hvalue ⊢ <;> omega
          subst hbit
          rw [ih hrest (Nat.add_left_cancel hvalue)]

theorem value_replicate_false (count : Nat) : value (List.replicate count false) = 0 := by
  induction count with
  | zero => rfl
  | succ count ih =>
      rw [List.replicate_succ]
      exact ih

/-- Only bits that are not set denote zero. -/
theorem value_eq_zero_iff {bits : Bits} : value bits = 0 ↔ true ∉ bits := by
  induction bits with
  | nil => exact ⟨fun _ => List.not_mem_nil, fun _ => rfl⟩
  | cons bit rest ih =>
      rw [value_cons, Nat.add_eq_zero_iff, ih, List.mem_cons, not_or]
      have hfirst : bit.toNat * 2 ^ rest.length = 0 ↔ ¬ true = bit := by
        cases bit <;> simp
      rw [hfirst]

/-! ## Fitting to a width -/

/-- The bits in front that do not fit in a width. -/
def cutOff (width : Nat) (bits : Bits) : Bits := bits.take (bits.length - width)

/-- What is cut off and what fits are the bits together, behind zeros where
    there are too few. -/
theorem cutOff_append_fit (width : Nat) (bits : Bits) :
    cutOff width bits ++ fit width bits
      = List.replicate (width - bits.length) false ++ bits := by
  rcases Nat.le_total bits.length width with hle | hle
  · rw [cutOff, fit, Nat.sub_eq_zero_of_le hle]
    rfl
  · have hlength : (bits.drop (bits.length - width)).length = width := by
      rw [List.length_drop]
      omega
    rw [cutOff, fit, List.leftpad, hlength, Nat.sub_self, Nat.sub_eq_zero_of_le hle]
    exact List.take_append_drop _ bits

/-- What is cut off counts the power of two for the width, above what fits. -/
theorem value_cutOff_fit (width : Nat) (bits : Bits) :
    value (cutOff width bits) * 2 ^ width + value (fit width bits) = value bits := by
  have hvalue := congrArg value (cutOff_append_fit width bits)
  rwa [value_append, value_append, length_fit, value_replicate_false, Nat.zero_mul,
    Nat.zero_add] at hvalue

/-- Fitting bits to a width takes the remainder by its power of two. -/
theorem value_fit (width : Nat) (bits : Bits) : value (fit width bits) = value bits % 2 ^ width := by
  have hlow := value_lt (fit width bits)
  rw [length_fit] at hlow
  rw [← value_cutOff_fit width bits, Nat.mul_add_mod_self_right, Nat.mod_eq_of_lt hlow]

/-- No bit that is set is cut off exactly if the width has room for the value. -/
theorem true_notMem_cutOff_iff {width : Nat} {bits : Bits} :
    true ∉ cutOff width bits ↔ value bits < 2 ^ width := by
  have hlow := value_lt (fit width bits)
  rw [length_fit] at hlow
  rw [← value_eq_zero_iff, ← value_cutOff_fit width bits]
  constructor
  · intro hzero
    rwa [hzero, Nat.zero_mul, Nat.zero_add]
  · intro hlt
    refine Nat.eq_zero_of_not_pos fun hpos => ?_
    have hone : 2 ^ width ≤ value (cutOff width bits) * 2 ^ width := Nat.le_mul_of_pos_left _ hpos
    omega

/-! ## Bytes out of bits -/

/-- Induction over the bytes that bits fill: what holds of no bits, and of
    eight more bits in front, holds of bits that fill whole bytes. -/
@[elab_as_elim]
theorem octet_induction {motive : Bits → Prop} (hnil : motive [])
    (hoctet : ∀ octet rest : Bits, octet.length = 8 → motive rest → motive (octet ++ rest))
    {bits : Bits} {count : Nat} (h : bits.length = 8 * count) : motive bits := by
  induction count generalizing bits with
  | zero =>
      rw [List.length_eq_zero_iff.mp h]
      exact hnil
  | succ count ih =>
      rw [← List.take_append_drop 8 bits]
      refine hoctet _ _ ?_ (ih ?_)
      · rw [List.length_take]
        omega
      · rw [List.length_drop]
        omega

/-- Eight bits in front make one byte. -/
theorem toBytes_octet {octet : Bits} (h : octet.length = 8) (rest : Bits) :
    toBytes (octet ++ rest) = UInt8.ofNat (value octet) :: toBytes rest := by
  match octet, h with
  | [b7, b6, b5, b4, b3, b2, b1, b0], _ => rfl

/-- Whole bytes in front come out by themselves. -/
theorem toBytes_append {front : Bits} {count : Nat} (h : front.length = 8 * count)
    (back : Bits) : toBytes (front ++ back) = toBytes front ++ toBytes back := by
  refine octet_induction ?_ ?_ h
  · rfl
  · intro octet rest hoctet ih
    rw [List.append_assoc, toBytes_octet hoctet, toBytes_octet hoctet, ih]
    rfl

/-- Every eight bits make a byte. -/
theorem length_toBytes {bits : Bits} {count : Nat} (h : bits.length = 8 * count) :
    (toBytes bits).length = count := by
  have hcount : 8 * (toBytes bits).length = bits.length := by
    refine octet_induction ?_ ?_ h
    · rfl
    · intro octet rest hoctet ih
      rw [toBytes_octet hoctet, List.length_cons, List.length_append, hoctet]
      omega
  omega

theorem toBytes_replicate_false (count : Nat) :
    toBytes (List.replicate (8 * count) false) = List.replicate count 0 := by
  induction count with
  | zero => rfl
  | succ count ih =>
      have hsplit : List.replicate (8 * (count + 1)) false
          = List.replicate 8 false ++ List.replicate (8 * count) false := by
        rw [List.replicate_append_replicate]
        congr 1
        omega
      rw [hsplit, toBytes_octet (by simp), ih]
      rfl

/-- The four bits of a hexadecimal digit. -/
def ofDigit (c : Char) : Bits := ofNibble ((hexDigit? c).getD 0)

theorem length_flatMap_ofDigit (digits : Text) :
    (digits.flatMap ofDigit).length = 4 * digits.length := by
  induction digits with
  | nil => rfl
  | cons c rest ih =>
      rw [List.flatMap_cons, List.length_append, ih, List.length_cons]
      show 4 + 4 * rest.length = 4 * (rest.length + 1)
      omega

/-- The bits of digits denote the value of the numeral. -/
theorem value_flatMap_ofDigit (digits : Text) : value (digits.flatMap ofDigit) = hexValue digits := by
  induction digits with
  | nil => rfl
  | cons c rest ih =>
      have hc : value (ofDigit c) = (hexDigit? c).getD 0 := value_ofNibble (hexDigit?_getD_lt c)
      rw [List.flatMap_cons, value_append, hc, ih, hexValue_cons, length_flatMap_ofDigit,
        Nat.pow_mul]

/-- The bits of a byte's two digits are the byte. -/
theorem toBytes_hexPair (byte : UInt8) (rest : Bits) :
    toBytes ((hexPair byte).flatMap ofDigit ++ rest) = byte :: toBytes rest := by
  have hbyte : byte.toNat < 256 := byte.toNat_lt
  have hhigh : byte.toNat / 16 < 16 := by omega
  have hlow : byte.toNat % 16 < 16 := by omega
  have hbits : (hexPair byte).flatMap ofDigit
      = ofNibble (byte.toNat / 16) ++ ofNibble (byte.toNat % 16) := by
    simp [hexPair, ofDigit, hexDigit?_upperHexDigit hhigh, hexDigit?_upperHexDigit hlow]
  have hvalue : value (ofNibble (byte.toNat / 16) ++ ofNibble (byte.toNat % 16))
      = byte.toNat := by
    rw [value_append, value_ofNibble hhigh, value_ofNibble hlow]
    show byte.toNat / 16 * 16 + byte.toNat % 16 = byte.toNat
    omega
  rw [hbits, toBytes_octet rfl, hvalue, UInt8.ofNat_toNat]

/-- The bits of the digits of bytes are the bytes. -/
theorem toBytes_flatMap_hexPair (bytes : Bytes) (rest : Bits) :
    toBytes ((bytes.flatMap hexPair).flatMap ofDigit ++ rest) = bytes ++ toBytes rest := by
  induction bytes with
  | nil => rfl
  | cons byte others ih =>
      rw [List.flatMap_cons, List.flatMap_append, List.append_assoc, toBytes_hexPair, ih]
      rfl

end Telecommand.Bits
