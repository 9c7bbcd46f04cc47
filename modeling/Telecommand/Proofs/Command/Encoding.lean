import Telecommand.Proofs.Bits
import Telecommand.Proofs.Command.Arguments
import Telecommand.Script.Printer

/-! # What encoding leaves

    A command encodes exactly if it has as many arguments as its shape takes
    and they encode (`encode_eq_ok_iff`).  Bit fields are read as digits
    first, and cut to their widths afterwards (`packFields_eq`).

    A shape with room for fewer than six bytes leaves the others zero,
    whatever the arguments are: so every payload that a command comes to is
    expressible (`isExpressible_of_encode`). -/

namespace Telecommand.Command

variable {opcode : Opcode} {raw : Text} {args : List Text} {payload : Payload}

/-! ## Argument lists -/

theorem encode_of_lacksArguments (h : LacksArguments raw) :
    opcode.encode raw = .error .noArgumentList := by
  rw [Opcode.encode, arguments_eq_error_iff.mpr ⟨h, rfl⟩]
  rfl

theorem encode_of_argumentCount_ne (hargs : HasArguments raw args)
    (hcount : args.length ≠ opcode.shape.argumentCount) :
    opcode.encode raw = .error (.wrongArgumentCount opcode.shape.argumentCount args.length) := by
  rw [Opcode.encode, arguments_eq_ok_iff.mpr hargs]
  exact if_pos hcount

/-- A command encodes as the arguments of its list do, if they are as many as
    its shape takes. -/
theorem encode_of_hasArguments (hargs : HasArguments raw args)
    (hcount : args.length = opcode.shape.argumentCount) :
    opcode.encode raw = opcode.shape.encode args := by
  rw [Opcode.encode, arguments_eq_ok_iff.mpr hargs]
  exact if_neg (not_not_intro hcount)

/-- Encoding succeeds exactly when there is an argument list, it is as long
    as the shape says, and its arguments encode. -/
theorem encode_eq_ok_iff :
    opcode.encode raw = .ok payload
      ↔ ∃ args, HasArguments raw args ∧ args.length = opcode.shape.argumentCount
        ∧ opcode.shape.encode args = .ok payload := by
  constructor
  · intro h
    rcases lacksArguments_or_hasArguments raw with hlacks | ⟨args, hargs⟩
    · rw [encode_of_lacksArguments hlacks] at h
      cases h
    · by_cases hcount : args.length = opcode.shape.argumentCount
      · rw [encode_of_hasArguments hargs hcount] at h
        exact ⟨args, hargs, hcount, h⟩
      · rw [encode_of_argumentCount_ne hargs hcount] at h
        cases h
  · rintro ⟨args, hargs, hcount, h⟩
    rwa [encode_of_hasArguments hargs hcount]

/-! ## Words -/

/-- Two words fill four bytes. -/
theorem tail_of_encodeWordPair (hcount : args.length = 2)
    (h : encodeWordPair args = .ok payload) : payload.bytes.drop 4 = [0, 0] := by
  rw [encodeWordPair] at h
  obtain ⟨words, hwords, h⟩ := bind_eq_ok_iff.mp h
  have hpayload : Payload.ofBytes (words.flatMap wordBytes) = payload := Except.ok.inj h
  have hlength : words.length = 2 := by
    rw [← (readEach_eq_ok hwords).length_eq, hcount]
  match words, hlength with
  | [first, second], _ =>
      rw [← hpayload]
      rfl

/-! ## Bit fields -/

section

variable {widths : List UInt32} {padding : UInt32} {numerals : List Text} {bits : Bits}

/-- The bit fields that numerals fill, each with its low-order bits. -/
def fieldsOf (widths : List Nat) (numerals : List Text) : List Bits :=
  List.zipWith (fun digits width => Bits.fit width (digits.flatMap Bits.ofDigit)) numerals widths

/-- Reading fields is reading digits, and then cutting them to the widths. -/
theorem readEach_fieldBits (hcount : args.length = widths.length) (position : Nat) :
    readEach (fun position (arg, width) => fieldBits width.toNat position arg) position
        (args.zip widths)
      = readEach markedDigits position args >>= fun numerals =>
          .ok (fieldsOf (widths.map UInt32.toNat) numerals) := by
  induction args generalizing position widths with
  | nil =>
      rw [List.length_nil] at hcount
      rw [List.length_eq_zero_iff.mp hcount.symm]
      rfl
  | cons arg rest ih =>
      cases widths with
      | nil => cases hcount
      | cons width others =>
          have hrest := ih (Nat.succ.inj hcount) (position + 1)
          rw [List.zip_cons_cons, readEach, readEach, hrest]
          show (fieldBits width.toNat position arg >>= fun _ => _) = _
          -- the first argument decides, and then the others do
          cases hdigits : markedDigits position arg with
          | error refusal =>
              rw [fieldBits, hdigits]
              rfl
          | ok digits =>
              rw [fieldBits, hdigits]
              cases readEach markedDigits (position + 1) rest with
              | error refusal => rfl
              | ok numerals => rfl

/-- The bits of fields are the fields of what is read as digits, and then
    zeros. -/
theorem packFields_eq (hcount : args.length = widths.length) (padding : UInt32) :
    packFields widths padding args
      = readEach markedDigits 1 args >>= fun numerals =>
          .ok ((fieldsOf (widths.map UInt32.toNat) numerals).flatten
            ++ List.replicate padding.toNat false) := by
  rw [packFields, readEach_fieldBits hcount]
  cases readEach markedDigits 1 args with
  | error refusal => rfl
  | ok numerals => rfl

/-- Fields have as many bits as their widths say. -/
theorem length_flatten_fieldsOf {widths : List Nat} (hcount : numerals.length = widths.length) :
    (fieldsOf widths numerals).flatten.length = widths.sum := by
  induction numerals generalizing widths with
  | nil =>
      rw [List.length_eq_zero_iff.mp hcount.symm]
      rfl
  | cons digits rest ih =>
      cases widths with
      | nil => cases hcount
      | cons width others =>
          show (Bits.fit width _ ++ (fieldsOf others rest).flatten).length = _
          rw [List.length_append, Bits.length_fit, ih (Nat.succ.inj hcount), List.sum_cons]

/-- Packed bits are the fields of numerals, as many as there are widths, and
    then the zero bits. -/
theorem exists_of_packFields (hcount : args.length = widths.length)
    (h : packFields widths padding args = .ok bits) :
    ∃ numerals, readEach markedDigits 1 args = .ok numerals
      ∧ numerals.length = (widths.map UInt32.toNat).length
      ∧ bits = (fieldsOf (widths.map UInt32.toNat) numerals).flatten
          ++ List.replicate padding.toNat false := by
  rw [packFields_eq hcount] at h
  obtain ⟨numerals, hnumerals, h⟩ := bind_eq_ok_iff.mp h
  refine ⟨numerals, hnumerals, ?_, (Except.ok.inj h).symm⟩
  rw [List.length_map, ← hcount]
  exact (readEach_eq_ok hnumerals).length_eq.symm

/-- Fields that fill whole bytes leave the others zero. -/
theorem tail_of_encodeBitFields (filled free : Nat) (hcount : args.length = widths.length)
    (hfilled : (widths.map UInt32.toNat).sum = 8 * filled) (hfree : padding.toNat = 8 * free)
    (hsix : filled + free = 6) (h : encodeBitFields widths padding args = .ok payload) :
    payload.bytes.drop filled = List.replicate free 0 := by
  rw [encodeBitFields] at h
  obtain ⟨bits, hpack, h⟩ := bind_eq_ok_iff.mp h
  have hpayload : Payload.ofBytes bits.toBytes = payload := Except.ok.inj h
  obtain ⟨numerals, -, hnumerals, rfl⟩ := exists_of_packFields hcount hpack
  have hfront := (length_flatten_fieldsOf hnumerals).trans hfilled
  have hbytes := Bits.length_toBytes hfront
  -- the filled bytes and the zeros are six together, so `ofBytes` adds none
  rw [← hpayload, hfree, Bits.toBytes_append hfront, Bits.toBytes_replicate_false,
    Payload.bytes_ofBytes (by simp; omega), List.append_assoc, ← hbytes, List.drop_left,
    List.length_append, List.length_replicate, hbytes, hsix]
  simp

end

/-! ## Every shape -/

/-- Whatever a command says, the bytes that its shape has no room for are
    zero. -/
theorem isExpressible_of_encode
    (h : opcode.encode raw = .ok payload) : (Packet.mk opcode payload).IsExpressible := by
  obtain ⟨args, -, hcount, hencode⟩ := encode_eq_ok_iff.mp h
  intro htail
  cases opcode with
  | changeParameter => exact tail_of_encodeWordPair hcount hencode
  | readParameter => exact tail_of_encodeWordPair hcount hencode
  | flashErase => exact tail_of_encodeBitFields 4 2 hcount rfl rfl rfl hencode
  | _ => exact absurd htail Bool.false_ne_true

end Telecommand.Command
