import Telecommand.Proofs.Command.Encoding
import Telecommand.Proofs.Command.Slot

/-! # Commands that encode

    Every shape encodes its arguments in one way: it reads each of them by its
    slot, in order, and puts the values together (`Shape.exists_reader`).  So
    arguments encode exactly if the slot of their shape accepts each of them
    (`Shape.exists_encode_ok_iff`), and otherwise the first that it does not
    accept is refused (`Shape.encode_eq_error_iff`). -/

namespace Telecommand.Command

variable {args : List Text} {refusal : Refusal}

/-! ## Every shape -/

/-- **A shape reads its arguments by their slot and puts the values
    together.** -/
theorem Shape.exists_reader {shape : Shape} (hcount : args.length = shape.argumentCount) :
    ∃ (β : Type) (read : Nat → Text → Except Refusal β) (assemble : List β → Payload),
      (shape.slot (args.headD [])).IsReadBy read
        ∧ shape.encode args = readEach read 1 args >>= fun values => .ok (assemble values) := by
  cases shape with
  | wordPair => exact ⟨_, _, _, isReadBy_readWord _, rfl⟩
  | bitFields widths padding =>
      refine ⟨_, _, fun numerals => .ofBytes (Bits.toBytes
        ((fieldsOf (widths.map UInt32.toNat) numerals).flatten
          ++ List.replicate padding.toNat false)),
        isReadBy_markedDigits, ?_⟩
      show encodeBitFields widths padding args = _
      rw [encodeBitFields, packFields_eq hcount]
      cases readEach markedDigits 1 args with
      | error refusal => rfl
      | ok numerals => rfl
  | sixBytes => exact ⟨_, _, _, isReadBy_readByte, rfl⟩

/-- **Arguments encode exactly if their slot accepts each of them.** -/
theorem Shape.exists_encode_ok_iff {shape : Shape} (hcount : args.length = shape.argumentCount) :
    (∃ payload, shape.encode args = .ok payload)
      ↔ ∀ arg ∈ args, (shape.slot (args.headD [])).Accepts arg := by
  obtain ⟨β, read, assemble, hread, hencode⟩ := exists_reader hcount
  have haccepts : (∃ values, readEach read 1 args = .ok values)
      ↔ ∀ arg ∈ args, (shape.slot (args.headD [])).Accepts arg := hread.exists_readEach_ok_iff
  rw [hencode, ← haccepts]
  constructor
  · rintro ⟨payload, hpayload⟩
    obtain ⟨values, hvalues, -⟩ := bind_eq_ok_iff.mp hpayload
    exact ⟨values, hvalues⟩
  · rintro ⟨values, hvalues⟩
    exact ⟨assemble values, bind_eq_ok_iff.mpr ⟨values, hvalues, rfl⟩⟩

/-- **Arguments are refused at the first one that their slot does not accept.** -/
theorem Shape.encode_eq_error_iff {shape : Shape} (hcount : args.length = shape.argumentCount) :
    shape.encode args = .error refusal
      ↔ ∃ earlier arg later, args = earlier ++ arg :: later
        ∧ (∀ other ∈ earlier, (shape.slot (args.headD [])).Accepts other)
        ∧ (shape.slot (args.headD [])).Refuses (1 + earlier.length) arg refusal := by
  obtain ⟨β, read, assemble, hread, hencode⟩ := exists_reader hcount
  rw [hencode, ← hread.readEach_eq_error_iff, bind_eq_error_iff]
  constructor
  · rintro (h | ⟨values, -, h⟩)
    · exact h
    · cases h
  · exact .inl

/-- A command encodes exactly if it has as many arguments as its shape takes,
    and their slot accepts each of them. -/
theorem exists_encode_ok_iff {opcode : Opcode} {raw : Text} :
    (∃ payload, opcode.encode raw = .ok payload)
      ↔ ∃ args, HasArguments raw args ∧ args.length = opcode.shape.argumentCount
        ∧ ∀ arg ∈ args, (opcode.shape.slot (args.headD [])).Accepts arg := by
  constructor
  · rintro ⟨payload, hpayload⟩
    obtain ⟨args, hargs, hcount, hencode⟩ := encode_eq_ok_iff.mp hpayload
    exact ⟨args, hargs, hcount, (Shape.exists_encode_ok_iff hcount).mp ⟨payload, hencode⟩⟩
  · rintro ⟨args, hargs, hcount, haccepts⟩
    obtain ⟨payload, hencode⟩ := (Shape.exists_encode_ok_iff hcount).mpr haccepts
    exact ⟨payload, encode_eq_ok_iff.mpr ⟨args, hargs, hcount, hencode⟩⟩

end Telecommand.Command
