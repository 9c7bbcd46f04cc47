import Telecommand.Proofs.Command.Acceptance

/-! # Six bytes

    A command of six bytes carries what its six arguments denote, one byte
    each: the value of a marked literal, or the low byte of a decimal one
    (`encodeSixBytes_eq_ok_iff`).  No byte depends on another argument than
    its own (`DenoteBytes.getElem?_eq`). -/

namespace Telecommand.Command

variable {args : List Text} {payload : Payload}

/-! ## Bytes and their arguments -/

/-- That bytes are what arguments denote, each byte what its own argument
    does. -/
def DenoteBytes (args : List Text) (bytes : Bytes) : Prop :=
  List.Forall₂ (fun arg byte => Slot.byte.Denotes arg byte.toNat) args bytes

/-- Six arguments encode to the bytes that they denote. -/
theorem encodeSixBytes_eq_ok_iff (hcount : args.length = 6) :
    encodeSixBytes args = .ok payload ↔ DenoteBytes args payload.bytes := by
  have hread {bytes : Bytes} :
      readEach readByte 1 args = .ok bytes ↔ DenoteBytes args bytes :=
    readEach_eq_ok_iff fun position arg byte => @readByte_eq_ok_iff arg position byte
  rw [encodeSixBytes, bind_eq_ok_iff]
  constructor
  · rintro ⟨bytes, hbytes, h⟩
    have hdenote := hread.mp hbytes
    have hlength : bytes.length = 6 := by
      rw [← hdenote.length_eq, hcount]
    obtain rfl : Payload.ofBytes bytes = payload := Except.ok.inj h
    rwa [Payload.bytes_ofBytes_of_length hlength]
  · intro hdenote
    exact ⟨payload.bytes, hread.mpr hdenote, congrArg Except.ok payload.ofBytes_bytes⟩

/-- The argument at a place denotes the byte at this place. -/
theorem DenoteBytes.getElem? {bytes : Bytes} (h : DenoteBytes args bytes) {place : Nat}
    {arg : Text} (harg : args[place]? = some arg) :
    ∃ byte, bytes[place]? = some byte ∧ Slot.byte.Denotes arg byte.toNat := by
  induction h generalizing place with
  | nil => cases harg
  | @cons _ byte _ _ hbyte _ ih =>
      cases place with
      | zero =>
          obtain rfl := Option.some.inj harg
          exact ⟨byte, rfl, hbyte⟩
      | succ place => exact ih harg

/-- Of two lists of bytes, those at a place are equal if the arguments there
    are. -/
theorem DenoteBytes.getElem?_eq {bytes bytes' : Bytes} {args' : List Text}
    (h : DenoteBytes args bytes) (h' : DenoteBytes args' bytes') {place : Nat}
    (heq : args[place]? = args'[place]?) : bytes[place]? = bytes'[place]? := by
  cases harg : args[place]? with
  | none =>
      have hend : bytes.length ≤ place := by
        rw [← h.length_eq]
        exact List.getElem?_eq_none_iff.mp harg
      have hend' : bytes'.length ≤ place := by
        rw [← h'.length_eq]
        exact List.getElem?_eq_none_iff.mp (heq.symm.trans harg)
      rw [List.getElem?_eq_none_iff.mpr hend, List.getElem?_eq_none_iff.mpr hend']
  | some arg =>
      obtain ⟨byte, hbyte, hdenotes⟩ := h.getElem? harg
      obtain ⟨byte', hbyte', hdenotes'⟩ := h'.getElem? (heq.symm.trans harg)
      rw [hbyte, hbyte', UInt8.toNat_inj.mp (hdenotes.unique hdenotes')]

/-! ## Commands of six bytes -/

/-- A command of six bytes encodes to the bytes that its arguments denote. -/
theorem encode_eq_ok_iff_denoteBytes {opcode : Opcode} (hshape : opcode.shape = .sixBytes)
    {raw : Text} :
    opcode.encode raw = .ok payload
      ↔ ∃ args, HasArguments raw args ∧ args.length = 6 ∧ DenoteBytes args payload.bytes := by
  rw [encode_eq_ok_iff, hshape]
  refine exists_congr fun args => and_congr_right fun _ => and_congr_right ?_
  intro hcount
  exact encodeSixBytes_eq_ok_iff hcount

/-- **Six arguments are six bytes, each by itself.**  A command of six bytes
    encodes exactly if it has six arguments, each a marked literal of at most
    eight bits or a decimal literal of any length; it then carries the byte
    that each of them denotes, and the byte at a place is the same wherever
    the argument at this place is. -/
theorem six_arguments_are_six_bytes {opcode : Opcode} (hshape : opcode.shape = .sixBytes)
    (raw : Text) :
    ((∃ payload, opcode.encode raw = .ok payload)
        ↔ ∃ args, HasArguments raw args ∧ args.length = 6 ∧ ∀ arg ∈ args, Slot.byte.Accepts arg)
      ∧ (∀ payload, opcode.encode raw = .ok payload
        ↔ ∃ args, HasArguments raw args ∧ args.length = 6 ∧ DenoteBytes args payload.bytes)
      ∧ ∀ (other : Text) (args args' : List Text) (payload payload' : Payload) (place : Nat),
        HasArguments raw args → HasArguments other args' → opcode.encode raw = .ok payload →
        opcode.encode other = .ok payload' → args[place]? = args'[place]? →
          payload.bytes[place]? = payload'.bytes[place]? := by
  refine ⟨?_, fun payload => encode_eq_ok_iff_denoteBytes hshape, ?_⟩
  · rw [exists_encode_ok_iff, hshape]
    rfl
  · intro other args args' payload payload' place hargs hargs' hencode hencode' heq
    obtain ⟨found, hfound, -, hdenote⟩ := (encode_eq_ok_iff_denoteBytes hshape).mp hencode
    obtain ⟨found', hfound', -, hdenote'⟩ := (encode_eq_ok_iff_denoteBytes hshape).mp hencode'
    rw [hfound.unique hargs] at hdenote
    rw [hfound'.unique hargs'] at hdenote'
    exact hdenote.getElem?_eq hdenote' heq

/-- Leading zeros, a decimal literal beyond a byte and a mixture of both kinds
    of literals, with text around the list. -/
theorem six_arguments_are_six_bytes_of_mixture :
    Opcode.setTime.shape = .sixBytes
      ∧ Opcode.setTime.encode "SET_TIME(x00ff,999,x0,0,00256,x7)#".toList
        = .ok ⟨[255, 231, 0, 0, 0, 7], rfl⟩ := by
  refine ⟨rfl, ((six_arguments_are_six_bytes rfl _).2.1 _).mpr
    ⟨["x00ff", "999", "x0", "0", "00256", "x7"].map String.toList, ?_, rfl, ?_⟩⟩
  · exact ⟨"SET_TIME".toList, ['#'], by decide, by decide, by decide, by decide⟩
  · exact .cons (.marked rfl (by decide)) <| .cons (.decimal rfl) <|
      .cons (.marked rfl (by decide)) <| .cons (.decimal rfl) <| .cons (.decimal rfl) <|
      .cons (.marked rfl (by decide)) .nil

end Telecommand.Command
