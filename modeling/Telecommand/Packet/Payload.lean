import Telecommand.Text.Utf8

/-! # Payloads

    The six bytes that a command carries. -/

namespace Telecommand

/-- The six bytes that a command carries. -/
structure Payload where
  bytes : Bytes
  length_bytes : bytes.length = 6
  deriving DecidableEq, Repr

/-- The payload that starts with the given bytes: zeros follow where there
    are fewer than six, and what goes beyond six is left out. -/
def Payload.ofBytes (bytes : Bytes) : Payload where
  bytes := (bytes.take 6).rightpad 6 0
  length_bytes := by
    rw [List.length_rightpad, List.length_take]
    omega

/-- Up to six bytes stand in front of a payload, and zeros behind. -/
theorem Payload.bytes_ofBytes {front : Bytes} (h : front.length ≤ 6) :
    (Payload.ofBytes front).bytes = front ++ List.replicate (6 - front.length) 0 := by
  show (front.take 6).rightpad 6 0 = _
  rw [List.take_of_length_le h, List.rightpad]

/-- A payload is made of its own bytes; zeros at its end need not be given. -/
theorem Payload.ofBytes_eq {payload : Payload} {front : Bytes}
    (h : payload.bytes = front ++ List.replicate (6 - front.length) 0) :
    Payload.ofBytes front = payload := by
  have hlength := payload.length_bytes
  rw [h, List.length_append, List.length_replicate] at hlength
  obtain ⟨bytes, hbytes⟩ := payload
  have hfront : (Payload.ofBytes front).bytes = bytes := by
    rw [Payload.bytes_ofBytes (by omega)]
    exact h.symm
  rw [Payload.mk.injEq]
  exact hfront

/-- Six bytes make a payload as they are. -/
theorem Payload.bytes_ofBytes_of_length {bytes : Bytes} (h : bytes.length = 6) :
    (Payload.ofBytes bytes).bytes = bytes := by
  rw [Payload.bytes_ofBytes (Nat.le_of_eq h), h, Nat.sub_self, List.replicate_zero,
    List.append_nil]

/-- A payload is made of its six bytes. -/
@[simp] theorem Payload.ofBytes_bytes (payload : Payload) :
    Payload.ofBytes payload.bytes = payload := by
  refine Payload.ofBytes_eq ?_
  rw [payload.length_bytes, Nat.sub_self, List.replicate_zero, List.append_nil]

end Telecommand
