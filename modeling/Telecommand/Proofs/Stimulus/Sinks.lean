import Telecommand.Stimulus.Delivery
import Mathlib.Data.List.Basic

/-! # Sinks that fill up

    A delivery never leaves anything but prefixes: each sink receives the
    longest prefix of its text that fits into its room, the delay sink only
    once the byte sink has taken its text whole, and the delivery succeeds
    exactly if every text has gone where it belongs
    (`delivery_leaves_longest_prefixes`).

    A sink may take a text in pieces of any sizes.  Writing piece by piece
    until nothing is left, or the sink takes no more, comes to the same as
    writing at once (`Sink.writePieces_eq`), since what fits can be taken first
    and the rest from there on (`Sink.write_append`). -/

namespace Telecommand.Stimulus

variable {room : Option Nat} {bytes received : Bytes} {sink : Sink} {sinks : Sinks}

/-! ## What fits -/

/-- That bytes fit into a room; into a room without bound everything does. -/
def Fits (room : Option Nat) (bytes : Bytes) : Prop :=
  ∀ limit ∈ room, bytes.length ≤ limit

/-- That a part of some bytes is the longest prefix of them that fits into a
    room. -/
structure IsLongestFitting (room : Option Nat) (bytes part : Bytes) : Prop where
  /-- The bytes begin with the part. -/
  begins : part <+: bytes
  /-- The part fits. -/
  fits : Fits room part
  /-- No other prefix that fits is longer. -/
  longest : ∀ other, other <+: bytes → Fits room other → other.length ≤ part.length

/-- The room that is left in a sink. -/
def Sink.left (sink : Sink) : Option Nat := sink.room.map (· - sink.received.length)

theorem Sink.left_empty (room : Option Nat) : (Sink.empty room).left = room := by
  cases room with
  | none => rfl
  | some limit => rfl

/-- A sink takes the longest prefix that fits into what is left of its
    room. -/
theorem Sink.isLongestFitting_fitting (sink : Sink) (bytes : Bytes) :
    IsLongestFitting sink.left bytes (sink.fitting bytes) := by
  obtain ⟨room, received⟩ := sink
  cases room with
  | none =>
      refine ⟨List.prefix_rfl, ?_, ?_⟩
      · intro limit hlimit
        cases hlimit
      · intro other hother _
        exact hother.length_le
  | some limit =>
      have hlength : (bytes.take (limit - received.length)).length
          = min (limit - received.length) bytes.length := List.length_take
      refine ⟨List.take_prefix _ _, ?_, ?_⟩
      · rintro left ⟨⟩
        show (bytes.take (limit - received.length)).length ≤ limit - received.length
        omega
      · intro other hother hfits
        have hle : other.length ≤ limit - received.length := hfits _ rfl
        have hle' := hother.length_le
        show other.length ≤ (bytes.take (limit - received.length)).length
        omega

/-- A sink takes all of some bytes exactly if they fit into what is left of its
    room. -/
theorem Sink.length_fitting_lt_iff :
    (sink.fitting bytes).length < bytes.length ↔ ¬ Fits sink.left bytes := by
  have hfitting := sink.isLongestFitting_fitting bytes
  constructor
  · intro hlt hfits
    exact absurd (hfitting.longest bytes List.prefix_rfl hfits) (Nat.not_le.mpr hlt)
  · intro hfits
    refine Nat.lt_of_le_of_ne hfitting.begins.length_le ?_
    intro hlength
    have hall := hfitting.begins.eq_of_length hlength
    exact hfits (hall ▸ hfitting.fits)

/-! ## One text -/

theorem Sink.write_of_fits (h : Fits sink.left bytes) :
    sink.write bytes = (.ok (), { sink with received := sink.received ++ bytes }) := by
  have hnot : ¬ (sink.fitting bytes).length < bytes.length := by
    rw [length_fitting_lt_iff]
    exact not_not_intro h
  have hall : sink.fitting bytes = bytes := by
    have hbegins := (sink.isLongestFitting_fitting bytes).begins
    exact hbegins.eq_of_length (Nat.le_antisymm hbegins.length_le (Nat.not_lt.mp hnot))
  rw [write, if_neg hnot, hall]

theorem Sink.write_of_not_fits (h : ¬ Fits sink.left bytes) :
    sink.write bytes
      = (.error .noRoom, { sink with received := sink.received ++ sink.fitting bytes }) := by
  rw [write, if_pos (length_fitting_lt_iff.mpr h)]

theorem Sink.fst_write_eq_ok_iff : (sink.write bytes).1 = .ok () ↔ Fits sink.left bytes := by
  by_cases h : Fits sink.left bytes
  · simp [write_of_fits h, h]
  · simp [write_of_not_fits h, h]

theorem Sink.fst_write_ne_noDelaySink : (sink.write bytes).1 ≠ .error .noDelaySink := by
  by_cases h : Fits sink.left bytes
  · simp [write_of_fits h]
  · simp [write_of_not_fits h]

theorem Sink.isLongestFitting_received (room : Option Nat) (bytes : Bytes) :
    IsLongestFitting room bytes ((Sink.empty room).write bytes).2.received := by
  have hfitting := (Sink.empty room).isLongestFitting_fitting bytes
  rwa [left_empty] at hfitting

/-! ## Piece by piece -/

/-- What a sink takes in one call, if the call takes at most one byte more than
    `most`. -/
def Sink.piece (most : Nat) (bytes : Bytes) (sink : Sink) : Bytes :=
  (sink.fitting bytes).take (most + 1)

/-- Offers bytes to a sink again and again, until none are left or the sink
    takes none; `most` bounds what the calls take, one by one. -/
def Sink.writePieces (most : Nat → Nat) (call : Nat) (bytes : Bytes) (sink : Sink) :
    Except WriteFault Unit × Sink :=
  if bytes = [] then (.ok (), sink)
  else if sink.piece (most call) bytes = [] then (.error .noRoom, sink)
  else
    writePieces most (call + 1) (bytes.drop (sink.piece (most call) bytes).length)
      { sink with received := sink.received ++ sink.piece (most call) bytes }
termination_by bytes.length
decreasing_by
  rename_i hbytes hpiece
  have hpos := List.length_pos_iff.mpr hpiece
  have hpos' := List.length_pos_iff.mpr hbytes
  rw [List.length_drop]
  omega

/-- What fits can be taken first, and the rest from there on. -/
theorem Sink.write_append {part rest : Bytes} (h : Fits sink.left part) :
    sink.write (part ++ rest)
      = Sink.write rest { sink with received := sink.received ++ part } := by
  obtain ⟨room, received⟩ := sink
  cases room with
  | none => simp [write, fitting]
  | some limit =>
      have hle : part.length ≤ limit - received.length := h _ rfl
      have htake : (part ++ rest).take (limit - received.length)
          = part ++ rest.take (limit - (received ++ part).length) := by
        rw [List.take_append, List.take_of_length_le hle, List.length_append, Nat.sub_sub]
      simp only [write, fitting, htake, List.length_append, Nat.add_lt_add_iff_left,
        List.append_assoc]

theorem Sink.piece_begins (most : Nat) (bytes : Bytes) (sink : Sink) :
    sink.piece most bytes <+: bytes :=
  (List.take_prefix _ _).trans (sink.isLongestFitting_fitting bytes).begins

theorem Sink.fits_piece (most : Nat) (bytes : Bytes) (sink : Sink) :
    Fits sink.left (sink.piece most bytes) := by
  intro limit hlimit
  have hfits := (sink.isLongestFitting_fitting bytes).fits limit hlimit
  exact Nat.le_trans (List.length_take_le' _ _) hfits

/-- Writing piece by piece, whatever the pieces, comes to the same as writing
    at once. -/
theorem Sink.writePieces_eq (most : Nat → Nat) (call : Nat) (bytes : Bytes) (sink : Sink) :
    sink.writePieces most call bytes = sink.write bytes := by
  induction call, bytes, sink using Sink.writePieces.induct most with
  | case1 call sink =>
      have hfits : Fits sink.left [] := fun limit _ => Nat.zero_le limit
      rw [writePieces, if_pos rfl, write_of_fits hfits, List.append_nil]
  | case2 call bytes sink hbytes hpiece =>
      -- The call allows a byte, so there is no room for one.
      have hnone : sink.fitting bytes = [] := by simpa [piece] using hpiece
      have hnot : ¬ Fits sink.left bytes := by
        rw [← length_fitting_lt_iff, hnone]
        exact List.length_pos_iff.mpr hbytes
      rw [writePieces, if_neg hbytes, if_pos hpiece, write_of_not_fits hnot, hnone,
        List.append_nil]
  | case3 call bytes sink hbytes hpiece ih =>
      obtain ⟨rest, hrest⟩ := sink.piece_begins (most call) bytes
      have hdrop : bytes.drop (sink.piece (most call) bytes).length = rest :=
        List.append_cancel_left
          ((List.prefix_iff_eq_append.mp ⟨rest, hrest⟩).trans hrest.symm)
      rw [writePieces, if_neg hbytes, if_neg hpiece, ih, hdrop,
        ← write_append (sink.fits_piece _ _), hrest]

/-! ## Both texts -/

section Delivery

variable {layout : Layout} {packets : List TimedPacket} {withDelays : Bool} {after : Sinks}
  {rendered : Rendered} {writeBytes : Bytes → ExceptT WriteFault (StateM Sinks) Unit}
  {writeDelays : Option (Bytes → ExceptT WriteFault (StateM Sinks) Unit)}

/-- A delivery ends with the byte text if that is not written. -/
theorem Rendered.run_deliver_of_error {error : WriteFault}
    (h : writeBytes rendered.bytes.toUtf8 sinks = (.error error, after)) :
    (rendered.deliver writeBytes writeDelays).run.run sinks = (.error error, after) := by
  have hrun : (writeBytes rendered.bytes.toUtf8).run.run sinks = (.error error, after) := h
  unfold deliver
  rw [ExceptT.run_bind, StateT.run_bind, hrun]
  rfl

/-- A delivery goes on to the delay text once the byte text is written. -/
theorem Rendered.run_deliver_of_ok
    (h : writeBytes rendered.bytes.toUtf8 sinks = (.ok (), after)) :
    (rendered.deliver writeBytes writeDelays).run.run sinks
      = match rendered.delays, writeDelays with
        | none, _ => (.ok (), after)
        | some _, none => (.error .noDelaySink, after)
        | some delays, some write => write delays.toUtf8 after := by
  have hrun : (writeBytes rendered.bytes.toUtf8).run.run sinks = (.ok (), after) := h
  unfold deliver
  rw [ExceptT.run_bind, StateT.run_bind, hrun]
  cases rendered.delays with
  | none => rfl
  | some delays =>
      cases writeDelays with
      | none => rfl
      | some write => rfl

/-- The sinks after the byte text, which is then not offered again. -/
def Sinks.afterBytes (bytes : Bytes) (sinks : Sinks) : Sinks :=
  { sinks with bytes := (sinks.bytes.write bytes).2 }

theorem Sinks.writeBytes_of_fits (h : Fits sinks.bytes.left bytes) :
    Sinks.writeBytes bytes sinks = (.ok (), sinks.afterBytes bytes) := by
  have hok : (sinks.bytes.write bytes).1 = .ok () := by rw [Sink.write_of_fits h]
  exact Prod.ext hok rfl

theorem Sinks.writeBytes_of_not_fits (h : ¬ Fits sinks.bytes.left bytes) :
    Sinks.writeBytes bytes sinks = (.error .noRoom, sinks.afterBytes bytes) := by
  have herror : (sinks.bytes.write bytes).1 = .error .noRoom := by
    rw [Sink.write_of_not_fits h]
  exact Prod.ext herror rfl

/-- A byte text that does not fit ends the delivery. -/
theorem writeTo_of_not_fits
    (h : ¬ Fits sinks.bytes.left (render layout packets).bytes.toUtf8) :
    writeTo layout packets withDelays sinks
      = (.error .noRoom, sinks.afterBytes (render layout packets).bytes.toUtf8) :=
  Rendered.run_deliver_of_error (Sinks.writeBytes_of_not_fits h)

/-- The combined layout is delivered with its byte text. -/
theorem writeTo_combined
    (h : Fits sinks.bytes.left (render .combined packets).bytes.toUtf8) :
    writeTo .combined packets withDelays sinks
      = (.ok (), sinks.afterBytes (render .combined packets).bytes.toUtf8) :=
  Rendered.run_deliver_of_ok (Sinks.writeBytes_of_fits h)

/-- Without a delay sink the split layout is delivered no further than its byte
    text. -/
theorem writeTo_split_false
    (h : Fits sinks.bytes.left (render .split packets).bytes.toUtf8) :
    writeTo .split packets false sinks
      = (.error .noDelaySink, sinks.afterBytes (render .split packets).bytes.toUtf8) :=
  Rendered.run_deliver_of_ok (Sinks.writeBytes_of_fits h)

/-- With a delay sink the delay text of the split layout decides. -/
theorem writeTo_split_true {delays : Text}
    (h : Fits sinks.bytes.left (render .split packets).bytes.toUtf8)
    (hdelays : (render .split packets).delays = some delays) :
    writeTo .split packets true sinks
      = Sinks.writeDelays delays.toUtf8
          (sinks.afterBytes (render .split packets).bytes.toUtf8) := by
  cases hdelays
  exact Rendered.run_deliver_of_ok (Sinks.writeBytes_of_fits h)

/-! ## Both texts piece by piece -/

/-- Writes a text piece by piece to the byte sink. -/
def Sinks.writeBytesPieces (most : Nat → Nat) (bytes : Bytes) :
    ExceptT WriteFault (StateM Sinks) Unit :=
  fun sinks =>
    let (result, sink) := sinks.bytes.writePieces most 0 bytes
    (result, { sinks with bytes := sink })

/-- Writes a text piece by piece to the delay sink. -/
def Sinks.writeDelaysPieces (most : Nat → Nat) (bytes : Bytes) :
    ExceptT WriteFault (StateM Sinks) Unit :=
  fun sinks =>
    let (result, sink) := sinks.delays.writePieces most 0 bytes
    (result, { sinks with delays := sink })

/-- Delivers to sinks that take their texts in pieces. -/
def writeToPieces (mostBytes mostDelays : Nat → Nat) (layout : Layout)
    (packets : List TimedPacket) (withDelays : Bool) (sinks : Sinks) :
    Except WriteFault Unit × Sinks :=
  ((render layout packets).deliver (Sinks.writeBytesPieces mostBytes)
    (if withDelays then some (Sinks.writeDelaysPieces mostDelays) else none)).run sinks

/-- The pieces in which sinks take their texts make no difference. -/
theorem writeToPieces_eq (mostBytes mostDelays : Nat → Nat) :
    writeToPieces mostBytes mostDelays layout packets withDelays sinks
      = writeTo layout packets withDelays sinks := by
  have hbytes : Sinks.writeBytesPieces mostBytes = Sinks.writeBytes := by
    funext bytes sinks
    rw [Sinks.writeBytesPieces, Sinks.writeBytes, Sink.writePieces_eq]
  have hdelays : Sinks.writeDelaysPieces mostDelays = Sinks.writeDelays := by
    funext bytes sinks
    rw [Sinks.writeDelaysPieces, Sinks.writeDelays, Sink.writePieces_eq]
  rw [writeToPieces, writeTo, hbytes, hdelays]

end Delivery

/-! ## What a delivery leaves -/

/-- Two sinks that have taken nothing. -/
def Sinks.empty (bytesRoom delaysRoom : Option Nat) : Sinks :=
  ⟨.empty bytesRoom, .empty delaysRoom⟩

/-- What a delivery to two empty sinks comes to. -/
structure LeavesPrefixes (layout : Layout) (packets : List TimedPacket) (withDelays : Bool)
    (bytesRoom delaysRoom : Option Nat) (result : Except WriteFault Unit) (after : Sinks) :
    Prop where
  /-- The byte sink has the longest prefix of the byte text that fits. -/
  bytes_received :
    IsLongestFitting bytesRoom (render layout packets).bytes.toUtf8 after.bytes.received
  /-- Once it has all of the byte text, the delay sink of the split layout has
      the longest prefix of the delay text that fits. -/
  delays_received : layout = .split → withDelays = true →
    Fits bytesRoom (render layout packets).bytes.toUtf8 →
      ∃ delays ∈ (render layout packets).delays,
        IsLongestFitting delaysRoom delays.toUtf8 after.delays.received
  /-- In every other case the delay sink has nothing. -/
  delays_empty : ¬ (layout = .split ∧ withDelays = true
      ∧ Fits bytesRoom (render layout packets).bytes.toUtf8) →
    after.delays.received = []
  /-- Success means that all texts have gone where they belong. -/
  result_eq_ok_iff : result = .ok () ↔
    Fits bytesRoom (render layout packets).bytes.toUtf8
      ∧ (layout = .split → withDelays = true
        ∧ ∃ delays ∈ (render layout packets).delays, Fits delaysRoom delays.toUtf8)
  /-- The missing delay sink is reported only after the byte text. -/
  result_eq_noDelaySink_iff : result = .error .noDelaySink ↔
    Fits bytesRoom (render layout packets).bytes.toUtf8
      ∧ layout = .split ∧ withDelays = false

section Leaves

variable {layout : Layout} {packets : List TimedPacket} {withDelays : Bool}
  {bytesRoom delaysRoom : Option Nat}

theorem leavesPrefixes_of_not_fits
    (h : ¬ Fits bytesRoom (render layout packets).bytes.toUtf8) :
    LeavesPrefixes layout packets withDelays bytesRoom delaysRoom (.error .noRoom)
      ((Sinks.empty bytesRoom delaysRoom).afterBytes (render layout packets).bytes.toUtf8) where
  bytes_received := Sink.isLongestFitting_received _ _
  delays_received _ _ hfits := absurd hfits h
  delays_empty _ := rfl
  result_eq_ok_iff := by simp [h]
  result_eq_noDelaySink_iff := by simp [h]

theorem leavesPrefixes_combined
    (h : Fits bytesRoom (render .combined packets).bytes.toUtf8) :
    LeavesPrefixes .combined packets withDelays bytesRoom delaysRoom (.ok ())
      ((Sinks.empty bytesRoom delaysRoom).afterBytes (render .combined packets).bytes.toUtf8) where
  bytes_received := Sink.isLongestFitting_received _ _
  delays_received := by simp
  delays_empty _ := rfl
  result_eq_ok_iff := by simp [h]
  result_eq_noDelaySink_iff := by simp

theorem leavesPrefixes_split_false
    (h : Fits bytesRoom (render .split packets).bytes.toUtf8) :
    LeavesPrefixes .split packets false bytesRoom delaysRoom (.error .noDelaySink)
      ((Sinks.empty bytesRoom delaysRoom).afterBytes (render .split packets).bytes.toUtf8) where
  bytes_received := Sink.isLongestFitting_received _ _
  delays_received := by simp
  delays_empty _ := rfl
  result_eq_ok_iff := by simp
  result_eq_noDelaySink_iff := by simp [h]

theorem leavesPrefixes_split_true {delays : Text}
    (h : Fits bytesRoom (render .split packets).bytes.toUtf8)
    (hdelays : (render .split packets).delays = some delays) :
    LeavesPrefixes .split packets true bytesRoom delaysRoom
      ((Sink.empty delaysRoom).write delays.toUtf8).1
      ⟨((Sink.empty bytesRoom).write (render .split packets).bytes.toUtf8).2,
        ((Sink.empty delaysRoom).write delays.toUtf8).2⟩ where
  bytes_received := Sink.isLongestFitting_received _ _
  delays_received _ _ _ := ⟨delays, hdelays, Sink.isLongestFitting_received _ _⟩
  delays_empty hnot := absurd ⟨rfl, rfl, h⟩ hnot
  result_eq_ok_iff := by
    rw [Sink.fst_write_eq_ok_iff, Sink.left_empty]
    simp [h, hdelays]
  result_eq_noDelaySink_iff := by simp [Sink.fst_write_ne_noDelaySink]

/-- **A delivery leaves longest prefixes.**  Whatever room the two sinks have,
    and in whatever pieces they take their texts, each is left with a prefix of
    its own text and success hides no truncation. -/
theorem delivery_leaves_longest_prefixes (layout : Layout) (packets : List TimedPacket)
    (withDelays : Bool) (bytesRoom delaysRoom : Option Nat) :
    let sinks := Sinks.empty bytesRoom delaysRoom
    let delivered := writeTo layout packets withDelays sinks
    LeavesPrefixes layout packets withDelays bytesRoom delaysRoom delivered.1 delivered.2
      ∧ ∀ mostBytes mostDelays,
          writeToPieces mostBytes mostDelays layout packets withDelays sinks = delivered := by
  intro sinks delivered
  refine ⟨?_, fun mostBytes mostDelays => writeToPieces_eq mostBytes mostDelays⟩
  have hleft : sinks.bytes.left = bytesRoom := Sink.left_empty bytesRoom
  by_cases hfits : Fits bytesRoom (render layout packets).bytes.toUtf8
  case neg =>
    have hdelivered : delivered = _ := writeTo_of_not_fits (by rwa [hleft])
    rw [hdelivered]
    exact leavesPrefixes_of_not_fits hfits
  case pos =>
    have hroom : Fits sinks.bytes.left (render layout packets).bytes.toUtf8 := by rwa [hleft]
    cases layout with
    | combined =>
        have hdelivered : delivered = _ := writeTo_combined hroom
        rw [hdelivered]
        exact leavesPrefixes_combined hfits
    | split =>
        cases withDelays with
        | false =>
            have hdelivered : delivered = _ := writeTo_split_false hroom
            rw [hdelivered]
            exact leavesPrefixes_split_false hfits
        | true =>
            have hdelivered : delivered = _ := writeTo_split_true hroom rfl
            rw [hdelivered]
            exact leavesPrefixes_split_true hfits rfl

-- No packets go into sinks without any room.
example : writeTo .split [] true (.empty (some 0) (some 0))
    = (.ok (), .empty (some 0) (some 0)) := rfl

end Leaves

end Telecommand.Stimulus
