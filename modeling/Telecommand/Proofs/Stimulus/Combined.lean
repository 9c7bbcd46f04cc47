import Telecommand.Proofs.Packet.Frame
import Telecommand.Proofs.Text.Lines
import Telecommand.Proofs.Text.Numeral

/-! # Combined streams

    The combined text of a packet list is an exact code for it
    (`readCombined?_eq_some_iff`): it reads back as the list, and no other
    text does.  Each layer of the reader inverts the same layer of the
    writer: numerals, lines, groups of twelve, frames. -/

namespace Telecommand.Stimulus

open Text

/-! ## Items -/

/-- A byte is read from its two digits only. -/
theorem readByte?_eq_some_iff (digits : Text) (byte : UInt8) :
    readByte? digits = some byte ↔ hexPair byte = digits := by
  constructor
  · intro h
    simp only [readByte?, Option.ite_none_right_eq_some, Option.some.injEq] at h
    obtain ⟨hpair, rfl⟩ := h
    exact hpair
  · rintro rfl
    simp only [readByte?, hexValue_hexPair, UInt8.ofNat_toNat, if_true]

theorem readDelay?_eq_some_iff (digits : Text) (delay : UInt64) :
    readDelay? digits = some delay ↔ decimal delay.toNat = digits := by
  constructor
  · intro h
    simp only [readDelay?, Option.ite_none_right_eq_some, Option.some.injEq] at h
    obtain ⟨hnumeral, rfl⟩ := h
    exact hnumeral
  · rintro rfl
    simp only [readDelay?, decimalValue_decimal, UInt64.ofNat_toNat, if_true]

theorem space_notMem_decimal (n : Nat) : ' ' ∉ decimal n := by
  intro h
  exact absurd (isHexDigit_of_mem_decimal h) (by decide)

/-- A timed byte is read from its delay, a space and its digits only. -/
theorem readTimed?_eq_some_iff (line : Text) (timed : UInt64 × UInt8) :
    readTimed? line = some timed
      ↔ decimal timed.1.toNat ++ ' ' :: hexPair timed.2 = line := by
  obtain ⟨delay, byte⟩ := timed
  constructor
  · intro h
    simp only [readTimed?, Option.bind_eq_bind, Option.pure_def, Option.bind_eq_some_iff,
      Option.some.injEq, Prod.mk.injEq] at h
    obtain ⟨⟨front, back⟩, hcut, delay', hdelay, byte', hbyte, rfl, rfl⟩ := h
    have hfront : decimal delay'.toNat = front := (readDelay?_eq_some_iff _ _).mp hdelay
    have hback : hexPair byte' = back := (readByte?_eq_some_iff _ _).mp hbyte
    rw [eq_of_cut? hcut, hfront, hback]
  · rintro rfl
    have hcut := cut?_append (hexPair byte) (space_notMem_decimal delay.toNat)
    simp only [readTimed?, hcut, (readDelay?_eq_some_iff _ _).mpr rfl,
      (readByte?_eq_some_iff _ _).mpr rfl, Option.bind_eq_bind, Option.bind_some,
      Option.pure_def]

/-! ## Groups of twelve -/

/-- Timed bytes are a packet if they are its schedule: its frame, with its
    delay before the first byte and none before the others. -/
theorem readPacket?_eq_some_iff (timed : List (UInt64 × UInt8)) (packet : TimedPacket) :
    readPacket? timed = some packet ↔ packet.schedule = timed := by
  constructor
  · intro h
    cases timed with
    | nil => exact absurd h (by simp [readPacket?])
    | cons first rest =>
        simp only [readPacket?, Option.bind_eq_bind, Option.bind_eq_some_iff, Option.pure_def,
          Option.some.injEq] at h
        obtain ⟨_, hguard, sent, hsent, rfl⟩ := h
        have hzero : ∀ later ∈ rest, later.1 = 0 := by
          have hall := (Option.guard_eq_some' _).mp hguard
          simpa only [List.all_eq_true, decide_eq_true_eq] using hall
        -- the frame fixes the bytes and that there are twelve, the guard the delays
        have hbytes : sent.toBytes = (first :: rest).map Prod.snd :=
          Packet.ofBytes?_eq_some_iff.mp hsent
        have hlength : rest.length = Packet.frameLength - 1 := by
          have htwelve := sent.length_toBytes
          rw [hbytes, List.length_map, List.length_cons] at htwelve
          omega
        have hdelays : (first :: rest).map Prod.fst
            = first.1 :: List.replicate (Packet.frameLength - 1) 0 := by
          rw [List.map_cons, ← hlength]
          refine congrArg (first.1 :: ·) (List.eq_replicate_iff.mpr ⟨List.length_map _, ?_⟩)
          intro delay hdelay
          obtain ⟨later, hlater, rfl⟩ := List.mem_map.mp hdelay
          exact hzero later hlater
        rw [TimedPacket.schedule]
        show (first.1 :: List.replicate (Packet.frameLength - 1) 0).zip sent.toBytes = _
        rw [← hdelays, hbytes, ← List.unzip_fst, ← List.unzip_snd, List.zip_unzip]
  · rintro rfl
    obtain ⟨delay, sent⟩ := packet
    have hsnd := TimedPacket.map_snd_schedule ⟨delay, sent⟩
    have hfst := TimedPacket.map_fst_schedule ⟨delay, sent⟩
    cases hschedule : TimedPacket.schedule ⟨delay, sent⟩ with
    | nil =>
        rw [hschedule] at hfst
        exact absurd hfst.symm (List.cons_ne_nil _ _)
    | cons first rest =>
        rw [hschedule] at hsnd hfst
        rw [List.map_cons, List.cons.injEq] at hfst
        have hzero : rest.all (fun later => later.1 = 0) = true := by
          simp only [List.all_eq_true, decide_eq_true_eq]
          intro later hlater
          have hmem := List.mem_map_of_mem (f := Prod.fst) hlater
          rw [hfst.2] at hmem
          exact List.eq_of_mem_replicate hmem
        have hread : Packet.ofBytes? ((first :: rest).map Prod.snd) = some sent :=
          Packet.ofBytes?_eq_some_iff.mpr hsnd.symm
        have hguard : (guard (rest.all fun later => later.1 = 0) : Option Unit) = some () :=
          if_pos hzero
        simp only [readPacket?, hread, hguard, Option.bind_eq_bind, Option.bind_some,
          Option.pure_def, hfst.1]

/-- Only packets make timed bytes. -/
theorem flatMap_schedule_eq_nil_iff {packets : List TimedPacket} :
    packets.flatMap TimedPacket.schedule = [] ↔ packets = [] := by
  constructor
  · intro h
    cases packets with
    | nil => rfl
    | cons packet rest =>
        have hschedule : packet.schedule = [] := by
          rw [List.flatMap_cons] at h
          exact (List.append_eq_nil_iff.mp h).1
        have hlength := packet.length_schedule
        rw [hschedule] at hlength
        exact absurd hlength (by decide)
  · rintro rfl
    rfl

theorem readPackets?_nil_eq_some_iff (bound : Nat) {packets : List TimedPacket} :
    readPackets? bound [] = some packets ↔ packets.flatMap TimedPacket.schedule = [] := by
  rw [flatMap_schedule_eq_nil_iff, readPackets?, Option.some.injEq, eq_comm]

/-- Twelve timed bytes at a time are the schedules of packets.  The bound
    never cuts the reading short. -/
theorem readPackets?_eq_some_iff {bound : Nat} {timed : List (UInt64 × UInt8)}
    {packets : List TimedPacket} (hbound : timed.length ≤ bound) :
    readPackets? bound timed = some packets
      ↔ packets.flatMap TimedPacket.schedule = timed := by
  induction bound generalizing timed packets with
  | zero =>
      rw [List.length_eq_zero_iff.mp (Nat.le_zero.mp hbound)]
      exact readPackets?_nil_eq_some_iff 0
  | succ bound ih =>
      cases timed with
      | nil => exact readPackets?_nil_eq_some_iff (bound + 1)
      | cons first others =>
          -- without its first twelve the list is shorter, so the bound still holds
          have hdrop : ((first :: others).drop Packet.frameLength).length ≤ bound := by
            rw [List.length_drop]
            rw [List.length_cons] at hbound ⊢
            simp only [Packet.frameLength]
            omega
          simp only [readPackets?, Option.bind_eq_bind, Option.bind_eq_some_iff, Option.pure_def,
            Option.some.injEq]
          constructor
          · rintro ⟨packet, hpacket, rest, hrest, rfl⟩
            rw [List.flatMap_cons, (readPacket?_eq_some_iff _ _).mp hpacket,
              (ih hdrop).mp hrest, List.take_append_drop]
          · intro h
            cases packets with
            | nil => exact absurd h.symm (List.cons_ne_nil _ _)
            | cons packet rest =>
                rw [List.flatMap_cons] at h
                have hlength := packet.length_schedule
                refine ⟨packet, ?_, rest, ?_, rfl⟩
                · rw [readPacket?_eq_some_iff, ← h, ← hlength, List.take_left]
                · rw [ih hdrop, ← h, ← hlength, List.drop_left]

/-! ## The whole text -/

/-- A timed line holds one line feed, its end. -/
theorem lineFeed_notMem_timed (timed : UInt64 × UInt8) :
    '\n' ∉ decimal timed.1.toNat ++ ' ' :: hexPair timed.2 := by
  intro h
  rw [List.mem_append, List.mem_cons] at h
  rcases h with h | h | h
  · exact absurd (isHexDigit_of_mem_decimal h) (by decide)
  · exact absurd h (by decide)
  · exact absurd (isHexDigit_of_mem_hexPair h) (by decide)

theorem bytes_render_combined (packets : List TimedPacket) :
    (render .combined packets).bytes
      = (packets.flatMap TimedPacket.schedule).flatMap fun timed =>
          (decimal timed.1.toNat ++ ' ' :: hexPair timed.2) ++ ['\n'] := by
  show (packets.flatMap TimedPacket.schedule).flatMap (fun timed => timedLine timed.1 timed.2) = _
  congr 1
  funext timed
  simp [timedLine, byteLine]

/-- **The combined text is an exact code.**  The texts that read as a packet
    list are the text written for it and no others; so different lists are
    never written alike. -/
theorem readCombined?_eq_some_iff :
    (∀ (text : Text) (packets : List TimedPacket),
        readCombined? text = some packets ↔ (render .combined packets).bytes = text)
      ∧ Function.Injective fun packets => (render .combined packets).bytes := by
  have hread : ∀ (text : Text) (packets : List TimedPacket),
      readCombined? text = some packets ↔ (render .combined packets).bytes = text := by
    intro text packets
    have hlines (timed : List (UInt64 × UInt8)) : readLines? readTimed? text = some timed
        ↔ (timed.flatMap fun timed =>
            (decimal timed.1.toNat ++ ' ' :: hexPair timed.2) ++ ['\n']) = text :=
      readLines?_eq_some_iff readTimed?_eq_some_iff lineFeed_notMem_timed
    rw [bytes_render_combined]
    simp only [readCombined?, Option.bind_eq_bind, Option.bind_eq_some_iff]
    constructor
    · rintro ⟨timed, htimed, hpackets⟩
      rw [(readPackets?_eq_some_iff (Nat.le_refl _)).mp hpackets]
      exact (hlines timed).mp htimed
    · intro htext
      exact ⟨_, (hlines _).mpr htext, (readPackets?_eq_some_iff (Nat.le_refl _)).mpr rfl⟩
  refine ⟨hread, ?_⟩
  intro first second heq
  have hfirst := (hread _ first).mpr rfl
  have hsecond := (hread _ second).mpr heq.symm
  exact Option.some.inj (hfirst.symm.trans hsecond)

end Telecommand.Stimulus
