import Telecommand.Proofs.Script.Outcome
import Mathlib.Data.List.DropRight

/-! # Delays by looking back

    The delay of a packet can be read off the script: it is the delay of the
    last directive before the line that sends it, where one-shot delays look
    back no further than to the packet before (`packets_eq_lookBack`).  The
    invariant is that the delay that waits in a session is the one that the
    lines so far leave (`foldl_after_eq_lookBack`). -/

namespace Telecommand.Script

/-! ## Looking back -/

/-- The delay that a raw line sets, if it is a directive that is accepted. -/
def delaySet? (raw : Text) : Option UInt64 :=
  match (Line.ofRaw 1 raw).statement with
  | .ok (.wait microseconds) => some microseconds
  | _ => none

/-- The packet that a raw line sends, if it is a command that encodes. -/
def packetSent? (raw : Text) : Option Packet := (outcomeOf raw).packet?

/-- The delay that is set last in some lines, or no delay. -/
def lastDelay (raws : List Text) : UInt64 := (raws.filterMap delaySet?).getLast?.getD 0

/-- The lines behind the last one that sends a packet: all of them if none
    does. -/
def sinceLastPacket (raws : List Text) : List Text :=
  raws.rtakeWhile fun raw => (packetSent? raw).isNone

/-- The delay that a packet gets from the lines before its own. -/
def lookBack : DelayMode → List Text → UInt64
  | .sticky, front => lastDelay front
  | .oneShot, front => lastDelay (sinceLastPacket front)

/-- A directive that is accepted comes to its delay, and no other line comes
    to one. -/
theorem delaySet?_eq_delay? (raw : Text) : delaySet? raw = (outcomeOf raw).delay? := by
  rw [delaySet?]
  cases hstatement : (Line.ofRaw 1 raw).statement with
  | error fault => rw [outcomeOf, Line.outcome, hstatement]; rfl
  | ok statement =>
      cases statement with
      | nothing => rw [outcomeOf, Line.outcome, hstatement]; rfl
      | wait microseconds =>
          rw [outcomeOf, Line.outcome_eq_delay_iff.mpr hstatement]
          rfl
      | send opcode =>
          cases houtcome : outcomeOf raw with
          | delay microseconds =>
              have hwait := Line.outcome_eq_delay_iff.mp houtcome
              rw [hstatement] at hwait
              cases hwait
          | _ => rfl

/-! ## The delay that waits -/

theorem lastDelay_concat (front : List Text) (raw : Text) :
    lastDelay (front ++ [raw]) = (delaySet? raw).getD (lastDelay front) := by
  rw [lastDelay, List.filterMap_append]
  cases hset : delaySet? raw with
  | none => simp [hset, lastDelay]
  | some microseconds => simp [hset]

/-- A line that sends a packet leaves nothing behind it; any other line
    joins what is there. -/
theorem sinceLastPacket_concat (front : List Text) (raw : Text) :
    sinceLastPacket (front ++ [raw])
      = if (packetSent? raw).isNone then sinceLastPacket front ++ [raw] else [] :=
  List.rtakeWhile_concat _ _ _

/-- Looking back from behind one more line is moving the delay on by what
    this line comes to. -/
theorem lookBack_concat (mode : DelayMode) (front : List Text) (raw : Text) :
    lookBack mode (front ++ [raw]) = mode.after (lookBack mode front) (outcomeOf raw) := by
  have hdelay := delaySet?_eq_delay? raw
  cases mode with
  | sticky =>
      rw [lookBack, lookBack, lastDelay_concat, hdelay]
      cases outcomeOf raw <;> rfl
  | oneShot =>
      rw [lookBack, lookBack, sinceLastPacket_concat, packetSent?]
      cases houtcome : outcomeOf raw with
      | packet sent => rfl
      | _ =>
          -- no packet: the line itself is looked back on
          rw [houtcome] at hdelay
          rw [if_pos (by rfl), lastDelay_concat, hdelay]
          rfl

/-- **The invariant.**  The delay that waits after some lines is what
    looking back from behind them finds. -/
theorem foldl_after_eq_lookBack (mode : DelayMode) (raws : List Text) :
    (raws.map outcomeOf).foldl mode.after 0 = lookBack mode raws := by
  induction raws using List.reverseRecOn with
  | nil => cases mode <;> rfl
  | append_singleton front raw ih =>
      rw [List.map_append, List.foldl_append, ih, lookBack_concat]
      rfl

/-! ## Lines that do nothing -/

/-- Whether a line has a part in the packets of a script.  A blank line or a
    comment, which is skipped, has none, and neither has a line with a fault:
    a directive, a keyword or arguments that are not accepted. -/
def isActive (raw : Text) : Bool :=
  match outcomeOf raw with
  | .delay _ | .packet _ => true
  | .skipped | .rejected _ => false

/-- Lines that neither set a delay nor send a packet change no packet. -/
theorem emissions_filter_isActive (mode : DelayMode) (waiting : UInt64) (raws : List Text) :
    emissions mode waiting ((raws.filter isActive).map outcomeOf)
      = emissions mode waiting (raws.map outcomeOf) := by
  induction raws generalizing waiting with
  | nil => rfl
  | cons raw rest ih =>
      rw [List.filter_cons, isActive, List.map_cons, emissions]
      cases houtcome : outcomeOf raw with
      | skipped => exact ih waiting
      | rejected fault => exact ih waiting
      | delay microseconds =>
          rw [if_pos (by rfl), List.map_cons, houtcome, emissions, ih]
      | packet sent =>
          rw [if_pos (by rfl), List.map_cons, houtcome, emissions, ih]

/-! ## The packets of a script -/

/-- The packets that the lines of a script send, in order, each with the
    delay that looking back from its line finds. -/
def packetsByLookBack (mode : DelayMode) (raws : List Text) : List TimedPacket :=
  raws.zipIdx.filterMap fun entry =>
    (packetSent? entry.1).map (TimedPacket.mk (lookBack mode (raws.take entry.2)))

/-- What the items of a list give by those in front of them: one more item
    gives its own behind the others, which have the same in front of them as
    before. -/
theorem filterMap_zipIdx_concat {α β : Type} (give : List α → Nat → α → Option β)
    (front : List α) (item : α) :
    ((front ++ [item]).zipIdx.filterMap fun entry =>
        give ((front ++ [item]).take entry.2) entry.2 entry.1)
      = (front.zipIdx.filterMap fun entry => give (front.take entry.2) entry.2 entry.1)
        ++ (give front front.length item).toList := by
  have hfront : (front.zipIdx.filterMap fun entry =>
        give ((front ++ [item]).take entry.2) entry.2 entry.1)
      = front.zipIdx.filterMap fun entry => give (front.take entry.2) entry.2 entry.1 := by
    refine List.filterMap_congr ?_
    rintro ⟨other, index⟩ hmem
    have hindex : index < front.length := (List.mem_zipIdx' hmem).1
    rw [List.take_append_of_le_length (Nat.le_of_lt hindex)]
  rw [List.zipIdx_append, List.filterMap_append, hfront]
  congr 1
  cases hgiven : give front front.length item <;> simp [hgiven]

/-- One more line sends its packet behind the others, which look back on the
    same lines as before. -/
theorem packetsByLookBack_concat (mode : DelayMode) (front : List Text) (raw : Text) :
    packetsByLookBack mode (front ++ [raw])
      = packetsByLookBack mode front
        ++ ((packetSent? raw).map (TimedPacket.mk (lookBack mode front))).toList :=
  filterMap_zipIdx_concat
    (fun before _ line => (packetSent? line).map (TimedPacket.mk (lookBack mode before))) front raw

/-- **Delays by looking back.**  The packets of a compilation are those that
    its lines send, each with the delay set last before its line, and in the
    one-shot mode set since the packet before.  All other lines, the blank
    ones, the comments and those with a fault, can be left out. -/
theorem packets_eq_lookBack (mode : DelayMode) (raws : List Text) :
    (Compilation.ofLines mode raws).packets = packetsByLookBack mode raws
      ∧ (Compilation.ofLines mode (raws.filter isActive)).packets
          = (Compilation.ofLines mode raws).packets := by
  rw [Compilation.ofLines_eq, Compilation.ofLines_eq]
  refine ⟨?_, emissions_filter_isActive mode 0 raws⟩
  show emissions mode 0 (raws.map outcomeOf) = packetsByLookBack mode raws
  -- from the last line on back: the invariant says which delay waits for it
  induction raws using List.reverseRecOn with
  | nil => rfl
  | append_singleton front raw ih =>
      rw [List.map_append, emissions_append, foldl_after_eq_lookBack, ih,
        packetsByLookBack_concat, List.map_singleton, emissions, emissions, List.append_nil]
      rfl

end Telecommand.Script
