import Telecommand.Command.Shape
import Telecommand.Text.Basic

/-! # Opcodes

    The thirteen commands that the instrument understands, each with its
    name in scripts, its byte on the wire and the shape of its arguments.
    Names and bytes each tell the opcodes apart. -/

namespace Telecommand.Command

/-- The commands of the instrument. -/
inductive Opcode
  | startAcquisition
  | resetAcquisition
  | powerOff
  | housekeepingRequest
  | scienceRequest
  | getStatus
  | setTime
  | changeParameter
  | readParameter
  | loadConfiguration
  | saveConfiguration
  | flashErase
  | flashDump
  deriving DecidableEq, Repr

namespace Opcode

/-- Every opcode, in the order of the command table. -/
def all : List Opcode :=
  [startAcquisition, resetAcquisition, powerOff, housekeepingRequest,
   scienceRequest, getStatus, setTime, changeParameter, readParameter,
   loadConfiguration, saveConfiguration, flashErase, flashDump]

/-- The byte of an opcode on the wire. -/
def byte : Opcode → UInt8
  | startAcquisition => 0xAC
  | resetAcquisition => 0xB0
  | powerOff => 0x18
  | housekeepingRequest => 0xC1
  | scienceRequest => 0xD6
  | getStatus => 0x57
  | setTime => 0xA7
  | changeParameter => 0xB4
  | readParameter => 0xD1
  | loadConfiguration => 0x1C
  | saveConfiguration => 0x5C
  | flashErase => 0xC3
  | flashDump => 0x64

/-- The name of an opcode in the command table. -/
def name : Opcode → Text
  | startAcquisition => "START_SC_ACQ"
  | resetAcquisition => "RESET_SC_ACQ"
  | powerOff => "POWER_OFF"
  | housekeepingRequest => "HK_REQUEST"
  | scienceRequest => "SC_REQUEST"
  | getStatus => "GET_STATUS"
  | setTime => "SET_TIME"
  | changeParameter => "CHANGE_PARAM"
  | readParameter => "READ_PARAM"
  | loadConfiguration => "LOAD_CONFIG"
  | saveConfiguration => "SAVE_CONFIG"
  | flashErase => "FLASH_ERASE"
  | flashDump => "FLASH_DUMP"

/-- How the arguments of an opcode fill its payload. -/
def shape : Opcode → Shape
  | changeParameter => .wordPair
  | readParameter => .wordPair
  | flashErase => .bitFields [4, 12, 4, 12] 16
  | flashDump => .bitFields [8, 24, 16] 0
  | _ => .sixBytes

/-- The mark that a script may put in front of a command's name. -/
def sendMark : Text := "Send_"

/-- The keyword of an opcode in scripts: its name with the mark in front. -/
def keyword (opcode : Opcode) : Text := sendMark ++ opcode.name

/-- The opcode with a byte, if there is one. -/
def ofByte? (byte : UInt8) : Option Opcode :=
  all.find? fun opcode => opcode.byte = byte

/-- The opcode with a name, if there is one. -/
def ofName? (name : Text) : Option Opcode :=
  all.find? fun opcode => opcode.name = name

/-- The opcode that a keyword asks for: a name exactly, with the mark in
    front at most once. -/
def ofKeyword? (keyword : Text) : Option Opcode :=
  ofName? ((sendMark.isPrefixOf? keyword).getD keyword)

/-- An opcode is found by its byte. -/
@[simp] theorem ofByte?_byte (opcode : Opcode) :
    ofByte? opcode.byte = some opcode := by
  cases opcode <;> decide

/-- An opcode is found by its name. -/
@[simp] theorem ofName?_name (opcode : Opcode) :
    ofName? opcode.name = some opcode := by
  cases opcode <;> decide

/-- A byte finds only the opcode that has it. -/
theorem ofByte?_eq_some_iff {byte : UInt8} {opcode : Opcode} :
    ofByte? byte = some opcode ↔ opcode.byte = byte := by
  constructor
  · intro h
    simpa using List.find?_some h
  · rintro rfl
    exact ofByte?_byte opcode

/-- A name finds only the opcode that has it. -/
theorem ofName?_eq_some_iff {name : Text} {opcode : Opcode} :
    ofName? name = some opcode ↔ opcode.name = name := by
  constructor
  · intro h
    simpa using List.find?_some h
  · rintro rfl
    exact ofName?_name opcode

end Opcode

end Telecommand.Command
