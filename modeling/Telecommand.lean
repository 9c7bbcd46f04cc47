import Telecommand.Main
import Telecommand.Script.Printer
import Telecommand.Stimulus.Reader
import Telecommand.Proofs.Basic
import Telecommand.Proofs.Text.Lines
import Telecommand.Proofs.Text.Numeral
import Telecommand.Proofs.Text.Slice
import Telecommand.Proofs.Bits
import Telecommand.Proofs.Command.Literal
import Telecommand.Proofs.Command.Arguments
import Telecommand.Proofs.Command.Spelling
import Telecommand.Proofs.Command.Slot
import Telecommand.Proofs.Command.Acceptance
import Telecommand.Proofs.Command.Fields
import Telecommand.Proofs.Command.SixBytes
import Telecommand.Proofs.Command.Words
import Telecommand.Proofs.Command.Refused
import Telecommand.Proofs.Script.Expressible
import Telecommand.Proofs.Packet.Frame
import Telecommand.Proofs.Packet.Stream
import Telecommand.Proofs.Packet.Corruption
import Telecommand.Proofs.Stimulus.Combined
import Telecommand.Proofs.Stimulus.Layouts
import Telecommand.Proofs.Script.Blank
import Telecommand.Proofs.Script.Delay
import Telecommand.Proofs.Script.Account
import Telecommand.Proofs.Script.Isolation
import Telecommand.Proofs.Script.Parts
import Telecommand.Proofs.File.Contents
import Telecommand.Proofs.File.Leads
import Telecommand.Proofs.Script.Timing
import Telecommand.Proofs.File.Destination
import Telecommand.Proofs.Path.Parent
import Telecommand.Proofs.Run.Evaluation
import Telecommand.Proofs.Run.FullPath
import Telecommand.Proofs.Run.Ending
import Telecommand.Proofs.Run.Kept
import Telecommand.Proofs.Run.Streams
import Telecommand.Proofs.Run.TwoFiles
import Telecommand.Proofs.Script.Trace
import Telecommand.Proofs.Run.Changes
import Telecommand.Proofs.Command.Respelled
import Telecommand.Proofs.Script.Grammar
import Telecommand.Proofs.Path.Pieces
import Telecommand.Proofs.Stimulus.Sinks
import Telecommand.Proofs.Path.Extension
import Telecommand.Proofs.Run.Derived
import Telecommand.Proofs.Command.Readers
import Telecommand.Proofs.Script.Remainder
