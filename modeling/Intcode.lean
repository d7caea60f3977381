import Intcode.Cell
import Intcode.Command.Arguments
import Intcode.Command.FilePath
import Intcode.Command.FileTree
import Intcode.Command.Invocation
import Intcode.Command.Options
import Intcode.Command.Usage
import Intcode.Fault
import Intcode.Instruction.Assembly
import Intcode.Instruction.Basic
import Intcode.Instruction.Decode
import Intcode.Listing
import Intcode.Machine.Basic
import Intcode.Machine.Run
import Intcode.Machine.Step
import Intcode.Main
import Intcode.Memory
import Intcode.Mode
import Intcode.Opcode
import Intcode.ProgramText
import Intcode.Proofs.Command.Diagnostics
import Intcode.Proofs.Command.InputSource
import Intcode.Proofs.Command.Outcome
import Intcode.Proofs.Command.PauseOnOutput
import Intcode.Proofs.Command.Preparation
import Intcode.Proofs.Command.Prompts
import Intcode.Proofs.Command.Reports
import Intcode.Proofs.Guarded.Basic
import Intcode.Proofs.Guarded.Instruction
import Intcode.Proofs.Guarded.Invocation
import Intcode.Proofs.Guarded.Machine
import Intcode.Proofs.Guarded.Session
import Intcode.Proofs.Instruction.Decoding
import Intcode.Proofs.Instruction.Digits
import Intcode.Proofs.Instruction.Extension
import Intcode.Proofs.Instruction.Fetch
import Intcode.Proofs.Instruction.Text
import Intcode.Proofs.Instruction.Traverse
import Intcode.Proofs.Listing
import Intcode.Proofs.Listing.Tiling
import Intcode.Proofs.Machine.Capacity
import Intcode.Proofs.Machine.Faults
import Intcode.Proofs.Machine.Footprint
import Intcode.Proofs.Machine.InPlace
import Intcode.Proofs.Machine.Invariant
import Intcode.Proofs.Machine.Journal
import Intcode.Proofs.Machine.Operands
import Intcode.Proofs.Machine.Pauses
import Intcode.Proofs.Machine.Plan
import Intcode.Proofs.Machine.Progress
import Intcode.Proofs.Machine.Reload
import Intcode.Proofs.Machine.Requests
import Intcode.Proofs.Machine.Runs
import Intcode.Proofs.Machine.Schedule
import Intcode.Proofs.Machine.Table
import Intcode.Proofs.Machine.Waiting
import Intcode.Proofs.Machine.Want
import Intcode.Proofs.Machine.Window
import Intcode.Proofs.ProgramText.FirstBadCell
import Intcode.Proofs.ProgramText.Grammar
import Intcode.Proofs.Session.Account
import Intcode.Proofs.Session.Closing
import Intcode.Proofs.Session.Course
import Intcode.Proofs.Session.Framing
import Intcode.Proofs.Session.Messages
import Intcode.Proofs.Session.Moves
import Intcode.Proofs.Session.Prompts
import Intcode.Proofs.Session.Written
import Intcode.Proofs.Span
import Intcode.Proofs.Text.Lines
import Intcode.Proofs.Text.Numeral
import Intcode.Proofs.Text.Place
import Intcode.Proofs.Text.Size
import Intcode.Proofs.Text.Split
import Intcode.Proofs.Text.Trim
import Intcode.Queue
import Intcode.Session.Basic
import Intcode.Session.Event
import Intcode.Session.Line
import Intcode.Session.Notice
import Intcode.Session.Transcript
import Intcode.Span
import Intcode.Text.Blank
import Intcode.Text.Column
import Intcode.Text.Decimal
import Intcode.Text.Fragment
import Intcode.Text.Plain
